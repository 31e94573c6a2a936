import Rdbus.Config.Utility
import Rdbus.Data

/-!
# NMEA configuration

A talker is described by its sentences: an id and the fields that follow it.
-/

namespace Rdbus.Config.Nmea

structure Field where
  name : Bytes
  type : DataType
  deriving DecidableEq, Repr

structure Sentence where
  id : Bytes
  fields : List Field
  deriving DecidableEq, Repr

end Nmea

structure NMEA where
  sentences : List Nmea.Sentence
  name : Bytes
  withChecksum : Bool := false
  deriving DecidableEq, Repr

namespace Nmea

open Foundation

structure FieldJson where
  name : Option Bytes := none
  dataType : Option Bytes := none
  deriving DecidableEq, Repr

structure SentenceJson where
  id : Option Bytes := none
  fields : Option (List FieldJson) := none
  deriving DecidableEq, Repr

structure NMEAJson where
  name : Option Bytes := none
  checksum : Option Bool := none
  sentences : Option (List SentenceJson) := none
  dataProcessors : Option ProcessorsJson := none

def typeMap : List (Bytes × DataType) :=
  [(str "FLOAT", .double), (str "UINT", .uint64), (str "INT", .int64),
    (str "STRING", .string)]

def getStandardType (type : Bytes) : Except Throw DataType :=
  match typeMap.lookup type with
  | some standard => .ok standard
  | none => .error (parseException (str "Unknown data type " ++ type ++ str "!"))

def Field.fromJson (j : FieldJson) : Except Throw Field := do
  let name ← required j.name (str "No 'name' field present in 'field' section!")
  let type ← required j.dataType
    (str "No 'data_type' field present in 'field' section!")
  let type ← getStandardType type
  .ok ⟨name, type⟩

def Sentence.fromJson (j : SentenceJson) : Except Throw Sentence := do
  let id ← required j.id (str "No 'id' field present in 'sentence' section!")
  let fields ← required j.fields (str "No 'fields' present in 'sentence' section!")
  let fields ← fields.mapM Field.fromJson
  throwIf fields.isEmpty (str "Empty 'fields' in 'sentence' section!")
  .ok ⟨id, fields⟩

def checkDuplicateSentenceIDs (sentences : List Sentence) : Except Throw Unit :=
  throwIf (hasDuplicate Sentence.id sentences) (str "Duplicate sentence IDs found!")

/-- What `parseNMEA` stores; `limits` is set whenever the section is present. -/
def parseNMEA (j : NMEAJson) : Except Throw (NMEA × Processors) := do
  let name ← required j.name (str "No 'name' field present!")
  let withChecksum ← required j.checksum (str "No 'checksum' field present!")
  let sentences ← required j.sentences (str "No 'sentences' section present!")
  let sentences ← sentences.mapM Sentence.fromJson
  checkDuplicateSentenceIDs sentences
  let processors ← match j.dataProcessors with
    | none => .ok {}
    | some j => do
        let processors ← Processors.fromJson j
        throwIf processors.limits.isSome
          (str "'limits' processor is currently disabled for 'protocol' nmea!")
        .ok processors
  .ok (⟨sentences, name, withChecksum⟩, processors)

theorem Sentence.fromJson_nonempty {j : SentenceJson} {sentence : Sentence}
    (h : Sentence.fromJson j = .ok sentence) : sentence.fields ≠ [] := by
  unfold Sentence.fromJson at h
  obtain ⟨id, -, h⟩ := bind_eq_ok.mp h
  obtain ⟨fieldsJson, -, h⟩ := bind_eq_ok.mp h
  obtain ⟨fields, -, h⟩ := bind_eq_ok.mp h
  obtain ⟨hempty, h⟩ := throwIf_bind_eq_ok.mp h
  cases h
  exact List.isEmpty_eq_false_iff.mp hempty

/-- Accepted sentences have fields, and accepted talkers no `limits` processor. -/
theorem parseNMEA_ok {j : NMEAJson} {nmea : NMEA} {processors : Processors}
    (h : parseNMEA j = .ok (nmea, processors)) :
    (∀ sentence ∈ nmea.sentences, sentence.fields ≠ []) ∧ processors.limits = none := by
  unfold parseNMEA at h
  obtain ⟨name, -, h⟩ := bind_eq_ok.mp h
  obtain ⟨withChecksum, -, h⟩ := bind_eq_ok.mp h
  obtain ⟨sentencesJson, -, h⟩ := bind_eq_ok.mp h
  obtain ⟨sentences, hsentences, h⟩ := bind_eq_ok.mp h
  obtain ⟨-, h⟩ := throwIf_bind_eq_ok.mp h
  have hfields : ∀ sentence ∈ sentences, sentence.fields ≠ [] := by
    intro sentence hmem
    obtain ⟨sentenceJson, -, hjson⟩ := mem_mapM_ok hsentences hmem
    exact Sentence.fromJson_nonempty hjson
  cases hpresent : j.dataProcessors with
  | none =>
      rw [hpresent] at h
      cases h
      exact ⟨hfields, rfl⟩
  | some processorsJson =>
      rw [hpresent] at h
      obtain ⟨given, -, h⟩ := bind_eq_ok.mp h
      obtain ⟨hlimits, h⟩ := throwIf_bind_eq_ok.mp h
      cases h
      exact ⟨hfields, by simpa using hlimits⟩

end Rdbus.Config.Nmea
