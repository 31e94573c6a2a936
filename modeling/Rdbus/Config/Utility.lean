import Rdbus.Exception
import Rdbus.Foundation.ListSort
import Rdbus.Foundation.Outcome

/-!
# Configuration helpers

The JSON values behind `from_json` are records of optional keys: a key that is
absent is `none`, and a key whose value has the wrong JSON type never reaches
these functions, because the JSON library throws first.
-/

namespace Rdbus.Config

open Foundation

/-- `tools::parseKeyValue` with a message for the absent key. -/
def required {α : Type} (key : Option α) (message : Bytes) : Except Throw α :=
  match key with
  | some value => .ok value
  | none => .error (parseException message)

/-- Sort by the key, then look for equal neighbours. -/
def hasDuplicate {α κ : Type} [LT κ] [DecidableLT κ] [DecidableEq κ] (key : α → κ)
    (xs : List α) : Bool :=
  hasAdjacent (fun left right => key left = key right) (sortByKey key xs)

namespace Processors

structure Limits where
  durationMinutes : Int := 0
  devices : List Bytes := []
  deriving DecidableEq, Repr

structure LimitsJson where
  storageDurationMinutes : Option Int := none
  devices : Option (List Bytes) := none

def Limits.fromJson (j : LimitsJson) : Except Throw Limits := do
  let durationMinutes ← required j.storageDurationMinutes
    (str "No 'storage_duration_minutes' field present in limits section!")
  let devices ← required j.devices (str "No 'devices' present in limits section!")
  throwIf devices.isEmpty (str "'devices' empty in limits section!")
  .ok ⟨durationMinutes, devices⟩

end Processors

structure ProcessorsJson where
  limits : Option Processors.LimitsJson := none

structure Processors where
  limits : Option Processors.Limits := none
  deriving DecidableEq, Repr

/-- `limits` is set also when the section is absent. -/
def Processors.fromJson (j : ProcessorsJson) : Except Throw Processors := do
  let limits ← match j.limits with
    | some j => Limits.fromJson j
    | none => .ok {}
  .ok ⟨some limits⟩

/--
The `validateLimitsProcessor` functions: every device of the `limits` section
is one of `names`; `kind` and `place` are words of the message.
-/
def validateLimits (kind place : Bytes) (names : List Bytes)
    (limits : Processors.Limits) : Except Throw Unit :=
  limits.devices.forM fun device =>
    throwIf (device ∉ names) (str "No " ++ kind ++ str " named " ++ device ++
      str " found in '" ++ place ++ str "' section!")

/-- The `data_processors` section of a protocol with limits. -/
def parseProcessors (validate : Processors.Limits → Except Throw Unit)
    (j : Option ProcessorsJson) : Except Throw Processors :=
  match j with
  | none => .ok {}
  | some j => do
      let processors ← Processors.fromJson j
      processors.limits.forM validate
      .ok processors

/-! ## What the checks decide -/

theorem hasDuplicate_eq_false_iff {α κ : Type} [LE κ] [LT κ] [DecidableLT κ]
    [DecidableEq κ] [Std.IsLinearOrder κ] [Std.LawfulOrderLT κ] {key : α → κ}
    {xs : List α} :
    hasDuplicate key xs = false ↔ xs.Pairwise fun a b => key a ≠ key b := by
  let before : α → α → Prop := fun a b => key a < key b
  have : Trans before before before := ⟨Std.lt_trans⟩
  have : Std.Symm fun a b : α => key a ≠ key b := ⟨fun _ _ => Ne.symm⟩
  refine hasAdjacent_sortByKey key before ?_ ?_
  · intro a _ b _ hle
    rw [decide_eq_false_iff_not]
    exact ⟨Std.lt_of_le_of_ne hle, Std.ne_of_lt⟩
  · intro a _ b _ hle
    exact ⟨Std.lt_of_le_of_ne hle, Std.ne_of_lt⟩

/-- A `ParseException` leaves the function. -/
def Rejected {α : Type} (result : Except Throw α) : Prop :=
  ∃ what, result = .error (.parse what)

@[simp] theorem not_rejected_ok {α : Type} {a : α} :
    ¬ Rejected (.ok a : Except Throw α) := by
  simp [Rejected]

theorem rejected_throwIf_bind {α : Type} {condition : Bool} {message : Bytes}
    {rest : Unit → Except Throw α} :
    Rejected (throwIf condition message >>= rest) ↔
      condition = true ∨ Rejected (rest ()) := by
  cases condition <;> simp [Rejected, throwIf, parseException]

theorem rejected_forM_bind {α β : Type} {check : α → Except Throw Unit}
    {condition : α → Prop} {xs : List α} {rest : Unit → Except Throw β}
    (h : ∀ x ∈ xs, ∀ rest : Unit → Except Throw β,
      Rejected (check x >>= rest) ↔ condition x ∨ Rejected (rest ())) :
    Rejected (xs.forM check >>= rest) ↔
      (∃ x ∈ xs, condition x) ∨ Rejected (rest ()) := by
  induction xs with
  | nil => simp [pure, Except.pure]
  | cons x xs ih =>
      change Rejected ((check x >>= fun _ => xs.forM check) >>= rest) ↔ _
      rw [bind_assoc, h x (by simp), ih fun y hmem => h y (by simp [hmem])]
      simp [or_assoc]

theorem rejected_parseProcessors_bind {α : Type} {kind place : Bytes}
    {names : List Bytes} {j : Option ProcessorsJson} {processors : Option Processors}
    (h : j.mapM Processors.fromJson = .ok processors)
    {rest : Processors → Except Throw α} (hrest : ∀ processors, ¬ Rejected (rest processors)) :
    Rejected (parseProcessors (validateLimits kind place names) j >>= rest) ↔
      ∃ limits, processors.bind Processors.limits = some limits ∧
        ∃ device ∈ limits.devices, device ∉ names := by
  cases j with
  | none =>
      cases h
      simpa [parseProcessors] using hrest {}
  | some j =>
      simp only [Option.mapM_some, map_eq_pure_bind] at h
      obtain ⟨accepted, haccepted, h⟩ := bind_eq_ok.mp h
      cases h
      rw [parseProcessors, haccepted, ok_bind, bind_assoc]
      cases hlimits : accepted.limits with
      | none => simpa [hlimits, pure, Except.pure] using hrest accepted
      | some limits =>
          change Rejected (limits.devices.forM _ >>= _) ↔ _
          rw [rejected_forM_bind fun device _ _ => rejected_throwIf_bind]
          simp [hlimits, hrest]

end Rdbus.Config
