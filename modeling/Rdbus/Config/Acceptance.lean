import Rdbus.Config.Utility
import Mathlib.Tactic.Common

/-!
# What a section is accepted with

Which processors a file can have.  `toJson` writes a part of a configuration
back, and what `from_json` accepts it also accepts from there.
-/

namespace Rdbus.Config

open Foundation

theorem required_eq_ok {α : Type} {key : Option α} {message : Bytes} {value : α} :
    required key message = .ok value ↔ key = some value := by
  cases key <;> simp [required]

theorem passes_iff {condition : Bool} {message : Bytes} {passed : Unit} :
    throwIf condition message = .ok passed ↔ condition = false :=
  throwIf_eq_ok

theorem forM_throwIf_eq_ok {α : Type} {condition : α → Bool} {message : α → Bytes}
    {xs : List α} : (xs.forM fun x => throwIf (condition x) (message x)) = .ok () ↔
      ∀ x ∈ xs, condition x = false := by
  rw [forM_eq_ok]
  exact forall₂_congr fun _ _ => throwIf_eq_ok

/-- The limits are of devices of the file; without devices they are those of an empty section. -/
structure Processors.Valid (names : List Bytes) (processors : Processors) : Prop where
  known : ∀ limits, processors.limits = some limits → ∀ device ∈ limits.devices, device ∈ names
  empty : ∀ limits, processors.limits = some limits → limits.devices = [] → limits = {}

def Processors.Limits.toJson (limits : Processors.Limits) : Processors.LimitsJson where
  storageDurationMinutes := some limits.durationMinutes
  devices := some limits.devices

def Processors.toJson (processors : Processors) : Option ProcessorsJson :=
  processors.limits.map fun limits =>
    { limits := if limits.devices = [] then none else some limits.toJson }

theorem Processors.Limits.fromJson_eq_ok {j : Processors.LimitsJson}
    {limits : Processors.Limits} : Processors.Limits.fromJson j = .ok limits ↔
      j.storageDurationMinutes = some limits.durationMinutes ∧ j.devices = some limits.devices ∧
        limits.devices ≠ [] := by
  simp only [Processors.Limits.fromJson, bind_eq_ok, required_eq_ok, passes_iff,
    List.isEmpty_eq_false_iff]
  constructor
  · rintro ⟨duration, hduration, devices, hdevices, _, hsome, h⟩
    cases h
    exact ⟨hduration, hdevices, hsome⟩
  · rintro ⟨hduration, hdevices, hsome⟩
    exact ⟨_, hduration, _, hdevices, (), hsome, rfl⟩

theorem Processors.fromJson_eq_ok {j : ProcessorsJson} {processors : Processors} :
    Processors.fromJson j = .ok processors ↔ ∃ limits, processors = ⟨some limits⟩ ∧
      ((j.limits = none ∧ limits = {}) ∨
        ∃ given, j.limits = some given ∧ Processors.Limits.fromJson given = .ok limits) := by
  cases hj : j.limits with
  | none => simp [Processors.fromJson, hj, eq_comm]
  | some given =>
      simp only [Processors.fromJson, hj, bind_eq_ok, Except.ok.injEq, reduceCtorEq, false_and,
        false_or, Option.some.injEq, exists_eq_left']
      exact exists_congr fun limits => by rw [and_comm, eq_comm]

theorem validateLimits_eq_ok {kind place : Bytes} {names : List Bytes}
    {limits : Processors.Limits} :
    validateLimits kind place names limits = .ok () ↔
      ∀ device ∈ limits.devices, device ∈ names := by
  rw [validateLimits, forM_throwIf_eq_ok]
  simp

theorem parseProcessors_ok {kind place : Bytes} {names : List Bytes} {processors : Processors}
    {j : Option ProcessorsJson}
    (h : parseProcessors (validateLimits kind place names) j = .ok processors) :
    processors.Valid names := by
  cases j with
  | none =>
      cases h
      constructor <;> rintro limits ⟨⟩
  | some j =>
      obtain ⟨accepted, haccepted, h⟩ := bind_eq_ok.mp h
      obtain ⟨_, hvalid, h⟩ := bind_eq_ok.mp h
      cases h
      obtain ⟨limits, rfl, hlimits⟩ := Processors.fromJson_eq_ok.mp haccepted
      constructor
      case known =>
        rintro _ ⟨⟩
        exact validateLimits_eq_ok.mp hvalid
      case empty =>
        rintro _ ⟨⟩ hnone
        rcases hlimits with ⟨-, rfl⟩ | ⟨given, -, hgiven⟩
        · rfl
        · exact absurd hnone (Processors.Limits.fromJson_eq_ok.mp hgiven).2.2

theorem parseProcessors_toJson {kind place : Bytes} {names : List Bytes}
    {processors : Processors} (h : processors.Valid names) :
    parseProcessors (validateLimits kind place names) processors.toJson = .ok processors := by
  obtain ⟨_ | limits⟩ := processors
  · rfl
  · have hread : Processors.fromJson
        { limits := if limits.devices = [] then none else some limits.toJson } =
          .ok ⟨some limits⟩ := by
      refine Processors.fromJson_eq_ok.mpr ⟨limits, rfl, ?_⟩
      by_cases hnone : limits.devices = []
      · exact .inl ⟨if_pos hnone, h.empty limits rfl hnone⟩
      · exact .inr ⟨_, if_neg hnone, Processors.Limits.fromJson_eq_ok.mpr ⟨rfl, rfl, hnone⟩⟩
    have hvalid : validateLimits kind place names limits = .ok () :=
      validateLimits_eq_ok.mpr (h.known limits rfl)
    change (Processors.fromJson _ >>= _) = _
    rw [hread, ok_bind]
    change (validateLimits kind place names limits >>= _) = _
    rw [hvalid]
    rfl

theorem hasDuplicate_passes {α κ : Type} [LE κ] [LT κ] [DecidableLT κ] [DecidableEq κ]
    [Std.IsLinearOrder κ] [Std.LawfulOrderLT κ] {key : α → κ} {xs : List α} {message : Bytes}
    {passed : Unit} : throwIf (hasDuplicate key xs) message = .ok passed ↔
      xs.Pairwise fun a b => key a ≠ key b := by
  rw [passes_iff, hasDuplicate_eq_false_iff]

end Rdbus.Config
