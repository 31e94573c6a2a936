import Rdbus.Communication.Wago.Scaling
import Rdbus.Config.WagoResolution
import Rdbus.Out.Documents
import Rdbus.WholeReadings
import Mathlib.Logic.Equiv.Nat

/-!
# From the points of a coupler to the client

The documentation gives every instance of every module the id of a point.  What
a client reads in the documents of the modules are these points exactly when no
offset is ambiguous and the ids stay in `int`.
-/

namespace Rdbus

open Foundation
open Config Config.Wago
open Communication Communication.Wago

/-- The fields by name and value, or the error. -/
def Shown.Content.values : Shown.Content → Except Data.Error (List (Bytes × Shown.Value))
  | .fields list => .ok (list.map fun field => (field.name, field.value))
  | .error what => .error what

/-- The scaled points of a module from `id` on; the first one that fails speaks for all. -/
def pointValues (points : Int → Except Throw Int16) :
    Int → List Instance → Except Throw (List (Bytes × Shown.Value))
  | _, [] => .ok []
  | id, it :: rest => do
      let raw ← points id
      let values ← pointValues points (id + 1) rest
      .ok ((it.name, .integer (reported it raw).toInt) :: values)

/-- The client is shown the points of the module from `offset` on. -/
def ShowsPoints (points : Int → Except Throw Int16) (now : Nat → Timestamp)
    (localtime : Int → Tm) (module : Module) (offset : Nat) : Prop :=
  ∃ data content, request (fun _ => points) now module = .ok data ∧
    JsonValue.reading? (data.toJson localtime) = some ⟨module.name, content, none⟩ ∧
    content.values = (pointValues points offset module.instances).mapError fun e => ⟨.os, e.what⟩

/-! ## One module -/

section

variable {points : Int → Except Throw Int16} {now : Nat → Timestamp}
  {localtime : Int → Tm}

variable (now) in
theorem collect_points (hpoints : Returns fun _ => points) (instances : List Instance) (k : Nat)
    (id : Int) (hcount : id + instances.length < 2 ^ 31) (fields : List Data.Field) :
    (∃ collected, collect (fun _ => points) now k id fields instances = .ok (fields ++ collected) ∧
      pointValues points id instances =
        .ok (collected.map fun field => (field.name, Variant.shown field.value))) ∨
    ∃ e, collect (fun _ => points) now k id fields instances = .error e ∧
      pointValues points id instances = .error e ∧ e ≠ .undefinedBehaviour := by
  induction instances generalizing k id fields with
  | nil => exact .inl ⟨[], by rw [collect, List.append_nil], rfl⟩
  | cons it rest ih =>
      rw [List.length_cons, Nat.cast_add, Nat.cast_one] at hcount
      have hnext : increment id = .ok (id + 1) := if_pos (by omega)
      rw [collect, hnext, ok_bind, pointValues]
      cases hraw : points id with
      | error e => exact .inr ⟨e, rfl, rfl, hpoints k id e hraw⟩
      | ok raw =>
          let field : Data.Field := ⟨it.name, some (.int16 (reported it raw)), now k⟩
          rw [ok_bind, ok_bind]
          obtain ⟨collected, hcollect, hvalues⟩ | ⟨e, hcollect, hvalues, he⟩ :=
            ih (k + 1) (id + 1) (by omega) (fields ++ [field])
          · refine .inl ⟨field :: collected, ?_, by rw [hvalues]; rfl⟩
            rw [← List.singleton_append, ← List.append_assoc]
            exact hcollect
          · exact .inr ⟨e, hcollect, by rw [hvalues]; rfl, he⟩

theorem toInt_offset (module : Module) (h : module.offset.toNat < 2 ^ 31) :
    module.offset.toInt32.toInt = module.offset.toNat := by
  rw [← Int32.toInt_toBitVec, UInt32.toBitVec_toInt32, BitVec.toInt_eq_toNat_of_lt]
  · rfl
  · rw [UInt32.toNat_toBitVec]
    omega

theorem showsPoints_of_fits (hpoints : Returns fun _ => points) {module : Module}
    (hfits : module.offset.toNat + module.instances.length < 2 ^ 31) :
    ShowsPoints points now localtime module module.offset.toNat := by
  have hoffset := toInt_offset module (by omega)
  have hrequest : request (fun _ => points) now module = caught module.name
      (collect (fun _ => points) now 0 module.offset.toNat [] module.instances) := by
    rw [← hoffset]
    rfl
  rw [ShowsPoints, hrequest]
  obtain ⟨collected, hcollect, hvalues⟩ | ⟨e, hcollect, hvalues, he⟩ :=
    collect_points now hpoints module.instances 0 module.offset.toNat (by omega) []
  · refine ⟨{ deviceName := module.name, fields := collected }, _, by rw [hcollect]; rfl,
      reading?_toJson localtime _, ?_⟩
    rw [hvalues]
    simp [Shown.Content.values, Data.Field.shown, Except.mapError]
  · refine ⟨{ deviceName := module.name, error := some ⟨.os, e.what⟩ }, _, ?_,
      reading?_toJson localtime _, ?_⟩
    · rw [hcollect]
      cases e <;> first | exact absurd rfl he | rfl
    · rw [hvalues]
      rfl

/-! ## Which points these are -/

/-- Every point fails, and says which one it is. -/
def marked (id : Int) : Except Throw Int16 :=
  .error (.eip (List.replicate (Equiv.intEquivNat id) 0))

theorem marked_inj {id id' : Int}
    (h : List.replicate (Equiv.intEquivNat id) (0 : UInt8) =
      List.replicate (Equiv.intEquivNat id') 0) : id = id' :=
  Equiv.intEquivNat.injective (List.replicate_left_injective 0 h)

theorem id_of_showsPoints {module : Module} {offset : Nat} (hne : module.instances ≠ [])
    (h : ShowsPoints marked now localtime module offset) :
    module.offset.toInt32.toInt = offset := by
  obtain ⟨it, rest, hinstances⟩ := List.exists_cons_of_ne_nil hne
  obtain ⟨data, content, hrequest, hread, hvalues⟩ := h
  have hcollect : request (fun _ => marked) now module = caught module.name
      (increment module.offset.toInt32.toInt >>= fun _ =>
        marked module.offset.toInt32.toInt >>= fun _ => .ok []) := by
    rw [request, hinstances, collect]
    cases increment module.offset.toInt32.toInt <;> rfl
  rw [hcollect] at hrequest
  unfold increment at hrequest
  split at hrequest
  case isFalse => cases hrequest
  case isTrue =>
    cases hrequest
    rw [reading?_toJson] at hread
    cases hread
    rw [hinstances] at hvalues
    exact marked_inj (congrArg Data.Error.what (Except.error.inj hvalues))

theorem offset_of_showsPoints {module : Module} {offset : Nat} (hne : module.instances ≠ [])
    (h : ∀ points, (Returns fun _ => points) →
      ShowsPoints points now localtime module offset) :
    module.offset.toNat = offset ∧ offset + module.instances.length < 2 ^ 31 := by
  have hid := id_of_showsPoints hne (h marked fun _ _ _ he => by cases he; simp)
  have hcount : Wago.Countable module := by
    by_contra hcount
    obtain ⟨data, content, hrequest, -⟩ := h (fun _ => .ok 0) fun _ _ _ he => by cases he
    rw [request_overflow hcount (fun _ _ => ⟨0, rfl⟩)] at hrequest
    cases hrequest
  rw [Wago.Countable, hid] at hcount
  refine ⟨?_, by omega⟩
  have hword : module.offset.toInt32.toInt = module.offset.toBitVec.toInt := rfl
  rw [hword, BitVec.toInt_eq_toNat_cond, UInt32.toNat_toBitVec] at hid
  have hlt := module.offset.toNat_lt
  split at hid <;> omega

end

/-! ## All of a file -/

theorem modules_of_showsPoints (now : Nat → Timestamp) (localtime : Int → Tm)
    {modules : List Module} {offsets : List Nat}
    (hinstances : ∀ module ∈ modules, module.instances ≠ [])
    (h : List.Forall₂ (fun module offset => ∀ points, (Returns fun _ => points) →
      ShowsPoints points now localtime module offset) modules offsets) :
    modules.map (fun module => module.offset.toNat) = offsets ∧
      ∀ module ∈ modules, module.offset.toNat + module.instances.length < 2 ^ 31 := by
  induction h with
  | nil => simp
  | @cons module offset modules offsets hshown _ ih =>
      rw [List.forall_mem_cons] at hinstances ⊢
      obtain ⟨heq, hfits⟩ := offset_of_showsPoints hinstances.1 hshown
      obtain ⟨hothers, hothersFit⟩ := ih hinstances.2
      rw [List.map_cons, heq, hothers]
      exact ⟨rfl, hfits, hothersFit⟩

theorem documented_first {j : ModuleJson} {module : Module}
    (h : Module.fromJson j = .ok module) : module.offset.toNat = j.documented 1 := by
  obtain ⟨-, -, hoffset⟩ := Module.fromJson_ok h
  unfold ModuleJson.documented
  cases hgiven : j.offset with
  | none =>
      rw [hgiven] at hoffset
      rw [hoffset]
      rfl
  | some offset =>
      rw [hgiven] at hoffset
      exact hoffset.2

theorem setOffsetValues_eq_documented_iff {json : List ModuleJson} {raw modules : List Module}
    (hraw : json.mapM Module.fromJson = .ok raw) (hresolved : setOffsetValues raw = .ok modules) :
    modules.map (fun module => module.offset.toNat) = documentedOffsets json ↔
      Unambiguous json := by
  cases json with
  | nil =>
      cases hraw
      cases hresolved
  | cons first rest =>
      rw [List.mapM_cons] at hraw
      obtain ⟨module, hfirst, hraw⟩ := bind_eq_ok.mp hraw
      obtain ⟨raw, hrest, hraw⟩ := bind_eq_ok.mp hraw
      cases hraw
      cases hresolved
      obtain ⟨hlength, hcount, -⟩ := Module.fromJson_ok hfirst
      have hdocumented := documented_first hfirst
      rw [List.map_cons, documentedOffsets, documentedFrom, List.cons_eq_cons, Unambiguous,
        and_iff_right hdocumented]
      exact setOffsetFrom_eq_documented_iff hrest (by rw [hdocumented, hlength])
        (hdocumented ▸ documented_pos hfirst le_rfl) (hlength ▸ hcount)

/--
From the file to the client: in the document of each module a client reads the
points that the documentation gives it, scaled, under the names of the
instances, or which of them was the first to fail, exactly when no offset is
ambiguous and no id leaves `int`.
-/
theorem shown_points_iff {j : WagoJson} {modules : List Module} {processors : Processors}
    (h : parseWago j = .ok (modules, processors)) (now : Nat → Timestamp)
    (localtime : Int → Tm) :
    (∀ points, (Returns fun _ => points) →
      List.Forall₂ (ShowsPoints points now localtime) modules
        (documentedOffsets (j.modules.getD []))) ↔
      Unambiguous (j.modules.getD []) ∧
        ∀ module ∈ modules, module.offset.toNat + module.instances.length < 2 ^ 31 := by
  obtain ⟨raw, hraw, -, hresolved⟩ := parseWago_ok h
  rw [← setOffsetValues_eq_documented_iff hraw hresolved]
  constructor
  case mp =>
    intro hshown
    refine modules_of_showsPoints now localtime ?_ ?_
    · intro module hmem
      exact List.length_pos_iff.mp ((modules_of_parseWago h).2 module hmem).1
    · exact forall₂_forall ⟨fun _ => .ok 0, fun _ _ _ he => by cases he⟩ hshown
  case mpr =>
    rintro ⟨hoffsets, hfits⟩ points hpoints
    rw [← hoffsets, List.forall₂_map_right_iff, List.forall₂_same]
    exact fun module hmem => showsPoints_of_fits hpoints (hfits module hmem)

/-- The second module of `gap` has an offset of its own. -/
theorem shown_points_iff_gap : ∃ modules processors,
    parseWago gap = .ok (modules, processors) ∧
      ∀ points, (Returns fun _ => points) →
        List.Forall₂ (ShowsPoints points (fun _ => 0) fun _ => newYear)
          modules [1, 7] := by
  have hoffsets : (parseWago gap).map (fun config =>
      config.1.map fun module => module.offset.toNat) = .ok [1, 7] := by
    decide +kernel
  cases hparse : parseWago gap with
  | error e =>
      rw [hparse] at hoffsets
      cases hoffsets
  | ok config =>
      obtain ⟨modules, processors⟩ := config
      rw [hparse] at hoffsets
      replace hoffsets : modules.map (fun module => module.offset.toNat) = [1, 7] :=
        Except.ok.inj hoffsets
      have hunambiguous : Unambiguous (gap.modules.getD []) := by
        simp [gap, Unambiguous, UnambiguousFrom, channels, ModuleJson.documented, ModuleJson.count]
      have hfits : ∀ module ∈ modules,
          module.offset.toNat + module.instances.length < 2 ^ 31 := by
        intro module hmem
        have hoffset : module.offset.toNat ∈ [1, 7] := hoffsets ▸ List.mem_map_of_mem hmem
        have hcount := (modules_of_parseWago hparse).2 module hmem
        simp only [List.mem_cons, List.not_mem_nil, or_false] at hoffset
        omega
      have hdocumented : documentedOffsets (gap.modules.getD []) = [1, 7] := by decide +kernel
      refine ⟨modules, processors, rfl, ?_⟩
      rw [← hdocumented]
      exact (shown_points_iff hparse _ _).mpr ⟨hunambiguous, hfits⟩

end Rdbus
