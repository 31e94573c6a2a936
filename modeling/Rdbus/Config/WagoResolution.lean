import Rdbus.Config.WagoOffsets

/-!
# Resolved offsets of Wago modules

A module with an offset has exactly that one, a module without one follows the
module before it.  The code recognizes a missing offset by the default value,
which a module can also give, and counts in `unsigned int`.
-/

namespace Rdbus.Config.Wago

open Foundation

/-- The documented offset, behind a module that ends at `previousEnd`. -/
def ModuleJson.documented (previousEnd : Nat) (j : ModuleJson) : Nat :=
  match j.offset with
  | some offset => offset.toNatClampNeg
  | none => previousEnd

def documentedFrom : Nat → List ModuleJson → List Nat
  | _, [] => []
  | previousEnd, it :: rest =>
      it.documented previousEnd ::
        documentedFrom (it.documented previousEnd + it.count) rest

def documentedOffsets (modules : List ModuleJson) : List Nat := documentedFrom 1 modules

/--
An explicit 1 is only right where the counter wraps round to it, and no
documented offset is too large for the counter.
-/
def UnambiguousFrom : Nat → List ModuleJson → Prop
  | _, [] => True
  | previousEnd, it :: rest =>
      (it.offset = some 1 → previousEnd = 2 ^ 32 + 1) ∧
        it.documented previousEnd < 2 ^ 32 ∧
        UnambiguousFrom (it.documented previousEnd + it.count) rest

def Unambiguous : List ModuleJson → Prop
  | [] => True
  | first :: rest => UnambiguousFrom (first.documented 1 + first.count) rest

theorem toNat_end {module : Module} (hcount : module.instances.length ≤ 8) :
    module.end.toNat = (module.offset.toNat + module.instances.length) % 2 ^ 32 := by
  have hsmall : (UInt32.ofNat module.instances.length).toNat = module.instances.length :=
    UInt32.toNat_ofNat_of_lt' (by rw [UInt32.size]; omega)
  rw [Module.end, UInt32.toNat_add, hsmall]

theorem documented_pos {j : ModuleJson} {module : Module} {previousEnd : Nat}
    (h : Module.fromJson j = .ok module) (hend : 1 ≤ previousEnd) :
    1 ≤ j.documented previousEnd := by
  obtain ⟨-, -, hoffset⟩ := Module.fromJson_ok h
  unfold ModuleJson.documented
  cases hgiven : j.offset with
  | none => exact hend
  | some offset =>
      rw [hgiven] at hoffset
      have hone := Int32.le_iff_toInt_le.mp hoffset.1
      have : (1 : Int32).toInt = 1 := rfl
      simp only [Int32.toNatClampNeg]
      omega

/-- One iteration of `setOffsetValues`, behind a module with its documented offset. -/
theorem resolved_eq_documented_iff {previous module : Module} {previousEnd : Nat}
    {j : ModuleJson} (hjson : Module.fromJson j = .ok module)
    (hend : previousEnd = previous.offset.toNat + previous.instances.length)
    (hprevious : 1 ≤ previous.offset.toNat)
    (hcount : 1 ≤ previous.instances.length ∧ previous.instances.length ≤ 8) :
    (if module.offset = Module.defaultOffset then previous.end else module.offset).toNat =
        j.documented previousEnd ↔
      (j.offset = some 1 → previousEnd = 2 ^ 32 + 1) ∧ j.documented previousEnd < 2 ^ 32 := by
  obtain ⟨-, -, hoffset⟩ := Module.fromJson_ok hjson
  have hprevEnd := toNat_end hcount.2
  have hbound := previous.offset.toNat_lt
  unfold ModuleJson.documented
  cases hgiven : j.offset with
  | none =>
      rw [hgiven] at hoffset
      simp only [hoffset, if_true, hprevEnd, reduceCtorEq, false_implies, true_and]
      omega
  | some offset =>
      rw [hgiven] at hoffset
      by_cases hone : offset = 1
      · have hdefault : module.offset = Module.defaultOffset :=
          UInt32.toNat_inj.mp (by rw [hoffset.2, hone]; rfl)
        have hvalue : (1 : Int32).toNatClampNeg = 1 := rfl
        simp only [hdefault, if_true, hprevEnd, hone, hvalue, true_implies]
        omega
      · have hdefault : module.offset ≠ Module.defaultOffset := by
          intro heq
          rw [heq] at hoffset
          have htoInt : offset.toInt = 1 := by
            have : (1 : Nat) = offset.toInt.toNat := hoffset.2
            omega
          exact hone (Int32.toInt_inj.mp htoInt)
        have hlt : offset.toNatClampNeg < 2 ^ 32 := hoffset.2 ▸ module.offset.toNat_lt
        simpa [hdefault, hone, hoffset.2] using hlt

theorem setOffsetFrom_eq_documented_iff {previous : Module} {previousEnd : Nat}
    {json : List ModuleJson} {raw : List Module}
    (hraw : json.mapM Module.fromJson = .ok raw)
    (hend : previousEnd = previous.offset.toNat + previous.instances.length)
    (hprevious : 1 ≤ previous.offset.toNat)
    (hcount : 1 ≤ previous.instances.length ∧ previous.instances.length ≤ 8) :
    (setOffsetFrom previous raw).map (fun module => module.offset.toNat) =
        documentedFrom previousEnd json ↔ UnambiguousFrom previousEnd json := by
  induction json generalizing previous previousEnd raw with
  | nil =>
      cases hraw
      simp [setOffsetFrom, documentedFrom, UnambiguousFrom]
  | cons j json ih =>
      rw [List.mapM_cons] at hraw
      obtain ⟨module, hjson, hraw⟩ := bind_eq_ok.mp hraw
      obtain ⟨rest, hrest, hraw⟩ := bind_eq_ok.mp hraw
      cases hraw
      have hstep := resolved_eq_documented_iff hjson hend hprevious hcount
      obtain ⟨hlength, hcount', hoffset⟩ := Module.fromJson_ok hjson
      rw [setOffsetFrom]
      generalize hit : (if module.offset = Module.defaultOffset
        then { module with offset := previous.end } else module) = it
      have hitOffset : (if module.offset = Module.defaultOffset then previous.end
          else module.offset) = it.offset := by
        rw [← hit]
        split <;> rfl
      have hitInstances : it.instances = module.instances := by
        rw [← hit]
        split <;> rfl
      rw [hitOffset] at hstep
      simp only [List.map_cons, documentedFrom, List.cons_eq_cons, UnambiguousFrom]
      rw [← and_assoc, ← hstep]
      refine and_congr_right fun heq => ih hrest ?_ ?_ ?_
      · rw [heq, hitInstances, hlength]
      · rw [heq]
        exact documented_pos hjson (by omega)
      · rw [hitInstances, hlength]
        exact hcount'

/-- The resolved offsets of an accepted list are the documented ones if none is ambiguous. -/
theorem resolved_iff_unambiguous {j : WagoJson} {modules : List Module}
    {processors : Processors} (h : parseWago j = .ok (modules, processors)) :
    modules.map (fun module => module.offset.toNat) =
        documentedOffsets (j.modules.getD []) ↔ Unambiguous (j.modules.getD []) := by
  obtain ⟨raw, hraw, -, hresolved⟩ := parseWago_ok h
  cases hjson : j.modules.getD [] with
  | nil =>
      rw [hjson] at hraw
      cases hraw
      cases hresolved
  | cons first rest =>
      rw [hjson, List.mapM_cons] at hraw
      obtain ⟨module, hfirst, hraw⟩ := bind_eq_ok.mp hraw
      obtain ⟨raw, hrest, hraw⟩ := bind_eq_ok.mp hraw
      cases hraw
      cases hresolved
      obtain ⟨hlength, hcount, hoffset⟩ := Module.fromJson_ok hfirst
      have hdocumented : module.offset.toNat = first.documented 1 := by
        unfold ModuleJson.documented
        cases hgiven : first.offset with
        | none =>
            rw [hgiven] at hoffset
            rw [hoffset]
            rfl
        | some offset =>
            rw [hgiven] at hoffset
            exact hoffset.2
      rw [List.map_cons, documentedOffsets, documentedFrom, List.cons_eq_cons, Unambiguous]
      rw [and_iff_right hdocumented]
      apply setOffsetFrom_eq_documented_iff hrest
      · rw [hdocumented, hlength]
      · rw [hdocumented]
        exact documented_pos hfirst le_rfl
      · rw [hlength]
        exact hcount

theorem resolved_gap : ∃ modules processors, parseWago gap = .ok (modules, processors) ∧
    modules.map (fun module => module.offset.toNat) = [1, 7] := by
  rcases hparse : parseWago gap with e | ⟨modules, processors⟩
  · have haccepted : (parseWago gap).isOk := by decide +kernel
    rw [hparse] at haccepted
    cases haccepted
  · refine ⟨modules, processors, rfl, ?_⟩
    have hunambiguous : Unambiguous (gap.modules.getD []) := by
      simp [gap, Unambiguous, UnambiguousFrom, channels, ModuleJson.documented,
        ModuleJson.count]
    exact (resolved_iff_unambiguous hparse).mpr hunambiguous

def backToOne : WagoJson where
  modules := some [channels (str "750-455") 2 (some 9), channels (str "750-457") 2 (some 1)]

theorem backToOne_replaced : ∃ modules processors,
    parseWago backToOne = .ok (modules, processors) ∧
      modules.map (fun module => module.offset.toNat) = [9, 11] ∧
      documentedOffsets (backToOne.modules.getD []) = [9, 1] := by
  rcases hparse : parseWago backToOne with e | ⟨modules, processors⟩
  · have haccepted : (parseWago backToOne).isOk := by decide +kernel
    rw [hparse] at haccepted
    cases haccepted
  · have hoffsets : (parseWago backToOne).map (fun config =>
        config.1.map fun module => module.offset.toNat) = .ok [9, 11] := by
      decide +kernel
    rw [hparse] at hoffsets
    exact ⟨modules, processors, rfl, Except.ok.inj hoffsets, by decide +kernel⟩

end Rdbus.Config.Wago
