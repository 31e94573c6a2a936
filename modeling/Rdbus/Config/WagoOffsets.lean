import Rdbus.Config.Wago

/-!
# Instance ids of Wago modules

A stretch is a module with an offset of its own (or the first one) with the
modules after it that have none.  Resolving the offsets numbers the instances
of a stretch in one go, so the ids of the modules are distinct exactly when the
stretches are apart.  The overlap check compares neighbours by their offsets in
the JSON, where a module without one counts as starting at the default.
-/

namespace Rdbus.Config.Wago

open Foundation

/-- `count` ids from `start` on, in the arithmetic of `unsigned int`. -/
def consecutive (start : UInt32) (count : Nat) : List UInt32 :=
  (List.range count).map fun i => start + UInt32.ofNat i

def Module.ids (module : Module) : List UInt32 :=
  consecutive module.offset module.instances.length

/-- No two modules of the list share an instance id. -/
def DisjointIds (modules : List Module) : Prop :=
  modules.Pairwise fun a b => List.Disjoint a.ids b.ids

structure Stretch where
  start : UInt32
  count : Nat

def Stretch.ids (stretch : Stretch) : List UInt32 :=
  consecutive stretch.start stretch.count

def stretchesFrom : Stretch → List Module → List Stretch
  | stretch, [] => [stretch]
  | stretch, module :: rest =>
      if module.offset = Module.defaultOffset then
        stretchesFrom ⟨stretch.start, stretch.count + module.instances.length⟩ rest
      else stretch :: stretchesFrom ⟨module.offset, module.instances.length⟩ rest

def stretches : List Module → List Stretch
  | [] => []
  | module :: rest => stretchesFrom ⟨module.offset, module.instances.length⟩ rest

/-- The id ranges of the stretches do not meet, nor does one run into itself. -/
structure StretchesApart (stretches : List Stretch) : Prop where
  short : ∀ stretch ∈ stretches, stretch.count ≤ 2 ^ 32
  disjoint : stretches.Pairwise fun a b => List.Disjoint a.ids b.ids

-- the ids are compared as lists, since all of `UInt32` is finite too
instance (stretches : List Stretch) : Decidable (StretchesApart stretches) :=
  decidable_of_iff ((∀ stretch ∈ stretches, stretch.count ≤ 2 ^ 32) ∧
      stretches.Pairwise fun a b => a.ids.all fun id => !b.ids.contains id)
    ⟨fun ⟨hshort, hdisjoint⟩ => ⟨hshort, hdisjoint.imp fun h => by
        simpa [List.Disjoint] using h⟩,
      fun h => ⟨h.short, h.disjoint.imp fun h => by simpa [List.Disjoint] using h⟩⟩

/-! ## Consecutive ids -/

theorem consecutive_add (start : UInt32) (m n : Nat) :
    consecutive start (m + n) =
      consecutive start m ++ consecutive (start + UInt32.ofNat m) n := by
  unfold consecutive
  rw [List.range_add, List.map_append, List.map_map]
  congr 1
  apply List.map_congr_left
  intro i _
  simp [UInt32.ofNat_add, UInt32.add_assoc]

theorem nodup_consecutive_iff {start : UInt32} {count : Nat} :
    (consecutive start count).Nodup ↔ count ≤ 2 ^ 32 := by
  have hinj : ∀ i j : Nat, start + UInt32.ofNat i = start + UInt32.ofNat j ↔
      i % 2 ^ 32 = j % 2 ^ 32 := by
    intro i j
    rw [UInt32.add_right_inj, ← UInt32.toNat_inj]
    simp
  constructor
  · intro hnodup
    by_contra hlong
    have hlast : 2 ^ 32 < (consecutive start count).length := by
      simp only [consecutive, List.length_map, List.length_range]
      omega
    have hsame : (consecutive start count)[0] = (consecutive start count)[2 ^ 32] := by
      simp only [consecutive, List.getElem_map, List.getElem_range]
      exact (hinj 0 (2 ^ 32)).mpr (by decide)
    exact absurd (hnodup.getElem_inj_iff.mp hsame) (by decide)
  · intro hshort
    refine List.Nodup.map_on ?_ List.nodup_range
    intro i hi j hj heq
    have hmod := (hinj i j).mp heq
    rw [List.mem_range] at hi hj
    omega

/-! ## Resolving offsets -/

theorem flatMap_ids_setOffsetFrom {previous : Module} {rest : List Module}
    {stretch : Stretch}
    (h : stretch.start + UInt32.ofNat stretch.count = previous.end) :
    stretch.ids ++ (setOffsetFrom previous rest).flatMap Module.ids =
      (stretchesFrom stretch rest).flatMap Stretch.ids := by
  induction rest generalizing previous stretch with
  | nil => simp [setOffsetFrom, stretchesFrom]
  | cons it rest ih =>
      rw [setOffsetFrom, stretchesFrom]
      by_cases hdefault : it.offset = Module.defaultOffset
      · simp only [hdefault, if_true, List.flatMap_cons]
        rw [← ih, ← List.append_assoc]
        · congr 1
          rw [Stretch.ids, Stretch.ids, consecutive_add, h]
          rfl
        · simp only [Module.end]
          rw [UInt32.ofNat_add, ← UInt32.add_assoc, h]
          rfl
      · simp only [hdefault, if_false, List.flatMap_cons]
        rw [← ih rfl]
        rfl

theorem flatMap_ids_setOffsetValues {modules resolved : List Module}
    (h : setOffsetValues modules = .ok resolved) :
    resolved.flatMap Module.ids = (stretches modules).flatMap Stretch.ids := by
  cases modules with
  | nil => cases h
  | cons first rest =>
      cases h
      rw [List.flatMap_cons, stretches, ← flatMap_ids_setOffsetFrom rfl]
      rfl

/-- Resolving changes nothing but the offsets. -/
theorem map_setOffsetFrom {α : Type} {f : Module → α}
    (hf : ∀ module offset, f { module with offset } = f module) (previous : Module)
    (rest : List Module) : (setOffsetFrom previous rest).map f = rest.map f := by
  induction rest generalizing previous with
  | nil => rfl
  | cons it rest ih =>
      rw [setOffsetFrom, List.map_cons, List.map_cons, ih]
      split
      case isTrue => rw [hf]
      case isFalse => rfl

theorem map_setOffsetValues {α : Type} {f : Module → α}
    (hf : ∀ module offset, f { module with offset } = f module)
    {modules resolved : List Module} (h : setOffsetValues modules = .ok resolved) :
    resolved.map f = modules.map f := by
  cases modules with
  | nil => cases h
  | cons first rest =>
      cases h
      rw [List.map_cons, List.map_cons, map_setOffsetFrom hf]

def ModuleJson.count (j : ModuleJson) : Nat := (j.instances.getD []).length

theorem Module.fromJson_ok {j : ModuleJson} {module : Module}
    (h : Module.fromJson j = .ok module) :
    module.instances.length = j.count ∧ (1 ≤ j.count ∧ j.count ≤ 8) ∧
      match j.offset with
      | some offset => 1 ≤ offset ∧ module.offset.toNat = offset.toNatClampNeg
      | none => module.offset = Module.defaultOffset := by
  unfold Module.fromJson at h
  obtain ⟨name, -, h⟩ := bind_eq_ok.mp h
  obtain ⟨pollTimeMs, -, h⟩ := bind_eq_ok.mp h
  obtain ⟨instancesJson, hpresent, h⟩ := bind_eq_ok.mp h
  obtain ⟨instances, hinstances, h⟩ := bind_eq_ok.mp h
  obtain ⟨hoffset, h⟩ := throwIf_bind_eq_ok.mp h
  obtain ⟨-, h⟩ := throwIf_bind_eq_ok.mp h
  obtain ⟨hcount, h⟩ := throwIf_bind_eq_ok.mp h
  cases h
  have hlength : instances.length = j.count := by
    rw [length_of_mapM_ok hinstances, ModuleJson.count]
    cases hjson : j.instances with
    | none => simp [hjson, required] at hpresent
    | some given =>
        rw [hjson] at hpresent
        cases hpresent
        rfl
  simp only [decide_eq_false_iff_not, Int32.not_lt] at hcount hoffset
  refine ⟨hlength, by omega, ?_⟩
  cases hgiven : j.offset with
  | none =>
      simp [Module.defaultOffset]
      rfl
  | some offset =>
      rw [hgiven, Option.getD_some] at hoffset
      refine ⟨hoffset, ?_⟩
      have hnonneg : (0 : Int32) ≤ offset := Int32.le_trans (by decide) hoffset
      simp only [Option.getD_some]
      rw [Int32.toNat_toUInt32_of_le hnonneg]

theorem stretchesApart_iff_nodup {stretches : List Stretch} :
    StretchesApart stretches ↔ (stretches.flatMap Stretch.ids).Nodup := by
  rw [List.nodup_flatMap]
  constructor
  · intro h
    exact ⟨fun stretch hmem => nodup_consecutive_iff.mpr (h.short stretch hmem),
      h.disjoint⟩
  · rintro ⟨hnodup, hdisjoint⟩
    exact ⟨fun stretch hmem => nodup_consecutive_iff.mp (hnodup stretch hmem),
      hdisjoint⟩

theorem disjointIds_iff_nodup {modules : List Module}
    (h : ∀ module ∈ modules, module.instances.length ≤ 8) :
    DisjointIds modules ↔ (modules.flatMap Module.ids).Nodup := by
  rw [List.nodup_flatMap]
  constructor
  · intro hdisjoint
    refine ⟨fun module hmem => nodup_consecutive_iff.mpr ?_, hdisjoint⟩
    exact (h module hmem).trans (by decide)
  · exact fun hnodup => hnodup.2

/-- What `parseWago` accepted, with the offsets before and after they are resolved. -/
theorem parseWago_ok {j : WagoJson} {modules : List Module} {processors : Processors}
    (h : parseWago j = .ok (modules, processors)) :
    ∃ raw, (j.modules.getD []).mapM Module.fromJson = .ok raw ∧
      raw.Pairwise (fun a b => a.name ≠ b.name) ∧ setOffsetValues raw = .ok modules := by
  unfold parseWago at h
  rcases bind_eq_ok.mp h with ⟨modulesJson, hjson, h⟩
  rcases bind_eq_ok.mp h with ⟨raw, hraw, h⟩
  rcases throwIf_bind_eq_ok.mp h with ⟨hnames, h⟩
  rcases bind_eq_ok.mp h with ⟨_, -, h⟩
  rcases bind_eq_ok.mp h with ⟨_, -, h⟩
  rcases bind_eq_ok.mp h with ⟨resolved, hresolved, h⟩
  rcases bind_eq_ok.mp h with ⟨_, -, h⟩
  cases h
  refine ⟨raw, ?_, hasDuplicate_eq_false_iff.mp hnames, hresolved⟩
  cases hmodules : j.modules with
  | none =>
      rw [hmodules] at hjson
      cases hjson
  | some modulesJson' =>
      rw [hmodules] at hjson
      cases hjson
      exact hraw

/-- Accepted modules have different names and one to eight instances. -/
theorem modules_of_parseWago {j : WagoJson} {modules : List Module} {processors : Processors}
    (h : parseWago j = .ok (modules, processors)) :
    (modules.map Module.name).Nodup ∧ ∀ module ∈ modules,
      1 ≤ module.instances.length ∧ module.instances.length ≤ 8 := by
  rcases parseWago_ok h with ⟨raw, hraw, hnames, hresolved⟩
  constructor
  · rw [map_setOffsetValues (fun _ _ => rfl) hresolved]
    exact List.pairwise_map.mpr hnames
  · intro module hmem
    have hinstances : module.instances ∈ raw.map Module.instances := by
      rw [← map_setOffsetValues (fun _ _ => rfl) hresolved]
      exact List.mem_map_of_mem hmem
    rcases List.mem_map.mp hinstances with ⟨rawModule, hrawMem, heq⟩
    rcases mem_mapM_ok hraw hrawMem with ⟨moduleJson, -, hjson⟩
    rcases Module.fromJson_ok hjson with ⟨hlength, hcount, -⟩
    rw [← heq, hlength]
    exact hcount

/--
The modules of an accepted configuration own distinct ids exactly when the
stretches of the JSON modules are apart.
-/
theorem disjointIds_iff_stretchesApart {j : WagoJson} {modules : List Module}
    {processors : Processors} (h : parseWago j = .ok (modules, processors)) :
    ∃ raw, (j.modules.getD []).mapM Module.fromJson = .ok raw ∧
      (DisjointIds modules ↔ StretchesApart (stretches raw)) := by
  rcases parseWago_ok h with ⟨raw, hraw, -, hresolved⟩
  refine ⟨raw, hraw, ?_⟩
  have hlength : ∀ module ∈ modules, module.instances.length ≤ 8 :=
    fun module hmem => ((modules_of_parseWago h).2 module hmem).2
  rw [disjointIds_iff_nodup hlength, stretchesApart_iff_nodup,
    flatMap_ids_setOffsetValues hresolved]

/-- A module with `count` channels named by their numbers. -/
def channels (name : Bytes) (count : Nat) (offset : Option Int32) : ModuleJson where
  name := some name
  pollTimeMs := some 1000
  instances := some ((List.range count).map fun i =>
    { name := some [UInt8.ofNat i], min := some 0, max := some 100 })
  offset := offset

/-- Ids 1 to 4, 7 and 8. -/
def gap : WagoJson where
  modules := some [channels (str "750-459") 4 none, channels (str "750-455") 2 (some 7)]

theorem disjointIds_gap : ∃ modules processors,
    parseWago gap = .ok (modules, processors) ∧ DisjointIds modules := by
  rcases hparse : parseWago gap with e | ⟨modules, processors⟩
  · have haccepted : (parseWago gap).isOk := by decide +kernel
    rw [hparse] at haccepted
    cases haccepted
  · refine ⟨modules, processors, rfl, ?_⟩
    rcases disjointIds_iff_stretchesApart hparse with ⟨raw, hraw, hiff⟩
    have hapart : ((gap.modules.getD []).mapM Module.fromJson).map (fun raw =>
        decide (StretchesApart (stretches raw))) = .ok true := by
      decide +kernel
    rw [hraw] at hapart
    exact hiff.mpr (of_decide_eq_true (Except.ok.inj hapart))

/-- Ids 1 to 8 and 9 to 16, then an explicit 10. -/
def overlap : WagoJson where
  modules := some [channels (str "750-459") 8 none, channels (str "750-460") 8 none,
    channels (str "750-455") 1 (some 10)]

/-- The second module has no offset in the JSON, so the third is compared with 1 + 8. -/
theorem overlap_accepted : ∃ modules processors,
    parseWago overlap = .ok (modules, processors) ∧
      modules.map Module.offset = [1, 9, 10] ∧ ¬ DisjointIds modules := by
  rcases hparse : parseWago overlap with e | ⟨modules, processors⟩
  · have haccepted : (parseWago overlap).isOk := by decide +kernel
    rw [hparse] at haccepted
    cases haccepted
  · have hids : (parseWago overlap).map (fun config =>
        (config.1.map Module.offset, config.1.map Module.ids)) =
          .ok ([1, 9, 10], [[1, 2, 3, 4, 5, 6, 7, 8],
            [9, 10, 11, 12, 13, 14, 15, 16], [10]]) := by
      decide +kernel
    rw [hparse] at hids
    rcases Prod.mk.inj (Except.ok.inj hids) with ⟨hoffsets, hids⟩
    refine ⟨modules, processors, rfl, hoffsets, ?_⟩
    intro hdisjoint
    have hpairwise : (modules.map Module.ids).Pairwise List.Disjoint :=
      List.pairwise_map.mpr hdisjoint
    simp [hids, List.Disjoint] at hpairwise

end Rdbus.Config.Wago
