import Rdbus.Config.Acceptance
import Rdbus.Config.WagoOffsets

/-!
# Accepted Wago modules

The modules of a file are known by their resolved offsets.  Written back, a
module that follows the one before it has no offset, and any other has its own.
-/

namespace Rdbus.Config.Wago

open Foundation

def Instance.toJson (it : Instance) : InstanceJson where
  name := some it.name
  min := some it.min
  max := some it.max

def Module.toJson (module : Module) : ModuleJson where
  name := some module.name
  pollTimeMs := some module.pollTimeMs
  instances := some (module.instances.map Instance.toJson)
  offset := some module.offset.toInt32

def Instance.Valid (it : Instance) : Prop := ¬ it.max < it.min

structure ValidInstances (instances : List Instance) : Prop where
  each : ∀ it ∈ instances, it.Valid
  count : instances.length = 1 ∨ instances.length = 2 ∨ instances.length = 4 ∨
    instances.length = 8
  names : instances.Pairwise fun a b => a.name ≠ b.name

/-- An offset that a file can give. -/
def Explicit (offset : UInt32) : Prop := 1 ≤ offset.toNat ∧ offset.toNat < 2 ^ 31

/--
A module is where the one before it ends, or has an offset of its own, which is
compared with what the file gives for the one before it.
-/
def Follows : Module → Nat → List Module → Prop
  | _, _, [] => True
  | previous, given, it :: rest =>
      if it.offset = previous.end then Follows it 1 rest
      else Explicit it.offset ∧ it.offset ≠ Module.defaultOffset ∧
        given + previous.instances.length ≤ it.offset.toNat ∧ Follows it it.offset.toNat rest

def Placed : List Module → Prop
  | [] => False
  | first :: rest => Explicit first.offset ∧ Follows first first.offset.toNat rest

structure Valid (modules : List Module) (processors : Processors) : Prop where
  each : ∀ module ∈ modules, ValidInstances module.instances
  names : modules.Pairwise fun a b => a.name ≠ b.name
  placed : Placed modules
  processors : processors.Valid (modules.map Module.name)

/-- The offsets in the file: none where a module follows the one before it. -/
def unresolvedFrom : Module → List Module → List Module
  | _, [] => []
  | previous, it :: rest =>
      (if it.offset = previous.end then { it with offset := Module.defaultOffset } else it) ::
        unresolvedFrom it rest

def unresolved : List Module → List Module
  | [] => []
  | first :: rest => first :: unresolvedFrom first rest

theorem Instance.valid_of_fromJson {j : InstanceJson} {it : Instance}
    (h : Instance.fromJson j = .ok it) : it.Valid := by
  obtain ⟨name, -, h⟩ := bind_eq_ok.mp h
  obtain ⟨min, -, h⟩ := bind_eq_ok.mp h
  obtain ⟨max, -, h⟩ := bind_eq_ok.mp h
  obtain ⟨hrange, h⟩ := throwIf_bind_eq_ok.mp h
  cases h
  exact of_decide_eq_false hrange

theorem Instance.fromJson_toJson {it : Instance} (h : it.Valid) :
    Instance.fromJson it.toJson = .ok it := by
  have hrange : decide (it.max < it.min) = false := decide_eq_false h
  simp only [Instance.fromJson, Instance.toJson, required, ok_bind, throwIf_eq_ok.mpr hrange]

theorem explicit_default : Explicit Module.defaultOffset := ⟨by decide, by decide⟩

theorem Explicit.toInt {offset : UInt32} (h : Explicit offset) :
    offset.toInt32.toInt = offset.toNat := by
  have hsmall := h.2
  rw [← Int32.toInt_toBitVec, UInt32.toBitVec_toInt32, BitVec.toInt_eq_toNat_cond,
    UInt32.toNat_toBitVec, if_pos (by omega)]

/-- What a module has from the file, and its instances before the check of their names. -/
theorem Module.read_of_fromJson {j : ModuleJson} {module : Module}
    (h : Module.fromJson j = .ok module) :
    (∀ it ∈ module.instances, it.Valid) ∧ (module.instances.length = 1 ∨
      module.instances.length = 2 ∨ module.instances.length = 4 ∨ module.instances.length = 8) ∧
      Explicit module.offset := by
  have hoffset := (Module.fromJson_ok h).2.2
  obtain ⟨name, -, h⟩ := bind_eq_ok.mp h
  obtain ⟨pollTimeMs, -, h⟩ := bind_eq_ok.mp h
  obtain ⟨given, -, h⟩ := bind_eq_ok.mp h
  obtain ⟨instances, hinstances, h⟩ := bind_eq_ok.mp h
  obtain ⟨-, h⟩ := throwIf_bind_eq_ok.mp h
  obtain ⟨-, h⟩ := throwIf_bind_eq_ok.mp h
  obtain ⟨hcount, h⟩ := throwIf_bind_eq_ok.mp h
  refine ⟨?_, ?_, ?_⟩
  · cases h
    intro it hmem
    obtain ⟨_, -, hjson⟩ := mem_mapM_ok hinstances hmem
    exact Instance.valid_of_fromJson hjson
  · cases h
    simp only [decide_eq_false_iff_not] at hcount
    dsimp only
    omega
  · cases hgiven : j.offset with
    | none =>
        rw [hgiven] at hoffset
        rw [hoffset]
        exact explicit_default
    | some offset =>
        rw [hgiven] at hoffset
        have hone := Int32.le_iff_toInt_le.mp hoffset.1
        have hvalue : (1 : Int32).toInt = 1 := rfl
        have hupper := offset.toInt_lt
        have hnat : module.offset.toNat = offset.toInt.toNat := hoffset.2
        constructor <;> omega

theorem Module.fromJson_toJson {module : Module} (h : ValidInstances module.instances)
    (hoffset : Explicit module.offset) : Module.fromJson module.toJson = .ok module := by
  have hinstances : (module.instances.map Instance.toJson).mapM Instance.fromJson =
      .ok module.instances :=
    mapM_map_eq_ok fun it hmem => Instance.fromJson_toJson (h.each it hmem)
  have hpositive : decide (module.offset.toInt32 < 1) = false := by
    rw [decide_eq_false_iff_not, Int32.lt_iff_toInt_lt, hoffset.toInt]
    have hvalue : (1 : Int32).toInt = 1 := rfl
    have := hoffset.1
    omega
  have hcount := h.count
  have hsome : module.instances.isEmpty = false := by
    rw [List.isEmpty_eq_false_iff, ← List.length_pos_iff_ne_nil]
    omega
  have hallowed : decide (module.instances.length ≠ 1 ∧ module.instances.length ≠ 2 ∧
      module.instances.length ≠ 4 ∧ module.instances.length ≠ 8) = false := by
    rw [decide_eq_false_iff_not]
    omega
  simp only [Module.fromJson, Module.toJson, required, ok_bind, hinstances, Option.getD_some,
    throwIf_eq_ok.mpr hsome, throwIf_eq_ok.mpr hallowed, UInt32.toUInt32_toInt32]
  exact throwIf_bind_eq_ok.mpr ⟨hpositive, rfl⟩

theorem Follows.mono {previous : Module} {given given' : Nat} {rest : List Module}
    (hle : given ≤ given') (h : Follows previous given' rest) : Follows previous given rest := by
  cases rest with
  | nil => trivial
  | cons it rest =>
      unfold Follows at h ⊢
      split at h
      case isTrue heq => rwa [if_pos heq]
      case isFalse hne =>
        rw [if_neg hne]
        exact ⟨h.1, h.2.1, Nat.le_trans (Nat.add_le_add_right hle _) h.2.2.1, h.2.2.2⟩

/-- The check is of what the file gives, `written`, the places are those of `previous`. -/
theorem follows_of_check {previous written : Module} {rest : List Module}
    (hinstances : written.instances = previous.instances)
    (hexplicit : ∀ module ∈ rest, Explicit module.offset)
    (hcheck : checkOverlappingFrom written rest = .ok ()) :
    Follows previous written.offset.toNat (setOffsetFrom previous rest) := by
  induction rest generalizing previous written with
  | nil => trivial
  | cons it rest ih =>
      rw [List.forall_mem_cons] at hexplicit
      obtain ⟨hapart, hcheck⟩ := throwIf_bind_eq_ok.mp hcheck
      rw [decide_eq_false_iff_not, hinstances] at hapart
      rw [setOffsetFrom, Follows]
      by_cases hdefault : it.offset = Module.defaultOffset
      case pos =>
        rw [if_pos hdefault, if_pos rfl]
        have hone : it.offset.toNat = 1 := by rw [hdefault]; rfl
        have hrest := ih (rfl : it.instances = { it with offset := previous.end }.instances)
          hexplicit.2 hcheck
        rwa [hone] at hrest
      case neg =>
        rw [if_neg hdefault]
        have hrest := ih rfl hexplicit.2 hcheck
        split
        case isTrue => exact hrest.mono hexplicit.1.1
        case isFalse =>
          exact ⟨hexplicit.1, hdefault, Nat.le_of_not_lt fun hlt => hapart ⟨hdefault, hlt⟩, hrest⟩

theorem setOffsetFrom_unresolvedFrom {previous : Module} {given : Nat} {rest : List Module}
    (h : Follows previous given rest) :
    setOffsetFrom previous (unresolvedFrom previous rest) = rest := by
  induction rest generalizing previous given with
  | nil => rfl
  | cons it rest ih =>
      rw [Follows] at h
      rw [unresolvedFrom, setOffsetFrom]
      split at h
      case isTrue heq =>
        rw [if_pos heq, if_pos rfl, ← heq]
        exact congrArg (it :: ·) (ih h)
      case isFalse hne =>
        rw [if_neg hne, if_neg h.2.1, ih h.2.2.2]

theorem check_unresolvedFrom {previous written : Module} {rest : List Module}
    (hinstances : written.instances = previous.instances)
    (h : Follows previous written.offset.toNat rest) :
    checkOverlappingFrom written (unresolvedFrom previous rest) = .ok () := by
  induction rest generalizing previous written with
  | nil => rfl
  | cons it rest ih =>
      rw [Follows] at h
      rw [unresolvedFrom, checkOverlappingFrom, throwIf_bind_eq_ok, decide_eq_false_iff_not,
        hinstances]
      split at h
      case isTrue heq =>
        rw [if_pos heq]
        exact ⟨fun hgiven => hgiven.1 rfl, ih rfl h⟩
      case isFalse hne =>
        rw [if_neg hne]
        exact ⟨fun hgiven => by have := h.2.2.1; omega, ih rfl h.2.2.2⟩

theorem explicit_unresolvedFrom {previous : Module} {given : Nat} {rest : List Module}
    (h : Follows previous given rest) :
    ∀ module ∈ unresolvedFrom previous rest, Explicit module.offset := by
  induction rest generalizing previous given with
  | nil => simp [unresolvedFrom]
  | cons it rest ih =>
      rw [Follows] at h
      rw [unresolvedFrom, List.forall_mem_cons]
      split at h
      case isTrue heq =>
        rw [if_pos heq]
        exact ⟨explicit_default, ih h⟩
      case isFalse hne =>
        rw [if_neg hne]
        exact ⟨h.1, ih h.2.2.2⟩

theorem map_unresolvedFrom {α : Type} {f : Module → α}
    (hf : ∀ module offset, f { module with offset } = f module) (previous : Module)
    (rest : List Module) : (unresolvedFrom previous rest).map f = rest.map f := by
  induction rest generalizing previous with
  | nil => rfl
  | cons it rest ih =>
      rw [unresolvedFrom, List.map_cons, List.map_cons, ih]
      split
      case isTrue => rw [hf]
      case isFalse => rfl

theorem map_unresolved {α : Type} {f : Module → α}
    (hf : ∀ module offset, f { module with offset } = f module) (modules : List Module) :
    (unresolved modules).map f = modules.map f := by
  cases modules with
  | nil => rfl
  | cons first rest => rw [unresolved, List.map_cons, List.map_cons, map_unresolvedFrom hf]

theorem forall_instances {p : List Instance → Prop} {modules modules' : List Module}
    (h : modules.map Module.instances = modules'.map Module.instances) :
    (∀ module ∈ modules, p module.instances) ↔ ∀ module ∈ modules', p module.instances := by
  rw [← List.forall_mem_map , h, List.forall_mem_map]

theorem checkDuplicateInstanceNames_eq_ok {modules : List Module} :
    checkDuplicateInstanceNames modules = .ok () ↔
      ∀ module ∈ modules, module.instances.Pairwise fun a b => a.name ≠ b.name := by
  rw [checkDuplicateInstanceNames, forM_eq_ok]
  exact forall₂_congr fun _ _ => hasDuplicate_passes

theorem pairwise_names {modules modules' : List Module}
    (h : modules.map Module.name = modules'.map Module.name) :
    (modules.Pairwise fun a b => a.name ≠ b.name) ↔
      modules'.Pairwise fun a b => a.name ≠ b.name := by
  rw [← List.pairwise_map, h, List.pairwise_map]

theorem valid_of_parseWago {j : WagoJson} {modules : List Module} {processors : Processors}
    (h : parseWago j = .ok (modules, processors)) : Valid modules processors := by
  unfold parseWago at h
  obtain ⟨modulesJson, -, h⟩ := bind_eq_ok.mp h
  obtain ⟨raw, hraw, h⟩ := bind_eq_ok.mp h
  obtain ⟨_, hnames, h⟩ := bind_eq_ok.mp h
  obtain ⟨_, hinstances, h⟩ := bind_eq_ok.mp h
  obtain ⟨_, hcheck, h⟩ := bind_eq_ok.mp h
  obtain ⟨resolved, hresolved, h⟩ := bind_eq_ok.mp h
  obtain ⟨processors, hprocessors, h⟩ := bind_eq_ok.mp h
  cases h
  have hvalid : ∀ module ∈ raw, ValidInstances module.instances ∧ Explicit module.offset := by
    intro module hmem
    obtain ⟨_, -, hjson⟩ := mem_mapM_ok hraw hmem
    obtain ⟨heach, hcount, hoffset⟩ := Module.read_of_fromJson hjson
    have hdistinct := checkDuplicateInstanceNames_eq_ok.mp hinstances module hmem
    exact ⟨⟨heach, hcount, hdistinct⟩, hoffset⟩
  constructor
  case each =>
    exact (forall_instances (map_setOffsetValues (fun _ _ => rfl) hresolved)).mpr
      fun module hmem => (hvalid module hmem).1
  case names =>
    exact (pairwise_names (map_setOffsetValues (fun _ _ => rfl) hresolved)).mpr
      (hasDuplicate_passes.mp hnames)
  case placed =>
    cases raw with
    | nil => cases hresolved
    | cons first rest =>
        cases hresolved
        rw [List.forall_mem_cons] at hvalid
        exact ⟨hvalid.1.2, follows_of_check rfl (fun module hmem => (hvalid.2 module hmem).2)
          hcheck⟩
  case processors => exact parseProcessors_ok hprocessors

theorem parseWago_toJson {modules : List Module} {processors : Processors}
    (h : Valid modules processors) :
    parseWago { modules := some ((unresolved modules).map Module.toJson),
                dataProcessors := processors.toJson } = .ok (modules, processors) := by
  have hplaced := h.placed
  have hvalid : ∀ module ∈ unresolved modules, ValidInstances module.instances :=
    (forall_instances (map_unresolved (fun _ _ => rfl) modules)).mpr h.each
  have hnames : checkDuplicateModuleNames (unresolved modules) = .ok () :=
    hasDuplicate_passes.mpr
      ((pairwise_names (map_unresolved (fun _ _ => rfl) modules)).mpr h.names)
  have hinstances : checkDuplicateInstanceNames (unresolved modules) = .ok () :=
    checkDuplicateInstanceNames_eq_ok.mpr fun module hmem => (hvalid module hmem).names
  cases modules with
  | nil => cases hplaced
  | cons first rest =>
      obtain ⟨hfirst, hfollows⟩ := hplaced
      have hoffsets : ∀ module ∈ unresolved (first :: rest), Explicit module.offset :=
        List.forall_mem_cons.mpr ⟨hfirst, explicit_unresolvedFrom hfollows⟩
      have hmodules : ((unresolved (first :: rest)).map Module.toJson).mapM Module.fromJson =
          .ok (unresolved (first :: rest)) :=
        mapM_map_eq_ok fun module hmem =>
          Module.fromJson_toJson (hvalid module hmem) (hoffsets module hmem)
      have hcheck : checkOverlappingOffsets (unresolved (first :: rest)) = .ok () :=
        check_unresolvedFrom rfl hfollows
      have hresolved : setOffsetValues (unresolved (first :: rest)) = .ok (first :: rest) :=
        congrArg (fun rest => Except.ok (first :: rest)) (setOffsetFrom_unresolvedFrom hfollows)
      simp only [parseWago, required, ok_bind, hmodules, hnames, hinstances, hcheck, hresolved,
        parseProcessors_toJson h.processors]

end Rdbus.Config.Wago
