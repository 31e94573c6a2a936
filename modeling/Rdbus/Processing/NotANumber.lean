import Rdbus.Processing.LimitsHistory
import Mathlib.Data.Int.Order.Basic

/-!
# Limits of windows with a NaN

Values of a floating-point field compare as their numbers do, and a NaN with
nothing.  The loop still makes its comparisons in pairs: a NaN in front of a
pair keeps the second from the minimum, one behind it discards the maximum, and
as the first value of the window it stays the minimum.
-/

namespace Rdbus

open Foundation

/-- What the order of the values of a format compares; `none` for a NaN. -/
def Foundation.Format.number (f : Format) (bits : Nat) : Option Int :=
  if f.isNaN bits then none else some (f.signed bits)

theorem Foundation.Format.lt_eq_keyLt (f : Format) (a b : Nat) :
    f.lt a b = keyLt f.number a b := by
  unfold Format.lt keyLt Format.number
  cases f.isNaN a <;> cases f.isNaN b <;> simp

namespace Variant

def isNaN : Variant → Bool
  | .float bits => Format.binary32.isNaN bits.toNat
  | .double bits => Format.binary64.isNaN bits.toNat
  | _ => false

def number : Variant → Option Int
  | .float bits => Format.binary32.number bits.toNat
  | .double bits => Format.binary64.number bits.toNat
  | _ => none

def isFloating : DataType → Bool
  | .float | .double => true
  | _ => false

theorem number_eq_none_iff {v : Variant} (h : isFloating v.type) :
    v.number = none ↔ v.isNaN = true := by
  cases v <;> simp_all [isFloating, type, number, Format.number, isNaN]

theorem lt_eq_keyLt {v w : Variant} (htype : v.type = w.type) (h : isFloating v.type) :
    lt v w = keyLt number v w := by
  cases v <;> cases w <;>
    simp_all [isFloating, type, lt, Format.lt_eq_keyLt, keyLt, number]

end Variant

namespace Processing.Limits

/-- The values of the window are all of the same floating-point type. -/
def Floating (values : List TimestampedValue) : Prop :=
  ∃ type : DataType, Variant.isFloating type ∧ ∀ tv ∈ values, tv.2.type = type

/-- Neither limit is a NaN, and no other value lies outside them. -/
structure Spans (values : List TimestampedValue) (limit : FieldLimit) : Prop where
  min : ∃ least, limit.min = some least ∧ least.isNaN = false ∧
    ∀ tv ∈ values, tv.2.isNaN = false → Variant.lt tv.2 least = false
  max : ∃ greatest, limit.max = some greatest ∧ greatest.isNaN = false ∧
    ∀ tv ∈ values, tv.2.isNaN = false → Variant.lt greatest tv.2 = false

def HasNumber (values : List TimestampedValue) : Prop :=
  ∃ tv ∈ values, tv.2.isNaN = false

def Uncorrupted (store : Store) (device name : Bytes) (values : List TimestampedValue) :
    Prop :=
  HasNumber values → ∃ output, generateOutput device store = .ok output store ∧
    (∃ limit ∈ output.instanceLimits, limit.name = name) ∧
    ∀ limit ∈ output.instanceLimits, limit.name = name → Spans values limit

/-! ## One field of the output -/

theorem mem_outputOf {device name : Bytes} {fieldsMap : FieldsMap}
    {values : List TimestampedValue} (h : fieldsMap[name]? = some values)
    {limit : FieldLimit} :
    (limit ∈ (outputOf device fieldsMap).instanceLimits ∧ limit.name = name) ↔
      limit = fieldLimit name values := by
  constructor
  · rintro ⟨hmem, rfl⟩
    rcases List.mem_map.mp hmem with ⟨⟨other, stored⟩, hlist, rfl⟩
    rw [Std.TreeMap.mem_toList_iff_getElem?_eq_some] at hlist
    rw [name_fieldLimit, hlist] at h
    cases h
    simp
  · rintro rfl
    refine ⟨List.mem_map.mpr ⟨(name, values), ?_, rfl⟩, name_fieldLimit name values⟩
    exact Std.TreeMap.mem_toList_iff_getElem?_eq_some.mpr h

theorem uncorrupted_iff_spans {store : Store} {device name : Bytes}
    {fieldsMap : FieldsMap} {values : List TimestampedValue}
    (hdevice : store[device]? = some fieldsMap) (hname : fieldsMap[name]? = some values) :
    Uncorrupted store device name values ↔
      (HasNumber values → Spans values (fieldLimit name values)) := by
  refine imp_congr_right fun _ => ?_
  rw [generateOutput_ok hdevice]
  constructor
  · rintro ⟨output, ⟨⟩, -, hall⟩
    rcases (mem_outputOf hname).mpr rfl with ⟨hmem, heq⟩
    exact hall _ hmem heq
  · intro hspans
    refine ⟨_, rfl, ⟨_, (mem_outputOf hname).mpr rfl⟩, fun limit hmem heq => ?_⟩
    rwa [(mem_outputOf hname).mp ⟨hmem, heq⟩]

/-! ## The extremes -/

def numberOf (tv : TimestampedValue) : Option Int := tv.2.number

theorem Floating.lt_eq {values : List TimestampedValue} (h : Floating values) :
    ∀ a ∈ values, ∀ b ∈ values, Variant.lt a.2 b.2 = keyLt numberOf a b := by
  rcases h with ⟨type, hfloating, htype⟩
  intro a ha b hb
  apply Variant.lt_eq_keyLt
  · rw [htype a ha, htype b hb]
  · rwa [htype a ha]

theorem Floating.isNaN_iff {values : List TimestampedValue} (h : Floating values)
    {tv : TimestampedValue} (htv : tv ∈ values) :
    tv.2.isNaN = false ↔ ∃ k, numberOf tv = some k := by
  rcases h with ⟨type, hfloating, htype⟩
  rw [← Option.ne_none_iff_exists', numberOf, Ne,
    Variant.number_eq_none_iff (by rwa [htype tv htv]), Bool.not_eq_true]

theorem Floating.not_lt_iff {values : List TimestampedValue} (h : Floating values)
    {a b : TimestampedValue} (ha : a ∈ values) (hb : b ∈ values) {k l : Int}
    (hk : numberOf a = some k) (hl : numberOf b = some l) :
    Variant.lt a.2 b.2 = false ↔ l ≤ k := by
  rw [h.lt_eq a ha b hb, keyLt_some hk hl, decide_eq_false_iff_not, not_lt]

theorem spans_iff_bounding {name : Bytes} {values : List TimestampedValue}
    {least greatest : TimestampedValue} (h : Floating values) (hleast : least ∈ values)
    (hgreatest : greatest ∈ values) :
    Spans values { name, min := some least.2, max := some greatest.2 } ↔
      Bounding numberOf values least greatest := by
  constructor
  · rintro ⟨⟨_, ⟨⟩, hlow, hbelow⟩, _, ⟨⟩, hhigh, habove⟩
    rcases (h.isNaN_iff hleast).mp hlow with ⟨low, hlow⟩
    rcases (h.isNaN_iff hgreatest).mp hhigh with ⟨high, hhigh⟩
    refine ⟨low, high, hlow, hhigh, fun k hk => ?_⟩
    rcases List.mem_filterMap.mp hk with ⟨tv, htv, hk⟩
    have hnumber := (h.isNaN_iff htv).mpr ⟨k, hk⟩
    exact ⟨(h.not_lt_iff htv hleast hk hlow).mp (hbelow tv htv hnumber),
      (h.not_lt_iff hgreatest htv hhigh hk).mp (habove tv htv hnumber)⟩
  · rintro ⟨low, high, hlow, hhigh, hbounds⟩
    constructor
    · refine ⟨_, rfl, (h.isNaN_iff hleast).mpr ⟨low, hlow⟩, fun tv htv hnumber => ?_⟩
      rcases (h.isNaN_iff htv).mp hnumber with ⟨k, hk⟩
      exact (h.not_lt_iff htv hleast hk hlow).mpr
        (hbounds k (List.mem_filterMap.mpr ⟨tv, htv, hk⟩)).1
    · refine ⟨_, rfl, (h.isNaN_iff hgreatest).mpr ⟨high, hhigh⟩,
        fun tv htv hnumber => ?_⟩
      rcases (h.isNaN_iff htv).mp hnumber with ⟨k, hk⟩
      exact (h.not_lt_iff hgreatest htv hhigh hk).mpr
        (hbounds k (List.mem_filterMap.mpr ⟨tv, htv, hk⟩)).2

theorem spans_iff_allMet {name : Bytes} {values : List TimestampedValue}
    (h : Floating values) (hne : values ≠ []) :
    Spans values (fieldLimit name values) ↔ AllMet numberOf values := by
  rcases exists_minmaxElement (fun left right => Variant.lt left.2 right.2) hne with
    ⟨least, greatest, hminmax, hleast, hgreatest⟩
  have hlimit : fieldLimit name values =
      { name, min := some least.2, max := some greatest.2 } := by
    simp [fieldLimit, hminmax]
  rw [hlimit, spans_iff_bounding h hleast hgreatest]
  rw [minmaxElement_congr h.lt_eq] at hminmax
  exact bounding_iff_allMet hminmax

/--
The limits are right exactly when the first value is a number and no number is
beyond all those the minimum was compared with, or the maximum since it was
last lost.
-/
theorem uncorrupted_iff_allMet {store : Store} {device name : Bytes}
    {fieldsMap : FieldsMap} {values : List TimestampedValue}
    (hdevice : store[device]? = some fieldsMap) (hname : fieldsMap[name]? = some values)
    (hfloating : Floating values) :
    Uncorrupted store device name values ↔
      (HasNumber values → AllMet numberOf values) := by
  rw [uncorrupted_iff_spans hdevice hname]
  refine imp_congr_right fun hnumber => spans_iff_allMet hfloating ?_
  rintro rfl
  rcases hnumber with ⟨tv, htv, -⟩
  cases htv

/-- A NaN in front of its pair is harmless while others reach both extremes. -/
def harmless : List TimestampedValue :=
  [(0, .float 0x3F800000), (1, .float 0x40000000), (2, .float 0x7FC00000),
    (3, .float 0x3FC00000)]

theorem uncorrupted_harmless : Uncorrupted
    ((∅ : Store).insert (str "Engine") ((∅ : FieldsMap).insert (str "Torque") harmless))
    (str "Engine") (str "Torque") harmless :=
  (uncorrupted_iff_allMet Std.TreeMap.getElem?_insert_self
    Std.TreeMap.getElem?_insert_self ⟨.float, rfl, by decide⟩).mpr
    fun _ => ⟨by decide, by decide, by decide⟩

/-- A torque is not a number, fifty seconds later it is 1. -/
def recovering : List Rdbus.Data :=
  [(0, 0x7FC00000), (50000000000, 0x3F800000)].map fun tv =>
    { deviceName := str "Engine", fields := [⟨str "Torque", some (.float tv.2), tv.1⟩] }

theorem recovering_corrupted : ∃ outputs store fieldsMap values,
    process 1 recovering (initial oneMinute) = .ok outputs store ∧
      store[str "Engine"]? = some fieldsMap ∧ fieldsMap[str "Torque"]? = some values ∧
      Floating values ∧ ¬ Uncorrupted store (str "Engine") (str "Torque") values := by
  have hfields : ∀ input ∈ recovering, input.fields ≠ [] := by decide
  have hall : ∀ input ∈ recovering, ∀ field ∈ input.fields,
      fits (nanoseconds 1) && fits (field.timestamp + nanoseconds 1) := by decide
  have hcomparable : ComparableFrom 1 [str "Engine"] [] recovering := by
    apply comparableFrom_of_representable
    intro before reading after heq _ _ field hfield value _
    refine hall reading ?_ field hfield
    rw [← List.nil_append recovering, heq]
    simp
  rcases processFrom_ok (describes_initial oneMinute) (fun input hmem _ => hfields input hmem)
    hcomparable [] with ⟨outputs, store, hrun, -, hdescribes⟩
  rcases hdescribes.configured (str "Engine") (by decide) with
    ⟨fieldsMap, hdevice, hrepresents⟩
  have hname := hrepresents (str "Torque")
  rw [if_pos (by decide)] at hname
  refine ⟨outputs, store, fieldsMap, _, hrun, hdevice, hname, ⟨.float, rfl, by decide⟩, ?_⟩
  rw [uncorrupted_iff_spans hdevice hname]
  intro hspans
  rcases (hspans ⟨(50000000000, .float 0x3F800000), by decide, by decide⟩).min with
    ⟨least, hleast, hnumber, -⟩
  have hnan : some least = some (.float 0x7FC00000) := hleast.symm.trans (by decide)
  cases hnan
  exact absurd hnumber (by decide)

end Processing.Limits

end Rdbus
