import Mathlib.Data.List.Basic
import Mathlib.Order.Basic
import Mathlib.Order.MinMax
import Mathlib.Tactic.Tauto

/-!
# `std::minmax_element`

The library takes the elements in pairs, compares the two of a pair with each
other, and only then the smaller one with the minimum and the larger one with
the maximum.  `bounding_iff_allMet` says what comes out when some elements have
no key and compare with nothing.
-/

namespace Rdbus.Foundation

variable {α κ : Type}

/-- The loop, with the minimum and maximum so far. -/
def minmaxFrom (less : α → α → Bool) (min max : α) : List α → α × α
  | [] => (min, max)
  | [first] =>
      if less first min then (first, max)
      else if less first max then (min, max) else (min, first)
  | first :: next :: rest =>
      if less next first then
        minmaxFrom less (if less next min then next else min)
          (if less first max then max else first) rest
      else
        minmaxFrom less (if less first min then first else min)
          (if less next max then max else next) rest

/-- The elements both iterators point to; `none` for an empty range. -/
def minmaxElement (less : α → α → Bool) : List α → Option (α × α)
  | [] => none
  | [first] => some (first, first)
  | first :: next :: rest =>
      if less next first then some (minmaxFrom less next first rest)
      else some (minmaxFrom less first next rest)

/-! ## The comparisons that are made -/

section Comparisons

variable {less less' : α → α → Bool} {all rest : List α} {least greatest : α}

/-- The results are elements, and only comparisons of elements decide which. -/
theorem minmaxFrom_congr (hless : ∀ a ∈ all, ∀ b ∈ all, less a b = less' a b)
    (hleast : least ∈ all) (hgreatest : greatest ∈ all) (hrest : ∀ x ∈ rest, x ∈ all) :
    minmaxFrom less least greatest rest = minmaxFrom less' least greatest rest ∧
      (minmaxFrom less least greatest rest).1 ∈ all ∧
      (minmaxFrom less least greatest rest).2 ∈ all := by
  fun_induction minmaxFrom less least greatest rest with
  | case1 => exact ⟨rfl, hleast, hgreatest⟩
  | case2 least greatest first hfirst =>
      have hmem := hrest first (by simp)
      rw [hless _ hmem _ hleast] at hfirst
      exact ⟨by simp [minmaxFrom, hfirst], hmem, hgreatest⟩
  | case3 least greatest first hfirst hlast =>
      have hmem := hrest first (by simp)
      rw [hless _ hmem _ hleast] at hfirst
      rw [hless _ hmem _ hgreatest] at hlast
      exact ⟨by simp [minmaxFrom, hfirst, hlast], hleast, hgreatest⟩
  | case4 least greatest first hfirst hlast =>
      have hmem := hrest first (by simp)
      rw [hless _ hmem _ hleast] at hfirst
      rw [hless _ hmem _ hgreatest] at hlast
      exact ⟨by simp [minmaxFrom, hfirst, hlast], hleast, hmem⟩
  | case5 least greatest first next rest hswap ih =>
      have hfirst := hrest first (by simp)
      have hnext := hrest next (by simp)
      rw [minmaxFrom, ← hless _ hnext _ hfirst, if_pos hswap, ← hless _ hnext _ hleast,
        ← hless _ hfirst _ hgreatest]
      refine ih ?_ ?_ fun x hx => hrest x (by simp [hx])
      · split <;> assumption
      · split <;> assumption
  | case6 least greatest first next rest hswap ih =>
      have hfirst := hrest first (by simp)
      have hnext := hrest next (by simp)
      rw [minmaxFrom, ← hless _ hnext _ hfirst, if_neg hswap, ← hless _ hfirst _ hleast,
        ← hless _ hnext _ hgreatest]
      refine ih ?_ ?_ fun x hx => hrest x (by simp [hx])
      · split <;> assumption
      · split <;> assumption

theorem minmaxElement_congr {xs : List α}
    (hless : ∀ a ∈ xs, ∀ b ∈ xs, less a b = less' a b) :
    minmaxElement less xs = minmaxElement less' xs := by
  match xs with
  | [] => rfl
  | [first] => rfl
  | first :: next :: rest =>
      rw [minmaxElement, minmaxElement, hless next (by simp) first (by simp)]
      rw [(minmaxFrom_congr hless (by simp) (by simp) (by simp +contextual)).1,
        (minmaxFrom_congr hless (by simp) (by simp) (by simp +contextual)).1]

theorem exists_minmaxElement (less : α → α → Bool) {xs : List α} (hne : xs ≠ []) :
    ∃ least greatest, minmaxElement less xs = some (least, greatest) ∧
      least ∈ xs ∧ greatest ∈ xs := by
  match xs with
  | [] => exact absurd rfl hne
  | [first] => exact ⟨first, first, rfl, by simp, by simp⟩
  | first :: next :: rest =>
      rw [minmaxElement]
      split
      case isTrue =>
        exact ⟨_, _, rfl, (minmaxFrom_congr (fun _ _ _ _ => rfl) (by simp) (by simp)
          (by simp +contextual)).2⟩
      case isFalse =>
        exact ⟨_, _, rfl, (minmaxFrom_congr (fun _ _ _ _ => rfl) (by simp) (by simp)
          (by simp +contextual)).2⟩

end Comparisons

/-! ## Elements without a key -/

section Key

variable (key : α → Option κ)

/-- The keys of a pair that are compared with the minimum. -/
def pairLow (first next : Option κ) : List κ :=
  match first with
  | none => []
  | some low => low :: next.toList

/-- The same for the maximum: a second without a key replaces it. -/
def pairHigh (met : List κ) (first next : Option κ) : List κ :=
  match next with
  | none => []
  | some high => high :: first.toList ++ met

def metMinimum : List α → List κ
  | [] => []
  | [last] => (key last).toList
  | first :: next :: rest => pairLow (key first) (key next) ++ metMinimum rest

/-- The keys that are compared with the maximum after it last had none. -/
def metMaximum (met : List κ) : List α → List κ
  | [] => met
  | [last] => pairHigh met none (key last)
  | first :: next :: rest => metMaximum (pairHigh met (key first) (key next)) rest

variable [LinearOrder κ]

/-- The order of the keys; an element without one is comparable with nothing. -/
def keyLt (a b : α) : Bool :=
  match key a, key b with
  | some low, some high => low < high
  | _, _ => false

/-- Both have keys, and these bound the keys of `xs`. -/
def Bounding (xs : List α) (least greatest : α) : Prop :=
  ∃ low high, key least = some low ∧ key greatest = some high ∧
    ∀ k ∈ xs.filterMap key, low ≤ k ∧ k ≤ high

/-- No key lies outside those the minimum and the maximum were compared with. -/
structure AllMet (xs : List α) : Prop where
  head : (xs.head?.bind key).isSome
  below : ∀ k ∈ xs.filterMap key, ∃ low ∈ metMinimum key xs, low ≤ k
  above : ∀ k ∈ xs.filterMap key, ∃ high ∈ metMaximum key [] xs, k ≤ high

end Key

variable {key : α → Option κ}

theorem metMinimum_head {xs : List α} {low : κ} (h : xs.head?.bind key = some low) :
    low ∈ metMinimum key xs := by
  match xs with
  | [] => cases h
  | [first] => simpa [metMinimum] using h
  | first :: next :: rest =>
      have hfirst : key first = some low := h
      simp [metMinimum, pairLow, hfirst]

theorem head_mem_keys {xs : List α} {low : κ} (h : xs.head?.bind key = some low) :
    low ∈ xs.filterMap key := by
  rcases Option.bind_eq_some_iff.mp h with ⟨first, hfirst, hkey⟩
  exact List.mem_filterMap.mpr ⟨first, List.mem_of_head? hfirst, hkey⟩

theorem metMinimum_of_isSome {xs : List α} (h : ∀ x ∈ xs, (key x).isSome) :
    metMinimum key xs = xs.filterMap key := by
  fun_induction metMinimum key xs with
  | case1 => rfl
  | case2 last => cases hlast : key last <;> simp [hlast]
  | case3 first next rest ih =>
      rcases Option.isSome_iff_exists.mp (h first (by simp)) with ⟨low, hfirst⟩
      rw [ih fun x hx => h x (by simp [hx]), hfirst]
      cases hnext : key next <;> simp [pairLow, hfirst, hnext]

theorem mem_metMaximum_of_isSome {met : List κ} {xs : List α} {k : κ}
    (h : ∀ x ∈ xs, (key x).isSome) (hk : k ∈ met ++ xs.filterMap key) :
    k ∈ metMaximum key met xs := by
  fun_induction metMaximum key met xs with
  | case1 met => simpa using hk
  | case2 met last =>
      rcases Option.isSome_iff_exists.mp (h last (by simp)) with ⟨high, hlast⟩
      simpa [hlast, pairHigh, or_comm] using hk
  | case3 met first next rest ih =>
      rcases Option.isSome_iff_exists.mp (h first (by simp)) with ⟨low, hfirst⟩
      rcases Option.isSome_iff_exists.mp (h next (by simp)) with ⟨high, hnext⟩
      refine ih (fun x hx => h x (by simp [hx])) ?_
      simp only [hfirst, hnext, pairHigh, List.mem_append, List.mem_cons,
        List.filterMap_cons, Option.toList_some, List.not_mem_nil] at hk ⊢
      tauto

variable [LinearOrder κ]

theorem keyLt_iff {a b : α} : keyLt key a b = true ↔
    ∃ low high, key a = some low ∧ key b = some high ∧ low < high := by
  unfold keyLt
  cases key a <;> cases key b <;> simp

theorem keyLt_some {a b : α} {low high : κ} (ha : key a = some low)
    (hb : key b = some high) : keyLt key a b = decide (low < high) := by
  simp [keyLt, ha, hb]

@[simp] theorem keyLt_none_left {a b : α} (h : key a = none) : keyLt key a b = false := by
  simp [keyLt, h]

@[simp] theorem keyLt_none_right {a b : α} (h : key b = none) : keyLt key a b = false := by
  simp [keyLt, h]

theorem max?_cons_of_le {a b : κ} (h : a ≤ b) (xs : List κ) :
    (a :: b :: xs).max? = (b :: xs).max? ∧ (b :: a :: xs).max? = (b :: xs).max? := by
  simp only [List.max?_cons]
  cases xs.max? with
  | none => simp [h]
  | some c => simp [← max_assoc, max_eq_right h, max_eq_left h]

theorem foldl_min_le (ks : List κ) (k : κ) :
    ks.foldl min k ≤ k ∧ ∀ l ∈ ks, ks.foldl min k ≤ l := by
  have hmin : (k :: ks).min? = some (ks.foldl min k) := List.min?_cons'
  have h := List.min?_eq_some_iff.mp hmin
  exact ⟨h.2 k (by simp), fun l hl => h.2 l (by simp [hl])⟩

/-- One comparison with the minimum; without a key it stays. -/
theorem key_lesser (key : α → Option κ) (x least : α) :
    key (if keyLt key x least then x else least) =
      (key least).map fun low => (key x).toList.foldl min low := by
  cases hleast : key least with
  | none => simp [hleast]
  | some low =>
      cases hx : key x with
      | none => simp [hx, hleast]
      | some k =>
          simp only [keyLt_some hx hleast, decide_eq_true_eq, Option.map_some,
            Option.toList_some, List.foldl_cons, List.foldl_nil]
          split
          case isTrue hlt => rw [hx, min_eq_right hlt.le]
          case isFalse hlt => rw [hleast, min_eq_left (not_lt.mp hlt)]

/-- One comparison with the maximum; an element without a key replaces it. -/
theorem key_greater {greatest : α} {met : List κ} (h : key greatest = met.max?) (x : α) :
    key (if keyLt key x greatest then greatest else x) =
      (pairHigh met none (key x)).max? := by
  cases hx : key x with
  | none => simp [hx, pairHigh]
  | some high =>
      simp only [pairHigh, Option.toList_none, List.cons_append, List.nil_append]
      rw [List.max?_cons, ← h]
      cases hgreatest : key greatest with
      | none => simp [hgreatest, hx]
      | some k =>
          simp only [keyLt_some hx hgreatest, decide_eq_true_eq, Option.elim_some]
          split
          case isTrue hlt => rw [hgreatest, max_eq_right hlt.le]
          case isFalse hlt => rw [hx, max_eq_left (not_lt.mp hlt)]

/-! ## One round -/

/-- A pair in the wrong order: its second is the smaller one. -/
theorem keys_of_swap {first next : α} (h : keyLt key next first = true) :
    (∀ low, (pairLow (key first) (key next)).foldl min low =
      (key next).toList.foldl min low) ∧
    ∀ met, (pairHigh met (key first) (key next)).max? =
      (pairHigh met none (key first)).max? := by
  rcases keyLt_iff.mp h with ⟨small, large, hnext, hfirst, hlt⟩
  rw [hfirst, hnext]
  constructor
  · intro low
    simp [pairLow, min_assoc, min_eq_right hlt.le]
  · exact fun met => (max?_cons_of_le hlt.le met).1

theorem keys_of_keep {first next : α} (h : ¬ keyLt key next first = true) :
    (∀ low, (pairLow (key first) (key next)).foldl min low =
      (key first).toList.foldl min low) ∧
    ∀ met, (pairHigh met (key first) (key next)).max? =
      (pairHigh met none (key next)).max? := by
  cases hfirst : key first with
  | none => exact ⟨fun _ => rfl, fun _ => rfl⟩
  | some small =>
      cases hnext : key next with
      | none => exact ⟨fun _ => rfl, fun _ => rfl⟩
      | some large =>
          rw [keyLt_some hnext hfirst, decide_eq_true_iff, not_lt] at h
          constructor
          · intro low
            simp [pairLow, min_assoc, min_eq_left h]
          · exact fun met => (max?_cons_of_le h met).2

theorem minmaxFrom_pair {met : List κ} {greatest : α} (h : key greatest = met.max?)
    (least first next : α) (rest : List α) :
    ∃ least' greatest',
      minmaxFrom (keyLt key) least greatest (first :: next :: rest) =
        minmaxFrom (keyLt key) least' greatest' rest ∧
      key least' = (key least).map
        (fun low => (pairLow (key first) (key next)).foldl min low) ∧
      key greatest' = (pairHigh met (key first) (key next)).max? := by
  rw [minmaxFrom]
  split
  case isTrue hswap =>
    refine ⟨_, _, rfl, ?_, ?_⟩
    · simpa only [(keys_of_swap hswap).1] using key_lesser key next least
    · rw [(keys_of_swap hswap).2, key_greater h]
  case isFalse hkeep =>
    refine ⟨_, _, rfl, ?_, ?_⟩
    · simpa only [(keys_of_keep hkeep).1] using key_lesser key first least
    · rw [(keys_of_keep hkeep).2, key_greater h]

theorem minmaxElement_pair (key : α → Option κ) (first next : α) (rest : List α) :
    ∃ least greatest,
      minmaxElement (keyLt key) (first :: next :: rest) =
        some (minmaxFrom (keyLt key) least greatest rest) ∧
      key least = (key first).map
        (fun low => (pairLow (key first) (key next)).foldl min low) ∧
      key greatest = (pairHigh [] (key first) (key next)).max? := by
  have hself : ∀ k : Option κ, k = (pairHigh [] none k).max? := by
    rintro (_ | k) <;> rfl
  rw [minmaxElement]
  split
  case isTrue hswap =>
    refine ⟨_, _, rfl, ?_, ?_⟩
    · simpa only [(keys_of_swap hswap).1, hswap, if_true] using key_lesser key next first
    · rw [(keys_of_swap hswap).2, ← hself]
  case isFalse hkeep =>
    refine ⟨_, _, rfl, ?_, ?_⟩
    · simpa only [(keys_of_keep hkeep).1, ite_self] using key_lesser key first first
    · rw [(keys_of_keep hkeep).2, ← hself]

/-- A last single element below the minimum is not compared with the maximum. -/
theorem key_single_greatest {greatest : α} {met : List κ} (h : key greatest = met.max?)
    (least last : α) :
    key (minmaxFrom (keyLt key) least greatest [last]).2 =
      if keyLt key last least then met.max? else (pairHigh met none (key last)).max? := by
  rw [minmaxFrom]
  split
  case isTrue => exact h
  case isFalse =>
    rw [← key_greater h]
    split <;> rfl

/-! ## All rounds -/

theorem key_minmaxFrom_least (key : α → Option κ) (least greatest : α) (rest : List α) :
    key (minmaxFrom (keyLt key) least greatest rest).1 =
      (key least).map fun low => (metMinimum key rest).foldl min low := by
  fun_induction metMinimum key rest generalizing least greatest with
  | case1 => simp [minmaxFrom]
  | case2 last =>
      rw [← key_lesser, minmaxFrom]
      split
      case isTrue => rfl
      case isFalse => split <;> rfl
  | case3 first next rest ih =>
      have hmet : key greatest = (key greatest).toList.max? := by
        cases key greatest <;> rfl
      rcases minmaxFrom_pair hmet least first next rest with
        ⟨least', greatest', hpair, hleast, -⟩
      rw [hpair, ih, hleast, Option.map_map]
      simp [Function.comp_def]

theorem mem_metMaximum {least greatest : α} {met : List κ} {rest : List α} {high : κ}
    (h : key greatest = met.max?)
    (hhigh : key (minmaxFrom (keyLt key) least greatest rest).2 = some high) :
    high ∈ metMaximum key met rest := by
  fun_induction metMaximum key met rest generalizing least greatest with
  | case1 met => exact List.max?_mem (h.symm.trans hhigh)
  | case2 met last =>
      rw [key_single_greatest h] at hhigh
      split at hhigh
      case isTrue hlt =>
        rcases keyLt_iff.mp hlt with ⟨k, low, hlast, -, -⟩
        rw [hlast]
        exact List.mem_cons_of_mem _ (List.max?_mem hhigh)
      case isFalse => exact List.max?_mem hhigh
  | case3 met first next rest ih =>
      rcases minmaxFrom_pair h least first next rest with
        ⟨least', greatest', hpair, -, hgreatest⟩
      exact ih hgreatest (hpair ▸ hhigh)

/-- Only a minimum above it keeps the greatest of these keys from being found. -/
theorem key_minmaxFrom_greatest {least greatest : α} {met : List κ} {rest : List α}
    {high : κ} (h : key greatest = met.max?)
    (hhigh : (metMaximum key met rest).max? = some high)
    (hleast : ∀ low, key least = some low → low ≤ high) :
    key (minmaxFrom (keyLt key) least greatest rest).2 = some high := by
  fun_induction metMaximum key met rest generalizing least greatest with
  | case1 met => exact h.trans hhigh
  | case2 met last =>
      rw [key_single_greatest h]
      split
      case isTrue hlt =>
        rcases keyLt_iff.mp hlt with ⟨k, low, hlast, hlow, hlt⟩
        have hk : k < high := hlt.trans_le (hleast low hlow)
        rw [hlast] at hhigh
        rcases List.max?_eq_some_iff.mp hhigh with ⟨hmem, hle⟩
        rcases List.mem_cons.mp hmem with rfl | hmem
        · exact absurd hk (lt_irrefl _)
        · exact List.max?_eq_some_iff.mpr
            ⟨hmem, fun b hb => hle b (List.mem_cons_of_mem _ hb)⟩
      case isFalse => exact hhigh
  | case3 met first next rest ih =>
      rcases minmaxFrom_pair h least first next rest with
        ⟨least', greatest', hpair, hlow, hgreatest⟩
      rw [hpair]
      refine ih hgreatest hhigh ?_
      intro low hlow'
      rw [hlow', eq_comm, Option.map_eq_some_iff] at hlow
      rcases hlow with ⟨low', hlow, rfl⟩
      exact (foldl_min_le _ low').1.trans (hleast low' hlow)

/-! ## The results -/

theorem keys_minmaxElement {xs : List α} {least greatest : α}
    (h : minmaxElement (keyLt key) xs = some (least, greatest)) :
    (key least = (xs.head?.bind key).map fun low => (metMinimum key xs).foldl min low) ∧
    (∀ high, key greatest = some high → high ∈ metMaximum key [] xs) ∧
    ∀ high, (metMaximum key [] xs).max? = some high →
      (∀ low, xs.head?.bind key = some low → low ≤ high) → key greatest = some high := by
  match xs with
  | [] => cases h
  | [first] =>
      cases h
      cases hkey : key least <;> simp [metMinimum, metMaximum, pairHigh, hkey]
  | first :: next :: rest =>
      rcases minmaxElement_pair key first next rest with
        ⟨least', greatest', hpair, hleast, hgreatest⟩
      rcases Prod.ext_iff.mp (Option.some.inj (hpair.symm.trans h)) with ⟨rfl, rfl⟩
      rw [metMaximum]
      refine ⟨?_, fun high hhigh => mem_metMaximum hgreatest hhigh, ?_⟩
      · rw [key_minmaxFrom_least key, hleast, Option.map_map]
        simp [metMinimum, Function.comp_def]
      · intro high hhigh hhead
        refine key_minmaxFrom_greatest hgreatest hhigh fun low hlow => ?_
        rw [hleast, Option.map_eq_some_iff] at hlow
        rcases hlow with ⟨low', hfirst, rfl⟩
        exact (foldl_min_le _ low').1.trans (hhead low' hfirst)

/--
Under a comparison that leaves out some elements, the results bound the others
exactly when no key escapes them.
-/
theorem bounding_iff_allMet {xs : List α} {least greatest : α}
    (h : minmaxElement (keyLt key) xs = some (least, greatest)) :
    Bounding key xs least greatest ↔ AllMet key xs := by
  rcases keys_minmaxElement h with ⟨hleast, hmem, hgreatest⟩
  constructor
  · rintro ⟨low, high, hlow, hhigh, hbounds⟩
    rw [hlow, eq_comm, Option.map_eq_some_iff] at hleast
    rcases hleast with ⟨headKey, hhead, rfl⟩
    refine ⟨by rw [hhead]; rfl, fun k hk => ⟨_, ?_, (hbounds k hk).1⟩,
      fun k hk => ⟨high, hmem high hhigh, (hbounds k hk).2⟩⟩
    have hmin : (headKey :: metMinimum key xs).min? =
        some ((metMinimum key xs).foldl min headKey) := List.min?_cons'
    rcases List.mem_cons.mp (List.min?_mem hmin) with heq | hmin
    · rw [heq]
      exact metMinimum_head hhead
    · exact hmin
  · rintro ⟨hhead, hbelow, habove⟩
    rcases Option.isSome_iff_exists.mp hhead with ⟨headKey, hhead⟩
    rcases habove headKey (head_mem_keys hhead) with ⟨met, hmet, -⟩
    rcases Option.isSome_iff_exists.mp (List.isSome_max?_of_mem hmet) with ⟨high, hhigh⟩
    have hle : ∀ k ∈ xs.filterMap key, k ≤ high := by
      intro k hk
      rcases habove k hk with ⟨met, hmet, hle⟩
      exact hle.trans ((List.max?_eq_some_iff.mp hhigh).2 met hmet)
    rw [hhead] at hleast hgreatest
    refine ⟨_, high, hleast, hgreatest high hhigh ?_, fun k hk => ⟨?_, hle k hk⟩⟩
    · rintro low ⟨⟩
      exact hle headKey (head_mem_keys hhead)
    · rcases hbelow k hk with ⟨low, hlow, hlowle⟩
      exact ((foldl_min_le _ headKey).2 low hlow).trans hlowle

theorem allMet_of_isSome {xs : List α} (h : ∀ x ∈ xs, (key x).isSome) (hne : xs ≠ []) :
    AllMet key xs where
  head := by
    cases xs with
    | nil => exact absurd rfl hne
    | cons first rest => exact h first (by simp)
  below k hk := ⟨k, by rwa [metMinimum_of_isSome h], le_rfl⟩
  above k hk := ⟨k, mem_metMaximum_of_isSome h hk, le_rfl⟩

/-- `least` and `greatest` bound `xs` by their keys. -/
structure Bounds (key : α → κ) (xs : List α) (least greatest : α) : Prop where
  least_mem : least ∈ xs
  greatest_mem : greatest ∈ xs
  least_le : ∀ x ∈ xs, key least ≤ key x
  le_greatest : ∀ x ∈ xs, key x ≤ key greatest

/-- Under a strict order of keys the two iterators point to bounds. -/
theorem bounds_minmaxElement {key : α → κ} {less : α → α → Bool} {xs : List α}
    (hless : ∀ a ∈ xs, ∀ b ∈ xs, less a b = decide (key a < key b)) (hne : xs ≠ []) :
    ∃ least greatest, minmaxElement less xs = some (least, greatest) ∧
      Bounds key xs least greatest := by
  rcases exists_minmaxElement less hne with ⟨least, greatest, heq, hleast, hgreatest⟩
  have hkey : minmaxElement (keyLt (some ∘ key)) xs = some (least, greatest) := by
    rw [← heq]
    exact (minmaxElement_congr hless).symm
  rcases (bounding_iff_allMet hkey).mpr (allMet_of_isSome (fun _ _ => rfl) hne) with
    ⟨low, high, ⟨⟩, ⟨⟩, hbounds⟩
  refine ⟨least, greatest, heq, hleast, hgreatest, ?_, ?_⟩
  · exact fun x hx => (hbounds (key x) (List.mem_filterMap.mpr ⟨x, hx, rfl⟩)).1
  · exact fun x hx => (hbounds (key x) (List.mem_filterMap.mpr ⟨x, hx, rfl⟩)).2

end Rdbus.Foundation
