import Mathlib.Data.List.Basic
import Mathlib.Data.List.Forall2
import Mathlib.Tactic.Common

/-!
# Loops over a list in `Except`

When every iteration succeeds the loop is a `map`; when all failures are the
same one, the loop fails with it as soon as some iteration does.
-/

namespace Rdbus.Foundation

variable {ε α β : Type}

@[simp] theorem ok_bind (a : α) (f : α → Except ε β) : (Except.ok a >>= f) = f a := rfl

@[simp] theorem error_bind (e : ε) (f : α → Except ε β) :
    (Except.error e >>= f) = .error e := rfl

theorem bind_eq_ok {x : Except ε α} {f : α → Except ε β} {b : β} :
    (x >>= f) = .ok b ↔ ∃ a, x = .ok a ∧ f a = .ok b := by
  cases x <;> simp [bind, Except.bind]

theorem bind_eq_error {x : Except ε α} {f : α → Except ε β} {e : ε} :
    (x >>= f) = .error e ↔ x = .error e ∨ ∃ a, x = .ok a ∧ f a = .error e := by
  cases x <;> simp [bind, Except.bind]

theorem of_mapError_eq_error {ε' : Type} {x : Except ε α} {f : ε → ε'} {e : ε'}
    (h : x.mapError f = .error e) : ∃ thrown, e = f thrown := by
  cases x with
  | error thrown => exact ⟨thrown, (Except.error.inj h).symm⟩
  | ok a => cases h

theorem of_map_eq_error {x : Except ε α} {f : α → β} {e : ε} (h : x.map f = .error e) :
    x = .error e := by
  cases x with
  | error e' => exact congrArg Except.error (Except.error.inj h)
  | ok a => cases h

theorem mapM_eq_ok_map {f : α → Except ε β} {g : α → β} {xs : List α}
    (h : ∀ x ∈ xs, f x = .ok (g x)) : xs.mapM f = .ok (xs.map g) := by
  induction xs with
  | nil => rfl
  | cons x xs ih =>
      rw [List.mapM_cons, h x (by simp), ih fun y hy => h y (by simp [hy])]
      rfl

/-- A list of parts is read as it was written when each part is. -/
theorem mapM_map_eq_ok {read : β → Except ε α} {write : α → β} {xs : List α}
    (h : ∀ x ∈ xs, read (write x) = .ok x) : (xs.map write).mapM read = .ok xs := by
  rw [List.mapM_map]
  exact (mapM_eq_ok_map h).trans (congrArg Except.ok (List.map_id xs))

theorem mapM_eq_error {f : α → Except ε β} {e : ε} {xs : List α}
    (hsame : ∀ x ∈ xs, ∀ e', f x = .error e' → e' = e)
    (h : ∃ x ∈ xs, f x = .error e) : xs.mapM f = .error e := by
  induction xs with
  | nil => simp at h
  | cons x xs ih =>
      rw [List.mapM_cons]
      cases hx : f x with
      | error e' =>
          rw [hsame x (by simp) e' hx]
          rfl
      | ok b =>
          have htail : xs.mapM f = .error e := by
            apply ih fun y hy => hsame y (by simp [hy])
            obtain ⟨y, hy, hfail⟩ := h
            rcases List.mem_cons.mp hy with rfl | hy
            · rw [hx] at hfail
              cases hfail
            · exact ⟨y, hy, hfail⟩
          rw [htail]
          rfl

theorem forM_eq_ok {f : α → Except ε Unit} {xs : List α} :
    xs.forM f = .ok () ↔ ∀ x ∈ xs, f x = .ok () := by
  induction xs with
  | nil => simp [List.forM, pure, Except.pure]
  | cons x xs ih =>
      change (f x >>= fun _ => xs.forM f) = _ ↔ _
      rw [bind_eq_ok, ih, List.forall_mem_cons, Unique.exists_iff]

theorem mem_mapM_ok {f : α → Except ε β} {xs : List α} {ys : List β}
    (h : xs.mapM f = .ok ys) {y : β} (hmem : y ∈ ys) : ∃ x ∈ xs, f x = .ok y := by
  induction xs generalizing ys with
  | nil =>
      cases h
      cases hmem
  | cons x xs ih =>
      rw [List.mapM_cons] at h
      rcases bind_eq_ok.mp h with ⟨head, hhead, h⟩
      rcases bind_eq_ok.mp h with ⟨tail, htail, h⟩
      cases h
      rcases List.mem_cons.mp hmem with rfl | hmem
      · exact ⟨x, by simp, hhead⟩
      · rcases ih htail hmem with ⟨x', hx', hy⟩
        exact ⟨x', by simp [hx'], hy⟩

theorem mapM_error {f : α → Except ε β} {xs : List α} {e : ε}
    (h : xs.mapM f = .error e) : ∃ x ∈ xs, f x = .error e := by
  by_contra hnone
  push Not at hnone
  induction xs with
  | nil => cases h
  | cons x xs ih =>
      rw [List.mapM_cons] at h
      cases hx : f x with
      | error e' =>
          rw [hx, error_bind] at h
          cases h
          exact hnone x (by simp) hx
      | ok b =>
          cases hxs : xs.mapM f with
          | error e' =>
              rw [hx, ok_bind, hxs, error_bind] at h
              cases h
              exact ih hxs fun y hy => hnone y (by simp [hy])
          | ok bs =>
              rw [hx, ok_bind, hxs] at h
              cases h

theorem ok_of_mapM_ok {f : α → Except ε β} {xs : List α} {ys : List β}
    (h : xs.mapM f = .ok ys) {x : α} (hmem : x ∈ xs) : ∃ y, f x = .ok y := by
  induction xs generalizing ys with
  | nil => cases hmem
  | cons x' xs ih =>
      rw [List.mapM_cons] at h
      rcases bind_eq_ok.mp h with ⟨head, hhead, h⟩
      rcases bind_eq_ok.mp h with ⟨tail, htail, -⟩
      rcases List.mem_cons.mp hmem with rfl | hmem
      · exact ⟨head, hhead⟩
      · exact ih htail hmem

theorem length_of_mapM_ok {f : α → Except ε β} {xs : List α} {ys : List β}
    (h : xs.mapM f = .ok ys) : ys.length = xs.length := by
  induction xs generalizing ys with
  | nil =>
      cases h
      rfl
  | cons x xs ih =>
      rw [List.mapM_cons] at h
      rcases bind_eq_ok.mp h with ⟨head, -, h⟩
      rcases bind_eq_ok.mp h with ⟨tail, htail, h⟩
      cases h
      rw [List.length_cons, List.length_cons, ih htail]

theorem map_of_mapM_ok {γ : Type} {f : α → Except ε β} {g : α → γ} {h : β → γ}
    {xs : List α} {ys : List β} (hf : ∀ x ∈ xs, ∀ y, f x = .ok y → h y = g x)
    (hok : xs.mapM f = .ok ys) : ys.map h = xs.map g := by
  induction xs generalizing ys with
  | nil =>
      cases hok
      rfl
  | cons x xs ih =>
      rw [List.mapM_cons] at hok
      rw [List.forall_mem_cons] at hf
      obtain ⟨y, hy, hok⟩ := bind_eq_ok.mp hok
      obtain ⟨rest, hrest, hok⟩ := bind_eq_ok.mp hok
      cases hok
      rw [List.map_cons, List.map_cons, hf.1 y hy, ih hf.2 hrest]

theorem mapM_ok_iff {f : α → Except ε β} {xs : List α} :
    (∃ ys, xs.mapM f = .ok ys) ↔ ∀ x ∈ xs, ∃ y, f x = .ok y := by
  constructor
  · rintro ⟨ys, h⟩ x hx
    exact ok_of_mapM_ok h hx
  · intro h
    cases hall : xs.mapM f with
    | ok ys => exact ⟨ys, rfl⟩
    | error e =>
        obtain ⟨x, hx, he⟩ := mapM_error hall
        obtain ⟨y, hy⟩ := h x hx
        rw [he] at hy
        cases hy

theorem mapM_eq_ok_iff {f : α → Except ε β} {xs : List α} {ys : List β} :
    xs.mapM f = .ok ys ↔ List.Forall₂ (fun x y => f x = .ok y) xs ys := by
  induction xs generalizing ys with
  | nil => simp [pure, Except.pure, eq_comm, List.forall₂_nil_left_iff]
  | cons x xs ih =>
      rw [List.mapM_cons, List.forall₂_cons_left_iff, bind_eq_ok]
      refine exists_congr fun y => ?_
      rw [bind_eq_ok]
      constructor
      · rintro ⟨hy, rest, hrest, h⟩
        cases h
        exact ⟨rest, hy, ih.mp hrest, rfl⟩
      · rintro ⟨rest, hy, hrest, rfl⟩
        exact ⟨hy, rest, ih.mpr hrest, rfl⟩

/-- Two loops after each other, the second over what the first has made. -/
theorem exists_forall₂_iff {γ : Type} {r : α → β → Prop} {s : β → γ → Prop} {xs : List α}
    {zs : List γ} : (∃ ys, List.Forall₂ r xs ys ∧ List.Forall₂ s ys zs) ↔
      List.Forall₂ (fun x z => ∃ y, r x y ∧ s y z) xs zs := by
  constructor
  · rintro ⟨ys, hr, hs⟩
    induction hr generalizing zs with
    | nil =>
        cases hs
        exact .nil
    | cons hxy _ ih =>
        cases hs with
        | cons hyz hs => exact .cons ⟨_, hxy, hyz⟩ (ih hs)
  · intro h
    induction h with
    | nil => exact ⟨[], .nil, .nil⟩
    | cons hxz _ ih =>
        obtain ⟨y, hxy, hyz⟩ := hxz
        obtain ⟨ys, hr, hs⟩ := ih
        exact ⟨y :: ys, .cons hxy hr, .cons hyz hs⟩

theorem forall₂_forall {ι : Type*} {p : ι → Prop} {r : ι → α → β → Prop} {xs : List α}
    {ys : List β} (hsome : ∃ i, p i) (h : ∀ i, p i → List.Forall₂ (r i) xs ys) :
    List.Forall₂ (fun x y => ∀ i, p i → r i x y) xs ys := by
  obtain ⟨i, hi⟩ := hsome
  refine List.forall₂_iff_get.mpr ⟨(h i hi).length_eq, fun n hx hy i hi => ?_⟩
  exact (List.forall₂_iff_get.mp (h i hi)).2 n hx hy

end Rdbus.Foundation
