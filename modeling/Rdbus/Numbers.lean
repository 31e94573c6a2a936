import Rdbus.Conversions
import Rdbus.Foundation.Delimited
import Mathlib.Data.List.TakeWhile

/-!
# The number a text begins with

`std::atoi` reads the number behind the leading blanks and nothing of what
follows it.  `Begins` says so by a grammar; the scanner finds this number, and
finds none exactly where there is none.
-/

namespace Rdbus

open Foundation

structure Digits (digits : Bytes) : Prop where
  nonempty : digits ≠ []
  digit : ∀ c ∈ digits, isDigit c = true

/-- A decimal integer, with or without a sign. -/
inductive Spells : Bytes → Int → Prop where
  | plain {digits : Bytes} (h : Digits digits) : Spells digits (decimal digits)
  | plus {digits : Bytes} (h : Digits digits) : Spells (43 :: digits) (decimal digits)
  | minus {digits : Bytes} (h : Digits digits) : Spells (45 :: digits) (-decimal digits)

/-- Blanks, all of a decimal integer, and the rest. -/
def Begins (text : Bytes) (number : Int) : Prop :=
  ∃ blanks numeral rest, text = blanks ++ (numeral ++ rest) ∧
    (∀ c ∈ blanks, isSpace c = true) ∧ Spells numeral number ∧
    ∀ c ∈ rest.head?, isDigit c = false

/-- A number saturates at the ends of `long` and is then converted to `int`. -/
def narrowed (number : Int) : Int := (max (-2 ^ 63) (min (2 ^ 63 - 1) number)).bmod (2 ^ 32)

/-- The number at the beginning of the text is converted to `n`; without one `n` is 0. -/
def Yields (text : Bytes) (n : Int) : Prop :=
  (∃ number, Begins text number ∧ narrowed number = n) ∨
    ((∀ number, ¬ Begins text number) ∧ n = 0)

/-! ## Characters of a number -/

theorem isHexDigit_iff {c : UInt8} : isHexDigit c ↔
    (48 ≤ c.toNat ∧ c.toNat ≤ 57) ∨ (65 ≤ c.toNat ∧ c.toNat ≤ 70) ∨
      (97 ≤ c.toNat ∧ c.toNat ≤ 102) := by
  unfold isHexDigit hexDigit isDigit
  simp only [Bool.and_eq_true, decide_eq_true_eq, UInt8.le_iff_toNat_le]
  split_ifs with hdigit hupper hlower <;> simp_all

theorem isHexDigit_plain {c : UInt8} (h : isHexDigit c) :
    isSpace c = false ∧ c ≠ 45 ∧ c ≠ 43 ∧ lower c ≠ 120 := by
  rw [isHexDigit_iff] at h
  refine ⟨?_, ?_, ?_, ?_⟩
  · simp only [isSpace, Bool.or_eq_false_iff, Bool.and_eq_false_iff,
      decide_eq_false_iff_not, ← UInt8.toNat_inj, UInt8.le_iff_toNat_le]
    simp
    omega
  · rintro rfl
    simp at h
  · rintro rfl
    simp at h
  · unfold lower
    simp only [Bool.and_eq_true, decide_eq_true_eq, UInt8.le_iff_toNat_le]
    split_ifs with hupper <;>
      simp only [ne_eq, ← UInt8.toNat_inj, UInt8.toNat_add] <;> simp at * <;> omega

theorem isDigit_plain {c : UInt8} (h : isDigit c = true) :
    isSpace c = false ∧ c ≠ 0 ∧ c ≠ 45 ∧ c ≠ 43 := by
  have hhex : isHexDigit c := by simp [isHexDigit, hexDigit, h]
  obtain ⟨hspace, hminus, hplus, -⟩ := isHexDigit_plain hhex
  refine ⟨hspace, ?_, hminus, hplus⟩
  rintro rfl
  simp [isDigit] at h

/-! ## The scanner and what follows -/

/-- A character that belongs to no number. -/
structure Foreign (c : UInt8) : Prop where
  space : isSpace c = false
  digit : isDigit c = false
  minus : c ≠ 45
  plus : c ≠ 43

theorem takeSign_append {rest : Bytes} (h : ∀ c ∈ rest.head?, Foreign c) (text : Bytes) :
    takeSign (text ++ rest) = ((takeSign text).1, (takeSign text).2 ++ rest) := by
  cases text with
  | nil =>
      cases rest with
      | nil => rfl
      | cons c rest =>
          have hc := h c rfl
          simp [takeSign, hc.minus, hc.plus]
  | cons c text =>
      rw [List.cons_append, takeSign, takeSign]
      split_ifs <;> rfl

theorem scanInteger_append {rest : Bytes} (h : ∀ c ∈ rest.head?, Foreign c) (text : Bytes) :
    scanInteger (text ++ rest) = scanInteger text := by
  rw [scanInteger, scanInteger, dropWhile_append_stop (fun c hc => (h c hc).space),
    takeSign_append h]
  simp only [takeWhile_append_stop fun c hc => (h c hc).digit]

/-! ## The scanner and the grammar -/

theorem Digits.front {digits : Bytes} (h : Digits digits) :
    ∃ c rest, digits = c :: rest ∧ isSpace c = false ∧ c ≠ 0 ∧ c ≠ 45 ∧ c ≠ 43 := by
  obtain ⟨c, rest, rfl⟩ := List.exists_cons_of_ne_nil h.nonempty
  exact ⟨c, rest, rfl, isDigit_plain (h.digit c List.mem_cons_self)⟩

theorem Spells.split {numeral : Bytes} {number : Int} (h : Spells numeral number) :
    ∃ negative digits, Digits digits ∧ number = signedValue negative (decimal digits) ∧
      (∀ rest, takeSign (numeral ++ rest) = (negative, digits ++ rest)) ∧
      ∀ rest, (numeral ++ rest).dropWhile isSpace = numeral ++ rest := by
  cases h with
  | plain h =>
      obtain ⟨c, rest, rfl, hspace, -, hminus, hplus⟩ := h.front
      exact ⟨false, c :: rest, h, rfl, fun rest => by simp [takeSign, hminus, hplus],
        fun rest => by simp [hspace]⟩
  | plus h => exact ⟨false, _, h, rfl, fun rest => rfl, fun rest => rfl⟩
  | minus h => exact ⟨true, _, h, rfl, fun rest => rfl, fun rest => rfl⟩

theorem Spells.begins {numeral : Bytes} {number : Int} (h : Spells numeral number) :
    Begins numeral number :=
  ⟨[], numeral, [], by simp, by simp, h, by simp⟩

theorem Spells.ne_zero {numeral : Bytes} {number : Int} (h : Spells numeral number) :
    ∀ c ∈ numeral, c ≠ 0 := by
  have hdigits : ∀ {digits : Bytes}, Digits digits → ∀ c ∈ digits, c ≠ 0 :=
    fun h c hc => (isDigit_plain (h.digit c hc)).2.1
  cases h with
  | plain h => exact hdigits h
  | plus h => exact List.forall_mem_cons.mpr ⟨by decide, hdigits h⟩
  | minus h => exact List.forall_mem_cons.mpr ⟨by decide, hdigits h⟩

theorem scanInteger_of_begins {text : Bytes} {number : Int} (h : Begins text number) :
    ∃ negative magnitude, scanInteger text = some (negative, magnitude) ∧
      number = signedValue negative magnitude := by
  obtain ⟨blanks, numeral, rest, rfl, hblanks, hspells, hrest⟩ := h
  obtain ⟨negative, digits, hdigits, rfl, hsign, hfront⟩ := hspells.split
  refine ⟨negative, decimal digits, ?_, rfl⟩
  have hall : (digits ++ rest).takeWhile isDigit = digits := by
    rw [takeWhile_append_stop hrest, List.takeWhile_eq_self_iff.mpr hdigits.digit]
  rw [scanInteger, List.dropWhile_append_of_pos hblanks, hfront, hsign]
  simp [hall, hdigits.nonempty]

theorem spells_of_takeSign {text digits rest : Bytes} {negative : Bool} (h : Digits digits)
    (hsign : takeSign text = (negative, digits ++ rest)) :
    ∃ numeral, text = numeral ++ rest ∧
      Spells numeral (signedValue negative (decimal digits)) := by
  cases text with
  | nil =>
      rw [takeSign, Prod.mk.injEq] at hsign
      exact absurd (List.append_eq_nil_iff.mp hsign.2.symm).1 h.nonempty
  | cons c text =>
      rw [takeSign] at hsign
      split_ifs at hsign with hminus hplus
      · obtain ⟨rfl, rfl⟩ := Prod.mk.inj hsign
        exact ⟨45 :: digits, by rw [hminus]; rfl, .minus h⟩
      · obtain ⟨rfl, rfl⟩ := Prod.mk.inj hsign
        exact ⟨43 :: digits, by rw [hplus]; rfl, .plus h⟩
      · obtain ⟨rfl, heq⟩ := Prod.mk.inj hsign
        exact ⟨digits, heq, .plain h⟩

theorem begins_of_scanInteger {text : Bytes} {negative : Bool} {magnitude : Nat}
    (h : scanInteger text = some (negative, magnitude)) :
    Begins text (signedValue negative magnitude) := by
  cases hsign : takeSign (text.dropWhile isSpace) with
  | mk negative' behind =>
      have hdigit : ∀ c ∈ behind.takeWhile isDigit, isDigit c = true :=
        fun c hc => List.mem_takeWhile_imp hc
      simp only [scanInteger, hsign, Option.ite_none_left_eq_some, List.isEmpty_iff,
        Option.some.injEq, Prod.mk.injEq] at h
      obtain ⟨hne, rfl, rfl⟩ := h
      have hsplit : takeSign (text.dropWhile isSpace) =
          (negative', behind.takeWhile isDigit ++ behind.dropWhile isDigit) := by
        rw [hsign, List.takeWhile_append_dropWhile]
      obtain ⟨numeral, hnumeral, hspells⟩ := spells_of_takeSign ⟨hne, hdigit⟩ hsplit
      refine ⟨text.takeWhile isSpace, numeral, behind.dropWhile isDigit, ?_,
        fun c hc => List.mem_takeWhile_imp hc, hspells, head?_dropWhile_stop isDigit behind⟩
      rw [← hnumeral, List.takeWhile_append_dropWhile]

theorem atoi_of_begins {text : Bytes} {number : Int} (h : Begins text number) :
    atoi text = narrowed number := by
  obtain ⟨negative, magnitude, hscan, rfl⟩ := scanInteger_of_begins h
  rw [atoi, strtol, hscan, narrowed]

theorem atoi_of_not_begins {text : Bytes} (h : ∀ number, ¬ Begins text number) :
    atoi text = 0 := by
  cases hscan : scanInteger text with
  | none =>
      rw [atoi, strtol, hscan]
      rfl
  | some found => exact absurd (begins_of_scanInteger hscan) (h _)

theorem atoi_eq_iff {text : Bytes} {n : Int} : atoi text = n ↔ Yields text n := by
  by_cases hbegins : ∃ number, Begins text number
  case pos =>
    obtain ⟨number, hnumber⟩ := hbegins
    constructor
    · intro h
      exact .inl ⟨number, hnumber, (atoi_of_begins hnumber).symm.trans h⟩
    · rintro (⟨other, hother, rfl⟩ | ⟨hnone, -⟩)
      · exact atoi_of_begins hother
      · exact absurd hnumber (hnone number)
  case neg =>
    have hnone := not_exists.mp hbegins
    rw [atoi_of_not_begins hnone]
    constructor
    · rintro rfl
      exact .inr ⟨hnone, rfl⟩
    · rintro (hsome | ⟨-, rfl⟩)
      · exact absurd (hsome.imp fun _ h => h.1) hbegins
      · rfl

theorem strtoi_eq_some {text : Bytes} {n : Int} :
    strtoi text = some n ↔ Begins text n ∧ -2 ^ 31 ≤ n ∧ n < 2 ^ 31 := by
  unfold strtoi
  cases hscan : scanInteger text with
  | none =>
      refine iff_of_false (fun h => by cases h) ?_
      rintro ⟨hbegins, -⟩
      obtain ⟨_, _, hsome, -⟩ := scanInteger_of_begins hbegins
      rw [hscan] at hsome
      cases hsome
  | some found =>
      obtain ⟨negative, magnitude⟩ := found
      change (if _ then some _ else none) = some n ↔ _
      rw [Option.ite_none_right_eq_some, Option.some.injEq]
      constructor
      · rintro ⟨hrange, rfl⟩
        exact ⟨begins_of_scanInteger hscan, hrange⟩
      · rintro ⟨hbegins, hrange⟩
        obtain ⟨_, _, hsome, hvalue⟩ := scanInteger_of_begins hbegins
        rw [hscan] at hsome
        cases hsome
        exact ⟨hvalue ▸ hrange, hvalue.symm⟩

theorem stoi_eq_ok {text : Bytes} {n : Int} :
    stoi text = .ok n ↔ Begins (cString text) n ∧ -2 ^ 31 ≤ n ∧ n < 2 ^ 31 := by
  rw [← strtoi_eq_some, stoi, stoa]
  cases strtoi (cString text) <;> simp

end Rdbus
