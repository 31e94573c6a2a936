import Rdbus.Communication.Modbus.Interpreter
import Rdbus.Foundation.Outcome
import Rdbus.Variant
import Mathlib.Data.List.SplitLengths

/-!
# What `parse` computes

The words of a reply are cut into one piece per register, in order, and every
piece is decoded on its own.  `parse` returns exactly these values when there
are enough words and every position of an order lies inside its register; with
fewer words, or with a position outside, it reads outside a container.
-/

namespace Rdbus.Communication.Modbus

open Foundation
open Config.Modbus

/-! ## Merging words -/

/-- The bytes of a list of words, as the device sent them. -/
def cellBytes (cells : List (UInt8 × UInt8)) : Bytes :=
  cells.flatMap fun cell => [cell.1, cell.2]

/-- The sizes of the pieces, one for each register. -/
def sizes (registers : List Register) : List Nat := registers.map Register.words

@[simp] theorem length_toRaw16BitRegisters (input : List UInt16) :
    (toRaw16BitRegisters input).length = input.length := by
  simp [toRaw16BitRegisters]

@[simp] theorem length_cellBytes (cells : List (UInt8 × UInt8)) :
    (cellBytes cells).length = 2 * cells.length := by
  induction cells with
  | nil => rfl
  | cons cell cells ih =>
      simp only [cellBytes, List.flatMap_cons, List.length_append,
        List.length_cons, List.length_nil] at ih ⊢
      omega

theorem mergeWord_ok {input : List (UInt8 × UInt8)} {i count : Nat}
    (h : i + count ≤ input.length) (word : Bytes) :
    mergeWord input i count word =
      .ok (word ++ cellBytes ((input.drop i).take count)) := by
  induction count generalizing i word with
  | zero => simp [mergeWord, cellBytes]
  | succ count ih =>
      have hi : i < input.length := by omega
      rw [mergeWord, index_of_lt hi, List.drop_eq_getElem_cons hi,
        List.take_succ_cons]
      change mergeWord input (i + 1) count _ = _
      rw [ih (by omega)]
      simp [cellBytes]

theorem mergeWord_short {input : List (UInt8 × UInt8)} {i count : Nat}
    (h : input.length < i + count) (hi : i ≤ input.length) (word : Bytes) :
    mergeWord input i count word = .error .undefinedBehaviour := by
  induction count generalizing i word with
  | zero => omega
  | succ count ih =>
      rw [mergeWord]
      rcases hi.lt_or_eq with hlt | heq
      · rw [index_of_lt hlt]
        exact ih (by omega) hlt _
      · rw [index_of_ge heq.ge]
        rfl

theorem mergeFrom_ok {input : List (UInt8 × UInt8)} {registers : List Register}
    {i : Nat} (h : i + (sizes registers).sum ≤ input.length) :
    mergeFrom input i registers =
      .ok (((sizes registers).splitLengths (input.drop i)).map cellBytes) := by
  induction registers generalizing i with
  | nil => rfl
  | cons register registers ih =>
      simp only [sizes, List.map_cons, List.sum_cons] at h
      rw [mergeFrom, mergeWord_ok (by omega)]
      change (mergeFrom input (i + register.words) registers >>= _) = _
      rw [ih (by simp only [sizes]; omega)]
      simp [sizes, List.drop_drop, bind, Except.bind]

theorem mergeFrom_short {input : List (UInt8 × UInt8)}
    {registers : List Register} {i : Nat}
    (h : input.length < i + (sizes registers).sum) (hi : i ≤ input.length) :
    mergeFrom input i registers = .error .undefinedBehaviour := by
  induction registers generalizing i with
  | nil => simp [sizes] at h; omega
  | cons register registers ih =>
      simp only [sizes, List.map_cons, List.sum_cons] at h
      rw [mergeFrom]
      by_cases hword : i + register.words ≤ input.length
      · rw [mergeWord_ok hword]
        change (mergeFrom input (i + register.words) registers >>= _) = _
        rw [ih (by simp only [sizes]; omega) hword]
        rfl
      · rw [mergeWord_short (by omega) hi]
        rfl

/-! ## Decoding one register -/

/-- What decoding a register relies on. -/
structure Usable (register : Register) : Prop where
  numeric : 0 < register.type.width
  length_eq : register.byteOrder.length = register.type.width
  position_lt : ∀ position ∈ register.byteOrder,
    position < register.byteOrder.length

/-- The order is a permutation of the places of the register's numeric type. -/
structure WellOrdered (register : Register) : Prop where
  numeric : 0 < register.type.width
  perm : register.byteOrder.Perm (List.range register.type.width)

theorem WellOrdered.length_eq {register : Register} (h : WellOrdered register) :
    register.byteOrder.length = register.type.width := by
  simpa using h.perm.length_eq

theorem WellOrdered.usable {register : Register} (h : WellOrdered register) :
    Usable register where
  numeric := h.numeric
  length_eq := h.length_eq
  position_lt position hmem := by
    rw [h.length_eq]
    exact lt_of_perm_range h.perm hmem

/-- The value of a register whose own words are `words`. -/
def decodeValue (register : Register) (words : List UInt16) : Variant :=
  .ofBits register.type (littleEndian
    (gather register.byteOrder (cellBytes (toRaw16BitRegisters words))).reverse)

theorem reorder_ok {byteOrder : List Nat} {input : Bytes}
    (h : ∀ position ∈ byteOrder, position < input.length) :
    reorder byteOrder input = .ok (gather byteOrder input) := by
  apply mapM_eq_ok_map
  intro position hmem
  have hlt := h position hmem
  rw [index_of_lt hlt, List.getD_eq_getElem _ _ hlt]

theorem reorder_outside {byteOrder : List Nat} {input : Bytes}
    (h : ∃ position ∈ byteOrder, input.length ≤ position) :
    reorder byteOrder input = .error .undefinedBehaviour := by
  apply mapM_eq_error
  · intro position _ e he
    rcases Nat.lt_or_ge position input.length with hlt | hge
    · rw [index_of_lt hlt] at he
      cases he
    · rw [index_of_ge hge] at he
      exact (Except.error.inj he).symm
  · obtain ⟨position, hmem, hge⟩ := h
    exact ⟨position, hmem, index_of_ge hge⟩

theorem reinterpret_eq {type : DataType} {word : Bytes}
    (hnumeric : 0 < type.width) (hlength : word.length = type.width) :
    reinterpret type word = .ok (.ofBits type (littleEndian word)) := by
  have htake : word.take type.width = word := by
    rw [← hlength, List.take_length]
  cases type <;> simp only [DataType.width, Nat.lt_irrefl] at * <;>
    simp [reinterpret, readBytes, hlength, htake, Variant.ofBits, bind,
      Except.bind, pure, Except.pure]

/-! ## The whole pipeline -/

/-- The words of a reply, cut into one piece for each register. -/
def pieces (registers : List Register) (words : List UInt16) :
    List (List UInt16 × Register) :=
  ((sizes registers).splitLengths words).zip registers

def decodedFields (registers : List Register) (words : List UInt16)
    (timestamp : Timestamp) : List Data.Field :=
  (pieces registers words).map fun piece =>
    { name := piece.2.name
      value := some (decodeValue piece.2 piece.1)
      timestamp }

@[simp] theorem length_pieces (registers : List Register) (words : List UInt16) :
    (pieces registers words).length = registers.length := by
  simp [pieces, sizes]

@[simp] theorem length_decodedFields (registers : List Register)
    (words : List UInt16) (timestamp : Timestamp) :
    (decodedFields registers words timestamp).length = registers.length := by
  simp [decodedFields]

theorem length_of_mem_pieces {registers : List Register} {words : List UInt16}
    (h : (sizes registers).sum ≤ words.length) {piece : List UInt16 × Register}
    (hmem : piece ∈ pieces registers words) :
    piece.1.length = piece.2.words := by
  obtain ⟨i, hi, rfl⟩ := List.mem_iff_getElem.mp hmem
  have hlengths := List.map_splitLengths_length words (sizes registers) h
  have hi' : i < registers.length := by simpa using hi
  have hlength := congrArg (fun lengths => lengths[i]?) hlengths
  simpa [pieces, sizes, hi'] using hlength

private theorem splitLengths_map {α β : Type} (f : α → β) (lengths : List Nat)
    (xs : List α) :
    lengths.splitLengths (xs.map f) = (lengths.splitLengths xs).map (List.map f) := by
  induction lengths generalizing xs with
  | nil => rfl
  | cons length lengths ih =>
      simp only [List.splitLengths, List.splitAt_eq, List.map_cons,
        ← List.map_take, ← List.map_drop, ih]

private theorem zip_map_zip {α β γ : Type} (f : α × β → γ) (xs : List α)
    (ys : List β) :
    ((xs.zip ys).map f).zip ys = (xs.zip ys).map fun p => (f p, p.2) := by
  induction xs generalizing ys with
  | nil => rfl
  | cons x xs ih =>
      cases ys with
      | nil => rfl
      | cons y ys => simp [ih ys]

/-- The output of the second stage when the reply is long enough. -/
theorem toRawMergedRegisters_ok {registers : List Register} {words : List UInt16}
    (h : (sizes registers).sum ≤ words.length) :
    toRawMergedRegisters (toRaw16BitRegisters words) registers =
      .ok (((sizes registers).splitLengths words).map fun own =>
        cellBytes (toRaw16BitRegisters own)) := by
  rw [toRawMergedRegisters, mergeFrom_ok (by simpa using h), List.drop_zero,
    toRaw16BitRegisters, splitLengths_map, List.map_map]
  rfl

/-- The third stage runs over the pieces. -/
theorem toUserInterpretation_eq (registers : List Register) (words : List UInt16) :
    toUserInterpretation
        (((sizes registers).splitLengths words).map fun own =>
          cellBytes (toRaw16BitRegisters own)) registers =
      (pieces registers words).mapM fun piece =>
        reorder piece.2.byteOrder (cellBytes (toRaw16BitRegisters piece.1)) := by
  rw [toUserInterpretation, if_neg (by simp [sizes])]
  simp only [pieces, List.zip_map_left, List.mapM_map]
  rfl

private theorem length_word {register : Register} (h : Usable register)
    {own : List UInt16} (hown : own.length = register.words) :
    (cellBytes (toRaw16BitRegisters own)).length = register.byteOrder.length := by
  have heven := register.type.even_width
  rw [length_cellBytes, length_toRaw16BitRegisters, hown, Register.words,
    h.length_eq]
  omega

theorem parse_ok {response : ModbusResponse} {registers : List Register}
    (husable : ∀ register ∈ registers, Usable register)
    (h : (sizes registers).sum ≤ response.registerValues.length)
    (timestamp : Timestamp) :
    parse response registers timestamp =
      .ok (decodedFields registers response.registerValues timestamp) := by
  have hpiece : ∀ piece ∈ pieces registers response.registerValues,
      Usable piece.2 ∧
        (cellBytes (toRaw16BitRegisters piece.1)).length =
          piece.2.byteOrder.length := by
    intro piece hmem
    have hregister := husable piece.2 (List.of_mem_zip hmem).2
    exact ⟨hregister, length_word hregister (length_of_mem_pieces h hmem)⟩
  have hreorder : (pieces registers response.registerValues).mapM (fun piece =>
        reorder piece.2.byteOrder (cellBytes (toRaw16BitRegisters piece.1))) =
      .ok ((pieces registers response.registerValues).map fun piece =>
        gather piece.2.byteOrder (cellBytes (toRaw16BitRegisters piece.1))) := by
    apply mapM_eq_ok_map
    intro piece hmem
    obtain ⟨hregister, hlength⟩ := hpiece piece hmem
    apply reorder_ok
    intro position hposition
    rw [hlength]
    exact hregister.position_lt position hposition
  have hfields : (pieces registers response.registerValues).mapM (fun piece =>
        (do
          let value ← reinterpret piece.2.type
            (gather piece.2.byteOrder
              (cellBytes (toRaw16BitRegisters piece.1))).reverse
          return { name := piece.2.name, value := some value, timestamp } :
          Except Throw Data.Field)) =
      .ok (decodedFields registers response.registerValues timestamp) := by
    apply mapM_eq_ok_map
    intro piece hmem
    obtain ⟨hregister, -⟩ := hpiece piece hmem
    rw [reinterpret_eq hregister.numeric (by simp [hregister.length_eq])]
    rfl
  rw [parse, toRawMergedRegisters_ok h]
  change (toUserInterpretation _ registers >>= _) = _
  rw [toUserInterpretation_eq, hreorder]
  change toParsedFields (toMachineInterpretation _) registers timestamp = _
  rw [toMachineInterpretation, toParsedFields, if_neg (by simp), List.map_map]
  simp only [pieces, zip_map_zip, List.mapM_map]
  exact hfields

theorem parse_short {response : ModbusResponse} {registers : List Register}
    (h : response.registerValues.length < (sizes registers).sum)
    (timestamp : Timestamp) :
    parse response registers timestamp = .error .undefinedBehaviour := by
  rw [parse, toRawMergedRegisters, mergeFrom_short (by simpa using h) (by simp)]
  rfl

theorem parse_outside {response : ModbusResponse} {registers : List Register}
    (h : (sizes registers).sum ≤ response.registerValues.length)
    (houtside : ∃ register ∈ registers, ∃ position ∈ register.byteOrder,
      2 * register.words ≤ position) (timestamp : Timestamp) :
    parse response registers timestamp = .error .undefinedBehaviour := by
  have hreorder : (pieces registers response.registerValues).mapM (fun piece =>
        reorder piece.2.byteOrder (cellBytes (toRaw16BitRegisters piece.1))) =
      .error .undefinedBehaviour := by
    apply mapM_eq_error
    · intro piece _ e he
      by_cases hall : ∀ position ∈ piece.2.byteOrder,
          position < (cellBytes (toRaw16BitRegisters piece.1)).length
      · rw [reorder_ok hall] at he
        cases he
      · push Not at hall
        rw [reorder_outside hall] at he
        exact (Except.error.inj he).symm
    · obtain ⟨register, hmem, position, hposition, hge⟩ := houtside
      obtain ⟨i, hi, rfl⟩ := List.mem_iff_getElem.mp hmem
      have hi' : i < (pieces registers response.registerValues).length := by
        simpa using hi
      have hpiece := List.getElem_mem hi'
      have hregister : (pieces registers response.registerValues)[i].2 =
          registers[i] := by
        simp [pieces]
      refine ⟨_, hpiece, reorder_outside ⟨position, ?_, ?_⟩⟩
      · rw [hregister]
        exact hposition
      · rw [length_cellBytes, length_toRaw16BitRegisters,
          length_of_mem_pieces h hpiece, hregister]
        exact hge
  rw [parse, toRawMergedRegisters_ok h]
  change (toUserInterpretation _ registers >>= _) = _
  rw [toUserInterpretation_eq, hreorder]
  rfl

end Rdbus.Communication.Modbus
