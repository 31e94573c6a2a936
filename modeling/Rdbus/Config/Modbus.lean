import Rdbus.Config.Utility
import Rdbus.Data
import Rdbus.Foundation.Outcome
import Mathlib.Tactic.Common

/-!
# Modbus configuration

The registers of a slave and their data orders, as `from_json` reads them.
-/

namespace Rdbus.Config.Modbus

open Foundation

structure Register where
  name : Bytes
  address : Int
  /-- The letters of the data order, `A` being `0`. -/
  byteOrder : List Nat
  type : DataType
  deriving DecidableEq, Repr

structure Slave where
  name : Bytes
  id : Int
  pollTimeMs : Int
  inputRegisters : List Register
  outputRegisters : List Register
  deriving DecidableEq, Repr

/-- `byteOrder.size() / sizeof( uint16_t )`. -/
def Register.words (register : Register) : Nat := register.byteOrder.length / 2

structure RegisterJson where
  name : Option Bytes := none
  address : Option Int := none
  dataOrder : Option Bytes := none
  dataType : Option Bytes := none
  deriving DecidableEq, Repr

structure SlaveJson where
  name : Option Bytes := none
  id : Option Int := none
  pollTimeMs : Option Int := none
  analogInputRegisters : Option (List RegisterJson) := none
  analogOutputRegisters : Option (List RegisterJson) := none
  deriving DecidableEq, Repr

/-- The loop over the letters of a wild `data_order`. -/
def parseOrder : Bytes → Except Throw (List Nat)
  | [] => .ok []
  | c :: rest => do
      throwIf (c < 65 || c > 72)
        (str "Invalid character '" ++ [c] ++ str "' in 'data_order'!")
      let order ← parseOrder rest
      .ok ((c.toNat - 65) :: order)

/-- The three `switch` statements that choose the type by the order's length. -/
def wildType (typeString : Bytes) (size : Nat) : DataType :=
  if typeString = str "FLOAT" then
    if size = 4 then .float else if size = 8 then .double else .none
  else if typeString = str "UINT" then
    if size = 2 then .uint16 else if size = 4 then .uint32
    else if size = 8 then .uint64 else .none
  else
    if size = 2 then .int16 else if size = 4 then .int32
    else if size = 8 then .int64 else .none

def getWildType (typeString orderString : Bytes) :
    Except Throw (DataType × List Nat) := do
  let size := orderString.length
  let order := str "Data order " ++ orderString
  throwIf (size < 2) (order ++ str " cannot be smaller than 2 bytes!")
  throwIf (size > 8) (order ++ str " cannot be bigger than 8 bytes!")
  throwIf (size % 2 ≠ 0) (order ++ str " does not contain even amount of characters!")
  throwIf (size / 2 = 3) (order ++ str " is not a power of 2!")
  throwIf (typeString ≠ str "FLOAT" ∧ typeString ≠ str "UINT" ∧ typeString ≠ str "INT")
    (str "Unknown data type " ++ typeString ++ str "!")
  throwIf (typeString = str "FLOAT" ∧ size < 4)
    (str "Order of float cannot be less than 4 bytes!")
  let byteOrder ← parseOrder orderString
  .ok (wildType typeString byteOrder.length, byteOrder)

/-- `typeMap` of `getStandardType`. -/
def typeMap : List (Bytes × DataType × List Nat) :=
  [(str "FLOAT_64A", .double, [0, 1, 2, 3, 4, 5, 6, 7]),
   (str "FLOAT_64B", .double, [7, 6, 5, 4, 3, 2, 1, 0]),
   (str "FLOAT_32A", .float, [0, 1, 2, 3]),
   (str "FLOAT_32B", .float, [1, 0, 3, 2]),
   (str "FLOAT_32C", .float, [2, 3, 0, 1]),
   (str "FLOAT_32D", .float, [3, 2, 1, 0]),
   (str "UINT_64A", .uint64, [0, 1, 2, 3, 4, 5, 6, 7]),
   (str "UINT_64B", .uint64, [7, 6, 5, 4, 3, 2, 1, 0]),
   (str "UINT_32A", .uint32, [0, 1, 2, 3]),
   (str "UINT_32B", .uint32, [1, 0, 3, 2]),
   (str "UINT_32C", .uint32, [2, 3, 0, 1]),
   (str "UINT_32D", .uint32, [3, 2, 1, 0]),
   (str "UINT_16A", .uint16, [0, 1]),
   (str "UINT_16B", .uint16, [1, 0]),
   (str "INT_64A", .int64, [0, 1, 2, 3, 4, 5, 6, 7]),
   (str "INT_64B", .int64, [7, 6, 5, 4, 3, 2, 1, 0]),
   (str "INT_32A", .int32, [0, 1, 2, 3]),
   (str "INT_32B", .int32, [1, 0, 3, 2]),
   (str "INT_32C", .int32, [2, 3, 0, 1]),
   (str "INT_32D", .int32, [3, 2, 1, 0]),
   (str "INT_16A", .int16, [0, 1]),
   (str "INT_16B", .int16, [1, 0])]

def getStandardType (type : Bytes) : Except Throw (DataType × List Nat) :=
  match typeMap.lookup type with
  | some entry => .ok entry
  | none => .error (parseException (str "Unknown data type " ++ type ++ str "!"))

/-- `from_json` of `Register`. -/
def Register.fromJson (j : RegisterJson) : Except Throw Register := do
  let name ← required j.name (str "No 'name' field present in 'register' section!")
  let address ← required j.address
    (str "No 'address' field present in 'register' section!")
  let order := j.dataOrder.getD []
  let type ← required j.dataType
    (str "No 'data_type' field present in 'register' section!")
  if type = str "FLOAT" ∨ type = str "UINT" ∨ type = str "INT" then
    let (dataType, dataOrder) ← getWildType type order
    .ok ⟨name, address, dataOrder, dataType⟩
  else
    throwIf (order ≠ [])
      (str "Unnecessary 'data_order' field with known 'data_type' field!")
    let (dataType, dataOrder) ← getStandardType type
    .ok ⟨name, address, dataOrder, dataType⟩

/-- `from_json` of `Slave`. -/
def Slave.fromJson (j : SlaveJson) : Except Throw Slave := do
  let name ← required j.name (str "No slave 'name' present!")
  let id ← required j.id (str "No slave 'id' present!")
  let pollTimeMs ← required j.pollTimeMs (str "No slave 'poll_time_ms' present!")
  let inputRegisters ← (j.analogInputRegisters.getD []).mapM Register.fromJson
  let outputRegisters ← (j.analogOutputRegisters.getD []).mapM Register.fromJson
  throwIf (inputRegisters.isEmpty && outputRegisters.isEmpty)
    (str "No slave 'analog_input_registers' or 'analog_output_registers'  present!")
  .ok ⟨name, id, pollTimeMs, inputRegisters, outputRegisters⟩

/-! ## What an accepted register looks like -/

/-- The order has as many letters as the type has bytes, all of them `A .. H`. -/
structure Register.Shaped (register : Register) : Prop where
  numeric : 0 < register.type.width
  length_eq : register.byteOrder.length = register.type.width
  position_lt : ∀ position ∈ register.byteOrder, position < 8

theorem parseOrder_ok {letters : Bytes} {order : List Nat}
    (h : parseOrder letters = .ok order) :
    order = letters.map (fun c => c.toNat - 65) ∧
      ∀ c ∈ letters, 65 ≤ c.toNat ∧ c.toNat ≤ 72 := by
  induction letters generalizing order with
  | nil =>
      cases h
      simp
  | cons c rest ih =>
      obtain ⟨hrange, h⟩ := throwIf_bind_eq_ok.mp h
      obtain ⟨tail, htail, h⟩ := bind_eq_ok.mp h
      cases h
      obtain ⟨horder, hletters⟩ := ih htail
      have hc : 65 ≤ c.toNat ∧ c.toNat ≤ 72 := by
        simp only [Bool.or_eq_false_iff, decide_eq_false_iff_not, UInt8.not_lt,
          UInt8.le_iff_toNat_le] at hrange
        exact hrange
      exact ⟨by rw [horder]; rfl, List.forall_mem_cons.mpr ⟨hc, hletters⟩⟩

private theorem width_wildType {typeString : Bytes} {size : Nat}
    (hsize : size = 2 ∨ size = 4 ∨ size = 8)
    (hfloat : typeString = str "FLOAT" → size ≠ 2) :
    (wildType typeString size).width = size := by
  rcases hsize with rfl | rfl | rfl
  · have hfloat' : typeString ≠ str "FLOAT" := fun h => hfloat h rfl
    rw [wildType, if_neg hfloat']
    split <;> rfl
  · unfold wildType
    split
    · rfl
    · split <;> rfl
  · unfold wildType
    split
    · rfl
    · split <;> rfl

private theorem getWildType_ok {typeString orderString : Bytes}
    {type : DataType} {order : List Nat}
    (h : getWildType typeString orderString = .ok (type, order)) :
    0 < type.width ∧ order.length = type.width ∧
      ∀ position ∈ order, position < 8 := by
  simp only [getWildType, throwIf_bind_eq_ok, decide_eq_false_iff_not] at h
  obtain ⟨hmin, hmax, heven, hsix, -, hfloat, h⟩ := h
  obtain ⟨byteOrder, horder, h⟩ := bind_eq_ok.mp h
  obtain ⟨heq, hletters⟩ := parseOrder_ok horder
  have hlength : byteOrder.length = orderString.length := by simp [heq]
  have hpositions : ∀ position ∈ byteOrder, position < 8 := by
    rw [heq, List.forall_mem_map]
    intro c hc
    have := hletters c hc
    omega
  cases h
  have hsize : order.length = 2 ∨ order.length = 4 ∨ order.length = 8 := by
    omega
  have hwidth : (wildType typeString order.length).width = order.length := by
    apply width_wildType hsize
    intro htype hlength'
    exact hfloat ⟨htype, by omega⟩
  exact ⟨by omega, hwidth.symm, hpositions⟩

private theorem getStandardType_ok {typeString : Bytes} {type : DataType}
    {order : List Nat} (h : getStandardType typeString = .ok (type, order)) :
    0 < type.width ∧ order.length = type.width ∧
      ∀ position ∈ order, position < 8 := by
  have hall : ∀ entry ∈ typeMap, 0 < entry.2.1.width ∧
      entry.2.2.length = entry.2.1.width ∧
      ∀ position ∈ entry.2.2, position < 8 := by
    simp [typeMap, DataType.width]
  rw [getStandardType] at h
  cases hentry : typeMap.lookup typeString with
  | none => simp [hentry] at h
  | some entry =>
      simp only [hentry, Except.ok.injEq] at h
      subst h
      obtain ⟨before, after, hsplit, -⟩ := List.lookup_eq_some_iff.mp hentry
      exact hall (typeString, type, order) (by simp [hsplit])

/-- A wild type has its order in the entry, a standard one has no order there. -/
theorem Register.fromJson_ok {j : RegisterJson} {register : Register}
    (h : Register.fromJson j = .ok register) :
    ∃ typeString, j.dataType = some typeString ∧
      (getWildType typeString (j.dataOrder.getD []) =
          .ok (register.type, register.byteOrder) ∨
        (j.dataOrder.getD [] = [] ∧ getStandardType typeString =
          .ok (register.type, register.byteOrder))) := by
  simp only [Register.fromJson, bind_eq_ok] at h
  obtain ⟨name, -, address, -, typeString, htype, h⟩ := h
  refine ⟨typeString, ?_, ?_⟩
  · cases hdata : j.dataType with
    | none =>
        rw [hdata] at htype
        cases htype
    | some given =>
        rw [hdata] at htype
        exact congrArg some (Except.ok.inj htype)
  · split at h
    case isTrue =>
      obtain ⟨⟨type, order⟩, hparsed, h⟩ := bind_eq_ok.mp h
      cases h
      exact .inl hparsed
    case isFalse =>
      obtain ⟨hnone, h⟩ := throwIf_bind_eq_ok.mp h
      obtain ⟨⟨type, order⟩, hparsed, h⟩ := bind_eq_ok.mp h
      cases h
      exact .inr ⟨by simpa using hnone, hparsed⟩

theorem Register.fromJson_shaped {j : RegisterJson} {register : Register}
    (h : Register.fromJson j = .ok register) : register.Shaped := by
  obtain ⟨typeString, -, hparsed | ⟨-, hparsed⟩⟩ := Register.fromJson_ok h
  · obtain ⟨hnumeric, hlength, hpositions⟩ := getWildType_ok hparsed
    exact ⟨hnumeric, hlength, hpositions⟩
  · obtain ⟨hnumeric, hlength, hpositions⟩ := getStandardType_ok hparsed
    exact ⟨hnumeric, hlength, hpositions⟩

end Rdbus.Config.Modbus
