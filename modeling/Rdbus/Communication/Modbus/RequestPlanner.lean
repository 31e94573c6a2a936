import Rdbus.Communication.Modbus.Interpreter
import Rdbus.Foundation.ListSort
import Mathlib.Algebra.Order.BigOperators.Group.List

/-!
# The request planner

Registers of one kind are sorted by address and grouped while each one ends
where the next one starts; every group becomes one request.

`registers.begin()->address` is read before the loop, also when the list is
empty.  What that read gives is the parameter `pastEnd`: an arbitrary `int`
when only the plan matters, undefined behaviour when the read itself does.
-/

namespace Rdbus.Communication.Modbus

open Foundation
open Config.Modbus

/-- What the `MB::ModbusRequest` constructor keeps of its arguments. -/
structure ModbusRequest where
  slaveId : UInt8
  functionCode : MBFunctionCode
  address : UInt16
  registersNumber : UInt16
  deriving DecidableEq, Repr

structure RequestDescription where
  request : ModbusRequest
  registers : List Register
  deriving DecidableEq, Repr

/-- `std::accumulate` over the group. -/
def rawRegisterCount (group : List Register) : Nat :=
  group.foldl (fun accumulator next => next.words + accumulator) 0

/--
The description of a finished group.  The id, the address and the count are
`int`s, which the parameters `uint8_t` and `uint16_t` of the constructor narrow.
-/
def describe (slaveId : Int) (code : MBFunctionCode) (address : Int)
    (group : List Register) : RequestDescription :=
  ⟨⟨UInt8.ofInt slaveId, code, UInt16.ofInt address, UInt16.ofNat (rawRegisterCount group)⟩,
    group⟩

/-- `it->address + size != std::next( it )->address`, computed in `size_t`. -/
def breaksAfter (it next : Register) : Bool :=
  (sizeT it.address + it.words) % 2 ^ 64 != sizeT next.address

/-- The loop; `address` and `group` are the group collected so far. -/
def planFrom (slaveId : Int) (code : MBFunctionCode) :
    Int → List Register → List Register → List RequestDescription
  | _, _, [] => []
  | address, group, [it] => [describe slaveId code address (group ++ [it])]
  | address, group, it :: next :: rest =>
      if breaksAfter it next then
        describe slaveId code address (group ++ [it]) ::
          planFrom slaveId code next.address [] (next :: rest)
      else planFrom slaveId code address (group ++ [it]) (next :: rest)

/-- `registers.begin()->address`. -/
def beginAddress (pastEnd : Except Throw Int) : List Register → Except Throw Int
  | [] => pastEnd
  | register :: _ => .ok register.address

/-- The static `requestPlan` for the registers of one kind. -/
def requestPlanOf (pastEnd : Except Throw Int) (slaveId : Int)
    (code : MBFunctionCode) (registers : List Register) :
    Except Throw (List RequestDescription) := do
  let registers := sortByKey Register.address registers
  let address ← beginAddress pastEnd registers
  return planFrom slaveId code address [] registers

def requestPlan (pastEnd : Except Throw Int) (slave : Slave) :
    Except Throw (List RequestDescription) := do
  let descriptions1 ← requestPlanOf pastEnd slave.id
    .readAnalogOutputHoldingRegisters slave.outputRegisters
  let descriptions2 ← requestPlanOf pastEnd slave.id
    .readAnalogInputRegisters slave.inputRegisters
  return descriptions1 ++ descriptions2

/-! ## Groups -/

/-- The loop leaves the group open between the two. -/
def Adjacent (it next : Register) : Prop := breaksAfter it next = false

/-- The registers follow one another without a gap, from `address` on. -/
def Contiguous : Int → List Register → Prop
  | _, [] => True
  | address, register :: rest =>
      register.address = address ∧ Contiguous (address + register.words) rest

theorem rawRegisterCount_eq (group : List Register) :
    rawRegisterCount group = (group.map Register.words).sum := by
  have hfold : ∀ accumulator : Nat,
      group.foldl (fun accumulator next => next.words + accumulator) accumulator =
        accumulator + (group.map Register.words).sum := by
    induction group with
    | nil => simp
    | cons register group ih =>
        intro accumulator
        rw [List.foldl_cons, ih, List.map_cons, List.sum_cons]
        omega
  rw [rawRegisterCount, hfold, Nat.zero_add]

theorem contiguous_append {address : Int} {group rest : List Register} :
    Contiguous address (group ++ rest) ↔
      Contiguous address group ∧
        Contiguous (address + ((group.map Register.words).sum : Nat)) rest := by
  induction group generalizing address with
  | nil => simp [Contiguous]
  | cons register group ih =>
      simp only [List.cons_append, Contiguous, ih, List.map_cons, List.sum_cons,
        and_assoc, Nat.cast_add, Int.add_assoc]

theorem adjacent_iff {it next : Register} (hit : 0 ≤ it.address ∧ it.address ≤ 65535)
    (hnext : 0 ≤ next.address ∧ next.address ≤ 65535) (hwords : it.words ≤ 65535) :
    Adjacent it next ↔ next.address = it.address + it.words := by
  have hit' := sizeT_of_nonneg hit.1 (by omega)
  have hnext' := sizeT_of_nonneg hnext.1 (by omega)
  rw [Adjacent, breaksAfter, bne_eq_false_iff_eq, Nat.mod_eq_of_lt (by omega)]
  omega

theorem contiguous_iff_isChain {registers : List Register}
    (haddress : ∀ register ∈ registers, 0 ≤ register.address ∧ register.address ≤ 65535)
    (hwords : ∀ register ∈ registers, register.words ≤ 65535) {first : Register}
    (hfirst : registers.head? = some first) :
    Contiguous first.address registers ↔ registers.IsChain Adjacent := by
  induction registers generalizing first with
  | nil => simp at hfirst
  | cons it rest ih =>
      cases hfirst
      cases rest with
      | nil => simp [Contiguous]
      | cons next rest =>
          rw [List.forall_mem_cons] at haddress hwords
          rw [List.isChain_cons_cons, ← ih haddress.2 hwords.2 rfl,
            adjacent_iff haddress.1 (haddress.2 next (by simp)) hwords.1]
          simp only [Contiguous, true_and]
          exact and_congr_right fun hnext => by rw [hnext]

/-- A description the loop made, of registers between which no group ends. -/
structure Formed (slaveId : Int) (code : MBFunctionCode)
    (description : RequestDescription) : Prop where
  start : ∃ first, description.registers.head? = some first ∧
    description = describe slaveId code first.address description.registers
  joined : description.registers.IsChain Adjacent

namespace Formed

variable {slaveId : Int} {code : MBFunctionCode} {description : RequestDescription}

theorem nonempty (h : Formed slaveId code description) : description.registers ≠ [] := by
  obtain ⟨first, hfirst, -⟩ := h.start
  rintro hnil
  simp [hnil] at hfirst

theorem slaveId_eq (h : Formed slaveId code description) :
    description.request.slaveId = UInt8.ofInt slaveId := by
  obtain ⟨first, -, hdescribe⟩ := h.start
  rw [hdescribe]
  rfl

theorem functionCode (h : Formed slaveId code description) :
    description.request.functionCode = code := by
  obtain ⟨first, -, hdescribe⟩ := h.start
  rw [hdescribe]
  rfl

theorem address (h : Formed slaveId code description) {first : Register}
    (hfirst : description.registers.head? = some first) :
    description.request.address = UInt16.ofInt first.address := by
  obtain ⟨first', hfirst', hdescribe⟩ := h.start
  cases hfirst.symm.trans hfirst'
  rw [hdescribe]
  rfl

theorem count (h : Formed slaveId code description) : description.request.registersNumber =
    UInt16.ofNat (description.registers.map Register.words).sum := by
  obtain ⟨first, -, hdescribe⟩ := h.start
  rw [hdescribe]
  exact congrArg UInt16.ofNat (rawRegisterCount_eq _)

end Formed

/-- Loop invariant: the group collected so far and the next register form a description. -/
theorem formed_planFrom {slaveId : Int} {code : MBFunctionCode} {address : Int}
    {group registers : List Register}
    (h : ∀ it rest, registers = it :: rest →
      (group ++ [it]).head?.map Register.address = some address ∧
        (group ++ [it]).IsChain Adjacent) :
    ∀ description ∈ planFrom slaveId code address group registers,
      Formed slaveId code description := by
  induction registers generalizing address group with
  | nil => simp [planFrom]
  | cons it rest ih =>
      obtain ⟨hstart, hjoined⟩ := h it rest rfl
      obtain ⟨first, hfirst, rfl⟩ := Option.map_eq_some_iff.mp hstart
      have hformed : Formed slaveId code
          (describe slaveId code first.address (group ++ [it])) :=
        ⟨⟨first, hfirst, rfl⟩, hjoined⟩
      cases rest with
      | nil => simpa [planFrom] using hformed
      | cons next rest =>
          rw [planFrom]
          split
          case isTrue =>
            refine List.forall_mem_cons.mpr ⟨hformed, ih ?_⟩
            intro it' rest' heq
            cases heq
            simp
          case isFalse hbreak =>
            apply ih
            intro it' rest' heq
            cases heq
            refine ⟨by rw [List.head?_append, hfirst]; rfl, ?_⟩
            rw [List.isChain_append]
            refine ⟨hjoined, by simp, ?_⟩
            simpa [Adjacent] using hbreak

theorem flatMap_planFrom (slaveId : Int) (code : MBFunctionCode) (address : Int)
    (group registers : List Register) (h : registers ≠ []) :
    (planFrom slaveId code address group registers).flatMap
        RequestDescription.registers = group ++ registers := by
  induction registers generalizing address group with
  | nil => exact absurd rfl h
  | cons it rest ih =>
      cases rest with
      | nil => simp [planFrom, describe]
      | cons next rest =>
          rw [planFrom]
          split
          · rw [List.flatMap_cons, ih next.address [] (by simp)]
            simp [describe]
          · rw [ih address (group ++ [it]) (by simp)]
            simp

/-- The loop closed the first group because the second one starts elsewhere. -/
def Broken (description next : RequestDescription) : Prop :=
  ∃ last first, description.registers.getLast? = some last ∧
    next.registers.head? = some first ∧ ¬ Adjacent last first

theorem planFrom_cons (slaveId : Int) (code : MBFunctionCode) (address : Int)
    (group : List Register) (it : Register) (rest : List Register) :
    ∃ more plan, planFrom slaveId code address group (it :: rest) =
      describe slaveId code address (group ++ it :: more) :: plan := by
  induction rest generalizing group it with
  | nil => exact ⟨[], [], rfl⟩
  | cons next rest ih =>
      rw [planFrom]
      split
      case isTrue => exact ⟨[], _, rfl⟩
      case isFalse =>
        obtain ⟨more, plan, hplan⟩ := ih (group ++ [it]) next
        exact ⟨next :: more, plan, by simpa using hplan⟩

theorem isChain_planFrom (slaveId : Int) (code : MBFunctionCode) (address : Int)
    (group registers : List Register) :
    (planFrom slaveId code address group registers).IsChain Broken := by
  induction registers generalizing address group with
  | nil => simp [planFrom]
  | cons it rest ih =>
      cases rest with
      | nil => simp [planFrom]
      | cons next rest =>
          rw [planFrom]
          split
          case isTrue hbreak =>
            have htail := ih next.address []
            obtain ⟨more, plan, hplan⟩ :=
              planFrom_cons slaveId code next.address [] next rest
            rw [hplan] at htail ⊢
            refine List.isChain_cons_cons.mpr ⟨⟨it, next, ?_, ?_, ?_⟩, htail⟩
            · simp [describe]
            · simp [describe]
            · simp [Adjacent, hbreak]
          case isFalse => exact ih address (group ++ [it])

/-- What the loop keeps, whatever the addresses. -/
structure Collected (slaveId : Int) (code : MBFunctionCode) (registers : List Register)
    (plan : List RequestDescription) : Prop where
  inOrder : plan.flatMap RequestDescription.registers =
    sortByKey Register.address registers
  formed : ∀ description ∈ plan, Formed slaveId code description
  broken : plan.IsChain Broken

theorem Collected.mem_iff {slaveId : Int} {code : MBFunctionCode} {registers : List Register}
    {plan : List RequestDescription} (h : Collected slaveId code registers plan)
    {register : Register} :
    register ∈ registers ↔ ∃ description ∈ plan, register ∈ description.registers := by
  rw [← List.mem_flatMap, h.inOrder, mem_sortByKey]

theorem collected_planFrom {registers : List Register} {first : Register}
    {rest : List Register} (hsorted : sortByKey Register.address registers = first :: rest)
    (slaveId : Int) (code : MBFunctionCode) :
    Collected slaveId code registers
      (planFrom slaveId code first.address [] (first :: rest)) where
  inOrder := by
    rw [flatMap_planFrom _ _ _ _ _ (by simp), hsorted, List.nil_append]
  formed := by
    apply formed_planFrom
    intro it rest' heq
    cases heq
    simp
  broken := isChain_planFrom _ _ _ _ _

/-- Neighbours by address, between which no group ends. -/
def Joined (registers run : List Register) : Prop :=
  run <:+: sortByKey Register.address registers ∧ run.IsChain Adjacent

/-- What is asked for in one go takes no more words than the count of a request can hold. -/
def CountsFit (registers : List Register) : Prop :=
  ∀ run, Joined registers run → (run.map Register.words).sum ≤ 65535

theorem Collected.countsFit_iff {slaveId : Int} {code : MBFunctionCode}
    {registers : List Register} {plan : List RequestDescription}
    (h : Collected slaveId code registers plan) :
    CountsFit registers ↔
      ∀ description ∈ plan, (description.registers.map Register.words).sum ≤ 65535 := by
  have hinOrder : (plan.map RequestDescription.registers).flatten =
      sortByKey Register.address registers := h.inOrder
  constructor
  · intro hfit description hmem
    refine hfit _ ⟨?_, (h.formed description hmem).joined⟩
    rw [← hinOrder]
    exact List.infix_of_mem_flatten (List.mem_map_of_mem hmem)
  · rintro hcount run ⟨hwithin, hchain⟩
    by_cases hnil : run = []
    · simp [hnil]
    rw [← hinOrder] at hwithin
    obtain ⟨group, hgroup, hrun⟩ := exists_infix_of_isChain
      (List.isChain_map_of_isChain RequestDescription.registers (fun _ _ h => h) h.broken)
      hnil hwithin hchain
    obtain ⟨description, hmem, rfl⟩ := List.mem_map.mp hgroup
    exact ((hrun.sublist.map Register.words).sum_le_sum (by simp)).trans
      (hcount description hmem)

theorem sum_words_le_of_joined {registers run : List Register}
    (h : run <:+: sortByKey Register.address registers) :
    (run.map Register.words).sum ≤ (registers.map Register.words).sum := by
  rw [← ((perm_sortByKey Register.address registers).map Register.words).sum_eq]
  exact (h.sublist.map Register.words).sum_le_sum (by simp)

theorem countsFit_of_sum_le {registers : List Register}
    (h : (registers.map Register.words).sum ≤ 65535) : CountsFit registers :=
  fun _ hrun => (sum_words_le_of_joined hrun.1).trans h

/-- Where no group ends, there is one request. -/
theorem planFrom_of_isChain (slaveId : Int) (code : MBFunctionCode) (address : Int)
    (group : List Register) {it : Register} {rest : List Register}
    (h : (it :: rest).IsChain Adjacent) :
    planFrom slaveId code address group (it :: rest) =
      [describe slaveId code address (group ++ it :: rest)] := by
  induction rest generalizing group it with
  | nil => rfl
  | cons next rest ih =>
      obtain ⟨hadjacent, hrest⟩ := List.isChain_cons_cons.mp h
      rw [planFrom, hadjacent, if_neg Bool.false_ne_true, ih _ hrest, List.append_assoc]
      rfl

/-- With a register at the beginning nothing is read past the end. -/
theorem requestPlanOf_of_ne_nil {registers : List Register} (h : registers ≠ [])
    (pastEnd : Except Throw Int) (slaveId : Int) (code : MBFunctionCode) :
    ∃ plan, requestPlanOf pastEnd slaveId code registers = .ok plan ∧
      Collected slaveId code registers plan := by
  unfold requestPlanOf
  cases hsorted : sortByKey Register.address registers with
  | nil =>
      have hperm := perm_sortByKey Register.address registers
      rw [hsorted] at hperm
      exact absurd hperm.nil_eq.symm h
  | cons first rest => exact ⟨_, rfl, collected_planFrom hsorted slaveId code⟩

theorem requestPlanOf_collected (pastEnd slaveId : Int) (code : MBFunctionCode)
    (registers : List Register) :
    ∃ plan, requestPlanOf (.ok pastEnd) slaveId code registers = .ok plan ∧
      Collected slaveId code registers plan := by
  by_cases h : registers = []
  case pos =>
    subst h
    refine ⟨[], rfl, ?_⟩
    constructor <;> simp [sortByKey]
  case neg => exact requestPlanOf_of_ne_nil h (.ok pastEnd) slaveId code

theorem exists_requestPlan {pastEnd : Except Throw Int} {slave : Slave}
    {property property' : List RequestDescription → Prop}
    (houtputs : ∃ plan, requestPlanOf pastEnd slave.id .readAnalogOutputHoldingRegisters
      slave.outputRegisters = .ok plan ∧ property plan)
    (hinputs : ∃ plan, requestPlanOf pastEnd slave.id .readAnalogInputRegisters
      slave.inputRegisters = .ok plan ∧ property' plan) :
    ∃ outputs inputs : List RequestDescription,
      requestPlan pastEnd slave = .ok (outputs ++ inputs) ∧
      property outputs ∧ property' inputs := by
  obtain ⟨outputs, hout, houtputs⟩ := houtputs
  obtain ⟨inputs, hin, hinputs⟩ := hinputs
  refine ⟨outputs, inputs, ?_, houtputs, hinputs⟩
  rw [requestPlan, hout, hin]
  rfl

theorem requestPlan_collected (pastEnd : Int) (slave : Slave) :
    ∃ outputs inputs, requestPlan (.ok pastEnd) slave = .ok (outputs ++ inputs) ∧
      Collected slave.id .readAnalogOutputHoldingRegisters slave.outputRegisters outputs ∧
      Collected slave.id .readAnalogInputRegisters slave.inputRegisters inputs :=
  exists_requestPlan (requestPlanOf_collected _ _ _ _) (requestPlanOf_collected _ _ _ _)

end Rdbus.Communication.Modbus
