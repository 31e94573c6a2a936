import Rdbus.Communication.Modbus.RequestPlanner
import Rdbus.Foundation.DoWhile

/-!
# The planner at its iterators

`planFrom` hands each register on with the one behind it.  The source moves an
iterator and dereferences `registers.begin()`, `it` and `std::next( it )`,
each under a condition of its own.  Here an iterator is a position in the
sorted list, the end is the length of the list, and dereferencing it is
undefined behaviour.
-/

namespace Rdbus.Communication.Modbus

open Foundation
open Config.Modbus

/-- The variables the loop of the static `requestPlan` changes. -/
structure PlanState where
  address : Int
  group : List Register
  requestDescriptions : List RequestDescription

/-- The condition that ends a group; its right side is evaluated only if the left one fails. -/
def endsGroup (registers : List Register) (it : Nat) : Except Throw Bool :=
  if it + 1 = registers.length then .ok true
  else do
    let left ← index registers it
    let right ← index registers (it + 1)
    return breaksAfter left right

/-- One pass of the loop, and whether `it++` stays in front of the end. -/
def planPass (slaveId : Int) (code : MBFunctionCode) (registers : List Register)
    (it : Nat) (s : PlanState) : Except Throw (PlanState × Bool) := do
  let group := s.group ++ [← index registers it]
  let ended ← endsGroup registers it
  let again := it + 1 != registers.length
  if ended then
    let requestDescriptions := s.requestDescriptions ++ [describe slaveId code s.address group]
    if again then
      return (⟨(← index registers (it + 1)).address, [], requestDescriptions⟩, again)
    else return (⟨s.address, [], requestDescriptions⟩, again)
  else return (⟨s.address, group, s.requestDescriptions⟩, again)

/-- The static `requestPlan`; `none` when the fuel is used up. -/
def requestPlanAt (fuel : Nat) (slaveId : Int) (code : MBFunctionCode)
    (registers : List Register) : Option (Except Throw (List RequestDescription)) :=
  let registers := sortByKey Register.address registers
  match index registers 0 with
  | .error e => some (.error e)
  | .ok first =>
      if registers.length = 0 then some (.ok [])
      else (doWhile (planPass slaveId code registers) fuel 0 ⟨first.address, [], []⟩).map
        (Except.map PlanState.requestDescriptions)

/-- Both calls, the one for the output registers first. -/
def requestPlanBoth (fuel : Nat) (slave : Slave) :
    Option (Except Throw (List RequestDescription)) :=
  match requestPlanAt fuel slave.id .readAnalogOutputHoldingRegisters slave.outputRegisters with
  | none => none
  | some (.error e) => some (.error e)
  | some (.ok descriptions1) =>
      (requestPlanAt fuel slave.id .readAnalogInputRegisters slave.inputRegisters).map
        (Except.map (descriptions1 ++ ·))

/-- Both calls return, so that no iterator at the end was dereferenced. -/
def PlansInside (slave : Slave) : Prop :=
  ∃ fuel plan, requestPlanBoth fuel slave = some (.ok plan)

/-! ## One pass -/

section Pass

variable {slaveId : Int} {code : MBFunctionCode} {before : List Register} {it : Register}
  {s : PlanState}

theorem index_next (before : List Register) (it next : Register) (rest : List Register) :
    index (before ++ it :: next :: rest) (before.length + 1) = .ok next := by
  have h := index_append_cons (before ++ [it]) next rest
  rwa [List.append_assoc, List.length_append] at h

theorem endsGroup_last : endsGroup (before ++ [it]) before.length = .ok true :=
  if_pos (by simp)

theorem endsGroup_next {next : Register} {rest : List Register} :
    endsGroup (before ++ it :: next :: rest) before.length = .ok (breaksAfter it next) := by
  rw [endsGroup, if_neg (by simp), index_append_cons, index_next]
  rfl

theorem planPass_last :
    planPass slaveId code (before ++ [it]) before.length s =
      .ok (⟨s.address, [], s.requestDescriptions ++
        [describe slaveId code s.address (s.group ++ [it])]⟩, false) := by
  have hend : before.length + 1 = (before ++ [it]).length := by simp
  rw [planPass, endsGroup_last, index_append_cons, ← hend, bne_self_eq_false]
  rfl

theorem planPass_next {next : Register} {rest : List Register} :
    planPass slaveId code (before ++ it :: next :: rest) before.length s =
      .ok (if breaksAfter it next then
          ⟨next.address, [], s.requestDescriptions ++
            [describe slaveId code s.address (s.group ++ [it])]⟩
        else ⟨s.address, s.group ++ [it], s.requestDescriptions⟩, true) := by
  have hend : before.length + 1 ≠ (before ++ it :: next :: rest).length := by simp
  rw [planPass, endsGroup_next, index_append_cons, index_next, bne_iff_ne.mpr hend]
  cases breaksAfter it next with
  | true => rfl
  | false => rfl

end Pass

/-! ## The whole loop -/

/-- Started at a register, the loop adds what `planFrom` plans from there on. -/
theorem doWhile_planPass (slaveId : Int) (code : MBFunctionCode) (before : List Register)
    (it : Register) (rest : List Register) (s : PlanState) {fuel : Nat}
    (hfuel : rest.length < fuel) :
    (doWhile (planPass slaveId code (before ++ it :: rest)) fuel before.length s).map
        (Except.map PlanState.requestDescriptions) =
      some (.ok (s.requestDescriptions ++
        planFrom slaveId code s.address s.group (it :: rest))) := by
  obtain ⟨fuel, rfl⟩ := Nat.exists_eq_add_of_lt hfuel
  induction rest generalizing before it s with
  | nil =>
      rw [doWhile, planPass_last]
      rfl
  | cons next rest ih =>
      have hnext := ih (before ++ [it]) next
      rw [List.append_assoc, List.length_append] at hnext
      rw [List.length_cons, Nat.add_right_comm _ 1, doWhile, planPass_next, planFrom]
      cases breaksAfter it next with
      | true =>
          have := hnext ⟨next.address, [], s.requestDescriptions ++
            [describe slaveId code s.address (s.group ++ [it])]⟩ (by omega)
          simpa using this
      | false =>
          have := hnext ⟨s.address, s.group ++ [it], s.requestDescriptions⟩ (by omega)
          simpa using this

theorem requestPlanAt_nil (fuel : Nat) (slaveId : Int) (code : MBFunctionCode) :
    requestPlanAt fuel slaveId code [] = some (.error .undefinedBehaviour) := rfl

/-- The iterators compute the plan of the list model, the read at the end included. -/
theorem requestPlanAt_eq {fuel : Nat} {registers : List Register}
    (hfuel : registers.length ≤ fuel) (slaveId : Int) (code : MBFunctionCode) :
    requestPlanAt fuel slaveId code registers =
      some (requestPlanOf (.error .undefinedBehaviour) slaveId code registers) := by
  have hlength := (perm_sortByKey Register.address registers).length_eq
  unfold requestPlanAt requestPlanOf
  cases hsorted : sortByKey Register.address registers with
  | nil => rfl
  | cons first rest =>
      rw [hsorted, List.length_cons] at hlength
      exact doWhile_planPass slaveId code [] first rest ⟨first.address, [], []⟩ (by omega)

theorem requestPlanBoth_eq {fuel : Nat} {slave : Slave}
    (houtputs : slave.outputRegisters.length ≤ fuel)
    (hinputs : slave.inputRegisters.length ≤ fuel) :
    requestPlanBoth fuel slave = some (requestPlan (.error .undefinedBehaviour) slave) := by
  rw [requestPlanBoth, requestPlanAt_eq houtputs, requestPlanAt_eq hinputs, requestPlan]
  cases requestPlanOf (.error .undefinedBehaviour) slave.id
    .readAnalogOutputHoldingRegisters slave.outputRegisters with
  | error e => rfl
  | ok descriptions1 =>
      cases requestPlanOf (.error .undefinedBehaviour) slave.id
        .readAnalogInputRegisters slave.inputRegisters with
      | error e => rfl
      | ok descriptions2 => rfl

theorem requestPlanBoth_of_empty {slave : Slave}
    (h : slave.outputRegisters = [] ∨ slave.inputRegisters = []) (fuel : Nat)
    (plan : List RequestDescription) : requestPlanBoth fuel slave ≠ some (.ok plan) := by
  intro hplan
  rw [requestPlanBoth] at hplan
  split at hplan
  case h_1 | h_2 => cases hplan
  case h_3 descriptions1 houtputs =>
    rcases h with hempty | hempty
    · rw [hempty, requestPlanAt_nil] at houtputs
      cases houtputs
    · rw [hempty, requestPlanAt_nil] at hplan
      cases hplan

theorem plansInside_iff (slave : Slave) :
    PlansInside slave ↔ slave.outputRegisters ≠ [] ∧ slave.inputRegisters ≠ [] := by
  constructor
  · rintro ⟨fuel, plan, hplan⟩
    rw [← not_or]
    exact fun hempty => requestPlanBoth_of_empty hempty fuel plan hplan
  · rintro ⟨houtputs, hinputs⟩
    obtain ⟨outputs, inputs, hplan, -, -⟩ := exists_requestPlan
      (requestPlanOf_of_ne_nil houtputs (.error .undefinedBehaviour) _ _)
      (requestPlanOf_of_ne_nil hinputs (.error .undefinedBehaviour) _ _)
    refine ⟨max slave.outputRegisters.length slave.inputRegisters.length,
      outputs ++ inputs, ?_⟩
    rw [requestPlanBoth_eq (Nat.le_max_left _ _) (Nat.le_max_right _ _), hplan]

/-! A slave with input registers only. -/

def inputsOnly : SlaveJson where
  name := some (str "slave")
  id := some 1
  pollTimeMs := some 100
  analogInputRegisters := some
    [{ name := some (str "Register_A"), address := some 100,
       dataType := some (str "UINT_32A") },
     { name := some (str "Register_B"), address := some 102,
       dataType := some (str "UINT_64A") }]

theorem inputsOnly_not_inside : ∃ slave, Slave.fromJson inputsOnly = .ok slave ∧
    (∀ fuel, requestPlanBoth fuel slave = some (.error .undefinedBehaviour)) ∧
    ¬ PlansInside slave := by
  refine ⟨⟨str "slave", 1, 100, [⟨str "Register_A", 100, [0, 1, 2, 3], .uint32⟩,
    ⟨str "Register_B", 102, [0, 1, 2, 3, 4, 5, 6, 7], .uint64⟩], []⟩,
    by decide +kernel, fun _ => rfl, ?_⟩
  rintro ⟨fuel, plan, hplan⟩
  cases hplan

end Rdbus.Communication.Modbus
