import Rdbus.Shutdown
import Rdbus.WholeReadings

/-!
# Managers do not disturb each other

What a manager hands to the output is what it would read if it had the program
to itself: the other managers, the clients and the output only decide how often
it runs.
-/

namespace Rdbus

open Foundation

namespace Manager

/-- The manager after its processors, unless one of them throws. -/
def next (list : List Data) (manager : Manager) : Option Manager :=
  match manager.process list with
  | .ok (_, manager) => some manager
  | .error _ => none

/-- The readings of one run after the other, until one of them throws. -/
def alone : List (Nat → Outside) → Manager → List (List Data)
  | [], _ => []
  | outside :: rest, manager =>
      match manager.collect outside with
      | .error _ => []
      | .ok (list, manager) => list :: match manager.next list with
        | some manager => alone rest manager
        | none => []

end Manager

namespace Program

/-- What the events tell of the runs of the manager `i`. -/
def Event.outsideOf (i : Nat) : Event → Option (Nat → Outside)
  | .collect j outside _ => if j = i then some outside else none
  | _ => none

def handedBy (program : Program) (i : Nat) : List (List Data) :=
  (program.handed.filter fun entry => entry.1 = i).map Prod.snd

/-- The managers that still wait for their threads. -/
def Main.waiting : Main → List Manager
  | .configuring (.ok (_, managers)) => managers
  | .starting waiting => waiting
  | _ => []

/-- All threads, also those that will be started. -/
def crew (program : Program) : List Thread :=
  program.threads ++ program.main.waiting.map fun manager => ⟨manager, .checking⟩

/-- What a thread hands over when its runs from here on meet `rest`. -/
def Thread.future (rest : List (Nat → Outside)) (thread : Thread) : List (List Data) :=
  match thread.stage with
  | .checking | .collecting | .sleeping => thread.manager.alone rest
  | .processing list =>
      match thread.manager.next list with
      | some manager => manager.alone rest
      | none => []
  | _ => []

def future (program : Program) (i : Nat) (rest : List (Nat → Outside)) : List (List Data) :=
  ((program.crew[i]?).map (Thread.future rest)).getD []

/-- Such a thread has no run before it. -/
def Thread.Idle (keepRunning : Bool) (thread : Thread) : Prop :=
  match thread.stage with
  | .reporting _ | .lowering => True
  | .collecting => False
  | _ => keepRunning = false

def Idle (program : Program) (i : Nat) : Prop :=
  ∃ thread, program.crew[i]? = some thread ∧ thread.Idle program.keepRunning

section

variable {sizeofData : Nat} {dumpError : Bytes → Option Bytes}

theorem crew_of_thread {program : Program} {i : Nat} {thread : Thread}
    (h : program.threads[i]? = some thread) : program.crew[i]? = some thread := by
  rw [crew, List.getElem?_append_left (List.getElem?_eq_some_iff.mp h).1, h]

theorem crew_set {program next : Program} {i : Nat} {thread thread' : Thread}
    (hthread : program.threads[i]? = some thread)
    (hthreads : next.threads = program.threads.set i thread') (hmain : next.main = program.main) :
    next.crew = program.crew.set i thread' := by
  rw [crew, crew, hthreads, hmain,
    List.set_append_left _ _ (List.getElem?_eq_some_iff.mp hthread).1]

/--
One step of one thread, with the outside it met and what it handed over.  The
flag is the second and the last argument.
-/
inductive Advance : Thread → Bool → Option (Nat → Outside) → List (List Data) → Thread →
    Bool → Prop where
  | check (manager : Manager) (keepRunning : Bool) :
      Advance ⟨manager, .checking⟩ keepRunning none []
        ⟨manager, if keepRunning then .collecting else .finished⟩ keepRunning
  | collect {manager manager' : Manager} {keepRunning : Bool} {outside : Nat → Outside}
      {list : List Data} (hcollect : manager.collect outside = .ok (list, manager')) :
      Advance ⟨manager, .collecting⟩ keepRunning (some outside) [list]
        ⟨manager', .processing list⟩ keepRunning
  | sendThrows {manager manager' : Manager} {keepRunning : Bool} {outside : Nat → Outside}
      {list : List Data} (hcollect : manager.collect outside = .ok (list, manager'))
      (e : Throw) : Advance ⟨manager, .collecting⟩ keepRunning (some outside) [list]
        ⟨manager', .reporting e⟩ keepRunning
  | collectThrows {manager : Manager} {keepRunning : Bool} {outside : Nat → Outside}
      {e : Throw} (hcollect : manager.collect outside = .error e) :
      Advance ⟨manager, .collecting⟩ keepRunning (some outside) []
        ⟨manager, .reporting e⟩ keepRunning
  | process {manager manager' : Manager} {keepRunning : Bool} {list : List Data}
      (hnext : manager.next list = some manager') :
      Advance ⟨manager, .processing list⟩ keepRunning none [] ⟨manager', .sleeping⟩ keepRunning
  | processThrows {manager manager' : Manager} {keepRunning : Bool} {list : List Data}
      (hnext : manager' = manager ∨ manager.next list = some manager') (e : Throw) :
      Advance ⟨manager, .processing list⟩ keepRunning none []
        ⟨manager', .reporting e⟩ keepRunning
  | report (manager : Manager) (keepRunning : Bool) (e : Throw) :
      Advance ⟨manager, .reporting e⟩ keepRunning none [] ⟨manager, .lowering⟩ keepRunning
  | lower (manager : Manager) (keepRunning : Bool) :
      Advance ⟨manager, .lowering⟩ keepRunning none [] ⟨manager, .failing⟩ false
  | fail (manager : Manager) (keepRunning : Bool) :
      Advance ⟨manager, .failing⟩ keepRunning none [] ⟨manager, .sleeping⟩ keepRunning
  | wake (manager : Manager) (keepRunning : Bool) :
      Advance ⟨manager, .sleeping⟩ keepRunning none [] ⟨manager, .checking⟩ keepRunning

theorem alone_nil (manager : Manager) : manager.alone [] = [] := rfl

theorem Advance.future {thread thread' : Thread} {keepRunning keepRunning' : Bool}
    {own : Option (Nat → Outside)} {lists : List (List Data)}
    (h : Advance thread keepRunning own lists thread' keepRunning')
    (hlowered : thread.stage = .failing → keepRunning = false) {rest : List (Nat → Outside)}
    (hidle : thread'.Idle keepRunning' → rest = []) :
    lists ++ thread'.future rest = thread.future (own.toList ++ rest) := by
  cases h with
  | check manager =>
      cases keepRunning with
      | true => rfl
      | false =>
          rw [hidle rfl]
          rfl
  | @collect manager manager' keepRunning outside list hcollect =>
      cases hnext : manager'.next list <;>
        simp [Thread.future, Manager.alone, hcollect, hnext]
  | @sendThrows manager manager' keepRunning outside list hcollect e =>
      rw [hidle trivial]
      cases hnext : manager'.next list <;>
        simp [Thread.future, Manager.alone, hcollect, hnext]
  | collectThrows hcollect => simp [Thread.future, Manager.alone, hcollect]
  | process hnext => simp [Thread.future, hnext]
  | @processThrows manager manager' keepRunning list hnext e =>
      rw [hidle trivial]
      cases hnext : manager.next list <;> simp [Thread.future, hnext, alone_nil]
  | report => rfl
  | lower => rfl
  | fail manager =>
      rw [hidle (hlowered rfl)]
      rfl
  | wake => rfl

theorem Advance.idle {thread thread' : Thread} {keepRunning keepRunning' : Bool}
    {own : Option (Nat → Outside)} {lists : List (List Data)}
    (h : Advance thread keepRunning own lists thread' keepRunning')
    (hidle : thread.Idle keepRunning) : own = none ∧ thread'.Idle keepRunning' := by
  cases h with
  | check manager =>
      have hdown : keepRunning = false := hidle
      subst hdown
      exact ⟨rfl, rfl⟩
  | collect => exact absurd hidle not_false
  | sendThrows => exact absurd hidle not_false
  | collectThrows => exact absurd hidle not_false
  | process => exact ⟨rfl, hidle⟩
  | processThrows => exact ⟨rfl, trivial⟩
  | report => exact ⟨rfl, trivial⟩
  | lower => exact ⟨rfl, rfl⟩
  | fail => exact ⟨rfl, hidle⟩
  | wake => exact ⟨rfl, hidle⟩

/-- A step is one of one thread, or none of any. -/
theorem advance_of_steps {program next : Program} {event : Event}
    (h : Steps sizeofData dumpError program event next) :
    (next.crew = program.crew ∧ next.handed = program.handed ∧
      (∀ i, event.outsideOf i = none) ∧
      (next.keepRunning = true → program.keepRunning = true)) ∨
    ∃ j thread thread' own lists, program.crew[j]? = some thread ∧
      Advance thread program.keepRunning own lists thread' next.keepRunning ∧
      next.crew = program.crew.set j thread' ∧
      next.handed = program.handed ++ lists.map (fun list => (j, list)) ∧
      ∀ i, event.outsideOf i = if j = i then own else none := by
  -- The steps of the threads, whose other effects do not matter here.
  have hadvance : ∀ {j : Nat} {thread thread' : Thread} {own : Option (Nat → Outside)}
      {lists : List (List Data)}, program.threads[j]? = some thread →
      Advance thread program.keepRunning own lists thread' next.keepRunning →
      next.threads = program.threads.set j thread' → next.main = program.main →
      next.handed = program.handed ++ lists.map (fun list => (j, list)) →
      (∀ i, event.outsideOf i = if j = i then own else none) →
      ∃ j thread thread' own lists, program.crew[j]? = some thread ∧
        Advance thread program.keepRunning own lists thread' next.keepRunning ∧
        next.crew = program.crew.set j thread' ∧
        next.handed = program.handed ++ lists.map (fun list => (j, list)) ∧
        ∀ i, event.outsideOf i = if j = i then own else none := by
    intro j thread thread' own lists hthread hadvance hthreads hmain hhanded hown
    exact ⟨j, thread, thread', own, lists, crew_of_thread hthread, hadvance,
      crew_set hthread hthreads hmain, hhanded, hown⟩
  cases h with
  | interrupt => exact .inl ⟨rfl, rfl, fun _ => rfl, by simp⟩
  | configure hmain =>
      exact .inl ⟨by simp [crew, hmain, Main.waiting], rfl, fun _ => rfl, id⟩
  | refuse hmain =>
      exact .inl ⟨by simp [crew, hmain, Main.waiting], rfl, fun _ => rfl, id⟩
  | spawn hmain =>
      exact .inl ⟨by simp [crew, hmain, Main.waiting], rfl, fun _ => rfl, id⟩
  | start hmain =>
      exact .inl ⟨by simp [crew, hmain, Main.waiting], rfl, fun _ => rfl, id⟩
  | join hmain =>
      exact .inl ⟨by simp [crew, hmain, Main.waiting], rfl, fun _ => rfl, id⟩
  | exit hmain =>
      exact .inl ⟨by simp [crew, hmain, Main.waiting], rfl, fun _ => rfl, id⟩
  | read => exact .inl ⟨rfl, rfl, fun _ => rfl, id⟩
  | processLimits => exact .inl ⟨rfl, rfl, fun _ => rfl, id⟩
  | check hthread =>
      exact .inr (hadvance hthread (.check _ _) rfl rfl (by simp [setThread])
        (by simp [Event.outsideOf]))
  | collect hthread hcollect =>
      exact .inr (hadvance hthread (.collect hcollect) rfl rfl rfl
        (by simp [Event.outsideOf]))
  | collectThrows hthread hcollect =>
      exact .inr (hadvance hthread (.collectThrows hcollect) rfl rfl (by simp [setThread])
        (by simp [Event.outsideOf]))
  | sendThrows hthread hcollect =>
      exact .inr (hadvance hthread (.sendThrows hcollect _) rfl rfl rfl
        (by simp [Event.outsideOf]))
  | process hthread hprocess =>
      exact .inr (hadvance hthread (.process (by rw [Manager.next, hprocess])) rfl rfl
        (by simp [setThread]) (by simp [Event.outsideOf]))
  | processThrows hthread =>
      exact .inr (hadvance hthread (.processThrows (.inl rfl) _) rfl rfl (by simp [setThread])
        (by simp [Event.outsideOf]))
  | limitsThrow hthread hprocess =>
      exact .inr (hadvance hthread (.processThrows (.inr (by rw [Manager.next, hprocess])) _)
        rfl rfl (by simp [setThread]) (by simp [Event.outsideOf]))
  | report hthread =>
      exact .inr (hadvance hthread (.report _ _ _) rfl rfl (by simp [setThread])
        (by simp [Event.outsideOf]))
  | lower hthread =>
      exact .inr (hadvance hthread (.lower _ _) rfl rfl (by simp [setThread])
        (by simp [Event.outsideOf]))
  | fail hthread =>
      exact .inr (hadvance hthread (.fail _ _) rfl rfl (by simp [setThread])
        (by simp [Event.outsideOf]))
  | wake hthread =>
      exact .inr (hadvance hthread (.wake _ _) rfl rfl (by simp [setThread])
        (by simp [Event.outsideOf]))

theorem Advance.flag {thread thread' : Thread} {keepRunning keepRunning' : Bool}
    {own : Option (Nat → Outside)} {lists : List (List Data)}
    (h : Advance thread keepRunning own lists thread' keepRunning') (hup : keepRunning' = true) :
    keepRunning = true := by
  cases h <;> first
    | exact hup
    | cases hup

theorem Thread.Idle.mono {thread : Thread} {keepRunning keepRunning' : Bool}
    (h : thread.Idle keepRunning) (hflag : keepRunning' = true → keepRunning = true) :
    thread.Idle keepRunning' := by
  have hdown : keepRunning = false → keepRunning' = false := by
    intro hdown
    cases keepRunning' with
    | false => rfl
    | true => exact absurd (hflag rfl) (by simp [hdown])
  unfold Thread.Idle at h ⊢
  cases hstage : thread.stage <;> simp_all

theorem outsides_of_idle {program final : Program} {events : List Event}
    (hrun : run (step sizeofData dumpError) program events = some final) {i : Nat}
    (hidle : program.Idle i) : events.filterMap (Event.outsideOf i) = [] := by
  induction events generalizing program with
  | nil => rfl
  | cons event events ih =>
      obtain ⟨next, hstep, hrest⟩ := run_cons.mp hrun
      obtain ⟨thread, hthread, hthreadIdle⟩ := hidle
      obtain ⟨hcrew, -, hnone, hflag⟩ | ⟨j, old, new, own, lists, hold, hadvance, hcrew, -, hown⟩ :=
        advance_of_steps (steps_of_step hstep)
      · rw [List.filterMap_cons_none (hnone i)]
        exact ih hrest ⟨thread, hcrew ▸ hthread, hthreadIdle.mono hflag⟩
      · by_cases hij : j = i
        · subst hij
          cases hold.symm.trans hthread
          obtain ⟨rfl, hnew⟩ := hadvance.idle hthreadIdle
          rw [List.filterMap_cons_none (by rw [hown j, if_pos rfl])]
          refine ih hrest ⟨new, ?_, hnew⟩
          rw [hcrew, List.getElem?_set_self (List.getElem?_eq_some_iff.mp hthread).1]
        · rw [List.filterMap_cons_none (by rw [hown i, if_neg hij])]
          refine ih hrest ⟨thread, ?_, hthreadIdle.mono hadvance.flag⟩
          rw [hcrew, List.getElem?_set_ne hij, hthread]

/-- The flag is down before the result is set. -/
def Lowered (program : Program) : Prop :=
  ∀ thread ∈ program.crew, thread.stage = .failing → program.keepRunning = false

theorem Advance.lowered {thread thread' : Thread} {keepRunning keepRunning' : Bool}
    {own : Option (Nat → Outside)} {lists : List (List Data)}
    (h : Advance thread keepRunning own lists thread' keepRunning')
    (hstage : thread'.stage = .failing) : keepRunning' = false := by
  cases h with
  | lower => rfl
  | check manager => cases keepRunning <;> cases hstage
  | _ => cases hstage

theorem Lowered.step {program next : Program} {event : Event} (h : program.Lowered)
    (hstep : program.step sizeofData dumpError event = some next) : next.Lowered := by
  intro thread hmem hstage
  have hdown : ∀ flag : next.keepRunning = true → program.keepRunning = true,
      program.keepRunning = false → next.keepRunning = false := by
    intro hflag hdown
    by_contra hup
    simp [hflag (by simpa using hup)] at hdown
  obtain ⟨hcrew, -, -, hflag⟩ | ⟨j, old, new, own, lists, -, hadvance, hcrew, -⟩ :=
    advance_of_steps (steps_of_step hstep)
  · exact hdown hflag (h thread (hcrew ▸ hmem) hstage)
  · rw [hcrew] at hmem
    rcases List.mem_or_eq_of_mem_set hmem with hmem | rfl
    · exact hdown hadvance.flag (h thread hmem hstage)
    · exact hadvance.lowered hstage

theorem handedBy_append {program next : Program} {j : Nat} {lists : List (List Data)}
    (h : next.handed = program.handed ++ lists.map (fun list => (j, list))) (i : Nat) :
    next.handedBy i = program.handedBy i ++ if j = i then lists else [] := by
  unfold handedBy
  rw [h, List.filter_append, List.map_append]
  congr 1
  by_cases hij : j = i
  · simp [hij, List.filter_map, Function.comp_def]
  · simp [hij, List.filter_map, Function.comp_def]

theorem Thread.future_nil (thread : Thread) : thread.future [] = [] := by
  unfold Thread.future
  cases thread.stage with
  | processing list => cases hnext : thread.manager.next list <;> simp [hnext, alone_nil]
  | _ => rfl

theorem handed_future {program final : Program} (h : program.Lowered) {events : List Event}
    (hrun : run (step sizeofData dumpError) program events = some final) (i : Nat) :
    final.handedBy i =
      program.handedBy i ++ program.future i (events.filterMap (Event.outsideOf i)) := by
  induction events generalizing program with
  | nil =>
      cases hrun
      have hnil : final.future i [] = [] := by
        unfold future
        cases final.crew[i]? with
        | none => rfl
        | some thread => exact thread.future_nil
      rw [List.filterMap_nil, hnil, List.append_nil]
  | cons event events ih =>
      obtain ⟨next, hstep, hrest⟩ := run_cons.mp hrun
      have hlater := ih (h.step hstep) hrest
      obtain ⟨hcrew, hhanded, hnone, -⟩ | ⟨j, old, new, own, lists, hold, hadvance, hcrew,
        hhanded, hown⟩ := advance_of_steps (steps_of_step hstep)
      · rw [hlater, List.filterMap_cons_none (hnone i)]
        unfold handedBy future
        rw [hhanded, hcrew]
      · rw [hlater, handedBy_append hhanded]
        unfold future
        rw [hcrew]
        by_cases hij : j = i
        · subst hij
          rw [List.getElem?_set_self (List.getElem?_eq_some_iff.mp hold).1, hold, if_pos rfl,
            List.append_assoc]
          have hfuture := hadvance.future (h old (List.mem_of_getElem? hold))
            (fun hidle => outsides_of_idle (i := j) hrest ⟨new, by
              rw [hcrew, List.getElem?_set_self (List.getElem?_eq_some_iff.mp hold).1], hidle⟩)
          simp only [Option.map_some, Option.getD_some, hfuture]
          cases own with
          | none => rw [List.filterMap_cons_none (by rw [hown j, if_pos rfl])]; rfl
          | some outside =>
              rw [List.filterMap_cons_some (by rw [hown j, if_pos rfl])]
              rfl
        · rw [List.getElem?_set_ne hij, if_neg hij, List.append_nil,
            List.filterMap_cons_none (by rw [hown i, if_neg hij])]

/--
However the program mixes its steps, a manager hands over what it reads when it
runs alone and meets the same outside.
-/
theorem handed_alone {output : Out.Output} {managers : List Manager} {events : List Event}
    {final : Program}
    (hrun : run (step sizeofData dumpError) (initial (.ok (output, managers))) events =
      some final)
    {i : Nat} {manager : Manager} (hmanager : managers[i]? = some manager) :
    final.handedBy i = manager.alone (events.filterMap (Event.outsideOf i)) := by
  have hlowered : (initial (.ok (output, managers))).Lowered := by
    intro thread hmem hstage
    obtain ⟨_, -, rfl⟩ := List.mem_map.mp hmem
    cases hstage
  rw [handed_future hlowered hrun i]
  have hcrew : (initial (.ok (output, managers))).crew[i]? = some ⟨manager, .checking⟩ := by
    simp [crew, initial, Main.waiting, hmanager]
  unfold future
  rw [hcrew]
  rfl

/--
What a manager hands over is decided by its file and by what it meets itself:
not by the other managers, the clients, the output or the signal.
-/
theorem undisturbed {output output' : Out.Output} {managers managers' : List Manager}
    {events events' : List Event} {final final' : Program}
    (hrun : run (step sizeofData dumpError) (initial (.ok (output, managers))) events =
      some final)
    (hrun' : run (step sizeofData dumpError) (initial (.ok (output', managers'))) events' =
      some final')
    {i i' : Nat} {manager : Manager} (hmanager : managers[i]? = some manager)
    (hmanager' : managers'[i']? = some manager)
    (hsame : events.filterMap (Event.outsideOf i) = events'.filterMap (Event.outsideOf i')) :
    final.handedBy i = final'.handedBy i' := by
  rw [handed_alone hrun hmanager, handed_alone hrun' hmanager', hsame]

def untilProcessed : List Event :=
  [.configure, .spawn, .spawn, .check 1, .check 0, .collect 1 (fun _ => silent) 7, .process 1 9]

theorem undisturbed_talker : ∃ final : Program,
    run (step 200 fun _ => none) (initial (.ok (.http (.initial true), [⟨[], []⟩, talker])))
      untilProcessed = some final ∧ final.handedBy 1 = interrupted.handedBy 0 := by
  have hruns : (run (step 200 fun _ => none)
      (initial (.ok (.http (.initial true), [⟨[], []⟩, talker]))) untilProcessed).isSome := by
    rfl
  obtain ⟨final, hrun⟩ := Option.isSome_iff_exists.mp hruns
  exact ⟨final, hrun, undisturbed hrun run_untilInterrupt rfl rfl rfl⟩

end

end Program

end Rdbus
