import Rdbus.Foundation.Simulation
import Mathlib.Algebra.GroupWithZero.Nat
import Mathlib.Data.List.Nodup
import Mathlib.Tactic.Common

/-!
# Workers that stop on a shared flag

A main thread starts workers and joins them.  A worker does one job after the
other while the flag is up.  A job that raises is reported, lowers the flag and
then sets the result, each in a step of its own; so may an interrupt lower the
flag at any time.  A job has at most `jobSteps + 1` steps.
-/

namespace Rdbus.Foundation.WorkerPool

inductive Phase where
  | checking
  | busy (left : Nat)
  | reporting
  | lowering
  | failing
  | resting
  | finished
  deriving DecidableEq

inductive Move where
  | check
  | work
  | complete
  | raise
  | report
  | lower
  | fail
  | wake
  deriving DecidableEq

/-- The number of workers to start is known when the setup succeeds. -/
inductive Main where
  | configuring (workers : Option Nat)
  | starting (waiting : Nat)
  | joining (joined : Nat)
  | exited (code : Nat)
  deriving DecidableEq

structure Pool where
  main : Main
  keepRunning : Bool := true
  result : Nat := 0
  workers : List Phase := []
  reports : List (Option Nat) := []

inductive Event where
  | interrupt
  | configure
  | spawn
  | start
  | join
  | exit
  | worker (i : Nat) (move : Move)
  deriving DecidableEq

def Phase.next (jobSteps : Nat) (keepRunning : Bool) : Move → Phase → Option Phase
  | .check, .checking => some (if keepRunning then .busy jobSteps else .finished)
  | .work, .busy (left + 1) => some (.busy left)
  | .complete, .busy _ => some .resting
  | .raise, .busy _ => some .reporting
  | .report, .reporting => some .lowering
  | .lower, .lowering => some .failing
  | .fail, .failing => some .resting
  | .wake, .resting => some .checking
  | _, _ => none

/-- The shared variables after a move of the worker `i`. -/
def Pool.after (pool : Pool) (i : Nat) (phase : Phase) (move : Move) : Pool :=
  { pool with
    keepRunning := pool.keepRunning && move ≠ .lower
    result := if move = .fail then 1 else pool.result
    workers := pool.workers.set i phase
    reports := pool.reports ++ if move = .report then [some i] else [] }

def step (jobSteps : Nat) (pool : Pool) : Event → Option Pool
  | .interrupt => some { pool with keepRunning := false }
  | .configure =>
      match pool.main with
      | .configuring (some workers) => some { pool with main := .starting workers }
      | .configuring none => some { pool with
          main := .joining 0
          result := 1
          reports := pool.reports ++ [none] }
      | _ => none
  | .spawn =>
      match pool.main with
      | .starting (waiting + 1) => some { pool with
          main := .starting waiting
          workers := pool.workers ++ [.checking] }
      | _ => none
  | .start =>
      match pool.main with
      | .starting 0 => some { pool with main := .joining 0 }
      | _ => none
  | .join =>
      match pool.main with
      | .joining joined =>
          if pool.workers[joined]? = some .finished then
            some { pool with main := .joining (joined + 1) }
          else none
      | _ => none
  | .exit =>
      match pool.main with
      | .joining joined =>
          if joined = pool.workers.length then
            some { pool with main := .exited pool.result }
          else none
      | _ => none
  | .worker i move =>
      match pool.workers[i]? with
      | some phase => (phase.next jobSteps pool.keepRunning move).map fun next =>
          pool.after i next move
      | none => none

/-! ## What a step can do -/

inductive Moves (jobSteps : Nat) (keepRunning : Bool) : Move → Phase → Phase → Prop where
  | begin (h : keepRunning = true) : Moves jobSteps keepRunning .check .checking (.busy jobSteps)
  | stop (h : keepRunning = false) : Moves jobSteps keepRunning .check .checking .finished
  | work (left : Nat) : Moves jobSteps keepRunning .work (.busy (left + 1)) (.busy left)
  | complete (left : Nat) : Moves jobSteps keepRunning .complete (.busy left) .resting
  | raise (left : Nat) : Moves jobSteps keepRunning .raise (.busy left) .reporting
  | report : Moves jobSteps keepRunning .report .reporting .lowering
  | lower : Moves jobSteps keepRunning .lower .lowering .failing
  | fail : Moves jobSteps keepRunning .fail .failing .resting
  | wake : Moves jobSteps keepRunning .wake .resting .checking

theorem moves_iff {jobSteps : Nat} {keepRunning : Bool} {move : Move} {phase next : Phase} :
    phase.next jobSteps keepRunning move = some next ↔
      Moves jobSteps keepRunning move phase next := by
  constructor
  · intro h
    unfold Phase.next at h
    split at h
    case h_1 =>
      cases keepRunning <;> cases h
      · exact .stop rfl
      · exact .begin rfl
    case h_9 => cases h
    all_goals
      cases h
      constructor
  · intro h
    cases h with
    | begin h => simp [Phase.next, h]
    | stop h => simp [Phase.next, h]
    | _ => rfl

inductive Steps (jobSteps : Nat) (pool : Pool) : Event → Pool → Prop where
  | interrupt : Steps jobSteps pool .interrupt { pool with keepRunning := false }
  | configure {workers : Nat} (hmain : pool.main = .configuring (some workers)) :
      Steps jobSteps pool .configure { pool with main := .starting workers }
  | refuse (hmain : pool.main = .configuring none) :
      Steps jobSteps pool .configure { pool with
        main := .joining 0
        result := 1
        reports := pool.reports ++ [none] }
  | spawn {waiting : Nat} (hmain : pool.main = .starting (waiting + 1)) :
      Steps jobSteps pool .spawn { pool with
        main := .starting waiting
        workers := pool.workers ++ [.checking] }
  | start (hmain : pool.main = .starting 0) :
      Steps jobSteps pool .start { pool with main := .joining 0 }
  | join {joined : Nat} (hmain : pool.main = .joining joined)
      (hworker : pool.workers[joined]? = some .finished) :
      Steps jobSteps pool .join { pool with main := .joining (joined + 1) }
  | exit (hmain : pool.main = .joining pool.workers.length) :
      Steps jobSteps pool .exit { pool with main := .exited pool.result }
  | worker {i : Nat} {move : Move} {phase phase' : Phase}
      (hworker : pool.workers[i]? = some phase)
      (hmoves : Moves jobSteps pool.keepRunning move phase phase') :
      Steps jobSteps pool (.worker i move) (pool.after i phase' move)

theorem steps_of_step {jobSteps : Nat} {pool next : Pool} {event : Event}
    (h : step jobSteps pool event = some next) : Steps jobSteps pool event next := by
  unfold step at h
  split at h
  case h_1 =>
    cases h
    exact .interrupt
  case h_2 =>
    split at h <;> cases h
    case h_1 hmain => exact .configure hmain
    case h_2 hmain => exact .refuse hmain
  case h_3 =>
    split at h <;> cases h
    case h_1 hmain => exact .spawn hmain
  case h_4 =>
    split at h <;> cases h
    case h_1 hmain => exact .start hmain
  case h_5 =>
    split at h
    case h_1 hmain =>
      split at h <;> cases h
      case isTrue hworker => exact .join hmain hworker
    case h_2 => cases h
  case h_6 =>
    split at h
    case h_1 hmain =>
      split at h <;> cases h
      case isTrue hlength => exact .exit (hlength ▸ hmain)
    case h_2 => cases h
  case h_7 i move =>
    split at h
    case h_1 phase hworker =>
      obtain ⟨phase', hnext, rfl⟩ := Option.map_eq_some_iff.mp h
      exact .worker hworker (moves_iff.mp hnext)
    case h_2 => cases h

theorem step_of_steps {jobSteps : Nat} {pool next : Pool} {event : Event}
    (h : Steps jobSteps pool event next) : step jobSteps pool event = some next := by
  cases h with
  | interrupt => rfl
  | worker hworker hmoves =>
      rw [step, hworker]
      simp [moves_iff.mpr hmoves]
  | join hmain hworker => simp [step, hmain, hworker]
  | configure hmain => simp [step, hmain]
  | refuse hmain => simp [step, hmain]
  | spawn hmain => simp [step, hmain]
  | start hmain => simp [step, hmain]
  | exit hmain => simp [step, hmain]

/-! ## How long it takes once the flag is down -/

def Phase.weight : Phase → Nat
  | .finished => 0
  | .checking => 1
  | .resting => 2
  | .failing => 3
  | .lowering => 4
  | .reporting => 5
  | .busy left => 6 + left

/-- The steps of the main thread, and what workers still to be started take. -/
def Pool.mainWeight (pool : Pool) : Nat :=
  match pool.main with
  | .configuring none => pool.workers.length + 2
  | .configuring (some workers) => pool.workers.length + 3 * workers + 3
  | .starting waiting => pool.workers.length + 3 * waiting + 2
  | .joining joined => pool.workers.length - joined + 1
  | .exited _ => 0

def Pool.weight (pool : Pool) : Nat :=
  (pool.workers.map Phase.weight).sum + pool.mainWeight

theorem Moves.weight_lt {jobSteps : Nat} {move : Move} {phase phase' : Phase}
    (h : Moves jobSteps false move phase phase') : phase'.weight < phase.weight := by
  cases h with
  | begin h => cases h
  | complete left =>
      simp only [Phase.weight]
      omega
  | raise left =>
      simp only [Phase.weight]
      omega
  | _ => simp [Phase.weight]

theorem sum_set_lt {phases : List Phase} {i : Nat} {phase phase' : Phase}
    (hphase : phases[i]? = some phase) (hlt : phase'.weight < phase.weight) :
    ((phases.set i phase').map Phase.weight).sum < (phases.map Phase.weight).sum := by
  induction phases generalizing i with
  | nil => cases hphase
  | cons first phases ih =>
      cases i with
      | zero =>
          cases hphase
          simpa using hlt
      | succ i => simpa using ih hphase

theorem Steps.weight_lt {jobSteps : Nat} {pool next : Pool} {event : Event}
    (h : Steps jobSteps pool event next) (hdown : pool.keepRunning = false)
    (hevent : event ≠ .interrupt) : next.weight < pool.weight := by
  cases h with
  | interrupt => exact absurd rfl hevent
  | worker hworker hmoves =>
      rw [hdown] at hmoves
      have hsum := sum_set_lt hworker hmoves.weight_lt
      simpa [Pool.weight, Pool.mainWeight, Pool.after] using hsum
  | join hmain hworker =>
      have hlt := (List.getElem?_eq_some_iff.mp hworker).1
      simp only [Pool.weight, Pool.mainWeight, hmain]
      omega
  | configure hmain =>
      simp only [Pool.weight, Pool.mainWeight, hmain]
      omega
  | refuse hmain =>
      simp only [Pool.weight, Pool.mainWeight, hmain]
      omega
  | spawn hmain =>
      simp [Pool.weight, Pool.mainWeight, hmain, Phase.weight]
      omega
  | start hmain =>
      simp only [Pool.weight, Pool.mainWeight, hmain]
      omega
  | exit hmain => simp [Pool.weight, Pool.mainWeight, hmain]

theorem Steps.down {jobSteps : Nat} {pool next : Pool} {event : Event}
    (h : Steps jobSteps pool event next) (hdown : pool.keepRunning = false) :
    next.keepRunning = false := by
  cases h with
  | interrupt => rfl
  | worker => simp [Pool.after, hdown]
  | _ => exact hdown

/-! ## The exit code -/

/-- What a worker that has reported may still be doing. -/
def Pool.Spent (pool : Pool) (phase : Phase) : Prop :=
  phase = .lowering ∨ pool.keepRunning = false ∧
    (phase = .failing ∨ phase = .resting ∨ phase = .checking ∨ phase = .finished)

/-- The result is about to be set. -/
def Pool.Failing (pool : Pool) : Prop :=
  .lowering ∈ pool.workers ∨ .failing ∈ pool.workers

structure Sound (pool : Pool) : Prop where
  code : pool.result = 0 ∨ pool.result = 1
  reported : pool.reports ≠ [] ↔ pool.result = 1 ∨ pool.Failing
  once : pool.reports.Nodup
  spent : ∀ i, some i ∈ pool.reports → ∃ phase, pool.workers[i]? = some phase ∧ pool.Spent phase
  lowered : .failing ∈ pool.workers → pool.keepRunning = false
  refused : none ∈ pool.reports → pool.workers = []
  configuring : ∀ workers, pool.main = .configuring workers →
    pool.workers = [] ∧ pool.reports = []
  starting : ∀ waiting, pool.main = .starting waiting → none ∉ pool.reports
  joined : ∀ joined, pool.main = .joining joined → joined ≤ pool.workers.length ∧
    ∀ j < joined, pool.workers[j]? = some .finished
  exited : ∀ code, pool.main = .exited code → code = pool.result ∧
    ∀ phase ∈ pool.workers, phase = .finished

theorem sound_initial (workers : Option Nat) : Sound { main := .configuring workers } := by
  constructor <;> simp [Pool.Failing]

theorem Sound.interrupt {pool : Pool} (h : Sound pool) :
    Sound { pool with keepRunning := false } := by
  refine ⟨h.code, h.reported, h.once, ?_, fun _ => rfl, h.refused, h.configuring, h.starting,
    h.joined, h.exited⟩
  intro i hmem
  obtain ⟨phase, hphase, hspent⟩ := h.spent i hmem
  exact ⟨phase, hphase, hspent.imp_right fun hspent => ⟨rfl, hspent.2⟩⟩

theorem Moves.ne_finished {jobSteps : Nat} {keepRunning : Bool} {move : Move}
    {phase phase' : Phase} (h : Moves jobSteps keepRunning move phase phase') :
    phase ≠ .finished := by
  cases h <;> simp

theorem mem_set_iff {phases : List Phase} {i : Nat} {phase phase' other : Phase}
    (hphase : phases[i]? = some phase) (hne : other ≠ phase) :
    other ∈ phases.set i phase' ↔ other = phase' ∨ other ∈ phases := by
  induction phases generalizing i with
  | nil => cases hphase
  | cons first phases ih =>
      cases i with
      | zero =>
          cases hphase
          simp [hne]
      | succ i =>
          rw [List.set_cons_succ, List.mem_cons, List.mem_cons, ih hphase]
          tauto

/-- A move keeps a worker that has reported away from its jobs. -/
theorem Pool.Spent.moves {jobSteps : Nat} {pool : Pool} {move : Move} {phase phase' : Phase}
    (h : pool.Spent phase) (hmoves : Moves jobSteps pool.keepRunning move phase phase') (i : Nat) :
    (pool.after i phase' move).Spent phase' := by
  cases hmoves with
  | begin hup => simp [Spent, hup] at h
  | stop hdown => simp [Spent, after, hdown]
  | work left => simp [Spent] at h
  | complete left => simp [Spent] at h
  | raise left => simp [Spent] at h
  | report => simp [Spent] at h
  | lower => simp [Spent, after]
  | fail =>
      have hdown : pool.keepRunning = false := by simpa [Spent] using h
      simp [Spent, after, hdown]
  | wake =>
      have hdown : pool.keepRunning = false := by simpa [Spent] using h
      simp [Spent, after, hdown]

theorem Pool.Spent.after {pool : Pool} {phase : Phase} (h : pool.Spent phase) (i : Nat)
    (phase' : Phase) (move : Move) : (pool.after i phase' move).Spent phase :=
  h.imp_right fun h => ⟨by simp [Pool.after, h.1], h.2⟩

/-- Only `report`, `lower` and `fail` are about the result. -/
theorem Sound.reported_after {jobSteps : Nat} {pool : Pool} (h : Sound pool) {i : Nat}
    {move : Move} {phase phase' : Phase} (hworker : pool.workers[i]? = some phase)
    (hmoves : Moves jobSteps pool.keepRunning move phase phase') :
    (pool.after i phase' move).reports ≠ [] ↔
      (pool.after i phase' move).result = 1 ∨ (pool.after i phase' move).Failing := by
  have hmem := List.mem_of_getElem? hworker
  have hlowering : phase ≠ .lowering → (.lowering ∈ pool.workers.set i phase' ↔
      .lowering = phase' ∨ .lowering ∈ pool.workers) :=
    fun hne => mem_set_iff hworker hne.symm
  have hfailing : phase ≠ .failing → (.failing ∈ pool.workers.set i phase' ↔
      .failing = phase' ∨ .failing ∈ pool.workers) :=
    fun hne => mem_set_iff hworker hne.symm
  have hold := h.reported
  cases hmoves with
  | report =>
      simp [Pool.after, Pool.Failing, hlowering]
  | lower =>
      have hreports := hold.mpr (.inr (.inl hmem))
      simp [Pool.after, Pool.Failing, hfailing, hreports]
  | fail =>
      have hreports := hold.mpr (.inr (.inr hmem))
      simp [Pool.after, hreports]
  | _ =>
      simp only [Pool.Failing] at hold
      simp [Pool.after, Pool.Failing, hlowering, hfailing, hold]

theorem Pool.mem_reports_after {pool : Pool} {i j : Nat} {phase : Phase} {move : Move}
    (h : some j ∈ (pool.after i phase move).reports) :
    some j ∈ pool.reports ∨ (j = i ∧ move = .report) := by
  rcases List.mem_append.mp h with h | h
  · exact .inl h
  · split at h
    case isTrue hreport => exact .inr ⟨by simpa using h, hreport⟩
    case isFalse => cases h

/-- The report without a worker is the one of the setup. -/
theorem Pool.none_mem_reports_after {pool : Pool} {i : Nat} {phase : Phase} {move : Move}
    (h : none ∈ (pool.after i phase move).reports) : none ∈ pool.reports := by
  rcases List.mem_append.mp h with h | h
  · exact h
  · split at h <;> simp at h

/-- A worker that reports is not one that has reported. -/
theorem Sound.once_after {jobSteps : Nat} {pool : Pool} (h : Sound pool) {i : Nat}
    {move : Move} {phase phase' : Phase} (hworker : pool.workers[i]? = some phase)
    (hmoves : Moves jobSteps pool.keepRunning move phase phase') :
    (pool.after i phase' move).reports.Nodup := by
  simp only [Pool.after]
  split
  case isTrue hreport =>
    refine List.nodup_append'.mpr ⟨h.once, List.nodup_singleton _, ?_⟩
    rw [List.disjoint_singleton]
    intro hi
    obtain ⟨spent, hspent, hphase⟩ := h.spent i hi
    cases hworker.symm.trans hspent
    subst hreport
    cases hmoves
    simp [Pool.Spent] at hphase
  case isFalse =>
    rw [List.append_nil]
    exact h.once

theorem Sound.spent_after {jobSteps : Nat} {pool : Pool} (h : Sound pool) {i j : Nat}
    {move : Move} {phase phase' : Phase} (hworker : pool.workers[i]? = some phase)
    (hmoves : Moves jobSteps pool.keepRunning move phase phase')
    (hj : some j ∈ (pool.after i phase' move).reports) :
    ∃ spent, (pool.after i phase' move).workers[j]? = some spent ∧
      (pool.after i phase' move).Spent spent := by
  by_cases hij : i = j
  case pos =>
    subst hij
    refine ⟨phase', ?_, ?_⟩
    · simp [Pool.after, (List.getElem?_eq_some_iff.mp hworker).1]
    · rcases Pool.mem_reports_after hj with hj | ⟨-, rfl⟩
      · obtain ⟨spent, hspent, hphase⟩ := h.spent i hj
        cases hworker.symm.trans hspent
        exact hphase.moves hmoves i
      · cases hmoves
        exact .inl rfl
  case neg =>
    rcases Pool.mem_reports_after hj with hj | ⟨rfl, -⟩
    · obtain ⟨spent, hspent, hphase⟩ := h.spent j hj
      refine ⟨spent, ?_, hphase.after i phase' move⟩
      simpa [Pool.after, List.getElem?_set_ne hij] using hspent
    · exact absurd rfl hij

theorem Sound.move {jobSteps : Nat} {pool : Pool} (h : Sound pool) {i : Nat} {move : Move}
    {phase phase' : Phase} (hworker : pool.workers[i]? = some phase)
    (hmoves : Moves jobSteps pool.keepRunning move phase phase') :
    Sound (pool.after i phase' move) := by
  have hmem := List.mem_of_getElem? hworker
  constructor
  case code =>
    simp only [Pool.after]
    split
    case isTrue => exact .inr rfl
    case isFalse => exact h.code
  case reported => exact h.reported_after hworker hmoves
  case once => exact h.once_after hworker hmoves
  case spent => exact fun _ hj => h.spent_after hworker hmoves hj
  case lowered =>
    intro hfailing
    rcases List.mem_or_eq_of_mem_set hfailing with hfailing | rfl
    · simp [Pool.after, h.lowered hfailing]
    · cases hmoves
      simp [Pool.after]
  case refused =>
    intro hnone
    rw [h.refused (Pool.none_mem_reports_after hnone)] at hmem
    cases hmem
  case configuring =>
    intro workers hmain
    rw [(h.configuring workers hmain).1] at hmem
    cases hmem
  case starting =>
    intro waiting hmain hnone
    exact h.starting waiting hmain (Pool.none_mem_reports_after hnone)
  case joined =>
    intro joined hmain
    obtain ⟨hlength, hfinished⟩ := h.joined joined hmain
    refine ⟨by simpa [Pool.after] using hlength, fun j hj => ?_⟩
    have hne : i ≠ j := by
      rintro rfl
      cases hworker.symm.trans (hfinished i hj)
      exact hmoves.ne_finished rfl
    simpa [Pool.after, List.getElem?_set_ne hne] using hfinished j hj
  case exited =>
    intro code hmain
    exact absurd ((h.exited code hmain).2 phase hmem) hmoves.ne_finished

theorem Sound.step {jobSteps : Nat} {pool next : Pool} {event : Event} (h : Sound pool)
    (hstep : step jobSteps pool event = some next) : Sound next := by
  cases steps_of_step hstep with
  | interrupt => exact h.interrupt
  | worker hworker hmoves => exact h.move hworker hmoves
  | configure hmain =>
      obtain ⟨hworkers, hreports⟩ := h.configuring _ hmain
      exact ⟨h.code, h.reported, h.once, h.spent, h.lowered, h.refused, by simp,
        by simp [hreports], by simp, by simp⟩
  | refuse hmain =>
      obtain ⟨hworkers, hreports⟩ := h.configuring _ hmain
      constructor <;> simp [hworkers, hreports]
  | spawn hmain =>
      refine ⟨h.code, ?_, h.once, ?_, ?_, ?_, by simp, ?_, by simp, by simp⟩
      · simpa [Pool.Failing] using h.reported
      · intro i hi
        obtain ⟨phase, hphase, hspent⟩ := h.spent i hi
        refine ⟨phase, ?_, hspent⟩
        rw [List.getElem?_append_left (List.getElem?_eq_some_iff.mp hphase).1, hphase]
      · simpa using h.lowered
      · exact fun hnone => absurd hnone (h.starting _ hmain)
      · exact fun _ _ => h.starting _ hmain
  | start hmain =>
      exact ⟨h.code, h.reported, h.once, h.spent, h.lowered, h.refused, by simp, by simp,
        by simp, by simp⟩
  | join hmain hworker =>
      obtain ⟨-, hfinished⟩ := h.joined _ hmain
      refine ⟨h.code, h.reported, h.once, h.spent, h.lowered, h.refused, by simp, by simp,
        ?_, by simp⟩
      rintro _ ⟨⟩
      refine ⟨(List.getElem?_eq_some_iff.mp hworker).1, fun j hj => ?_⟩
      rcases Nat.lt_succ_iff_lt_or_eq.mp hj with hj | rfl
      · exact hfinished j hj
      · exact hworker
  | exit hmain =>
      obtain ⟨-, hfinished⟩ := h.joined _ hmain
      refine ⟨h.code, h.reported, h.once, h.spent, h.lowered, h.refused, by simp, by simp,
        by simp, ?_⟩
      rintro _ ⟨⟩
      refine ⟨rfl, fun phase hphase => ?_⟩
      obtain ⟨j, hj⟩ := List.mem_iff_getElem?.mp hphase
      have hlt := (List.getElem?_eq_some_iff.mp hj).1
      cases (hfinished j hlt).symm.trans hj
      rfl

/-- The code is one exactly when something was reported, by each worker at most once. -/
theorem Sound.exited_code {pool : Pool} (h : Sound pool) {code : Nat}
    (hmain : pool.main = .exited code) :
    (code = 0 ∨ code = 1) ∧ (code = 1 ↔ pool.reports ≠ []) ∧ pool.reports.Nodup := by
  obtain ⟨rfl, hfinished⟩ := h.exited code hmain
  have hfailing : ¬ pool.Failing := by
    rintro (hmem | hmem) <;> cases hfinished _ hmem
  refine ⟨h.code, ?_, h.once⟩
  rw [h.reported, or_iff_left hfailing]

/-! ## Without an interrupt -/

/-- Only a report brings the flag down, and only the flag lets a worker finish. -/
structure Pool.Unprompted (pool : Pool) : Prop where
  reported : pool.keepRunning = false → pool.reports ≠ []
  finished : .finished ∈ pool.workers → pool.keepRunning = false

theorem unprompted_initial (workers : Option Nat) :
    Pool.Unprompted { main := .configuring workers } := by
  constructor <;> simp

theorem Pool.Unprompted.move {jobSteps : Nat} {pool : Pool} (h : pool.Unprompted)
    (hsound : Sound pool) {i : Nat} {move : Move} {phase phase' : Phase}
    (hworker : pool.workers[i]? = some phase)
    (hmoves : Moves jobSteps pool.keepRunning move phase phase') :
    (pool.after i phase' move).Unprompted := by
  have hfinished : phase' ≠ .finished → .finished ∈ pool.workers.set i phase' →
      pool.keepRunning = false := by
    intro hne hmem
    rcases List.mem_or_eq_of_mem_set hmem with hmem | heq
    · exact h.finished hmem
    · exact absurd heq.symm hne
  cases hmoves with
  | stop hdown =>
      exact ⟨fun _ => by simpa [after] using h.reported hdown, fun _ => by simp [after, hdown]⟩
  | report => exact ⟨by simp [after], by simpa [after] using hfinished (by simp)⟩
  | lower =>
      have hreports := hsound.reported.mpr (.inr (.inl (List.mem_of_getElem? hworker)))
      exact ⟨fun _ => by simpa [after] using hreports, fun _ => by simp [after]⟩
  | _ => exact ⟨by simpa [after] using h.reported, by simpa [after] using hfinished (by simp)⟩

theorem Pool.Unprompted.step {jobSteps : Nat} {pool next : Pool} {event : Event}
    (h : pool.Unprompted) (hsound : Sound pool) (hsteps : Steps jobSteps pool event next)
    (hevent : event ≠ .interrupt) : next.Unprompted := by
  cases hsteps with
  | interrupt => exact absurd rfl hevent
  | worker hworker hmoves => exact h.move hsound hworker hmoves
  | refuse hmain => exact ⟨fun _ => by simp, h.finished⟩
  | spawn hmain => exact ⟨h.reported, fun hmem => h.finished (by simpa using hmem)⟩
  | _ => exact ⟨h.reported, h.finished⟩

/-- A pool with workers that returns without an interrupt has reported. -/
theorem Pool.Unprompted.exited_code {pool : Pool} (h : pool.Unprompted) (hsound : Sound pool)
    (hworkers : pool.workers ≠ []) {code : Nat} (hmain : pool.main = .exited code) :
    code = 1 := by
  obtain ⟨phase, hphase⟩ := List.exists_mem_of_ne_nil _ hworkers
  have hfinished := (hsound.exited code hmain).2 phase hphase
  exact (hsound.exited_code hmain).2.1.mpr (h.reported (h.finished (hfinished ▸ hphase)))

end Rdbus.Foundation.WorkerPool
