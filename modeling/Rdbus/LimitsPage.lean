import Rdbus.Service

/-!
# The limits of a running program

The managers of a program with a server take steps that they also take as a
system of their own, in which the threads still to be started are at rest.  What
holds of the limits there holds of the page that a client is given.
-/

namespace Rdbus

open Foundation

namespace System

/-- The cookies have no part in what is sent. -/
theorem sendOutputs_of_output {sizeofData : Nat} {dumpError : Bytes → Option Bytes}
    {now : Timestamp} {outputs : List (List Processing.Limits.Data)} {http : Out.Http}
    {cookies : Out.Sessioner.Cookies} {output : Out.Output}
    (h : Out.Output.sendOutputs sizeofData dumpError now outputs
      (.http { http with cookies }) = .ok output) :
    ∃ next, sendOutputs sizeofData now http outputs = .ok next ∧
      output = .http { next with cookies } := by
  unfold Out.Output.sendOutputs at h
  unfold sendOutputs
  induction outputs generalizing http with
  | nil =>
      cases h
      exact ⟨http, rfl, rfl⟩
  | cons list outputs ih =>
      rw [List.foldlM_cons] at h ⊢
      obtain ⟨middle, hfirst, hrest⟩ := bind_eq_ok.mp h
      simp only [Out.Output.sendLimits, Out.Http.sendLimits] at hfirst
      cases hstorage : http.limitsStorage with
      | none =>
          rw [hstorage] at hfirst
          cases hfirst
      | some buffer =>
          rw [hstorage] at hfirst
          cases hfirst
          have hsends : outputs.foldlM (fun output list =>
              output.sendLimits sizeofData dumpError now list) (Out.Output.http
                { ({ http with limitsStorage := some (buffer.add
                    Processing.Limits.Data.deviceName sizeofData now list) } : Out.Http) with
                  cookies }) = .ok output := hrest
          obtain ⟨next, hnext, rfl⟩ := ih hsends
          refine ⟨next, ?_, rfl⟩
          rw [Out.Http.sendLimits, hstorage]
          exact hnext

end System

namespace Program

def Stage.readings : Stage → Option (List Data)
  | .processing list => some list
  | _ => none

/-- What the system of the managers has of a thread. -/
def Thread.shared (thread : Thread) : Rdbus.Thread :=
  ⟨thread.manager, thread.stage.readings⟩

/-- The steps of the managers in a step of the program. -/
def managerSteps (program : Program) : Event → List System.Event
  | .collect i outside now =>
      match program.threads[i]? with
      | some ⟨manager, .collecting⟩ =>
          match manager.collect outside with
          | .ok _ => [.collect i outside now]
          | .error _ => []
      | _ => []
  | .process i now => [.process i now]
  | _ => []

/-- The program has the managers and, but for the cookies, the server of the system. -/
structure Sharing (program : Program) (system : System) : Prop where
  server : ∃ cookies, program.server = .http { system.http with cookies }
  early : ∀ made, program.main = .configuring made →
    program.threads = [] ∧ program.output = .pipe []
  threads : system.threads = program.crew.map Thread.shared

section

variable {sizeofData : Nat} {dumpError : Bytes → Option Bytes}

theorem Sharing.of_thread {program : Program} {system : System} (h : Sharing program system)
    {i : Nat} {thread : Thread} (hthread : program.threads[i]? = some thread) :
    (∀ made, program.main ≠ .configuring made) ∧
      (∃ cookies, program.output = .http { system.http with cookies }) ∧
      system.threads[i]? = some thread.shared := by
  have hmain : ∀ made, program.main ≠ .configuring made := by
    intro made heq
    rw [(h.early made heq).1] at hthread
    cases hthread
  refine ⟨hmain, ?_, ?_⟩
  · rw [← server_of_started hmain]
    exact h.server
  · rw [h.threads, List.getElem?_map, crew_of_thread hthread, Option.map_some]

theorem Sharing.of_output {program : Program} {system : System} (h : Sharing program system)
    {server : Out.Http} (houtput : program.output = .http server) :
    (∀ made, program.main ≠ .configuring made) ∧
      ∃ cookies, server = { system.http with cookies } := by
  have hmain : ∀ made, program.main ≠ .configuring made := by
    intro made heq
    rw [(h.early made heq).2] at houtput
    cases houtput
  obtain ⟨cookies, hserver⟩ := h.server
  rw [server_of_started hmain, houtput] at hserver
  exact ⟨hmain, cookies, Out.Output.http.inj hserver⟩

/-- A step of `main`. -/
theorem Sharing.same {program next : Program} {system : System} (h : Sharing program system)
    (hserver : next.server = program.server) (hcrew : next.crew = program.crew)
    (hmain : ∀ made, next.main ≠ .configuring made) : Sharing next system :=
  ⟨by rw [hserver]; exact h.server, fun made heq => absurd heq (hmain made),
    by rw [hcrew]; exact h.threads⟩

theorem Sharing.set {program next : Program} {system system' : System}
    (h : Sharing program system) {i : Nat} {thread thread' : Thread}
    (hthread : program.threads[i]? = some thread)
    (hthreads : next.threads = program.threads.set i thread') (hmain : next.main = program.main)
    (houtput : ∃ cookies, next.output = .http { system'.http with cookies })
    (hsystem : system'.threads = system.threads.set i thread'.shared) : Sharing next system' := by
  obtain ⟨hstarted, -⟩ := h.of_thread hthread
  rw [← hmain] at hstarted
  refine ⟨?_, fun made heq => absurd heq (hstarted made), ?_⟩
  · rw [server_of_started hstarted]
    exact houtput
  · rw [hsystem, h.threads, crew_set hthread hthreads hmain, List.map_set]

/-- A step of a thread that the system does not see. -/
theorem Sharing.unseen {program next : Program} {system : System} (h : Sharing program system)
    {i : Nat} {thread thread' : Thread} (hthread : program.threads[i]? = some thread)
    (hthreads : next.threads = program.threads.set i thread') (hmain : next.main = program.main)
    (houtput : next.output = program.output) (hshared : thread'.shared = thread.shared) :
    Sharing next system := by
  obtain ⟨-, hserver, hown⟩ := h.of_thread hthread
  refine h.set hthread hthreads hmain (houtput ▸ hserver) ?_
  obtain ⟨hlt, hget⟩ := List.getElem?_eq_some_iff.mp hown
  rw [hshared, ← hget, List.set_getElem_self]

theorem sharing_collect {program : Program} {system : System} (h : Sharing program system)
    {i : Nat} {outside : Nat → Outside} {now : Timestamp} {manager manager' : Manager}
    {list : List Data} {output : Out.Output}
    (hthread : program.threads[i]? = some ⟨manager, .collecting⟩)
    (hcollect : manager.collect outside = .ok (list, manager'))
    (hsend : sendReadings sizeofData dumpError now list program.output = .ok output)
    {next : Program} (hthreads : next.threads = program.threads.set i ⟨manager', .processing list⟩)
    (hmain : next.main = program.main) (houtput : next.output = output) :
    ∃ after, run (System.step sizeofData) system
      (program.managerSteps (.collect i outside now)) = some after ∧ Sharing next after := by
  obtain ⟨-, ⟨cookies, hserver⟩, hown⟩ := h.of_thread hthread
  have hsteps : program.managerSteps (.collect i outside now) = [.collect i outside now] := by
    rw [managerSteps, hthread]
    simp only [hcollect]
  have hstep : System.step sizeofData system (.collect i outside now) = some { system with
      http := if list.isEmpty then system.http else system.http.send sizeofData now list
      threads := system.threads.set i ⟨manager', some list⟩ } := by
    rw [System.step, hown]
    simp only [Thread.shared, Stage.readings, hcollect]
  refine ⟨_, by rw [hsteps]; exact run_cons.mpr ⟨_, hstep, rfl⟩,
    h.set hthread hthreads hmain ⟨cookies, ?_⟩ rfl⟩
  unfold sendReadings at hsend
  rw [hserver] at hsend
  rw [houtput]
  split at hsend
  case isTrue hempty =>
    cases hsend
    simp only [hempty, if_true]
  case isFalse hempty =>
    cases hsend
    simp only [hempty]
    rfl

theorem sharing_process {program : Program} {system : System} (h : Sharing program system)
    {i : Nat} {now : Timestamp} {manager manager' : Manager} {list : List Data}
    {outputs : List (List Processing.Limits.Data)} {output : Out.Output}
    (hthread : program.threads[i]? = some ⟨manager, .processing list⟩)
    (hprocess : manager.process list = .ok (outputs, manager'))
    (hsend : program.output.sendOutputs sizeofData dumpError now outputs = .ok output)
    {next : Program} (hthreads : next.threads = program.threads.set i ⟨manager', .sleeping⟩)
    (hmain : next.main = program.main) (houtput : next.output = output) :
    ∃ after, run (System.step sizeofData) system (program.managerSteps (.process i now)) =
      some after ∧ Sharing next after := by
  obtain ⟨-, ⟨cookies, hserver⟩, hown⟩ := h.of_thread hthread
  rw [hserver] at hsend
  obtain ⟨http, hsent, rfl⟩ := System.sendOutputs_of_output hsend
  have hstep : System.step sizeofData system (.process i now) = some
      { http
        threads := system.threads.set i ⟨manager', none⟩
        produced := System.record i outputs.flatten system.produced } := by
    rw [System.step, hown]
    simp only [Thread.shared, Stage.readings, hprocess, hsent]
  exact ⟨_, run_cons.mpr ⟨_, hstep, rfl⟩, h.set hthread hthreads hmain ⟨cookies, houtput⟩ rfl⟩

theorem sharing_read {program : Program} {system : System} (h : Sharing program system)
    {now : Timestamp} {cookie : Option Bytes} {server server' : Out.Http}
    {response : Out.Http.Response} (houtput : program.output = .http server)
    (hread : server.handleRead dumpError now cookie = .ok (response, server'))
    {next : Program} (hcrew : next.crew = program.crew) (hmain : next.main = program.main)
    (hserver : next.output = .http server') : Sharing next system := by
  obtain ⟨hstarted, cookies, rfl⟩ := h.of_output houtput
  obtain ⟨_, hplain, -⟩ := Out.handleRead_ok hread
  have hreadings := Out.storage_read hplain
  have hlimits := limitsStorage_handleRead hread
  rw [← hmain] at hstarted
  refine ⟨⟨server'.cookies, ?_⟩, fun made heq => absurd heq (hstarted made), ?_⟩
  · rw [server_of_started hstarted, hserver]
    obtain ⟨readings, limits, _⟩ := server'
    cases hreadings
    cases hlimits
    rfl
  · rw [hcrew]
    exact h.threads

/-- A step without steps of the managers. -/
theorem sharing_silent {program next : Program} {event : Event} {system : System}
    (hsteps : program.managerSteps event = []) (h : Sharing next system) :
    ∃ after, run (System.step sizeofData) system (program.managerSteps event) = some after ∧
      Sharing next after := by
  rw [hsteps]
  exact ⟨system, rfl, h⟩

theorem sharing_steps {program next : Program} {event : Event} {system : System}
    (hequipped : program.Equipped) (h : Sharing program system)
    (hsteps : Steps sizeofData dumpError program event next) :
    ∃ after, run (System.step sizeofData) system (program.managerSteps event) = some after ∧
      Sharing next after := by
  cases hsteps with
  | interrupt => exact sharing_silent rfl ⟨h.server, h.early, h.threads⟩
  | refuse hmain =>
      obtain ⟨cookies, hserver⟩ := h.server
      rw [server, hmain] at hserver
      simp only [(h.early _ hmain).2] at hserver
      cases hserver
  | configure hmain | spawn hmain | start hmain | join hmain | exit hmain =>
      refine sharing_silent rfl (h.same ?_ ?_ (by simp))
      · simp [server, hmain]
      · simp [crew, hmain, Main.waiting]
  | check hthread =>
      refine sharing_silent rfl (h.unseen hthread rfl rfl rfl ?_)
      split <;> rfl
  | collect hthread hcollect hsend =>
      exact sharing_collect h hthread hcollect hsend rfl rfl rfl
  | collectThrows hthread hcollect =>
      refine sharing_silent ?_ (h.unseen hthread rfl rfl rfl rfl)
      rw [managerSteps, hthread]
      simp only [hcollect]
  | sendThrows hthread hcollect hsend =>
      obtain ⟨-, ⟨cookies, hserver⟩, -⟩ := h.of_thread hthread
      unfold sendReadings at hsend
      rw [hserver] at hsend
      split at hsend <;> cases hsend
  | process hthread hprocess hsend =>
      exact sharing_process h hthread hprocess hsend rfl rfl rfl
  | processThrows hthread hprocess he => exact absurd (Manager.process_error hprocess) he
  | @limitsThrow i now manager manager' list outputs e hthread hprocess hsend =>
      obtain ⟨-, ⟨cookies, hserver⟩, -⟩ := h.of_thread hthread
      obtain ⟨server', hsent, -⟩ := hequipped.sendOutputs hthread hprocess hserver now
      cases hsend.symm.trans hsent
  | report hthread => exact sharing_silent rfl (h.unseen hthread rfl rfl rfl rfl)
  | lower hthread => exact sharing_silent rfl (h.unseen hthread rfl rfl rfl rfl)
  | fail hthread => exact sharing_silent rfl (h.unseen hthread rfl rfl rfl rfl)
  | wake hthread => exact sharing_silent rfl (h.unseen hthread rfl rfl rfl rfl)
  | read hmain houtput hread =>
      exact sharing_silent rfl (sharing_read h houtput hread rfl rfl rfl)
  | processLimits => exact sharing_silent rfl h

/-- Each step of the program is a run of its managers. -/
theorem sharing_step : Simulates (step sizeofData dumpError) (System.step sizeofData)
    managerSteps fun program system => program.Equipped ∧ Sharing program system := by
  intro program next event system ⟨hequipped, h⟩ hstep
  obtain ⟨after, hafter, hnext⟩ := sharing_steps hequipped h (steps_of_step hstep)
  exact ⟨after, hafter, hequipped.step hstep, hnext⟩

theorem sharing_initial {configs : List Config} {managers : List Manager}
    (hmanagers : configs.mapM initializeManager = .ok managers) :
    ∃ system, System.initial configs = .ok system ∧ Sharing (initial
      (.ok (.http (.initial (processorDescriptions configs)), managers))) system := by
  have hsystem : System.initial configs = .ok
      { http := .initial (processorDescriptions configs)
        threads := managers.map fun manager => { manager } } := by
    rw [System.initial, hmanagers]
    rfl
  refine ⟨_, hsystem, ⟨∅, rfl⟩, fun _ _ => ⟨rfl, rfl⟩, ?_⟩
  simp [crew, initial, Main.waiting, Thread.shared, Stage.readings, Function.comp_def]

/-! ## The page -/

/-- A client that asks for the limits is given what the system shows. -/
theorem Sharing.processLimits {program : Program} {system : System} (h : Sharing program system)
    {server : Out.Http} (houtput : program.output = .http server) :
    server.processLimits dumpError =
      if system.http.limitsStorage.isSome then
        Out.Http.Response.dump dumpError { content := .limits system.shown }
      else Out.Http.exceptionHandler (.std (str "map::at")) := by
  obtain ⟨-, cookies, rfl⟩ := h.of_output houtput
  unfold Out.Http.processLimits System.shown
  cases hstorage : system.http.limitsStorage with
  | none => rfl
  | some buffer => rfl

/--
However threads and clients take their turns: when no two accepted files name
the same device in their limits, the page lists the latest output of each
manager for each device.
-/
theorem page_of_disjoint {jsons : List Config.ConfigJson} {configs : List Config}
    (hconfigs : jsons.mapM Config.fromJson = .ok configs)
    (hdisjoint : ∀ i j device, System.Limited configs i device →
      System.Limited configs j device → i = j)
    {managers : List Manager} (hmanagers : configs.mapM initializeManager = .ok managers)
    {events : List Event} {final : Program}
    (hrun : run (step sizeofData dumpError) (initial
      (.ok (.http (.initial (processorDescriptions configs)), managers))) events = some final) :
    ∃ first system, System.initial configs = .ok first ∧
      run (System.step sizeofData) first (traceOf (step sizeofData dumpError) managerSteps
        (initial (.ok (.http (.initial (processorDescriptions configs)), managers))) events) =
        some system ∧
      system.ShowsLatest ∧
      ∀ server, final.output = .http server → server.processLimits dumpError =
        if system.http.limitsStorage.isSome then
          Out.Http.Response.dump dumpError { content := .limits system.shown }
        else Out.Http.exceptionHandler (.std (str "map::at")) := by
  obtain ⟨first, hfirst, hsharing⟩ := sharing_initial hmanagers
  obtain ⟨system, hsystem, -, hfinal⟩ :=
    sharing_step.run ⟨equipped_initial hmanagers (.inr rfl), hsharing⟩ hrun
  refine ⟨first, system, hfirst, hsystem, ?_, fun server => hfinal.processLimits⟩
  have hsound : system.Sound := System.sound_run hconfigs hfirst hsystem
  rw [System.showsLatest_iff_exclusive hsound.stored]
  exact System.exclusive_run hdisjoint hfirst hsystem

end

end Program

end Rdbus
