import Rdbus.Service

/-!
# Where the shown readings come from

A client is answered, and the pipe prints, nothing but what managers have handed
over.  With accepted files that stay defined these are whole readings of the
configured devices.
-/

namespace Rdbus

open Foundation

namespace Out

/-- The server holds and has answered only what is logged. -/
structure Traced (world : World) : Prop where
  stream : world.http.rdbusDataStorage.type = .stream
  stored : ∀ pair ∈ world.http.rdbusDataStorage.data, pair.2 ∈ world.log.map Prod.snd
  answered : ∀ read ∈ world.reads, ∀ data ∈ read.entries, data ∈ world.log.map Prod.snd

theorem content_read {now : Timestamp} {http http' : Http} {cookie : Option Bytes}
    {response : Http.Response} (h : http.read now cookie = .ok (response, http')) :
    (∃ lastTime, response.content = .data (http.rdbusDataStorage.parseFrom lastTime)) ∨
      ∃ message, response.content = .text message := by
  unfold Http.read at h
  split at h
  case h_1 =>
    obtain ⟨⟨id, cookies⟩, -, h⟩ := bind_eq_ok.mp h
    cases h
    exact .inl ⟨0, rfl⟩
  case h_2 =>
    split at h <;> cases h
    case h_1 => exact .inl ⟨_, rfl⟩
    case h_2 e cookies hexpired =>
      refine .inr ?_
      unfold Http.exceptionHandler
      split <;> exact ⟨_, rfl⟩

theorem content_dump (dumpError : Bytes → Option Bytes) (response : Http.Response) :
    (response.dump dumpError).content = response.content ∨
      ∃ message, (response.dump dumpError).content = .text message := by
  unfold Http.Response.dump
  simp only
  split
  case h_1 => exact .inl rfl
  case h_2 => exact .inr ⟨_, rfl⟩

theorem mem_of_entries {dumpError : Bytes → Option Bytes} {now : Timestamp}
    {http http' : Http} {cookie : Option Bytes} {response : Http.Response}
    (h : http.read now cookie = .ok (response, http')) {session : Option Int}
    {stored dropped : Nat} {data : Rdbus.Data}
    (hdata : data ∈ Read.entries ⟨now, session, response.dump dumpError, stored, dropped⟩) :
    ∃ pair ∈ http.rdbusDataStorage.data, pair.2 = data := by
  unfold Read.entries at hdata
  rcases content_dump dumpError response with hsame | ⟨message, htext⟩
  · simp only [hsame] at hdata
    rcases content_read h with ⟨lastTime, hcontent⟩ | ⟨message, hcontent⟩
    · simp only [hcontent] at hdata
      exact mem_parseFrom hdata
    · simp [hcontent] at hdata
  · simp [htext] at hdata

theorem Traced.step {sizeofData : Nat} {dumpError : Bytes → Option Bytes} {world next : World}
    {event : Event} (h : Traced world)
    (hstep : step sizeofData dumpError world event = some next) : Traced next := by
  cases event with
  | send now list =>
      cases hstep
      have hlogged : ∀ data ∈ world.log.map Prod.snd,
          data ∈ (world.log ++ list.map fun entry => (now, entry)).map Prod.snd := by
        intro data hdata
        rw [List.map_append]
        exact List.mem_append_left _ hdata
      refine ⟨by simp [Http.send, Buffer.add, h.stream], fun pair hpair => ?_,
        fun read hread data hdata => hlogged data (h.answered read hread data hdata)⟩
      have hbuffer : (world.http.send sizeofData now list).rdbusDataStorage.data =
          Buffer.constrainSize sizeofData
            (world.http.rdbusDataStorage.data ++ list.map fun entry => (now, entry)) := by
        simp [Http.send, Buffer.add, h.stream]
      rw [hbuffer, Buffer.constrainSize_eq_drop] at hpair
      rcases List.mem_append.mp (List.mem_of_mem_drop hpair) with hpair | hpair
      · exact hlogged _ (h.stored pair hpair)
      · rw [List.map_append]
        exact List.mem_append_right _ (List.mem_map_of_mem hpair)
  | sendLimits now list =>
      unfold Out.step Http.sendLimits at hstep
      cases hlimits : world.http.limitsStorage with
      | none => simp [hlimits] at hstep
      | some buffer =>
          simp only [hlimits, Option.some.injEq] at hstep
          rw [← hstep]
          exact ⟨h.stream, h.stored, h.answered⟩
  | read now cookie =>
      obtain ⟨response, http, hread, rfl⟩ := step_read hstep
      have hstorage := storage_read hread
      refine ⟨by rw [hstorage]; exact h.stream, by rw [hstorage]; exact h.stored, ?_⟩
      intro read hmem data hdata
      rcases List.mem_append.mp hmem with hmem | hmem
      · exact h.answered read hmem data hdata
      · rw [List.mem_singleton] at hmem
        subst hmem
        obtain ⟨pair, hpair, rfl⟩ := mem_of_entries hread hdata
        exact h.stored pair hpair
  | processLimits =>
      cases hstep
      exact h

def Document.readings? : Document → Option (List Rdbus.Data)
  | .readings list => some list
  | .limits _ => none

end Out

namespace Program

/-- What the pipe shows of the readings of a run. -/
def shown (dumpError : Bytes → Option Bytes) (list : List Data) : Bool :=
  !list.isEmpty && (Out.Document.readings list).Written dumpError

/-- The output is the pipe, which has printed what was handed over and can be written. -/
structure Printing (dumpError : Bytes → Option Bytes) (program : Program)
    (printed : List Out.Document) : Prop where
  server : program.server = .pipe printed
  early : ∀ made, program.main = .configuring made →
    program.threads = [] ∧ program.output = .pipe [] ∧ printed = []
  unasked : program.replies = []
  readings : printed.filterMap Out.Document.readings? =
    (program.handed.map Prod.snd).filter (shown dumpError)
  written : ∀ document ∈ printed, document.Written dumpError

section

variable {sizeofData : Nat} {dumpError : Bytes → Option Bytes}

theorem Printing.of_thread {program : Program} {printed : List Out.Document}
    (h : Printing dumpError program printed) {i : Nat} {thread : Thread}
    (hthread : program.threads[i]? = some thread) :
    (∀ made, program.main ≠ .configuring made) ∧ program.output = .pipe printed := by
  have hmain : ∀ made, program.main ≠ .configuring made := by
    intro made heq
    rw [(h.early made heq).1] at hthread
    cases hthread
  refine ⟨hmain, ?_⟩
  rw [← server_of_started hmain]
  exact h.server

theorem Printing.next {program next : Program} {printed more : List Out.Document}
    (h : Printing dumpError program printed) (lists : List (List Data))
    (hmain : ∀ made, next.main ≠ .configuring made)
    (houtput : next.output = .pipe (printed ++ more)) (hreplies : next.replies = program.replies)
    (hhanded : next.handed.map Prod.snd = program.handed.map Prod.snd ++ lists)
    (hlists : more.filterMap Out.Document.readings? = lists.filter (shown dumpError))
    (hmore : ∀ document ∈ more, document.Written dumpError) :
    Printing dumpError next (printed ++ more) := by
  refine ⟨?_, fun made heq => absurd heq (hmain made), hreplies.trans h.unasked, ?_,
    List.forall_mem_append.mpr ⟨h.written, hmore⟩⟩
  · rw [server_of_started hmain]
    exact houtput
  · rw [hhanded, List.filterMap_append, List.filter_append, h.readings, hlists]

theorem Printing.same {program next : Program} {printed : List Out.Document}
    (h : Printing dumpError program printed) (hserver : next.server = program.server)
    (hmain : ∀ made, next.main ≠ .configuring made) (hreplies : next.replies = program.replies)
    (hhanded : next.handed = program.handed) : Printing dumpError next printed :=
  ⟨hserver.trans h.server, fun made heq => absurd heq (hmain made), hreplies.trans h.unasked,
    by rw [hhanded]; exact h.readings, h.written⟩

theorem readings_limitsDocuments (outputs : List (List Processing.Limits.Data)) :
    (Out.Output.limitsDocuments outputs).filterMap Out.Document.readings? = [] := by
  unfold Out.Output.limitsDocuments
  rw [List.filterMap_map]
  exact List.filterMap_eq_nil_iff.mpr fun _ _ => rfl

theorem readings_readingsDocuments {list : List Data}
    (hwritten : ∀ document ∈ Out.Output.readingsDocuments list, document.Written dumpError) :
    (Out.Output.readingsDocuments list).filterMap Out.Document.readings? =
      [list].filter (shown dumpError) := by
  unfold Out.Output.readingsDocuments at hwritten ⊢
  cases hempty : list.isEmpty with
  | true => simp [shown, hempty]
  | false =>
      have hlist : (Out.Document.readings list).Written dumpError := by
        simpa [hempty] using hwritten
      simp [shown, hempty, hlist, Out.Document.readings?]

/-- A list that the pipe throws on is not shown. -/
theorem shown_of_sendReadings {list : List Data} {now : Timestamp} {printed : List Out.Document}
    {e : Throw} (hsend : sendReadings sizeofData dumpError now list (.pipe printed) = .error e) :
    shown dumpError list = false := by
  by_contra hshown
  have hwritten : ∀ document ∈ Out.Output.readingsDocuments list,
      document.Written dumpError := by
    simp only [shown, Bool.not_eq_false, Bool.and_eq_true, decide_eq_true_eq] at hshown
    unfold Out.Output.readingsDocuments
    split
    case isTrue => simp
    case isFalse => simpa using hshown.2
  have hok : sendReadings sizeofData dumpError now list (.pipe printed) = .ok _ :=
    sendReadings_pipe.mpr ⟨hwritten, rfl⟩
  cases hsend.symm.trans hok

theorem Printing.step {program next : Program} {event : Event} {printed : List Out.Document}
    (h : Printing dumpError program printed)
    (hstep : program.step sizeofData dumpError event = some next) :
    ∃ more, Printing dumpError next (printed ++ more) := by
  -- What a thread does to the rest of the program.
  have hthread : ∀ {i : Nat} {thread : Thread}, program.threads[i]? = some thread →
      next.main = program.main → next.output = program.output →
      next.replies = program.replies → next.handed = program.handed →
      ∃ more, Printing dumpError next (printed ++ more) := by
    intro i thread hthread hmain houtput hreplies hhanded
    obtain ⟨hstarted, hpipe⟩ := h.of_thread hthread
    refine ⟨[], h.next [] (hmain ▸ hstarted) ?_ hreplies ?_ rfl (by simp)⟩
    · rw [houtput, hpipe, List.append_nil]
    · rw [hhanded, List.append_nil]
  have hsame : ∀ {next : Program}, next.server = program.server →
      (∀ made, next.main ≠ .configuring made) → next.replies = program.replies →
      next.handed = program.handed → ∃ more, Printing dumpError next (printed ++ more) := by
    intro next hserver hmain hreplies hhanded
    refine ⟨[], ?_⟩
    rw [List.append_nil]
    exact h.same hserver hmain hreplies hhanded
  cases steps_of_step hstep with
  | interrupt =>
      refine ⟨[], ?_⟩
      rw [List.append_nil]
      exact ⟨h.server, h.early, h.unasked, h.readings, h.written⟩
  | configure hmain => exact hsame (by simp [Program.server, hmain]) (by simp) rfl rfl
  | refuse hmain => exact hsame (by simp [Program.server, hmain]) (by simp) rfl rfl
  | spawn hmain => exact hsame (by simp [Program.server, hmain]) (by simp) rfl rfl
  | start hmain => exact hsame (by simp [Program.server, hmain]) (by simp) rfl rfl
  | join hmain => exact hsame (by simp [Program.server, hmain]) (by simp) rfl rfl
  | exit hmain => exact hsame (by simp [Program.server, hmain]) (by simp) rfl rfl
  | check hchecking => exact hthread hchecking rfl rfl rfl rfl
  | collectThrows hcollecting => exact hthread hcollecting rfl rfl rfl rfl
  | processThrows hprocessing => exact hthread hprocessing rfl rfl rfl rfl
  | limitsThrow hprocessing => exact hthread hprocessing rfl rfl rfl rfl
  | report hreporting => exact hthread hreporting rfl rfl rfl rfl
  | lower hlowering => exact hthread hlowering rfl rfl rfl rfl
  | fail hfailing => exact hthread hfailing rfl rfl rfl rfl
  | wake hsleeping => exact hthread hsleeping rfl rfl rfl rfl
  | @collect i outside now manager manager' list output hcollecting hcollect hsend =>
      obtain ⟨hstarted, hpipe⟩ := h.of_thread hcollecting
      rw [hpipe, sendReadings_pipe] at hsend
      obtain ⟨hwritten, houtput⟩ := hsend
      exact ⟨_, h.next [list] hstarted houtput rfl (by simp [setThread])
        (readings_readingsDocuments hwritten) hwritten⟩
  | @sendThrows i outside now manager manager' list e hcollecting hcollect hsend he =>
      obtain ⟨hstarted, hpipe⟩ := h.of_thread hcollecting
      rw [hpipe] at hsend
      refine ⟨[], h.next [list] hstarted ?_ rfl (by simp [setThread]) ?_ (by simp)⟩
      · rw [List.append_nil]
        exact hpipe
      · simp [shown_of_sendReadings hsend]
  | @process i now manager manager' list outputs output hprocessing hprocess hsend =>
      obtain ⟨hstarted, hpipe⟩ := h.of_thread hprocessing
      rw [hpipe, Out.Output.sendOutputs_pipe] at hsend
      obtain ⟨hwritten, houtput⟩ := hsend
      refine ⟨_, h.next [] hstarted houtput rfl (by simp [setThread]) ?_ hwritten⟩
      rw [readings_limitsDocuments]
      rfl
  | read hmain houtput hread =>
      have hstarted : ∀ made, program.main ≠ .configuring made := by
        intro made heq
        rw [(h.early made heq).2.1] at houtput
        cases houtput
      have hserver := h.server
      rw [server_of_started hstarted] at hserver
      cases houtput.symm.trans hserver
  | processLimits =>
      refine ⟨[], ?_⟩
      rw [List.append_nil]
      exact h

theorem Printing.output {program : Program} {printed : List Out.Document}
    (h : Printing dumpError program printed) : program.output = .pipe printed := by
  by_cases hmain : ∃ made, program.main = .configuring made
  case pos =>
    obtain ⟨made, hmain⟩ := hmain
    obtain ⟨-, houtput, rfl⟩ := h.early made hmain
    exact houtput
  case neg =>
    rw [← server_of_started fun made hmade => hmain ⟨made, hmade⟩]
    exact h.server

theorem printing_run {managers : List Manager} {events : List Event} {final : Program}
    (hrun : run (step sizeofData dumpError) (initial (.ok (.pipe [], managers))) events =
      some final) : ∃ printed, Printing dumpError final printed := by
  have hinitial : Printing dumpError (initial (.ok (.pipe [], managers))) [] := by
    constructor <;> simp [server, initial]
  refine run_invariant (fun program => ∃ printed, Printing dumpError program printed) ?_
    alongRun_true ⟨[], hinitial⟩ hrun
  rintro program event next - ⟨printed, h⟩ hstep
  obtain ⟨more, hmore⟩ := h.step hstep
  exact ⟨_, hmore⟩

/--
However the threads take their turns, the pipe prints the readings of one run
after the other in the order in which they are handed over, and leaves out only
the runs without readings and those with a text that cannot be written.
-/
theorem prints_handed {managers : List Manager} {events : List Event} {final : Program}
    (hrun : run (step sizeofData dumpError) (initial (.ok (.pipe [], managers))) events =
      some final) :
    ∃ printed, final.output = .pipe printed ∧
      (∀ document ∈ printed, document.Written dumpError) ∧
      printed.filterMap Out.Document.readings? =
        (final.handed.map Prod.snd).filter (shown dumpError) := by
  obtain ⟨printed, h⟩ := printing_run hrun
  exact ⟨printed, h.output, h.written, h.readings⟩

theorem prints_handed_interrupted : ∃ printed, interrupted.output = .pipe printed ∧
    printed.filterMap Out.Document.readings? = [[silence]] := by
  obtain ⟨printed, houtput, -, hreadings⟩ := prints_handed run_untilInterrupt
  exact ⟨printed, houtput, hreadings.trans rfl⟩

/-! ## What a client is answered -/

theorem answered_handed {withLimits : Bool} {managers : List Manager} {events : List Event}
    {final : Program}
    (hrun : run (step sizeofData dumpError)
      (initial (.ok (.http (.initial withLimits), managers))) events = some final) :
    ∀ reply ∈ final.replies, ∀ data ∈ reply.entries, data ∈ final.handed.flatMap Prod.snd := by
  obtain ⟨world, hworld, hfinal⟩ := served_step.run (served_initial withLimits managers) hrun
  have htraced : Out.Traced world := by
    refine run_invariant Out.Traced (fun _ => Out.Traced.step) alongRun_true ?_ hworld
    constructor <;> simp [Out.Http.initial]
  intro reply hreply data hdata
  rw [← hfinal.log]
  exact htraced.answered reply (hfinal.replies ▸ hreply) data hdata

def talkerConfig : Config where
  protocol := str "nmea"
  nmea := { sentences := [], name := str "GPS" }
  serial := some serialPort

end

end Program

end Rdbus
