import Rdbus.Foundation.Outcome
import Rdbus.Out.Sessions
import Mathlib.Data.List.Chain
import Mathlib.Tactic.Common

/-!
# Delivery to HTTP sessions

The log lists every reading ever stored, and a read records how much of it was
stored and how much dropped at that moment.  A session's replies are then
stretches of the log: from what was stored at the previous access, or from the
first entry that is not dropped, to what is stored now.
-/

namespace Rdbus.Out

open Foundation

/-- One `/read` request; `session` is the id its cookie presents. -/
structure Read where
  now : Timestamp
  session : Option Int
  response : Http.Response
  stored : Nat
  dropped : Nat
  deriving DecidableEq

structure World where
  http : Http
  clock : Timestamp := 0
  log : List (Timestamp × Rdbus.Data) := []
  dropped : Nat := 0
  reads : List Read := []

inductive Event where
  | send (now : Timestamp) (list : List Rdbus.Data)
  | sendLimits (now : Timestamp) (list : List Processing.Limits.Data)
  | read (now : Timestamp) (cookie : Option Bytes)
  | processLimits

def step (sizeofData : Nat) (dumpError : Bytes → Option Bytes) (world : World) :
    Event → Option World
  | .send now list =>
      let http := world.http.send sizeofData now list
      let before := world.http.rdbusDataStorage.data.length + list.length
      some { world with
        http
        clock := now
        log := world.log ++ list.map fun entry => (now, entry)
        dropped := world.dropped + (before - http.rdbusDataStorage.data.length) }
  | .sendLimits now list =>
      match world.http.sendLimits sizeofData now list with
      | .ok http => some { world with http, clock := now }
      | .error _ => none
  | .read now cookie =>
      match world.http.handleRead dumpError now cookie with
      | .ok (response, http) =>
          let read := ⟨now, cookie.map Http.sessionId, response, world.log.length,
            world.dropped⟩
          some { world with http, clock := now, reads := world.reads ++ [read] }
      | .error _ => none
  | .processLimits => some world

/-- Every clock reading is later than the one before, and the first later than the epoch. -/
def LaterClock (world : World) : Event → Prop
  | .send now _ | .sendLimits now _ | .read now _ => world.clock < now
  | .processLimits => True

instance (world : World) (event : Event) : Decidable (LaterClock world event) := by
  unfold LaterClock
  cases event <;> infer_instance

/-- Every text of the readings a step stores is one that `json::dump` writes. -/
def Written (dumpError : Bytes → Option Bytes) (_ : World) : Event → Prop
  | .send _ list => ∀ data ∈ list, data.texts.findSome? dumpError = none
  | _ => True

instance (dumpError : Bytes → Option Bytes) (world : World) (event : Event) :
    Decidable (Written dumpError world event) := by
  unfold Written
  cases event <;> infer_instance

/-- The request that created a session and those that present its id. -/
def accesses (id : Int) (created : Read) (after : List Read) : List Read :=
  created :: after.filter fun read => read.session = some id

def NeverIdle (reads : List Read) : Prop :=
  reads.IsChain fun previous next =>
    next.now - previous.now < Sessioner.inactivityTimeout

/-- Each reply has what was stored since the previous access and is not dropped. -/
def Delivers (log : List Rdbus.Data) : Nat → List Read → Prop
  | _, [] => True
  | previous, read :: rest =>
      read.response.content =
          .data ((log.take read.stored).drop (max previous read.dropped)) ∧
        Delivers log read.stored rest

def Read.entries (read : Read) : List Rdbus.Data :=
  match read.response.content with
  | .data entries => entries
  | _ => []

/-- The replies deliver all entries, in storing order and none of them twice. -/
structure ExactlyOnce (log : List Rdbus.Data) (reads : List Read) : Prop where
  delivers : Delivers log 0 reads
  once : ∃ positions : List Nat, positions.Pairwise (· < ·) ∧
    (reads.flatMap Read.entries).map some = positions.map fun (i : Nat) => log[i]?

section

variable {sizeofData : Nat} {dumpError : Bytes → Option Bytes}

/-! ## What the buffer holds -/

/--
The buffer is the log without what was dropped, and the clock separates what
was stored before a read from what was stored after it.
-/
structure Consistent (world : World) : Prop where
  stream : world.http.rdbusDataStorage.type = .stream
  buffered : world.http.rdbusDataStorage.data = world.log.drop world.dropped
  dropped_le : world.dropped ≤ world.log.length
  clock_nonneg : 0 ≤ world.clock
  logged : ∀ pair ∈ world.log, 0 < pair.1 ∧ pair.1 ≤ world.clock
  recorded : ∀ read ∈ world.reads, read.now ≤ world.clock ∧
    read.stored ≤ world.log.length ∧
    (∀ pair ∈ world.log.take read.stored, pair.1 ≤ read.now) ∧
    ∀ pair ∈ world.log.drop read.stored, read.now < pair.1
  growing : world.reads.Pairwise fun a b => a.stored ≤ b.stored

theorem Consistent.parseFrom_read {world : World} (h : Consistent world) {read : Read}
    (hmem : read ∈ world.reads) :
    world.http.rdbusDataStorage.parseFrom read.now =
      (world.log.map Prod.snd).drop (max read.stored world.dropped) := by
  rcases h.recorded read hmem with ⟨-, hstored, hearly, hlate⟩
  have hsplit : world.http.rdbusDataStorage.data =
      (world.log.take read.stored).drop world.dropped ++
        world.log.drop (max read.stored world.dropped) := by
    rw [h.buffered]
    conv_lhs => rw [← List.take_append_drop read.stored world.log]
    rw [List.drop_append, List.drop_drop, List.length_take_of_le hstored]
    congr 2
    omega
  rw [Buffer.parseFrom_stream h.stream hsplit, List.map_drop]
  · intro pair hpair
    exact hearly pair (List.mem_of_mem_drop hpair)
  · intro pair hpair
    rw [← Nat.add_sub_cancel' (Nat.le_max_left read.stored world.dropped),
      ← List.drop_drop] at hpair
    exact hlate pair (List.mem_of_mem_drop hpair)

theorem Consistent.parseFrom_epoch {world : World} (h : Consistent world) :
    world.http.rdbusDataStorage.parseFrom 0 =
      (world.log.map Prod.snd).drop world.dropped := by
  have hsplit : world.http.rdbusDataStorage.data =
      [] ++ world.log.drop world.dropped := h.buffered
  rw [Buffer.parseFrom_stream h.stream hsplit, List.map_drop]
  · simp
  · intro pair hpair
    exact (h.logged pair (List.mem_of_mem_drop hpair)).1

theorem consistent_initial (withLimits : Bool) :
    Consistent { http := Http.initial withLimits } := by
  constructor <;> simp [Http.initial]

theorem Consistent.send {world next : World} {now : Timestamp}
    {list : List Rdbus.Data} (h : Consistent world) (hclock : world.clock < now)
    (hnext : step sizeofData dumpError world (.send now list) = some next) : Consistent next := by
  cases hnext
  have hdropped := h.dropped_le
  have hdata : (world.http.send sizeofData now list).rdbusDataStorage.data =
      Buffer.constrainSize sizeofData
        ((world.log ++ list.map fun entry => (now, entry)).drop world.dropped) := by
    rw [List.drop_append_of_le_length hdropped]
    simp [Http.send, Buffer.add, h.stream, h.buffered]
  have hbefore : world.http.rdbusDataStorage.data.length + list.length =
      ((world.log ++ list.map fun entry => (now, entry)).drop world.dropped).length := by
    rw [h.buffered, List.drop_append_of_le_length hdropped]
    simp
  constructor
  · simp [Http.send, Buffer.add, h.stream]
  · simp only
    rw [hbefore, hdata, ← List.drop_drop]
    exact Buffer.constrainSize_eq_drop _ _
  · simp only [hbefore, List.length_drop, List.length_append]
    omega
  · exact (h.clock_nonneg.trans_lt hclock).le
  · intro pair hpair
    rcases List.mem_append.mp hpair with hpair | hpair
    · exact ⟨(h.logged pair hpair).1, (h.logged pair hpair).2.trans hclock.le⟩
    · rcases List.mem_map.mp hpair with ⟨entry, -, rfl⟩
      exact ⟨h.clock_nonneg.trans_lt hclock, le_rfl⟩
  · intro read hmem
    rcases h.recorded read hmem with ⟨hnow, hstored, hearly, hlate⟩
    refine ⟨hnow.trans hclock.le, ?_, ?_, ?_⟩
    · simp only [List.length_append]
      omega
    · rwa [List.take_append_of_le_length hstored]
    · rw [List.drop_append_of_le_length hstored]
      intro pair hpair
      rcases List.mem_append.mp hpair with hpair | hpair
      · exact hlate pair hpair
      · rcases List.mem_map.mp hpair with ⟨entry, -, rfl⟩
        exact hnow.trans_lt hclock
  · exact h.growing

theorem Consistent.tick {world : World} (h : Consistent world) {http : Http}
    (hstorage : http.rdbusDataStorage = world.http.rdbusDataStorage) {now : Timestamp}
    (hclock : world.clock < now) : Consistent { world with http, clock := now } := by
  refine ⟨?_, ?_, h.dropped_le, (h.clock_nonneg.trans_lt hclock).le, ?_, ?_, h.growing⟩
  · rw [hstorage]
    exact h.stream
  · rw [hstorage]
    exact h.buffered
  · intro pair hpair
    exact ⟨(h.logged pair hpair).1, (h.logged pair hpair).2.trans hclock.le⟩
  · intro read hmem
    rcases h.recorded read hmem with ⟨hnow, hrest⟩
    exact ⟨hnow.trans hclock.le, hrest⟩

theorem read_none {now : Timestamp} {http http' : Http} {response : Http.Response}
    (h : http.read now none = .ok (response, http')) :
    ∃ id cookies, Sessioner.create http.cookies now = .ok (id, cookies) ∧
      response = { setCookie := some id,
                   content := .data (http.rdbusDataStorage.parseFrom 0) } ∧
      http' = { http with cookies } := by
  rcases bind_eq_ok.mp h with ⟨⟨id, cookies⟩, hcreate, h⟩
  cases h
  exact ⟨id, cookies, hcreate, rfl, rfl⟩

theorem read_some {now : Timestamp} {http http' : Http} {sessionString : Bytes}
    {response : Http.Response}
    (h : http.read now (some sessionString) = .ok (response, http')) :
    let cookies := Sessioner.clearExpiredCookies http.cookies now
    let id := Http.sessionId sessionString
    (∃ lastTime, cookies[id]? = some lastTime ∧
      response = { content := .data (http.rdbusDataStorage.parseFrom lastTime) } ∧
      http' = { http with cookies := cookies.insert id now }) ∨
    (cookies[id]? = none ∧ http' = { http with cookies }) := by
  unfold Http.read Sessioner.getLastAccessTime at h
  simp only at h ⊢
  cases hcookie : (Sessioner.clearExpiredCookies http.cookies now)[
      Http.sessionId sessionString]? with
  | none =>
      rw [hcookie] at h
      cases h
      exact .inr ⟨rfl, rfl⟩
  | some lastTime =>
      rw [hcookie] at h
      cases h
      exact .inl ⟨lastTime, rfl, rfl, rfl⟩

theorem handleRead_ok {now : Timestamp} {http http' : Http} {cookie : Option Bytes}
    {response : Http.Response}
    (h : http.handleRead dumpError now cookie = .ok (response, http')) :
    ∃ unwritten, http.read now cookie = .ok (unwritten, http') ∧
      response = unwritten.dump dumpError := by
  rcases bind_eq_ok.mp h with ⟨⟨unwritten, after⟩, hread, h⟩
  cases h
  exact ⟨unwritten, hread, rfl⟩

theorem step_read {world next : World} {now : Timestamp} {cookie : Option Bytes}
    (h : step sizeofData dumpError world (.read now cookie) = some next) :
    ∃ response http, world.http.read now cookie = .ok (response, http) ∧
      next = { world with
        http
        clock := now
        reads := world.reads ++ [⟨now, cookie.map Http.sessionId, response.dump dumpError,
          world.log.length, world.dropped⟩] } := by
  unfold step at h
  cases hhandle : world.http.handleRead dumpError now cookie with
  | error e => simp [hhandle] at h
  | ok result =>
      rcases result with ⟨response, http⟩
      rcases handleRead_ok hhandle with ⟨unwritten, hread, rfl⟩
      simp only [hhandle, Option.some.injEq] at h
      exact ⟨unwritten, http, hread, h.symm⟩

theorem storage_read {now : Timestamp} {http http' : Http} {cookie : Option Bytes}
    {response : Http.Response} (h : http.read now cookie = .ok (response, http')) :
    http'.rdbusDataStorage = http.rdbusDataStorage := by
  cases cookie with
  | none =>
      rcases read_none h with ⟨id, cookies, -, -, rfl⟩
      rfl
  | some sessionString =>
      rcases read_some h with ⟨lastTime, -, -, rfl⟩ | ⟨-, rfl⟩ <;> rfl

theorem Consistent.read {world next : World} {now : Timestamp}
    {cookie : Option Bytes} (h : Consistent world) (hclock : world.clock < now)
    (hnext : step sizeofData dumpError world (.read now cookie) = some next) :
    Consistent next := by
  rcases step_read hnext with ⟨response, http, hread, rfl⟩
  have htick := h.tick (storage_read hread) hclock
  refine ⟨htick.stream, htick.buffered, htick.dropped_le, htick.clock_nonneg,
    htick.logged, ?_, ?_⟩
  · intro read hmem
    rcases List.mem_append.mp hmem with hmem | hmem
    · exact htick.recorded read hmem
    · rw [List.mem_singleton.mp hmem]
      refine ⟨le_rfl, le_rfl, ?_, ?_⟩
      · intro pair hpair
        exact ((h.logged pair (List.mem_of_mem_take hpair)).2.trans hclock.le)
      · simp
  · rw [List.pairwise_append]
    refine ⟨h.growing, List.pairwise_singleton _ _, ?_⟩
    intro old hold new hnew
    rw [List.mem_singleton.mp hnew]
    exact (h.recorded old hold).2.1

theorem Consistent.step {world next : World} {event : Event}
    (hclock : LaterClock world event) (h : Consistent world)
    (hnext : step sizeofData dumpError world event = some next) : Consistent next := by
  cases event with
  | send now list => exact h.send hclock hnext
  | read now cookie => exact h.read hclock hnext
  | processLimits =>
      cases hnext
      exact h
  | sendLimits now list =>
      unfold Out.step Http.sendLimits at hnext
      cases hlimits : world.http.limitsStorage with
      | none => simp [hlimits] at hnext
      | some buffer =>
          simp only [hlimits, Option.some.injEq] at hnext
          subst hnext
          refine h.tick ?_ hclock
          rfl

/-! ## Replies that can be written -/

def Writable (dumpError : Bytes → Option Bytes) (world : World) : Prop :=
  ∀ pair ∈ world.log, pair.2.texts.findSome? dumpError = none

theorem Writable.step {world next : World} {event : Event}
    (hwritten : Written dumpError world event) (h : Writable dumpError world)
    (hnext : Out.step sizeofData dumpError world event = some next) :
    Writable dumpError next := by
  cases event with
  | send now list =>
      cases hnext
      intro pair hpair
      rcases List.mem_append.mp hpair with hpair | hpair
      · exact h pair hpair
      · rcases List.mem_map.mp hpair with ⟨data, hdata, rfl⟩
        exact hwritten data hdata
  | read now cookie =>
      rcases step_read hnext with ⟨response, http, -, rfl⟩
      exact h
  | processLimits =>
      cases hnext
      exact h
  | sendLimits now list =>
      unfold Out.step at hnext
      cases hsend : world.http.sendLimits sizeofData now list with
      | error e => simp [hsend] at hnext
      | ok http =>
          simp only [hsend, Option.some.injEq] at hnext
          rw [← hnext]
          exact h

theorem mem_parseFrom {α : Type} {buffer : Buffer α} {lastTime : Timestamp} {entry : α}
    (h : entry ∈ buffer.parseFrom lastTime) : ∃ pair ∈ buffer.data, pair.2 = entry := by
  rcases List.mem_map.mp h with ⟨pair, hpair, rfl⟩
  exact ⟨pair, List.mem_of_mem_drop hpair, rfl⟩

theorem Writable.dump_eq {world : World} (h : Writable dumpError world)
    (hconsistent : Consistent world) {setCookie : Option Int} {lastTime : Timestamp} :
    let entries := world.http.rdbusDataStorage.parseFrom lastTime
    Http.Response.dump dumpError { setCookie, content := .data entries } =
      { setCookie, content := .data entries } := by
  intro entries
  have hnone : (entries.flatMap Rdbus.Data.texts).findSome? dumpError = none := by
    rw [List.findSome?_eq_none_iff]
    intro text htext
    rcases List.mem_flatMap.mp htext with ⟨data, hdata, htext⟩
    rcases mem_parseFrom hdata with ⟨pair, hpair, rfl⟩
    rw [hconsistent.buffered] at hpair
    exact List.findSome?_eq_none_iff.mp (h pair (List.mem_of_mem_drop hpair)) text htext
  simp only [Http.Response.dump, hnone]

/-! ## Deliveries -/

theorem delivers_append_log {log more : List Rdbus.Data} {previous : Nat}
    {reads : List Read} (hstored : ∀ read ∈ reads, read.stored ≤ log.length)
    (h : Delivers log previous reads) : Delivers (log ++ more) previous reads := by
  induction reads generalizing previous with
  | nil => trivial
  | cons read reads ih =>
      refine ⟨?_, ih (fun other hmem => hstored other (by simp [hmem])) h.2⟩
      rw [List.take_append_of_le_length (hstored read (by simp))]
      exact h.1

theorem delivers_concat {log : List Rdbus.Data} {first last read : Read}
    {reads : List Read} {previous : Nat} (h : Delivers log previous (first :: reads))
    (hlast : (first :: reads).getLast? = some last)
    (hread : read.response.content =
      .data ((log.take read.stored).drop (max last.stored read.dropped))) :
    Delivers log previous (first :: reads ++ [read]) := by
  induction reads generalizing first previous with
  | nil =>
      cases hlast
      exact ⟨h.1, hread, trivial⟩
  | cons next reads ih =>
      rw [List.getLast?_cons_cons] at hlast
      exact ⟨h.1, ih h.2 hlast⟩

/-- The positions in the log that the replies list. -/
def positionsFrom : Nat → List Read → List Nat
  | _, [] => []
  | previous, read :: rest =>
      List.range' (max previous read.dropped)
          (read.stored - max previous read.dropped) ++
        positionsFrom read.stored rest

theorem positionsFrom_pairwise {reads : List Read} {previous : Nat}
    (hgrowing : reads.Pairwise fun a b => a.stored ≤ b.stored)
    (hprevious : ∀ read ∈ reads, previous ≤ read.stored) :
    (positionsFrom previous reads).Pairwise (· < ·) ∧
      ∀ position ∈ positionsFrom previous reads, previous ≤ position := by
  induction reads generalizing previous with
  | nil => simp [positionsFrom]
  | cons read reads ih =>
      rcases List.pairwise_cons.mp hgrowing with ⟨hnext, hrest⟩
      rcases ih hrest hnext with ⟨hpairwise, hlater⟩
      rw [positionsFrom]
      constructor
      · rw [List.pairwise_append]
        refine ⟨List.pairwise_lt_range', hpairwise, ?_⟩
        intro position hposition later hmem
        have := hlater later hmem
        simp only [List.mem_range'_1] at hposition
        omega
      · intro position hposition
        rcases List.mem_append.mp hposition with hposition | hposition
        · simp only [List.mem_range'_1] at hposition
          omega
        · exact (hprevious read (by simp)).trans (hlater position hposition)

theorem map_range'_getElem? {α : Type} {xs : List α} {start stop : Nat}
    (h : stop ≤ xs.length) : ((xs.take stop).drop start).map some =
      (List.range' start (stop - start)).map fun (i : Nat) => xs[i]? := by
  apply List.ext_getElem
  · simp [h]
  · intro i hi hi'
    simp only [List.length_map, List.length_drop, List.length_take_of_le h] at hi
    simp

theorem flatMap_entries {log : List Rdbus.Data} {previous : Nat} {reads : List Read}
    (hstored : ∀ read ∈ reads, read.stored ≤ log.length)
    (h : Delivers log previous reads) : (reads.flatMap Read.entries).map some =
      (positionsFrom previous reads).map fun (i : Nat) => log[i]? := by
  induction reads generalizing previous with
  | nil => rfl
  | cons read reads ih =>
      rw [List.flatMap_cons, List.map_append, positionsFrom, List.map_append,
        ih (fun other hmem => hstored other (by simp [hmem])) h.2,
        ← map_range'_getElem? (hstored read (by simp))]
      simp only [Read.entries, h.1]

theorem exactlyOnce_of_delivers {log : List Rdbus.Data} {reads : List Read}
    (hstored : ∀ read ∈ reads, read.stored ≤ log.length)
    (hgrowing : reads.Pairwise fun a b => a.stored ≤ b.stored)
    (h : Delivers log 0 reads) : ExactlyOnce log reads :=
  ⟨h, _, (positionsFrom_pairwise hgrowing fun _ _ => Nat.zero_le _).1,
    flatMap_entries hstored h⟩

/-! ## Sessions that are never idle -/

/--
A session has its deliveries so far, and its cookie holds the time of the last
access as long as it is not idle for too long.
-/
def SessionsKept (world : World) : Prop :=
  ∀ before created after id, world.reads = before ++ created :: after →
    created.session = none → created.response.setCookie = some id →
    NeverIdle (accesses id created after) →
    Delivers (world.log.map Prod.snd) 0 (accesses id created after) ∧
    ∃ last, (accesses id created after).getLast? = some last ∧
      (world.http.cookies[id]? = some last.now ∨
        last.now + Sessioner.inactivityTimeout ≤ world.clock)

theorem mem_reads_of_accesses {reads before after : List Read} {created read : Read}
    {id : Int} (hreads : reads = before ++ created :: after)
    (hmem : read ∈ accesses id created after) : read ∈ reads := by
  rw [hreads]
  rcases List.mem_cons.mp hmem with rfl | hmem
  · simp
  · simp [(List.mem_filter.mp hmem).1]

/-- Steps that touch neither the sessions nor what was stored before. -/
theorem SessionsKept.later {world next : World} (hconsistent : Consistent world)
    (h : SessionsKept world) (hreads : next.reads = world.reads)
    (hcookies : next.http.cookies = world.http.cookies)
    {more : List (Timestamp × Rdbus.Data)} (hlog : next.log = world.log ++ more)
    (hclock : world.clock ≤ next.clock) : SessionsKept next := by
  intro before created after id heq hcreated hid hidle
  rw [hreads] at heq
  rcases h before created after id heq hcreated hid hidle with
    ⟨hdelivers, last, hlast, hkept⟩
  refine ⟨?_, last, hlast, ?_⟩
  · rw [hlog, List.map_append]
    apply delivers_append_log _ hdelivers
    intro read hmem
    rw [List.length_map]
    exact (hconsistent.recorded read (mem_reads_of_accesses heq hmem)).2.1
  · rw [hcookies]
    exact hkept.imp_right fun hidle => hidle.trans hclock

theorem accesses_append_of_ne {id : Int} {created read : Read} {after : List Read}
    (h : read.session ≠ some id) :
    accesses id created (after ++ [read]) = accesses id created after := by
  simp [accesses, h]

theorem accesses_append_self {id : Int} {created read : Read} {after : List Read}
    (h : read.session = some id) :
    accesses id created (after ++ [read]) = accesses id created after ++ [read] := by
  simp [accesses, h]

theorem split_append_singleton {reads before after : List Read} {read created : Read}
    (h : reads ++ [read] = before ++ created :: after) :
    (after = [] ∧ created = read ∧ before = reads) ∨
      ∃ after', after = after' ++ [read] ∧ reads = before ++ created :: after' := by
  cases after using List.reverseRecOn with
  | nil =>
      rcases List.append_inj' h rfl with ⟨hreads, hread⟩
      cases hread
      exact .inl ⟨rfl, rfl, hreads.symm⟩
  | append_singleton after last =>
      rw [← List.cons_append, ← List.append_assoc] at h
      rcases List.append_inj' h rfl with ⟨hreads, hread⟩
      cases hread
      exact .inr ⟨after, rfl, hreads⟩

theorem SessionsKept.create {world next : World} {now : Timestamp}
    (hconsistent : Consistent world) (hwritable : Writable dumpError world)
    (h : SessionsKept world) (hclock : world.clock < now)
    (hnext : Out.step sizeofData dumpError world (.read now none) = some next) :
    SessionsKept next := by
  rcases step_read hnext with ⟨response, http, hread, rfl⟩
  rcases read_none hread with ⟨newId, cookies, hcreate, rfl, rfl⟩
  rcases Sessioner.create_new hcreate with ⟨hnew, rfl⟩
  rw [hwritable.dump_eq hconsistent]
  intro before created after id heq hcreated hid hidle
  rcases split_append_singleton heq with ⟨rfl, rfl, -⟩ | ⟨after', rfl, hold⟩
  · cases hid
    refine ⟨⟨?_, trivial⟩, _, rfl, .inl (by simp)⟩
    simp only [Nat.zero_max]
    rw [hconsistent.parseFrom_epoch, ← List.map_take, List.take_length]
  · rw [accesses_append_of_ne (by simp)] at hidle ⊢
    rcases h before created after' id hold hcreated hid hidle with
      ⟨hdelivers, last, hlast, hkept⟩
    refine ⟨hdelivers, last, hlast, ?_⟩
    rcases hkept with hkept | hkept
    · left
      have hne : newId ≠ id := by
        rintro rfl
        rw [hnew] at hkept
        cases hkept
      simp [Std.TreeMap.getElem?_insert, hne, hkept]
    · exact .inr (hkept.trans hclock.le)

theorem neverIdle_append {reads : List Read} {last read : Read}
    (h : NeverIdle (reads ++ [read])) (hlast : reads.getLast? = some last) :
    NeverIdle reads ∧ read.now - last.now < Sessioner.inactivityTimeout := by
  rcases List.isChain_append.mp h with ⟨hreads, -, hbetween⟩
  exact ⟨hreads, hbetween last hlast read rfl⟩

/-- The cookie of a session that is not idle for too long is found. -/
theorem cookie_live {cookies : Sessioner.Cookies} {id : Int} {clock now last : Timestamp}
    (hkept : cookies[id]? = some last ∨ last + Sessioner.inactivityTimeout ≤ clock)
    (hclock : clock < now) (hgap : now - last < Sessioner.inactivityTimeout) :
    (Sessioner.clearExpiredCookies cookies now)[id]? = some last := by
  have hcookie : cookies[id]? = some last := by
    rcases hkept with hkept | hkept
    · exact hkept
    · exact absurd (hkept.trans_lt hclock) (lt_asymm (sub_lt_iff_lt_add'.mp hgap))
  rw [Sessioner.getElem?_clearExpiredCookies, hcookie]
  simp [Option.filter, Sessioner.isExpired, hgap]

/-- A read of another session leaves the cookie, or clears it because it has expired. -/
theorem cookie_other {http http' : Http} {now clock last : Timestamp} {sessionString : Bytes}
    {response : Http.Response} (hread : http.read now (some sessionString) = .ok (response, http'))
    {id : Int} (hother : Http.sessionId sessionString ≠ id) (hclock : clock < now)
    (hkept : http.cookies[id]? = some last ∨ last + Sessioner.inactivityTimeout ≤ clock) :
    http'.cookies[id]? = some last ∨ last + Sessioner.inactivityTimeout ≤ now := by
  rcases hkept with hkept | hkept
  case inr => exact .inr (hkept.trans hclock.le)
  case inl =>
    have hcleared : http'.cookies[id]? =
        (some last).filter fun lastAccess => !Sessioner.isExpired now lastAccess := by
      rw [← hkept, ← Sessioner.getElem?_clearExpiredCookies]
      rcases read_some hread with ⟨lastTime, -, -, rfl⟩ | ⟨-, rfl⟩
      · simp [Std.TreeMap.getElem?_insert, hother]
      · rfl
    by_cases hexpired : Sessioner.isExpired now last
    · exact .inr (Sessioner.isExpired_iff.mp hexpired)
    · left
      rw [hcleared]
      simp [Option.filter, hexpired]

/-- A read with a cookie, of this session or of another one. -/
theorem SessionsKept.present {world next : World} {now : Timestamp}
    {sessionString : Bytes} (hconsistent : Consistent world)
    (hwritable : Writable dumpError world) (h : SessionsKept world)
    (hclock : world.clock < now)
    (hnext : Out.step sizeofData dumpError world (.read now (some sessionString)) = some next) :
    SessionsKept next := by
  rcases step_read hnext with ⟨response, http, hread, rfl⟩
  intro before created after id heq hcreated hid hidle
  rcases split_append_singleton heq with ⟨-, rfl, -⟩ | ⟨after', rfl, hold⟩
  · cases hcreated
  · by_cases hself : Http.sessionId sessionString = id
    · rw [accesses_append_self (by simp [hself])] at hidle ⊢
      rcases List.getLast?_isSome.mpr (by simp [accesses] :
        accesses id created after' ≠ []) |> Option.isSome_iff_exists.mp with ⟨last, hlast⟩
      rcases neverIdle_append hidle hlast with ⟨hidle', hgap⟩
      rcases h before created after' id hold hcreated hid hidle' with
        ⟨hdelivers, last', hlast', hkept⟩
      cases hlast.symm.trans hlast'
      have hlive := cookie_live hkept hclock hgap
      rcases read_some hread with ⟨lastTime, hfound, rfl, rfl⟩ | ⟨hnone, -⟩
      · rw [hself, hlive] at hfound
        cases hfound
        refine ⟨?_, _, List.getLast?_concat, .inl (by simp [hself])⟩
        apply delivers_concat hdelivers hlast
        simp only
        rw [hwritable.dump_eq hconsistent, hconsistent.parseFrom_read, ← List.map_take,
          List.take_length]
        exact mem_reads_of_accesses hold (List.mem_of_getLast? hlast)
      · rw [hself, hlive] at hnone
        cases hnone
    · rw [accesses_append_of_ne (by simpa using hself)] at hidle ⊢
      rcases h before created after' id hold hcreated hid hidle with
        ⟨hdelivers, last, hlast, hkept⟩
      exact ⟨hdelivers, last, hlast, cookie_other hread hself hclock hkept⟩

theorem SessionsKept.step {world next : World} {event : Event}
    (hclock : LaterClock world event) (hconsistent : Consistent world)
    (hwritable : Writable dumpError world) (h : SessionsKept world)
    (hnext : Out.step sizeofData dumpError world event = some next) :
    SessionsKept next := by
  cases event with
  | send now list =>
      cases hnext
      exact h.later hconsistent rfl rfl rfl hclock.le
  | read now cookie =>
      cases cookie with
      | none => exact h.create hconsistent hwritable hclock hnext
      | some sessionString => exact h.present hconsistent hwritable hclock hnext
  | processLimits =>
      cases hnext
      exact h
  | sendLimits now list =>
      unfold Out.step Http.sendLimits at hnext
      cases hlimits : world.http.limitsStorage with
      | none => simp [hlimits] at hnext
      | some buffer =>
          simp only [hlimits, Option.some.injEq] at hnext
          subst hnext
          refine h.later hconsistent rfl rfl (List.append_nil _).symm hclock.le

end

/--
In every run with increasing clock readings that stores nothing `json::dump`
cannot write, a session that is never idle for too long is delivered each
stored reading once, in order, except those that the buffer has dropped by the
time of the read.
-/
theorem exactlyOnce_of_neverIdle (sizeofData : Nat) (dumpError : Bytes → Option Bytes)
    (withLimits : Bool) (events : List Event)
    (hclock : AlongRun (step sizeofData dumpError) LaterClock
      { http := .initial withLimits } events)
    (hwritten : AlongRun (step sizeofData dumpError) (Written dumpError)
      { http := .initial withLimits } events)
    {world : World}
    (hrun : run (step sizeofData dumpError) { http := .initial withLimits } events =
      some world)
    {before after : List Read} {created : Read} {id : Int}
    (hreads : world.reads = before ++ created :: after) (hcreated : created.session = none)
    (hid : created.response.setCookie = some id)
    (hidle : NeverIdle (accesses id created after)) :
    ExactlyOnce (world.log.map Prod.snd) (accesses id created after) := by
  have hstep : ∀ {world : World} {event : Event} {next : World},
      LaterClock world event ∧ Written dumpError world event →
      Consistent world ∧ Writable dumpError world ∧ SessionsKept world →
      step sizeofData dumpError world event = some next →
      Consistent next ∧ Writable dumpError next ∧ SessionsKept next :=
    fun hevent h hnext => ⟨h.1.step hevent.1 hnext, h.2.1.step hevent.2 hnext,
      h.2.2.step hevent.1 h.1 h.2.1 hnext⟩
  have hwritable : Writable dumpError { http := .initial withLimits } := by
    simp [Writable]
  have hinitial : SessionsKept { http := .initial withLimits } := by
    intro before created after id heq
    simp at heq
  rcases run_invariant _ hstep (alongRun_and hclock hwritten)
    ⟨consistent_initial withLimits, hwritable, hinitial⟩ hrun with ⟨hconsistent, -, hkept⟩
  have hrecorded : ∀ read ∈ accesses id created after, read ∈ world.reads :=
    fun read hmem => mem_reads_of_accesses hreads hmem
  apply exactlyOnce_of_delivers
  · intro read hmem
    rw [List.length_map]
    exact (hconsistent.recorded read (hrecorded read hmem)).2.1
  · have hsublist : (accesses id created after).Sublist world.reads := by
      rw [hreads]
      exact (List.filter_sublist.cons_cons created).trans
        (List.sublist_append_right before _)
    exact hconsistent.growing.sublist hsublist
  · exact (hkept before created after id hreads hcreated hid hidle).1

def speedReading (value : UInt16) (timestamp : Timestamp) : Rdbus.Data where
  deviceName := str "Log"
  fields := [⟨str "Speed", some (.uint16 value), timestamp⟩]

/-- What `json::dump` throws at a text that starts with a byte no character starts with. -/
def invalidFirstByte (text : Bytes) : Option Bytes :=
  if text.head? = some 0xff
  then some (str "[json.exception.type_error.316] invalid UTF-8 byte at index 0: 0xFF")
  else none

/-- One client reads three times; the second cookie is written as a name and a value. -/
def threeReads : List Event :=
  [.send 10 [speedReading 5 9], .read 20 none, .send 30 [speedReading 6 29, speedReading 7 29],
    .read 40 (some (str "1")), .read 50 (some (str "id=1"))]

theorem exactlyOnce_threeReads :
    ∃ world created after,
      run (step 200 invalidFirstByte) { http := .initial true } threeReads = some world ∧
      world.reads = created :: after ∧ after.length = 2 ∧
      ExactlyOnce (world.log.map Prod.snd) (accesses 1 created after) := by
  have hreads : (run (step 200 invalidFirstByte) { http := .initial true } threeReads).map
      World.reads =
      some [⟨20, none, { setCookie := some 1, content := .data [speedReading 5 9] }, 1, 0⟩,
        ⟨40, some 1, { content := .data [speedReading 6 29, speedReading 7 29] }, 3, 0⟩,
        ⟨50, some 1, { content := .data [] }, 3, 0⟩] := by
    decide +kernel
  rcases Option.map_eq_some_iff.mp hreads with ⟨world, hrun, hworld⟩
  refine ⟨world, _, _, hrun, hworld, rfl, ?_⟩
  rw [← List.nil_append (_ :: _)] at hworld
  refine exactlyOnce_of_neverIdle 200 invalidFirstByte true threeReads (by decide +kernel)
    (by decide +kernel) hrun hworld rfl rfl ?_
  simp [NeverIdle, accesses, Sessioner.inactivityTimeout]

/-- A text field of one sentence is a single byte 0xff of noise. -/
def noiseReading : Rdbus.Data where
  deviceName := str "GPS"
  fields := [⟨str "Status", some (.string [0xff]), 29⟩]
  metadata := some (str "GLL")

def noisyReads : List Event :=
  [.send 10 [speedReading 5 9], .read 20 none, .send 30 [noiseReading, speedReading 6 29],
    .read 40 (some (str "1")), .read 50 (some (str "1"))]

/-- Both readings of the second `send` are lost to the session. -/
theorem noisyReads_not_exactlyOnce :
    AlongRun (step 200 invalidFirstByte) LaterClock { http := .initial true } noisyReads ∧
    ∃ world created after,
      run (step 200 invalidFirstByte) { http := .initial true } noisyReads = some world ∧
      world.reads = created :: after ∧ created.response.setCookie = some 1 ∧
      NeverIdle (accesses 1 created after) ∧
      (accesses 1 created after).map (fun read => read.response.status) = [200, 500, 200] ∧
      (accesses 1 created after).flatMap Read.entries = [speedReading 5 9] ∧
      ¬ ExactlyOnce (world.log.map Prod.snd) (accesses 1 created after) := by
  refine ⟨by decide +kernel, ?_⟩
  have hreads : (run (step 200 invalidFirstByte) { http := .initial true } noisyReads).map
      World.reads =
      some [⟨20, none, { setCookie := some 1, content := .data [speedReading 5 9] }, 1, 0⟩,
        ⟨40, some 1, Http.exceptionHandler (.std
          (str "[json.exception.type_error.316] invalid UTF-8 byte at index 0: 0xFF")), 3, 0⟩,
        ⟨50, some 1, { content := .data [] }, 3, 0⟩] := by
    decide +kernel
  rcases Option.map_eq_some_iff.mp hreads with ⟨world, hrun, hworld⟩
  refine ⟨world, _, _, hrun, hworld, rfl, ?_, rfl, rfl, fun h => ?_⟩
  · simp [NeverIdle, accesses, Sessioner.inactivityTimeout]
  · have hsecond := h.delivers.2.1
    simp [Http.exceptionHandler] at hsecond

end Rdbus.Out
