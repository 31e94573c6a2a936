import Rdbus.Out.Sessions

/-!
# Lazy and exact expiry

Cookies are only cleared by `getLastAccessTime`, so the map holds expired ids.
The replies alone tell what an exact expiry would answer: `lastUse` is the last
time an id was issued or found.
-/

namespace Rdbus.Out.Expiry

open Foundation Sessioner

inductive Reply where
  | created (id : Int)
  | lastAccess (outcome : Except Throw Timestamp)
  deriving DecidableEq

/-- Every call with its reply, the newest first. -/
abbrev Log := List (Call × Reply)

structure Served where
  cookies : Cookies := ∅
  clock : Timestamp
  log : Log := []

def serve (served : Served) : Call → Option Served
  | .create now =>
      match create served.cookies now with
      | .ok (id, cookies) =>
          some { cookies, clock := now, log := (.create now, .created id) :: served.log }
      | .error _ => none
  | .getLastAccessTime id now =>
      let found := getLastAccessTime served.cookies id now
      some { cookies := found.2, clock := now,
             log := (.getLastAccessTime id now, .lastAccess found.1) :: served.log }

def NotEarlier (served : Served) : Call → Prop
  | .create now | .getLastAccessTime _ now => served.clock ≤ now

instance (served : Served) : (call : Call) → Decidable (NotEarlier served call)
  | .create now | .getLastAccessTime _ now => Int.decLe served.clock now

/-- The time of an entry that issues the id, or finds it. -/
def use (id : Int) : Call × Reply → Option Timestamp
  | (.create now, .created issued) => if issued = id then some now else none
  | (.getLastAccessTime asked now, .lastAccess (.ok _)) => if asked = id then some now else none
  | _ => none

def lastUse (id : Int) (log : Log) : Option Timestamp := log.findSome? (use id)

/-- The answer of a server that forgets an id the moment it expires. -/
def exactOutcome (lastUse : Option Timestamp) (now : Timestamp) : Except Throw Timestamp :=
  match lastUse with
  | some time =>
      if now - time < inactivityTimeout then .ok time else .error (exception (str "Expired!"))
  | none => .error (exception (str "Expired!"))

/-! ## The answers are exact -/

theorem serve_create {served next : Served} {now : Timestamp}
    (h : serve served (.create now) = some next) :
    ∃ id cookies, create served.cookies now = .ok (id, cookies) ∧
      next = ⟨cookies, now, (.create now, .created id) :: served.log⟩ := by
  rw [serve] at h
  cases hcreate : create served.cookies now with
  | error e => simp [hcreate] at h
  | ok result =>
      obtain ⟨id, cookies⟩ := result
      simp only [hcreate, Option.some.injEq] at h
      exact ⟨id, cookies, rfl, h.symm⟩

theorem serve_getLastAccessTime {served next : Served} {id : Int} {now : Timestamp}
    (h : serve served (.getLastAccessTime id now) = some next) :
    (∃ time, served.cookies[id]? = some time ∧ ¬ isExpired now time ∧
      next = ⟨(clearExpiredCookies served.cookies now).insert id now, now,
        (.getLastAccessTime id now, .lastAccess (.ok time)) :: served.log⟩) ∨
    ((∀ time, served.cookies[id]? = some time → isExpired now time) ∧
      next = ⟨clearExpiredCookies served.cookies now, now,
        (.getLastAccessTime id now, .lastAccess (.error (exception (str "Expired!")))) ::
          served.log⟩) := by
  rw [serve] at h
  by_cases hlive : ∃ time, served.cookies[id]? = some time ∧ ¬ isExpired now time
  · obtain ⟨time, hcookie, hlive⟩ := hlive
    simp only [getLastAccessTime_of_some hcookie hlive, Option.some.injEq] at h
    exact .inl ⟨time, hcookie, hlive, h.symm⟩
  · push Not at hlive
    simp only [getLastAccessTime_of_not hlive, Option.some.injEq] at h
    exact .inr ⟨hlive, h.symm⟩

/-- An id is stored with its last use, or it is not stored and has expired. -/
def Stored (served : Served) : Prop :=
  ∀ id : Int, served.cookies[id]? = lastUse id served.log ∨
    (served.cookies[id]? = none ∧
      ∀ time ∈ lastUse id served.log, time + inactivityTimeout ≤ served.clock)

theorem Stored.outcome {served : Served} (h : Stored served) {now : Timestamp}
    (hclock : served.clock ≤ now) (id : Int) :
    (getLastAccessTime served.cookies id now).1 = exactOutcome (lastUse id served.log) now := by
  have refused : ∀ time : Timestamp, isExpired now time →
      exactOutcome (some time) now = .error (exception (str "Expired!")) := by
    intro time hexpired
    rw [exactOutcome, if_neg (not_lt.mpr (le_sub_iff_add_le'.mpr (isExpired_iff.mp hexpired)))]
  rcases h id with hstored | ⟨hnone, hexpired⟩
  · cases hlast : lastUse id served.log with
    | none =>
        rw [hlast] at hstored
        rw [getLastAccessTime_of_not (by simp [hstored])]
        rfl
    | some time =>
        rw [hlast] at hstored
        by_cases hlive : isExpired now time
        · rw [getLastAccessTime_of_not (by simpa [hstored] using hlive), refused time hlive]
        · have early : now - time < inactivityTimeout := by simpa [isExpired] using hlive
          rw [getLastAccessTime_of_some hstored hlive, exactOutcome, if_pos early]
  · rw [getLastAccessTime_of_not (by simp [hnone])]
    cases hlast : lastUse id served.log with
    | none => rfl
    | some time =>
        have hexpired := hexpired time hlast
        exact (refused time (isExpired_iff.mpr (hexpired.trans hclock))).symm

theorem lastUse_cons (id : Int) (entry : Call × Reply) (log : Log) :
    lastUse id (entry :: log) = (use id entry).or (lastUse id log) := by
  rw [lastUse, List.findSome?_cons]
  cases use id entry <;> rfl

theorem Stored.clear {served : Served} (h : Stored served) {now : Timestamp}
    (hclock : served.clock ≤ now) :
    Stored ⟨clearExpiredCookies served.cookies now, now, served.log⟩ := by
  intro id
  simp only [getElem?_clearExpiredCookies]
  rcases h id with hstored | ⟨hnone, hexpired⟩
  · cases hlast : lastUse id served.log with
    | none =>
        left
        rw [hstored, hlast]
        rfl
    | some time =>
        rw [hstored, hlast]
        by_cases hlive : isExpired now time
        · right
          refine ⟨by simp [Option.filter, hlive], fun other hother => ?_⟩
          cases hother
          exact isExpired_iff.mp hlive
        · left
          simp [Option.filter, hlive]
  · right
    exact ⟨by simp [hnone], fun time htime => (hexpired time htime).trans hclock⟩

theorem Stored.insert {served : Served} (h : Stored served) {now : Timestamp}
    (hclock : served.clock ≤ now) {id : Int} {entry : Call × Reply}
    (huse : ∀ other, use other entry = if id = other then some now else none) :
    Stored ⟨served.cookies.insert id now, now, entry :: served.log⟩ := by
  intro other
  simp only [lastUse_cons, huse, Std.TreeMap.getElem?_insert, compare_eq_iff_eq]
  by_cases hid : id = other
  · left
    simp [hid]
  · simp only [if_neg hid, Option.none_or]
    rcases h other with hstored | ⟨hnone, hexpired⟩
    · exact .inl hstored
    · exact .inr ⟨hnone, fun time htime => (hexpired time htime).trans hclock⟩

theorem Stored.serve {served next : Served} {call : Call} (hclock : NotEarlier served call)
    (h : Stored served) (hnext : serve served call = some next) : Stored next := by
  cases call with
  | create now =>
      obtain ⟨id, cookies, hcreate, rfl⟩ := serve_create hnext
      obtain ⟨-, rfl⟩ := create_new hcreate
      exact h.insert hclock fun other => rfl
  | getLastAccessTime id now =>
      have cleared := h.clear hclock
      rcases serve_getLastAccessTime hnext with ⟨time, -, -, rfl⟩ | ⟨-, rfl⟩
      · exact cleared.insert le_rfl fun other => rfl
      · intro other
        simpa [lastUse_cons, use] using cleared other

/-! ## One call less -/

def On (id : Int) : Call → Bool
  | .getLastAccessTime asked _ => asked = id
  | .create _ => false

/-- What every call but the accesses of this id was answered. -/
def others (id : Int) (log : Log) : Log := log.filter fun entry => !On id entry.1

def issued : Call × Reply → Option Int
  | (.create _, .created id) => some id
  | _ => none

def newestIssued (log : Log) : Option Int := log.findSome? issued

/-- A `create` finds the id issued last still stored. -/
def NewestKept (served : Served) : Call → Prop
  | .create _ => ∀ newest ∈ newestIssued served.log, newest ∈ served.cookies
  | .getLastAccessTime _ _ => True

instance (served : Served) : (call : Call) → Decidable (NewestKept served call)
  | .create _ => inferInstanceAs
      (Decidable (∀ newest ∈ newestIssued served.log, newest ∈ served.cookies))
  | .getLastAccessTime _ _ => .isTrue trivial

/-- No larger id is stored than the one issued last. -/
def Largest (served : Served) : Prop :=
  ∀ id ∈ served.cookies, ∃ newest ∈ newestIssued served.log, id ≤ newest

theorem lastUse_others {id other : Int} (h : other ≠ id) (log : Log) :
    lastUse other (others id log) = lastUse other log := by
  induction log with
  | nil => rfl
  | cons entry log ih =>
      rw [others, List.filter_cons]
      split
      case isTrue => rw [lastUse_cons, lastUse_cons, ← others, ih]
      case isFalse hid =>
        have unused : use other entry = none := by
          obtain ⟨call, reply⟩ := entry
          cases call with
          | create now => simp [On] at hid
          | getLastAccessTime asked now =>
              have hasked : asked = id := by simpa [On] using hid
              cases reply with
              | created issued => rfl
              | lastAccess outcome =>
                  cases outcome <;> simp [use, hasked, h.symm]
        rw [lastUse_cons, unused, Option.none_or, ← others, ih]

theorem newestIssued_others (id : Int) (log : Log) :
    newestIssued (others id log) = newestIssued log := by
  induction log with
  | nil => rfl
  | cons entry log ih =>
      rw [others, List.filter_cons]
      split
      case isTrue =>
        simp only [newestIssued, List.findSome?_cons] at ih ⊢
        rw [← others, ih]
      case isFalse hid =>
        have none : issued entry = none := by
          obtain ⟨call, reply⟩ := entry
          cases call with
          | create now => simp [On] at hid
          | getLastAccessTime asked now => rfl
        rw [← others, ih]
        simp [newestIssued, none]

theorem mem_of_mem_clear {cookies : Cookies} {now : Timestamp} {id : Int}
    (h : id ∈ clearExpiredCookies cookies now) : id ∈ cookies := by
  rw [Std.TreeMap.mem_iff_isSome_getElem?, getElem?_clearExpiredCookies] at h
  rw [Std.TreeMap.mem_iff_isSome_getElem?]
  cases hcookie : cookies[id]? with
  | none => simp [hcookie] at h
  | some time => rfl

theorem Largest.serve {served next : Served} {call : Call} (h : Largest served)
    (hnext : serve served call = some next) : Largest next := by
  cases call with
  | create now =>
      obtain ⟨id, cookies, hcreate, rfl⟩ := serve_create hnext
      obtain ⟨rfl, hid⟩ := create_ok hcreate
      refine fun other hother => ⟨id, rfl, ?_⟩
      rw [Std.TreeMap.mem_insert, compare_eq_iff_eq] at hother
      rcases hother with rfl | hother
      · exact le_rfl
      · rcases hid with ⟨hempty, -⟩ | ⟨last, -, hle, rfl⟩
        · exact absurd hother (hempty other)
        · exact (hle other hother).trans (Int.le_add_one le_rfl)
  | getLastAccessTime id now =>
      have small : ∀ other ∈ clearExpiredCookies served.cookies now,
          ∃ newest ∈ newestIssued served.log, other ≤ newest :=
        fun other hother => h other (mem_of_mem_clear hother)
      rcases serve_getLastAccessTime hnext with ⟨time, hcookie, -, rfl⟩ | ⟨-, rfl⟩
      · intro other hother
        rw [Std.TreeMap.mem_insert, compare_eq_iff_eq] at hother
        rcases hother with rfl | hother
        · exact h id (Std.TreeMap.mem_iff_isSome_getElem?.mpr (by rw [hcookie]; rfl))
        · exact small other hother
      · exact small

/-- With the newest id stored, the next id follows from the replies alone. -/
theorem getLast?_keys {served : Served} (largest : Largest served) {now : Timestamp}
    (kept : NewestKept served (.create now)) :
    served.cookies.keys.getLast? = newestIssued served.log := by
  rw [← Std.TreeMap.maxKey?_eq_getLast?_keys]
  cases hnewest : newestIssued served.log with
  | none =>
      rw [Std.TreeMap.maxKey?_eq_none_iff, Std.TreeMap.isEmpty_iff_forall_not_mem]
      intro id hid
      obtain ⟨newest, hother, -⟩ := largest id hid
      rw [hnewest] at hother
      cases hother
  | some newest =>
      refine Std.TreeMap.maxKey?_eq_some_iff_mem_and_forall.mpr ⟨kept newest hnewest, ?_⟩
      intro id hid
      obtain ⟨other, hother, hle⟩ := largest id hid
      rw [hnewest] at hother
      cases hother
      exact Std.isLE_compare.mpr hle

/-- Two servers that answered all others alike; the second may have had a call less. -/
structure Twin (id : Int) (first second : Served) : Prop where
  others : others id first.log = others id second.log
  clock : second.clock ≤ first.clock

theorem others_cons (id : Int) (entry : Call × Reply) (log : Log) :
    others id (entry :: log) = if On id entry.1 then others id log else entry :: others id log := by
  rw [others, List.filter_cons]
  cases On id entry.1 <;> rfl

theorem create_of_getLast? {cookies cookies' after : Cookies} {now : Timestamp} {id : Int}
    (same : cookies.keys.getLast? = cookies'.keys.getLast?)
    (h : create cookies now = .ok (id, after)) :
    ∃ after', create cookies' now = .ok (id, after') := by
  unfold create at h ⊢
  rw [same] at h
  cases hlast : cookies'.keys.getLast? with
  | none =>
      rw [hlast] at h
      cases h
      exact ⟨_, rfl⟩
  | some last =>
      simp only [hlast] at h ⊢
      split at h
      case isTrue hfits =>
        cases h
        exact ⟨_, if_pos hfits⟩
      case isFalse => cases h

theorem Twin.create {id : Int} {first second next : Served} (h : Twin id first second)
    (largest : Largest first) (largest' : Largest second) {now : Timestamp}
    (kept : NewestKept first (.create now)) (kept' : NewestKept second (.create now))
    (hnext : serve first (.create now) = some next) :
    ∃ next', serve second (.create now) = some next' ∧ Twin id next next' := by
  have same : first.cookies.keys.getLast? = second.cookies.keys.getLast? := by
    rw [getLast?_keys largest kept, getLast?_keys largest' kept', ← newestIssued_others id,
      h.others, newestIssued_others]
  obtain ⟨issued, cookies, hcreate, rfl⟩ := serve_create hnext
  obtain ⟨cookies', hcreate'⟩ := create_of_getLast? same hcreate
  refine ⟨⟨cookies', now, _⟩, by rw [serve, hcreate'], ?_, le_rfl⟩
  simp [others_cons, On, h.others]

theorem Twin.getLastAccessTime {id : Int} {first second next : Served}
    (h : Twin id first second) (stored : Stored first) (stored' : Stored second) {asked : Int}
    {now : Timestamp} (hclock : first.clock ≤ now)
    (hnext : serve first (.getLastAccessTime asked now) = some next) :
    ∃ next', serve second (.getLastAccessTime asked now) = some next' ∧ Twin id next next' := by
  have same_reply : asked ≠ id →
      (Sessioner.getLastAccessTime first.cookies asked now).1 =
        (Sessioner.getLastAccessTime second.cookies asked now).1 := by
    intro hasked
    rw [stored.outcome hclock, stored'.outcome (h.clock.trans hclock),
      ← lastUse_others hasked, h.others, lastUse_others hasked]
  rw [serve] at hnext
  obtain rfl := Option.some.inj hnext
  refine ⟨_, rfl, ?_, le_rfl⟩
  rw [others_cons, others_cons, h.others]
  by_cases hasked : asked = id
  · simp [On, hasked]
  · rw [same_reply hasked]

theorem NotEarlier.of_le {first second : Served} {call : Call} (h : NotEarlier first call)
    (hclock : second.clock ≤ first.clock) : NotEarlier second call := by
  cases call <;> exact hclock.trans h

theorem Twin.run {id : Int} {first second final : Served} {calls : List Call}
    (h : Twin id first second) (stored : Stored first) (stored' : Stored second)
    (largest : Largest first) (largest' : Largest second)
    (timed : AlongRun serve NotEarlier first calls)
    (kept : AlongRun serve NewestKept first calls)
    (kept' : AlongRun serve NewestKept second calls)
    (hrun : Foundation.run serve first calls = some final) :
    ∃ final', Foundation.run serve second calls = some final' ∧ Twin id final final' := by
  induction calls generalizing first second with
  | nil =>
      cases hrun
      exact ⟨second, rfl, h⟩
  | cons call calls ih =>
      obtain ⟨next, hnext, hrest⟩ := run_cons.mp hrun
      unfold AlongRun at timed kept kept'
      rw [hnext] at timed kept
      have twin : ∃ next', serve second call = some next' ∧ Twin id next next' := by
        cases call with
        | create now => exact h.create largest largest' kept.1 kept'.1 hnext
        | getLastAccessTime asked now =>
            exact h.getLastAccessTime stored stored' timed.1 hnext
      obtain ⟨next', hnext', htwin⟩ := twin
      rw [hnext'] at kept'
      obtain ⟨final', hfinal', hlast⟩ := ih htwin (stored.serve timed.1 hnext)
        (stored'.serve (timed.1.of_le h.clock) hnext') (largest.serve hnext)
        (largest'.serve hnext') timed.2 kept.2 kept'.2 hrest
      exact ⟨final', run_cons.mpr ⟨next', hnext', hfinal'⟩, hlast⟩

/--
An access answers what an exact expiry would.  The same run without it answers
everything else alike, if in both the id issued last is still stored whenever
the next one is issued.
-/
theorem expiry_exact {clock : Timestamp} {before : List Call} {served : Served}
    (timed : AlongRun serve NotEarlier { clock } before)
    (hrun : run serve { clock } before = some served) (id : Int) {now : Timestamp}
    (hnow : served.clock ≤ now) :
    (getLastAccessTime served.cookies id now).1 = exactOutcome (lastUse id served.log) now ∧
    ∀ after final,
      run serve served (.getLastAccessTime id now :: after) = some final →
      AlongRun serve NotEarlier served (.getLastAccessTime id now :: after) →
      AlongRun serve NewestKept served (.getLastAccessTime id now :: after) →
      AlongRun serve NewestKept served after →
      ∃ final', run serve served after = some final' ∧
        others id final.log = others id final'.log := by
  have start : Stored { clock } ∧ Largest { clock } := by
    constructor
    · exact fun id => .inl rfl
    · intro id hid
      simp at hid
  obtain ⟨stored, largest⟩ := run_invariant (fun served => Stored served ∧ Largest served)
    (fun hclock h hnext => ⟨h.1.serve hclock hnext, h.2.serve hnext⟩) timed start hrun
  refine ⟨stored.outcome hnow id, fun after final hfinal timed kept kept' => ?_⟩
  obtain ⟨next, hnext, hrest⟩ := run_cons.mp hfinal
  unfold AlongRun at timed kept
  rw [hnext] at timed kept
  have twin : Twin id next served := by
    rw [serve] at hnext
    obtain rfl := Option.some.inj hnext
    exact ⟨by simp [others_cons, On], hnow⟩
  obtain ⟨final', hfinal', hlast⟩ := twin.run (stored.serve timed.1 hnext) stored
    (largest.serve hnext) largest timed.2 kept.2 kept' hrest
  exact ⟨final', hfinal', hlast.others⟩

/-- Two clients, the first of which comes back in time. -/
theorem expiry_exact_kept :
    ∃ served final final', run serve { clock := 0 } [.create 0] = some served ∧
      (getLastAccessTime served.cookies 1 100000000000).1 = .ok 0 ∧
      run serve served [.getLastAccessTime 1 100000000000, .create 200000000000,
        .getLastAccessTime 2 350000000000] = some final ∧
      run serve served [.create 200000000000, .getLastAccessTime 2 350000000000] =
        some final' ∧
      others 1 final.log = others 1 final'.log := by
  have timed : AlongRun serve NotEarlier { clock := 0 } [.create 0] := by decide +kernel
  have later : (0 : Timestamp) ≤ 100000000000 := by decide
  obtain ⟨hexact, hothers⟩ := expiry_exact timed rfl 1 later
  obtain ⟨final', hfinal', hsame⟩ := hothers
    [.create 200000000000, .getLastAccessTime 2 350000000000] _ rfl (by decide +kernel)
    (by decide +kernel) (by decide +kernel)
  exact ⟨_, _, final', rfl, hexact, rfl, hfinal', hsame⟩

/--
A request under an id that nobody has purges the expired session 1, and the
next session is issued as 1 again: the first client's next request is answered.
-/
theorem purge_changes_others :
    AlongRun serve NotEarlier { clock := 0 } [.create 0, .getLastAccessTime 99 300000000000,
      .create 310000000000, .getLastAccessTime 1 320000000000] ∧
    ∃ served final final', run serve { clock := 0 } [.create 0] = some served ∧
      run serve served [.getLastAccessTime 99 300000000000, .create 310000000000,
        .getLastAccessTime 1 320000000000] = some final ∧
      run serve served [.create 310000000000, .getLastAccessTime 1 320000000000] =
        some final' ∧
      final.log.head?.map Prod.snd = some (.lastAccess (.ok 310000000000)) ∧
      final'.log.head?.map Prod.snd =
        some (.lastAccess (.error (exception (str "Expired!")))) ∧
      others 99 final.log ≠ others 99 final'.log := by
  refine ⟨by decide +kernel, _, _, _, rfl, rfl, rfl, by decide +kernel, by decide +kernel,
    fun same => ?_⟩
  have replies := congrArg (fun log : Log => log.head?.map Prod.snd) same
  exact absurd replies (by decide +kernel)

end Rdbus.Out.Expiry
