import Rdbus.Foundation.Runs
import Rdbus.Out.Http
import Mathlib.Tactic.Common

/-!
# Sessions over a run

A session is what one `create` issued.  It is extended by an access while it is
not expired, and once it is expired it stays so.  The server only has the
cookies; the sessions are kept beside them, the newest first.
-/

namespace Rdbus.Out.Sessioner

open Foundation

structure Session where
  id : Int
  lastAccess : Timestamp
  deriving DecidableEq, Repr

structure History where
  cookies : Cookies := ∅
  clock : Timestamp
  sessions : List Session := []

inductive Call where
  | create (now : Timestamp)
  | getLastAccessTime (id : Int) (now : Timestamp)

/-- An access extends a session that is not expired. -/
def Session.access (id : Int) (now : Timestamp) (session : Session) : Session :=
  if session.id = id ∧ ¬ isExpired now session.lastAccess
  then { session with lastAccess := now } else session

def step (history : History) : Call → Option History
  | .create now =>
      match create history.cookies now with
      | .ok (id, cookies) =>
          some { cookies, clock := now, sessions := ⟨id, now⟩ :: history.sessions }
      | .error _ => none
  | .getLastAccessTime id now =>
      match getLastAccessTime history.cookies id now with
      | (.ok _, cookies) =>
          let sessions := history.sessions.map (Session.access id now)
          some { cookies, clock := now, sessions }
      | (.error _, cookies) => some { history with cookies, clock := now }

def NotEarlier (history : History) : Call → Prop
  | .create now | .getLastAccessTime _ now => history.clock ≤ now

/-- A `create` finds the newest session still stored. -/
def NewestStored (history : History) : Call → Prop
  | .create _ => ∀ newest ∈ history.sessions.head?, newest.id ∈ history.cookies
  | .getLastAccessTime _ _ => True

instance (history : History) (call : Call) : Decidable (NotEarlier history call) := by
  unfold NotEarlier
  cases call <;> infer_instance

instance (history : History) (call : Call) : Decidable (NewestStored history call) := by
  unfold NewestStored
  cases call <;> infer_instance

/--
No two sessions share an id, and the id of an expired session is refused
without a change to the cookies that are not expired.
-/
structure Separate (history : History) : Prop where
  distinct : (history.sessions.map Session.id).Nodup
  refused : ∀ session ∈ history.sessions, ∀ now, history.clock ≤ now →
    isExpired now session.lastAccess →
    (getLastAccessTime history.cookies session.id now).1 =
        .error (exception (str "Expired!")) ∧
      ∀ id : Int, (getLastAccessTime history.cookies session.id now).2[id]? =
        history.cookies[id]?.filter fun lastAccess => !isExpired now lastAccess

/-! ## What the two functions do -/

theorem getElem?_foldl_erase (expired : List (Int × Timestamp)) (cookies : Cookies)
    (id : Int) :
    (expired.foldl (fun cookies cookie => cookies.erase cookie.1) cookies)[id]? =
      if id ∈ expired.map Prod.fst then none else cookies[id]? := by
  induction expired generalizing cookies with
  | nil => simp
  | cons cookie expired ih =>
      rw [List.foldl_cons, ih, Std.TreeMap.getElem?_erase, List.map_cons]
      simp only [compare_eq_iff_eq]
      by_cases hid : cookie.1 = id
      · simp [hid]
      · by_cases hmem : id ∈ expired.map Prod.fst
        · rw [if_pos hmem, if_pos (List.mem_cons_of_mem _ hmem)]
        · rw [if_neg hmem, if_neg hid, if_neg]
          exact List.not_mem_cons_of_ne_of_not_mem (Ne.symm hid) hmem

theorem getElem?_clearExpiredCookies (cookies : Cookies) (now : Timestamp) (id : Int) :
    (clearExpiredCookies cookies now)[id]? =
      cookies[id]?.filter fun lastAccess => !isExpired now lastAccess := by
  rw [clearExpiredCookies, getElem?_foldl_erase]
  have hexpired : id ∈ (cookies.toList.filter fun cookie =>
      isExpired now cookie.2).map Prod.fst ↔
        ∃ lastAccess, cookies[id]? = some lastAccess ∧ isExpired now lastAccess := by
    simp [Std.TreeMap.mem_toList_iff_getElem?_eq_some]
  cases hcookie : cookies[id]? with
  | none =>
      rw [if_neg]
      · rfl
      · rw [hexpired, hcookie]
        simp
  | some lastAccess =>
      cases hlast : isExpired now lastAccess with
      | true =>
          rw [if_pos]
          · simp [Option.filter, hlast]
          · exact hexpired.mpr ⟨lastAccess, hcookie, hlast⟩
      | false =>
          rw [if_neg]
          · simp [Option.filter, hlast]
          · rw [hexpired, hcookie]
            simp [hlast]

theorem create_ok {cookies cookies' : Cookies} {now : Timestamp} {id : Int}
    (h : create cookies now = .ok (id, cookies')) :
    cookies' = cookies.insert id now ∧
      (((∀ other, other ∉ cookies) ∧ id = 1) ∨
        ∃ last, last ∈ cookies ∧ (∀ other ∈ cookies, other ≤ last) ∧ id = last + 1) := by
  unfold create at h
  rw [← Std.TreeMap.maxKey?_eq_getLast?_keys] at h
  cases hmax : cookies.maxKey? with
  | none =>
      have hempty := Std.TreeMap.maxKey?_eq_none_iff.mp hmax
      simp only [hmax] at h
      split at h
      case isTrue =>
        cases h
        exact ⟨rfl, .inl ⟨fun _ => Std.TreeMap.not_mem_of_isEmpty hempty, rfl⟩⟩
      case isFalse => cases h
  | some last =>
      obtain ⟨hmem, hle⟩ := Std.TreeMap.maxKey?_eq_some_iff_mem_and_forall.mp hmax
      simp only [hmax] at h
      split at h
      case isTrue =>
        cases h
        exact ⟨rfl, .inr ⟨last, hmem, fun other ho => Std.isLE_compare.mp (hle other ho), rfl⟩⟩
      case isFalse => cases h

theorem create_new {cookies cookies' : Cookies} {now : Timestamp} {id : Int}
    (h : create cookies now = .ok (id, cookies')) :
    cookies[id]? = none ∧ cookies' = cookies.insert id now := by
  obtain ⟨hinsert, ⟨hempty, -⟩ | ⟨last, -, hle, rfl⟩⟩ := create_ok h
  · exact ⟨Std.TreeMap.getElem?_eq_none (hempty id), hinsert⟩
  · refine ⟨Std.TreeMap.getElem?_eq_none fun hmem => ?_, hinsert⟩
    have := hle _ hmem
    omega

theorem getLastAccessTime_of_some {cookies : Cookies} {id : Int} {now lastAccess : Timestamp}
    (h : cookies[id]? = some lastAccess) (hlive : ¬ isExpired now lastAccess) :
    getLastAccessTime cookies id now =
      (.ok lastAccess, (clearExpiredCookies cookies now).insert id now) := by
  have hfound : (clearExpiredCookies cookies now)[id]? = some lastAccess := by
    rw [getElem?_clearExpiredCookies, h]
    simp [Option.filter, hlive]
  rw [getLastAccessTime, hfound]

theorem getLastAccessTime_of_not {cookies : Cookies} {id : Int} {now : Timestamp}
    (h : ∀ lastAccess, cookies[id]? = some lastAccess → isExpired now lastAccess) :
    getLastAccessTime cookies id now =
      (.error (exception (str "Expired!")), clearExpiredCookies cookies now) := by
  have hnone : (clearExpiredCookies cookies now)[id]? = none := by
    rw [getElem?_clearExpiredCookies]
    cases hcookie : cookies[id]? with
    | none => rfl
    | some lastAccess => simp [Option.filter, h lastAccess hcookie]
  rw [getLastAccessTime, hnone]

theorem isExpired_iff {now lastAccess : Timestamp} :
    isExpired now lastAccess = true ↔ lastAccess + inactivityTimeout ≤ now := by
  rw [isExpired, decide_eq_true_eq]
  exact le_sub_iff_add_le'

/-! ## The sessions behind the cookies -/

/-- Each cookie is the last access of a session, and a session without one is expired. -/
structure Tracked (history : History) : Prop where
  stored : ∀ (id : Int) (lastAccess : Timestamp), history.cookies[id]? = some lastAccess →
    (⟨id, lastAccess⟩ : Session) ∈ history.sessions
  kept : ∀ session ∈ history.sessions,
    history.cookies[session.id]? = some session.lastAccess ∨
      session.lastAccess + inactivityTimeout ≤ history.clock

theorem Tracked.create {history : History} (h : Tracked history) {now : Timestamp}
    (hclock : history.clock ≤ now) {id : Int} {cookies : Cookies}
    (hcreate : Sessioner.create history.cookies now = .ok (id, cookies)) :
    Tracked { cookies, clock := now, sessions := ⟨id, now⟩ :: history.sessions } := by
  obtain ⟨hnew, rfl⟩ := create_new hcreate
  constructor
  · intro other lastAccess hother
    simp only [Std.TreeMap.getElem?_insert, compare_eq_iff_eq] at hother
    split at hother
    case isTrue heq =>
      cases hother
      rw [heq]
      exact List.mem_cons_self
    case isFalse => exact List.mem_cons_of_mem _ (h.stored other lastAccess hother)
  · intro session hmem
    rcases List.mem_cons.mp hmem with rfl | hmem
    · exact .inl Std.TreeMap.getElem?_insert_self
    · rcases h.kept session hmem with hkept | hexpired
      · have hne : id ≠ session.id := by
          rintro rfl
          rw [hnew] at hkept
          cases hkept
        exact .inl (by simp [Std.TreeMap.getElem?_insert, hne, hkept])
      · exact .inr (hexpired.trans hclock)

/-- Clearing the expired cookies loses no session that is not expired. -/
theorem Tracked.clear {history : History} (h : Tracked history) {now : Timestamp}
    (hclock : history.clock ≤ now) :
    Tracked { history with cookies := clearExpiredCookies history.cookies now,
                           clock := now } := by
  constructor
  · intro id lastAccess hcookie
    simp only [getElem?_clearExpiredCookies, Option.filter_eq_some_iff] at hcookie
    exact h.stored id lastAccess hcookie.1
  · intro session hmem
    rcases h.kept session hmem with hkept | hexpired
    · by_cases hexpired : isExpired now session.lastAccess
      · exact .inr (isExpired_iff.mp hexpired)
      · left
        simp [getElem?_clearExpiredCookies, hkept, Option.filter, hexpired]
    · exact .inr (hexpired.trans hclock)

theorem Session.access_of_ne {id : Int} {now : Timestamp} {session : Session}
    (h : session.id ≠ id) : session.access id now = session := by
  rw [Session.access, if_neg fun hid => h hid.1]

@[simp] theorem Session.access_id (id : Int) (now : Timestamp) (session : Session) :
    (session.access id now).id = session.id := by
  unfold Session.access
  split <;> rfl

theorem Tracked.access {history : History} (h : Tracked history) {id : Int}
    {now lastAccess : Timestamp} (hclock : history.clock ≤ now)
    (hcookie : history.cookies[id]? = some lastAccess) (hlive : ¬ isExpired now lastAccess) :
    Tracked { cookies := history.cookies.insert id now, clock := now,
              sessions := history.sessions.map (Session.access id now) } := by
  constructor
  · intro other time hother
    simp only [Std.TreeMap.getElem?_insert, compare_eq_iff_eq] at hother
    apply List.mem_map.mpr
    split at hother
    case isTrue heq =>
      cases hother
      cases heq
      exact ⟨_, h.stored id lastAccess hcookie, by simp [Session.access, hlive]⟩
    case isFalse hne =>
      exact ⟨_, h.stored other time hother, Session.access_of_ne (Ne.symm hne)⟩
  · intro accessed hmem
    obtain ⟨session, hsession, rfl⟩ := List.mem_map.mp hmem
    by_cases hid : session.id = id
    · by_cases hexpired : isExpired now session.lastAccess
      · have hsame : session.access id now = session := by
          rw [Session.access, if_neg fun hboth => hboth.2 hexpired]
        rw [hsame]
        exact .inr (isExpired_iff.mp hexpired)
      · left
        simp [Session.access, hid, hexpired]
    · rw [Session.access_of_ne hid]
      rcases h.kept session hsession with hkept | hexpired
      · left
        simp [Std.TreeMap.getElem?_insert, Ne.symm hid, hkept]
      · exact .inr (hexpired.trans hclock)

/-- A call of `getLastAccessTime` clears, and extends the session it finds. -/
theorem step_getLastAccessTime {history next : History} {id : Int} {now : Timestamp}
    (h : step history (.getLastAccessTime id now) = some next) :
    (∃ lastAccess, history.cookies[id]? = some lastAccess ∧ ¬ isExpired now lastAccess ∧
      next = { cookies := (clearExpiredCookies history.cookies now).insert id now,
               clock := now, sessions := history.sessions.map (Session.access id now) }) ∨
    ((∀ lastAccess, history.cookies[id]? = some lastAccess → isExpired now lastAccess) ∧
      next = { history with cookies := clearExpiredCookies history.cookies now,
                            clock := now }) := by
  by_cases hlive : ∃ lastAccess, history.cookies[id]? = some lastAccess ∧
      ¬ isExpired now lastAccess
  · obtain ⟨lastAccess, hcookie, hlive⟩ := hlive
    left
    simp only [step, getLastAccessTime_of_some hcookie hlive, Option.some.injEq] at h
    exact ⟨lastAccess, hcookie, hlive, h.symm⟩
  · right
    push Not at hlive
    simp only [step, getLastAccessTime_of_not hlive, Option.some.injEq] at h
    exact ⟨hlive, h.symm⟩

theorem step_create {history next : History} {now : Timestamp}
    (h : step history (.create now) = some next) :
    ∃ id cookies, create history.cookies now = .ok (id, cookies) ∧
      next = { cookies, clock := now, sessions := ⟨id, now⟩ :: history.sessions } := by
  cases hcreate : create history.cookies now with
  | error e => simp [step, hcreate] at h
  | ok result =>
      obtain ⟨id, cookies⟩ := result
      simp only [step, hcreate, Option.some.injEq] at h
      exact ⟨id, cookies, rfl, h.symm⟩

theorem Tracked.step {history next : History} {call : Call}
    (hclock : NotEarlier history call) (h : Tracked history)
    (hnext : Sessioner.step history call = some next) : Tracked next := by
  cases call with
  | create now =>
      obtain ⟨id, cookies, hcreate, rfl⟩ := step_create hnext
      exact h.create hclock hcreate
  | getLastAccessTime id now =>
      obtain ⟨lastAccess, hcookie, hlive, rfl⟩ | ⟨-, rfl⟩ := step_getLastAccessTime hnext
      · have hfound : (clearExpiredCookies history.cookies now)[id]? = some lastAccess := by
          simp [getElem?_clearExpiredCookies, hcookie, Option.filter, hlive]
        exact (h.clear hclock).access le_rfl hfound hlive
      · exact h.clear hclock

/-! ## The last session under an id -/

/-- When the session issued last under an id was created or last extended. -/
def lastAccess (sessions : List Session) (id : Int) : Option Timestamp :=
  (sessions.find? fun session => session.id = id).map Session.lastAccess

def Live (sessions : List Session) (now : Timestamp) (id : Int) : Prop :=
  ∃ time ∈ lastAccess sessions id, ¬ isExpired now time

instance (sessions : List Session) (now : Timestamp) (id : Int) :
    Decidable (Live sessions now id) := by
  unfold Live
  infer_instance

/-- What is stored under an id is the last access of its last session; no clock matters. -/
def Recent (history : History) : Prop :=
  ∀ (id : Int) (time : Timestamp), history.cookies[id]? = some time →
    lastAccess history.sessions id = some time

theorem lastAccess_cons (session : Session) (sessions : List Session) (id : Int) :
    lastAccess (session :: sessions) id =
      if session.id = id then some session.lastAccess else lastAccess sessions id := by
  unfold lastAccess
  by_cases h : session.id = id <;> simp [h]

theorem lastAccess_access (sessions : List Session) (id other : Int) (now : Timestamp) :
    lastAccess (sessions.map (Session.access id now)) other =
      (lastAccess sessions other).map fun time =>
        if other = id ∧ ¬ isExpired now time then now else time := by
  induction sessions with
  | nil => rfl
  | cons session sessions ih =>
      rw [List.map_cons, lastAccess_cons, lastAccess_cons, ih, Session.access_id]
      by_cases h : session.id = other
      · rw [if_pos h, if_pos h, Option.map_some, Session.access, h]
        split <;> rfl
      · rw [if_neg h, if_neg h]

theorem Recent.step {history next : History} {call : Call} (h : Recent history)
    (hnext : Sessioner.step history call = some next) : Recent next := by
  cases call with
  | create now =>
      obtain ⟨id, cookies, hcreate, rfl⟩ := step_create hnext
      obtain ⟨-, rfl⟩ := create_new hcreate
      intro other time hother
      simp only [Std.TreeMap.getElem?_insert, compare_eq_iff_eq] at hother
      rw [lastAccess_cons]
      split at hother
      case isTrue heq => rw [if_pos heq, hother]
      case isFalse hne => rw [if_neg hne, h other time hother]
  | getLastAccessTime id now =>
      obtain ⟨lastTime, hcookie, hlive, rfl⟩ | ⟨-, rfl⟩ := step_getLastAccessTime hnext
      · intro other time hother
        simp only [Std.TreeMap.getElem?_insert, compare_eq_iff_eq] at hother
        rw [lastAccess_access]
        split at hother
        case isTrue heq =>
          rw [← heq, h id lastTime hcookie]
          simp [hlive, hother]
        case isFalse hne =>
          rw [getElem?_clearExpiredCookies, Option.filter_eq_some_iff] at hother
          rw [h other time hother.1]
          simp [Ne.symm hne]
      · intro other time hother
        rw [getElem?_clearExpiredCookies, Option.filter_eq_some_iff] at hother
        exact h other time hother.1
/-- While the clock is not set back, a live session is stored. -/
theorem Tracked.stored_of_live {history : History} (h : Tracked history) {now : Timestamp}
    (hclock : history.clock ≤ now) {id : Int} (hlive : Live history.sessions now id) :
    id ∈ history.cookies := by
  obtain ⟨time, hlast, hlive⟩ := hlive
  obtain ⟨session, hfind, rfl⟩ := Option.map_eq_some_iff.mp hlast
  have hid : session.id = id := by simpa using List.find?_some hfind
  obtain hkept | hexpired := h.kept session (List.mem_of_find?_eq_some hfind)
  · rw [hid] at hkept
    exact Std.TreeMap.mem_iff_isSome_getElem?.mpr (by simp [hkept])
  · exact absurd (isExpired_iff.mpr (hexpired.trans hclock)) hlive

/-! ## Numbered sessions -/

def descending : Nat → List Int
  | 0 => []
  | n + 1 => (n + 1 : Nat) :: descending n

theorem mem_descending {n : Nat} {id : Int} : id ∈ descending n ↔ 1 ≤ id ∧ id ≤ n := by
  induction n with
  | zero =>
      simp only [descending, List.not_mem_nil, false_iff]
      omega
  | succ n ih =>
      rw [descending, List.mem_cons, ih]
      omega

theorem nodup_descending (n : Nat) : (descending n).Nodup := by
  induction n with
  | zero => exact List.nodup_nil
  | succ n ih =>
      refine List.nodup_cons.mpr ⟨fun hmem => ?_, ih⟩
      rw [mem_descending] at hmem
      omega

/-- The sessions have the ids 1, 2, ... in the order they were issued. -/
def Numbered (history : History) : Prop :=
  history.sessions.map Session.id = descending history.sessions.length

theorem Numbered.mem_iff {history : History} (h : Numbered history) {id : Int} :
    id ∈ history.sessions.map Session.id ↔ 1 ≤ id ∧ id ≤ history.sessions.length := by
  rw [h, mem_descending]

theorem Tracked.mem_ids {history : History} (h : Tracked history) {id : Int}
    (hmem : id ∈ history.cookies) : id ∈ history.sessions.map Session.id := by
  have hcookie := Std.TreeMap.getElem?_eq_some_getElem hmem
  exact List.mem_map.mpr ⟨_, h.stored id _ hcookie, rfl⟩

theorem Numbered.nodup {history : History} (h : Numbered history) :
    (history.sessions.map Session.id).Nodup := by
  rw [h]
  exact nodup_descending _

/-- The id of the largest cookie is at most that of the newest session. -/
theorem Numbered.create {history : History} (h : Numbered history)
    (htracked : Tracked history) {now : Timestamp} {id : Int} {cookies : Cookies}
    (hcreate : Sessioner.create history.cookies now = .ok (id, cookies))
    (hstored : NewestStored history (.create now)) : id = history.sessions.length + 1 := by
  have hids : ∀ other ∈ history.cookies, 1 ≤ other ∧ other ≤ history.sessions.length :=
    fun other hmem => h.mem_iff.mp (htracked.mem_ids hmem)
  obtain ⟨-, ⟨hempty, rfl⟩ | ⟨last, hlast, hle, rfl⟩⟩ := create_ok hcreate
  · cases hsessions : history.sessions with
    | nil => rfl
    | cons newest sessions => exact absurd (hstored newest (by simp [hsessions])) (hempty _)
  · unfold Numbered at h
    cases hsessions : history.sessions with
    | nil =>
        have := hids last hlast
        simp only [hsessions, List.length_nil] at this
        omega
    | cons newest sessions =>
        have hnewest := hle _ (hstored newest (by simp [hsessions]))
        have hlength := hids last hlast
        rw [hsessions, List.map_cons, List.length_cons, descending, List.cons.injEq] at h
        rw [hsessions, List.length_cons] at hlength
        rw [List.length_cons]
        omega

/-- Without the newest session the next id is one that was issued before. -/
theorem Numbered.create_again {history : History} (h : Numbered history)
    (htracked : Tracked history) {now : Timestamp} {id : Int} {cookies : Cookies}
    (hcreate : Sessioner.create history.cookies now = .ok (id, cookies))
    (hstored : ¬ NewestStored history (.create now)) :
    id ∈ history.sessions.map Session.id := by
  simp only [NewestStored, not_forall] at hstored
  obtain ⟨newest, hnewest, hpurged⟩ := hstored
  have hnumber : newest.id = history.sessions.length ∧ 1 ≤ history.sessions.length := by
    unfold Numbered at h
    cases hsessions : history.sessions with
    | nil => simp [hsessions] at hnewest
    | cons first sessions =>
        rw [hsessions] at hnewest h
        cases hnewest
        rw [List.map_cons, List.length_cons, descending, List.cons.injEq] at h
        exact ⟨h.1, by simp⟩
  rw [h.mem_iff]
  obtain ⟨-, ⟨-, rfl⟩ | ⟨last, hlast, -, rfl⟩⟩ := create_ok hcreate
  · omega
  · have hlast' := h.mem_iff.mp (htracked.mem_ids hlast)
    have hne : last ≠ newest.id := by
      rintro rfl
      exact hpurged hlast
    omega

theorem step_sessions {history next : History} {call : Call}
    (h : step history call = some next) :
    next.sessions.map Session.id = history.sessions.map Session.id ∨
      ∃ id, next.sessions.map Session.id = id :: history.sessions.map Session.id := by
  cases call with
  | create now =>
      obtain ⟨id, cookies, -, rfl⟩ := step_create h
      exact .inr ⟨id, rfl⟩
  | getLastAccessTime id now =>
      left
      obtain ⟨lastAccess, -, -, rfl⟩ | ⟨-, rfl⟩ := step_getLastAccessTime h
      · simp [Function.comp_def]
      · rfl

theorem Numbered.step {history next : History} {call : Call} (h : Numbered history)
    (htracked : Tracked history) (hstored : NewestStored history call)
    (hnext : Sessioner.step history call = some next) : Numbered next := by
  cases call with
  | create now =>
      obtain ⟨id, cookies, hcreate, rfl⟩ := step_create hnext
      have hid := h.create htracked hcreate hstored
      unfold Numbered at h ⊢
      rw [List.map_cons, List.length_cons, descending, h, hid]
      rfl
  | getLastAccessTime id now =>
      obtain ⟨lastAccess, -, -, rfl⟩ | ⟨-, rfl⟩ := step_getLastAccessTime hnext
      · unfold Numbered at h ⊢
        simpa [Function.comp_def] using h
      · exact h

theorem Numbered.separate {history : History} (h : Numbered history)
    (htracked : Tracked history) : Separate history := by
  constructor
  · exact h.nodup
  · intro session hmem now hclock hexpired
    have hcookie : ∀ lastAccess, history.cookies[session.id]? = some lastAccess →
        isExpired now lastAccess := by
      intro lastAccess hfound
      have hsame := List.inj_on_of_nodup_map h.nodup
        (htracked.stored _ _ hfound) hmem rfl
      rw [← hsame] at hexpired
      exact hexpired
    rw [getLastAccessTime_of_not hcookie]
    exact ⟨rfl, fun id => getElem?_clearExpiredCookies _ _ _⟩

/-! ## Runs -/

theorem not_nodup_of_run {history final : History} {calls : List Call}
    (hrun : run step history calls = some final)
    (h : ¬ (history.sessions.map Session.id).Nodup) :
    ¬ (final.sessions.map Session.id).Nodup := by
  refine run_invariant (fun history =>
    ¬ (history.sessions.map Session.id).Nodup) ?_ alongRun_true h hrun
  intro history call next _ hrepeated hnext
  obtain hsame | ⟨id, hmore⟩ := step_sessions hnext
  · rwa [hsame]
  · rw [hmore, List.nodup_cons]
    exact fun hboth => hrepeated hboth.2

theorem alongRun_newestStored {history final : History} {calls : List Call}
    (hclock : AlongRun step NotEarlier history calls) (htracked : Tracked history)
    (hnumbered : Numbered history) (hrun : run step history calls = some final)
    (hdistinct : (final.sessions.map Session.id).Nodup) :
    AlongRun step NewestStored history calls := by
  induction calls generalizing history with
  | nil => trivial
  | cons call calls ih =>
      obtain ⟨next, hnext, hrest⟩ := run_cons.mp hrun
      unfold AlongRun at hclock ⊢
      rw [hnext] at hclock ⊢
      have hstored : NewestStored history call := by
        by_contra hpurged
        cases call with
        | create now =>
            obtain ⟨id, cookies, hcreate, rfl⟩ := step_create hnext
            refine not_nodup_of_run hrest ?_ hdistinct
            rw [List.map_cons, List.nodup_cons]
            exact fun hboth =>
              hboth.1 (hnumbered.create_again htracked hcreate hpurged)
        | getLastAccessTime id now => exact hpurged trivial
      exact ⟨hstored, ih hclock.2 (htracked.step hclock.1 hnext)
        (hnumbered.step htracked hstored hnext) hrest⟩

def Bounded (history : History) : Prop :=
  ∀ id ∈ history.sessions.map Session.id, 1 ≤ id ∧ id ≤ history.sessions.length

def Call.creates : Call → Nat
  | .create _ => 1
  | .getLastAccessTime _ _ => 0

theorem Bounded.step {history : History} (h : Bounded history)
    (htracked : Tracked history) (call : Call)
    (hfew : history.sessions.length + call.creates < 2 ^ 31) :
    ∃ next, Sessioner.step history call = some next ∧ Bounded next ∧
      next.sessions.length = history.sessions.length + call.creates := by
  cases call with
  | create now =>
      have hid : ∃ id cookies, Sessioner.create history.cookies now = .ok (id, cookies) ∧
          1 ≤ id ∧ id ≤ history.sessions.length + 1 := by
        simp only [Call.creates] at hfew
        have hids := fun last hmem => h last (htracked.mem_ids hmem)
        unfold Sessioner.create
        rw [← Std.TreeMap.maxKey?_eq_getLast?_keys]
        cases hmax : history.cookies.maxKey? with
        | none => exact ⟨1, _, rfl, le_rfl, by omega⟩
        | some last =>
            have hlast := hids last (Std.TreeMap.maxKey?_eq_some_iff_mem_and_forall.mp hmax).1
            have hnext : last + 1 < 2 ^ 31 := by omega
            exact ⟨last + 1, _, if_pos hnext, by omega, by omega⟩
      obtain ⟨id, cookies, hcreate, hpositive, hle⟩ := hid
      refine ⟨_, by rw [Sessioner.step, hcreate], ?_, rfl⟩
      intro other hmem
      rw [List.map_cons, List.mem_cons] at hmem
      simp only [List.length_cons, Nat.cast_add, Nat.cast_one]
      rcases hmem with rfl | hmem
      · exact ⟨hpositive, hle⟩
      · have := h other hmem
        omega
  | getLastAccessTime id now =>
      have hnext : ∃ next, Sessioner.step history (.getLastAccessTime id now) = some next := by
        unfold Sessioner.step
        simp only
        split <;> exact ⟨_, rfl⟩
      obtain ⟨next, hnext⟩ := hnext
      refine ⟨next, hnext, ?_⟩
      obtain ⟨lastAccess, -, -, rfl⟩ | ⟨-, rfl⟩ := step_getLastAccessTime hnext
      · unfold Bounded at h ⊢
        simpa [Call.creates, Function.comp_def] using h
      · exact ⟨h, rfl⟩

theorem exists_run {history : History} {calls : List Call}
    (hclock : AlongRun step NotEarlier history calls) (htracked : Tracked history)
    (hbounded : Bounded history)
    (hfew : history.sessions.length + (calls.map Call.creates).sum < 2 ^ 31) :
    ∃ final, run step history calls = some final := by
  induction calls generalizing history with
  | nil => exact ⟨history, rfl⟩
  | cons call calls ih =>
      rw [List.map_cons, List.sum_cons] at hfew
      obtain ⟨next, hnext, hbounded', hlength⟩ := hbounded.step htracked call (by omega)
      unfold AlongRun at hclock
      rw [hnext] at hclock
      obtain ⟨final, hfinal⟩ := ih hclock.2 (htracked.step hclock.1 hnext) hbounded' (by omega)
      exact ⟨final, run_cons.mpr ⟨next, hnext, hfinal⟩⟩

theorem tracked_initial (clock : Timestamp) : Tracked { clock } := by
  constructor <;> simp

/--
Ids are reused exactly in the runs in which a session is created after the
newest one has been cleared.
-/
theorem separate_iff_newestStored (clock : Timestamp) (calls : List Call)
    (hclock : AlongRun step NotEarlier { clock } calls)
    (hfew : (calls.map Call.creates).sum < 2 ^ 31) :
    ∃ final, run step { clock } calls = some final ∧
      (Separate final ↔ AlongRun step NewestStored { clock } calls) := by
  have htracked := tracked_initial clock
  have hbounded : Bounded { clock } := by simp [Bounded]
  have hnumbered : Numbered { clock } := rfl
  obtain ⟨final, hrun⟩ := exists_run hclock htracked hbounded (by simpa using hfew)
  refine ⟨final, hrun, ?_, ?_⟩
  · intro h
    exact alongRun_newestStored hclock htracked hnumbered hrun h.distinct
  · intro hstored
    have hboth := run_invariant (fun history => Tracked history ∧ Numbered history)
      (fun hcondition h hnext => ⟨h.1.step hcondition.1 hnext, h.2.step h.1 hcondition.2 hnext⟩)
      (alongRun_and hclock hstored) ⟨htracked, hnumbered⟩ hrun
    exact hboth.2.separate hboth.1

/-- The second session outlives the first, whose cookie is cleared at five minutes. -/
def outlived : List Call :=
  [.create 0, .create 200000000000, .getLastAccessTime 1 300000000000,
    .create 310000000000]

theorem separate_outlived :
    ∃ final, run step { clock := 0 } outlived = some final ∧ Separate final := by
  obtain ⟨final, hrun, hiff⟩ :=
    separate_iff_newestStored 0 outlived (by decide +kernel) (by decide)
  exact ⟨final, hrun, hiff.mpr (by decide +kernel)⟩

/-- The only session expires and is cleared before the next one is created. -/
def cleared : List Call :=
  [.create 0, .getLastAccessTime 1 300000000000, .create 310000000000]

/-- The id of the expired session reads, and extends, the session of the next client. -/
theorem cleared_not_separate :
    AlongRun step NotEarlier { clock := 0 } cleared ∧
      (cleared.map Call.creates).sum < 2 ^ 31 ∧
      ∃ final, run step { clock := 0 } cleared = some final ∧
        final.sessions = [⟨1, 310000000000⟩, ⟨1, 0⟩] ∧
        isExpired 320000000000 0 ∧
        (getLastAccessTime final.cookies 1 320000000000).1 = .ok 310000000000 ∧
        (getLastAccessTime final.cookies 1 320000000000).2[(1 : Int)]? = some 320000000000 ∧
        ¬ Separate final := by
  refine ⟨by decide +kernel, by decide, ?_⟩
  have hrun : (run step { clock := 0 } cleared).map
      (fun final => (final.sessions, (getLastAccessTime final.cookies 1 320000000000).1,
        (getLastAccessTime final.cookies 1 320000000000).2[(1 : Int)]?)) =
      some ([⟨1, 310000000000⟩, ⟨1, 0⟩], .ok 310000000000, some 320000000000) := by
    decide +kernel
  obtain ⟨final, hfinal, heq⟩ := Option.map_eq_some_iff.mp hrun
  rw [Prod.mk.injEq, Prod.mk.injEq] at heq
  refine ⟨final, hfinal, heq.1, by decide, heq.2.1, heq.2.2, fun h => ?_⟩
  have hdistinct := h.distinct
  rw [heq.1] at hdistinct
  exact absurd hdistinct (by decide)

end Rdbus.Out.Sessioner
