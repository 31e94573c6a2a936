import Rdbus.Exception
import Rdbus.Foundation.DoWhile
import Rdbus.Foundation.Outcome
import Mathlib.Tactic.Common

/-!
# Reading a serial line

`Connection::getData` and the `OSExtended` calls it makes.  The operating system
is outside: it answers the `k`-th `poll` and the `k`-th `read` of one call of
`getData`, with a status or with `-1` and the text of `getError`.
-/

namespace Rdbus.Communication

open Foundation

structure OS where
  poll : Nat → Except Bytes Nat
  /-- The bytes stored by the `k`-th read, which was asked for `nbytes`. -/
  read : Nat → Nat → Except Bytes Bytes

/-- A read stores no more than it was asked for. -/
def OS.Posix (os : OS) : Prop :=
  ∀ k nbytes bytes, os.read k nbytes = .ok bytes → bytes.length ≤ nbytes

/-- `OSExtended::poll`. -/
def OS.extendedPoll (os : OS) (k : Nat) : Except Throw Nat :=
  (os.poll k).mapError fun error => osException (str "Error at poll " ++ error)

/-- `OSExtended::read`. -/
def OS.extendedRead (os : OS) (k nbytes : Nat) : Except Throw Bytes :=
  (os.read k nbytes).mapError fun error => osException (str "Error at read " ++ error)

namespace Connection

/-- Arbitrary large max size. -/
def maxSize : Nat := 2048

structure Reading where
  data : Bytes := List.replicate maxSize 0
  size : Nat := 0
  deriving DecidableEq, Repr

/-- Writing to `data.data() + position`; nothing is owned behind the end. -/
def store (data : Bytes) (position : Nat) (bytes : Bytes) : Except Throw Bytes :=
  if position + bytes.length ≤ data.length then
    .ok (data.take position ++ bytes ++ data.drop (position + bytes.length))
  else .error .undefinedBehaviour

/-- The `k`-th pass: the body of the loop, then its condition. -/
def pass (os : OS) (k : Nat) (s : Reading) : Except Throw (Reading × Bool) := do
  let bytes ← os.extendedRead k maxSize
  let data ← store s.data s.size bytes
  let status ← os.extendedPoll (k + 1)
  .ok (⟨data, s.size + bytes.length⟩, 0 < status)

def readAll (os : OS) (fuel : Nat) : Option (Except Throw Bytes) :=
  (doWhile (pass os) fuel 0 {}).map fun outcome =>
    outcome.map fun s => s.data.take s.size

/-- `Connection::getData`; `none` while the loop still runs. -/
def getData (os : OS) (fuel : Nat) : Option (Except Throw Bytes) :=
  match os.extendedPoll 0 with
  | .error e => some (.error e)
  | .ok 0 => some (.error (osTimeout (str "Device timeout!")))
  | .ok (_ + 1) => readAll os fuel

/-- The variables at the start of the `k`-th pass, if there is one. -/
def reached (os : OS) (k : Nat) : Option Reading :=
  match os.extendedPoll 0 with
  | .ok (_ + 1) => entered (pass os) {} k
  | _ => none

def delivered (os : OS) (k : Nat) : Bytes :=
  (List.range k).flatMap fun i => (os.read i maxSize).toOption.getD []

/-! ## One pass -/

theorem extendedPoll_eq_ok {os : OS} {k status : Nat} :
    os.extendedPoll k = .ok status ↔ os.poll k = .ok status := by
  rw [OS.extendedPoll]
  cases os.poll k <;> simp [Except.mapError]

theorem extendedRead_eq_ok {os : OS} {k nbytes : Nat} {bytes : Bytes} :
    os.extendedRead k nbytes = .ok bytes ↔ os.read k nbytes = .ok bytes := by
  rw [OS.extendedRead]
  cases os.read k nbytes <;> simp [Except.mapError]

theorem store_eq_ok {data bytes stored : Bytes} {position : Nat} :
    store data position bytes = .ok stored ↔ position + bytes.length ≤ data.length ∧
      data.take position ++ bytes ++ data.drop (position + bytes.length) = stored := by
  rw [store]
  split <;> simp [*]

theorem pass_eq_ok {os : OS} {k : Nat} {s after : Reading} {again : Bool} :
    pass os k s = .ok (after, again) ↔ ∃ bytes status, os.read k maxSize = .ok bytes ∧
      os.poll (k + 1) = .ok status ∧ s.size + bytes.length ≤ s.data.length ∧
      after = ⟨s.data.take s.size ++ bytes ++ s.data.drop (s.size + bytes.length),
        s.size + bytes.length⟩ ∧ again = decide (0 < status) := by
  simp only [pass, bind_eq_ok, extendedRead_eq_ok, extendedPoll_eq_ok, store_eq_ok]
  constructor
  · rintro ⟨bytes, hread, data, ⟨fits, rfl⟩, status, hpoll, h⟩
    cases h
    exact ⟨bytes, status, hread, hpoll, fits, rfl, rfl⟩
  · rintro ⟨bytes, status, hread, hpoll, fits, rfl, rfl⟩
    exact ⟨bytes, hread, _, ⟨fits, rfl⟩, status, hpoll, rfl⟩

/-- The front of the vector is what has been read. -/
structure Holds (os : OS) (k : Nat) (s : Reading) : Prop where
  length : s.data.length = maxSize
  size : s.size = (delivered os k).length
  front : s.data.take s.size = delivered os k

theorem Holds.size_le {os : OS} {k : Nat} {s : Reading} (h : Holds os k s) :
    s.size ≤ maxSize := by
  have cut := congrArg List.length h.front
  rw [List.length_take, h.length, ← h.size] at cut
  omega

theorem holds_start (os : OS) : Holds os 0 {} :=
  ⟨List.length_replicate, rfl, rfl⟩

theorem delivered_succ {os : OS} {k : Nat} {bytes : Bytes} (h : os.read k maxSize = .ok bytes) :
    delivered os (k + 1) = delivered os k ++ bytes := by
  simp [delivered, List.range_succ, h, Except.toOption]

theorem Holds.pass {os : OS} {k : Nat} {s after : Reading} {again : Bool}
    (holds : Holds os k s) (h : pass os k s = .ok (after, again)) :
    Holds os (k + 1) after := by
  obtain ⟨bytes, status, hread, -, fits, rfl, -⟩ := pass_eq_ok.mp h
  have hsize := holds.size_le
  have grown := delivered_succ hread
  constructor
  case length =>
    simp only [List.length_append, List.length_take, List.length_drop]
    have hlength := holds.length
    omega
  case size =>
    rw [grown, List.length_append, ← holds.size]
  case front =>
    have front : (s.data.take s.size ++ bytes).length = s.size + bytes.length := by
      rw [List.length_append, List.length_take, holds.length, Nat.min_eq_left hsize]
    rw [grown, ← holds.front, ← front, List.take_left]

/-! ## Every pass -/

theorem reached_eq_some {os : OS} {k : Nat} {s : Reading} :
    reached os k = some s ↔
      (∃ status, os.poll 0 = .ok (status + 1)) ∧ entered (Connection.pass os) {} k = some s := by
  rw [reached]
  cases hpoll : os.extendedPoll 0 with
  | error e =>
      have never : ∀ status, os.poll 0 ≠ .ok (status + 1) := by
        intro status h
        rw [← extendedPoll_eq_ok, hpoll] at h
        cases h
      simp [never]
  | ok status =>
      rw [extendedPoll_eq_ok] at hpoll
      cases status <;> simp [hpoll]

theorem reached_holds {os : OS} {k : Nat} {s : Reading} (h : reached os k = some s) :
    Holds os k s :=
  entered_invariant (Holds os) (holds_start os) (fun holds hpass => holds.pass hpass)
    (reached_eq_some.mp h).2

/-- A pass that is reached, whose read fits and whose poll reports more, has a successor. -/
theorem reached_succ {os : OS} {k : Nat} {s after : Reading} (hs : reached os k = some s) :
    reached os (k + 1) = some after ↔ pass os k s = .ok (after, true) := by
  obtain ⟨started, hentered⟩ := reached_eq_some.mp hs
  rw [reached_eq_some, entered_succ, hentered]
  simp [started]

theorem getData_cases {os : OS} {fuel : Nat} {outcome : Except Throw Bytes}
    (h : getData os fuel = some outcome) :
    (∃ error, os.poll 0 = .error error ∧
      outcome = .error (osException (str "Error at poll " ++ error))) ∨
    (os.poll 0 = .ok 0 ∧ outcome = .error (osTimeout (str "Device timeout!"))) ∨
    ∃ k s, reached os k = some s ∧
      ((∃ e, pass os k s = .error e ∧ outcome = .error e) ∨
        ∃ after, pass os k s = .ok (after, false) ∧
          outcome = .ok (after.data.take after.size)) := by
  rw [getData] at h
  cases hpoll : os.poll 0 with
  | error error =>
      simp only [OS.extendedPoll, hpoll, Except.mapError, Option.some.injEq] at h
      exact .inl ⟨error, rfl, h.symm⟩
  | ok status =>
      cases status with
      | zero =>
          simp only [OS.extendedPoll, hpoll, Except.mapError, Option.some.injEq] at h
          exact .inr (.inl ⟨rfl, h.symm⟩)
      | succ status =>
          simp only [OS.extendedPoll, hpoll, Except.mapError, readAll,
            Option.map_eq_some_iff] at h
          obtain ⟨left, hleft, rfl⟩ := h
          obtain ⟨k, s, hs, hpass⟩ := doWhile_eq_some hleft
          refine .inr (.inr ⟨k, s, reached_eq_some.mpr ⟨⟨status, hpoll⟩, hs⟩, ?_⟩)
          cases left with
          | error e => exact .inl ⟨e, hpass, rfl⟩
          | ok after => exact .inr ⟨after, hpass, rfl⟩

theorem getData_of_left {os : OS} {k : Nat} {s after : Reading} (hs : reached os k = some s)
    (h : pass os k s = .ok (after, false)) :
    getData os (k + 1) = some (.ok (after.data.take after.size)) := by
  obtain ⟨⟨status, hpoll⟩, hentered⟩ := reached_eq_some.mp hs
  have left : doWhile (pass os) (k + 1) 0 {} = some (.ok after) := doWhile_of_left hentered h
  rw [getData, extendedPoll_eq_ok.mpr hpoll]
  simp only [readAll, left]
  rfl

/-- A returned vector holds every byte that was read, in order. -/
theorem getData_ok {os : OS} {fuel : Nat} {bytes : Bytes}
    (h : getData os fuel = some (.ok bytes)) :
    ∃ k s, reached os k = some s ∧ os.poll (k + 1) = .ok 0 ∧
      bytes = delivered os (k + 1) ∧ bytes.length ≤ maxSize := by
  rcases getData_cases h with ⟨_, _, h⟩ | ⟨_, h⟩ | ⟨k, s, hs, ⟨_, _, h⟩ | ⟨after, hpass, h⟩⟩
  · cases h
  · cases h
  · cases h
  · cases h
    have holds := (reached_holds hs).pass hpass
    obtain ⟨-, status, -, hpoll, -, -, hstatus⟩ := pass_eq_ok.mp hpass
    have quiet : status = 0 := by simpa using hstatus
    have hsize := holds.size_le
    rw [holds.size, ← holds.front] at hsize
    exact ⟨k, s, hs, by rw [hpoll, quiet], holds.front, hsize⟩

/-- The undefined behaviour of `getData` is a read over the end of the vector. -/
theorem pass_undefined {os : OS} {k : Nat} {s : Reading}
    (h : pass os k s = .error .undefinedBehaviour) :
    ∃ bytes, os.read k maxSize = .ok bytes ∧ s.data.length < s.size + bytes.length := by
  cases hread : os.read k maxSize with
  | error error =>
      simp [pass, OS.extendedRead, hread, Except.mapError, osException, bind,
        Except.bind] at h
  | ok bytes =>
      refine ⟨bytes, rfl, ?_⟩
      by_contra hfits
      have fits : s.size + bytes.length ≤ s.data.length := Nat.le_of_not_lt hfits
      cases hpoll : os.poll (k + 1) <;>
        simp [pass, OS.extendedRead, OS.extendedPoll, hread, hpoll, Except.mapError, store, fits,
          osException, bind, Except.bind] at h

/-! ## The buffer -/

/-- Every read asks for bytes inside the vector, and none of them is lost. -/
structure Intact (os : OS) : Prop where
  within : ∀ k s, reached os k = some s → s.size + maxSize ≤ s.data.length
  defined : ∀ fuel, getData os fuel ≠ some (.error .undefinedBehaviour)
  complete : ∀ fuel bytes, getData os fuel = some (.ok bytes) →
    ∃ k, (∃ s, reached os k = some s) ∧ reached os (k + 1) = none ∧
      bytes = delivered os (k + 1)

/-- The answers let the loop come to its `k`-th pass. -/
structure Continues (os : OS) (k : Nat) : Prop where
  poll : ∀ i ≤ k, ∃ status, os.poll i = .ok (status + 1)
  read : ∀ i < k, ∃ bytes, os.read i maxSize = .ok bytes

/-- A read that is followed by another one delivers nothing. -/
def LastOnly (os : OS) : Prop :=
  ∀ k, Continues os (k + 1) → os.read k maxSize = .ok []

theorem reached_continues {os : OS} {k : Nat} {s : Reading} (h : reached os k = some s) :
    Continues os k := by
  obtain ⟨started, hentered⟩ := reached_eq_some.mp h
  refine entered_invariant (fun k _ => Continues os k) ?_ ?_ hentered
  · exact ⟨fun i hi => by rwa [Nat.le_zero.mp hi], fun i hi => by omega⟩
  · intro k s after continues hpass
    obtain ⟨bytes, status, hread, hpoll, -, -, hstatus⟩ := pass_eq_ok.mp hpass
    have more : 0 < status := by simpa using hstatus
    constructor
    · intro i hi
      rcases Nat.lt_succ_iff_lt_or_eq.mp (Nat.lt_succ_of_le hi) with hi | rfl
      · exact continues.poll i (Nat.le_of_lt_succ hi)
      · exact ⟨status - 1, by rw [hpoll, Nat.sub_add_cancel more]⟩
    · intro i hi
      rcases Nat.lt_succ_iff_lt_or_eq.mp hi with hi | rfl
      · exact continues.read i hi
      · exact ⟨bytes, hread⟩

theorem size_of_lastOnly {os : OS} (last : LastOnly os) {k : Nat} {s : Reading}
    (h : reached os k = some s) : s.size = 0 := by
  have continues := reached_continues h
  have nothing : delivered os k = [] := by
    refine List.flatMap_eq_nil_iff.mpr fun i hi => ?_
    have hi := List.mem_range.mp hi
    rw [last i ⟨fun j hj => continues.poll j (by omega), fun j hj => continues.read j (by omega)⟩]
    rfl
  rw [(reached_holds h).size, nothing, List.length_nil]

theorem Continues.pred {os : OS} {k : Nat} (continues : Continues os (k + 1)) :
    Continues os k :=
  ⟨fun i hi => continues.poll i (Nat.le_succ_of_le hi),
    fun i hi => continues.read i (Nat.lt_succ_of_lt hi)⟩

theorem delivered_length_mono {os : OS} {k n : Nat} (h : k ≤ n) :
    (delivered os k).length ≤ (delivered os n).length := by
  obtain ⟨more, rfl⟩ := Nat.exists_eq_add_of_le h
  rw [delivered, delivered, List.range_add, List.flatMap_append, List.length_append]
  exact Nat.le_add_right _ _

/-- Only the answers and the room in the vector decide whether a pass is reached. -/
theorem reached_of_fits {os : OS} {k : Nat} (continues : Continues os k)
    (fits : (delivered os k).length ≤ maxSize) : ∃ s, reached os k = some s := by
  induction k with
  | zero =>
      obtain ⟨status, hpoll⟩ := continues.poll 0 (Nat.le_refl 0)
      exact ⟨{}, reached_eq_some.mpr ⟨⟨status, hpoll⟩, rfl⟩⟩
  | succ k ih =>
      obtain ⟨s, hs⟩ := ih continues.pred
        (Nat.le_trans (delivered_length_mono (Nat.le_succ k)) fits)
      obtain ⟨bytes, hread⟩ := continues.read k (Nat.lt_succ_self k)
      obtain ⟨status, hpoll⟩ := continues.poll (k + 1) (Nat.le_refl _)
      have holds := reached_holds hs
      have room : s.size + bytes.length ≤ s.data.length := by
        rw [holds.length, holds.size, ← List.length_append, ← delivered_succ hread]
        exact fits
      exact ⟨_, (reached_succ hs).mpr
        (pass_eq_ok.mpr ⟨bytes, status + 1, hread, hpoll, room, rfl, by simp⟩)⟩

/-- While every read asks inside the vector, nothing has been read before it. -/
theorem delivered_of_within {os : OS} (posix : os.Posix)
    (within : ∀ k s, reached os k = some s → s.size + maxSize ≤ s.data.length) {k : Nat}
    (continues : Continues os k) : delivered os k = [] := by
  induction k with
  | zero => rfl
  | succ k ih =>
      obtain ⟨bytes, hread⟩ := continues.read k (Nat.lt_succ_self k)
      have short := posix k maxSize bytes hread
      have grown := delivered_succ hread
      rw [ih continues.pred, List.nil_append] at grown
      obtain ⟨s, hs⟩ := reached_of_fits continues (by rw [grown]; exact short)
      have room := within (k + 1) s hs
      rw [(reached_holds hs).length, (reached_holds hs).size] at room
      exact List.length_eq_zero_iff.mp (by omega)

theorem intact_iff_lastOnly {os : OS} (posix : os.Posix) : Intact os ↔ LastOnly os := by
  constructor
  · intro intact k continues
    obtain ⟨bytes, hread⟩ := continues.read k (Nat.lt_succ_self k)
    have none := delivered_of_within posix intact.within continues
    rw [delivered_succ hread] at none
    rw [hread, (List.append_eq_nil_iff.mp none).2]
  · intro last
    refine ⟨fun k s hs => ?_, fun fuel h => ?_, fun fuel bytes h => ?_⟩
    · rw [size_of_lastOnly last hs, (reached_holds hs).length]
      exact Nat.le_of_eq (Nat.zero_add maxSize)
    · rcases getData_cases h with ⟨_, _, h⟩ | ⟨_, h⟩ | ⟨k, s, hs, ⟨e, hpass, h⟩ | ⟨_, _, h⟩⟩
      · cases h
      · cases h
      · cases h
        obtain ⟨bytes, hread, hover⟩ := pass_undefined hpass
        have short := posix k maxSize bytes hread
        rw [size_of_lastOnly last hs, (reached_holds hs).length] at hover
        omega
      · cases h
    · obtain ⟨k, s, hs, hpoll, hbytes, -⟩ := getData_ok h
      refine ⟨k, ⟨s, hs⟩, ?_, hbytes⟩
      cases hnext : reached os (k + 1) with
      | none => rfl
      | some after =>
          obtain ⟨status, hmore⟩ := (reached_continues hnext).poll (k + 1) (Nat.le_refl _)
          rw [hpoll] at hmore
          cases hmore

/-- The line reports each packet once and is quiet after them. -/
def packets (contents : List Bytes) : OS where
  poll k := .ok (if k < contents.length then 1 else 0)
  read k nbytes := .ok ((contents.getD k []).take nbytes)

theorem packets_posix (contents : List Bytes) : (packets contents).Posix := by
  intro k nbytes bytes h
  cases h
  exact List.length_take_le nbytes _

theorem intact_iff_lastOnly_packet : Intact (packets [str "$GPGSA,A"]) := by
  refine (intact_iff_lastOnly (packets_posix _)).mpr fun k continues => ?_
  obtain ⟨status, hmore⟩ := continues.poll (k + 1) (Nat.le_refl _)
  simp [packets] at hmore

/-- The rest of a response comes while `getData` waits for the line. -/
theorem packets_not_intact : ¬ ∀ os : OS, os.Posix → Intact os := by
  intro intact
  have first : reached (packets [str "$GPGSA", str ",A"]) 0 = some {} := rfl
  have fits : ({} : Reading).size + (str "$GPGSA").length ≤ ({} : Reading).data.length := by
    rw [(reached_holds first).length]
    decide
  have second := (reached_succ first).mpr
    (pass_eq_ok.mpr ⟨str "$GPGSA", 1, rfl, rfl, fits, rfl, rfl⟩)
  have outside := (intact _ (packets_posix _)).within 1 _ second
  rw [(reached_holds second).size, (reached_holds second).length] at outside
  exact absurd outside (by decide)

/-! ## The end of the loop -/

/-- No call fails, and only finitely many reads deliver anything. -/
structure DriesUp (os : OS) : Prop where
  poll : ∀ k, ∃ status, os.poll k = .ok status
  read : ∀ k nbytes, ∃ bytes, os.read k nbytes = .ok bytes
  finite : ∃ n, ∀ k ≥ n, ∀ nbytes, os.read k nbytes = .ok []

/-- `getData` comes back, and not by accident. -/
def Ends (os : OS) : Prop :=
  ∃ fuel outcome, getData os fuel = some outcome ∧ outcome ≠ .error .undefinedBehaviour

/-- A poll reports nothing after a read, and all reads before it fit. -/
def FallsQuiet (os : OS) : Prop :=
  ∃ k, os.poll (k + 1) = .ok 0 ∧ (delivered os (k + 1)).length ≤ maxSize

theorem fallsQuiet_of_ends {os : OS} (poll : ∀ k, ∃ status, os.poll k = .ok status)
    (read : ∀ k nbytes, ∃ bytes, os.read k nbytes = .ok bytes) (ends : Ends os) :
    os.poll 0 = .ok 0 ∨ FallsQuiet os := by
  obtain ⟨fuel, outcome, h, defined⟩ := ends
  rcases getData_cases h with ⟨error, hfail, _⟩ | ⟨hpoll, _⟩ | ⟨k, s, hs, h⟩
  · obtain ⟨status, hpoll⟩ := poll 0
    rw [hfail] at hpoll
    cases hpoll
  · exact .inl hpoll
  · rcases h with ⟨e, hpass, rfl⟩ | ⟨after, hpass, rfl⟩
    · -- with neither call failing, only the end of the vector stops a pass
      obtain ⟨bytes, hread⟩ := read k maxSize
      obtain ⟨status, hpoll⟩ := poll (k + 1)
      by_cases fits : s.size + bytes.length ≤ s.data.length
      · have hok := pass_eq_ok.mpr ⟨bytes, status, hread, hpoll, fits, rfl, rfl⟩
        rw [hpass] at hok
        cases hok
      · simp only [pass, extendedRead_eq_ok.mpr hread, store, if_neg fits, bind,
          Except.bind] at hpass
        cases hpass
        exact absurd rfl defined
    · obtain ⟨k, s, -, hpoll, hbytes, hlength⟩ := getData_ok h
      exact .inr ⟨k, hpoll, hbytes ▸ hlength⟩

theorem ends_of_fallsQuiet {os : OS} (poll : ∀ k, ∃ status, os.poll k = .ok status)
    (read : ∀ k nbytes, ∃ bytes, os.read k nbytes = .ok bytes) (busy : os.poll 0 ≠ .ok 0)
    (quiet : FallsQuiet os) : Ends os := by
  obtain ⟨k, hquiet, fits⟩ := quiet
  induction k using Nat.strongRecOn with
  | ind k ih =>
      by_cases earlier : ∃ i < k, os.poll (i + 1) = .ok 0
      case pos =>
        obtain ⟨i, hi, hquiet⟩ := earlier
        exact ih i hi hquiet (Nat.le_trans (delivered_length_mono (by omega)) fits)
      case neg =>
        have continues : Continues os k := by
          refine ⟨fun i hi => ?_, fun i _ => read i maxSize⟩
          obtain ⟨status, hstatus⟩ := poll i
          cases status with
          | succ status => exact ⟨status, hstatus⟩
          | zero =>
              cases i with
              | zero => exact absurd hstatus busy
              | succ i => exact absurd ⟨i, by omega, hstatus⟩ earlier
        obtain ⟨s, hs⟩ := reached_of_fits continues
          (Nat.le_trans (delivered_length_mono (Nat.le_succ k)) fits)
        obtain ⟨bytes, hread⟩ := read k maxSize
        have holds := reached_holds hs
        have room : s.size + bytes.length ≤ s.data.length := by
          rw [holds.length, holds.size, ← List.length_append, ← delivered_succ hread]
          exact fits
        have hpass := pass_eq_ok.mpr ⟨bytes, 0, hread, hquiet, room, rfl, rfl⟩
        exact ⟨k + 1, _, getData_of_left hs hpass, fun h => by cases h⟩

/--
The loop is left when a poll after a read reports nothing.  It is then that the
line is quiet; a line that has hung up is reported again and again.
-/
theorem ends_iff_fallsQuiet {os : OS} (dries : DriesUp os) :
    (Ends os ↔ os.poll 0 = .ok 0 ∨ FallsQuiet os) ∧
    ((∀ k, (delivered os k).length ≤ maxSize) →
      (∀ k, os.read k maxSize = .ok [] → os.poll k = .ok 0) → Ends os) := by
  have quiet : os.poll 0 = .ok 0 ∨ FallsQuiet os → Ends os := by
    intro h
    by_cases idle : os.poll 0 = .ok 0
    case pos =>
      refine ⟨0, .error (osTimeout (str "Device timeout!")), ?_, fun h => by cases h⟩
      rw [getData, extendedPoll_eq_ok.mpr idle]
    case neg => exact ends_of_fallsQuiet dries.poll dries.read idle (h.resolve_left idle)
  refine ⟨⟨fallsQuiet_of_ends dries.poll dries.read, quiet⟩, fun fits reports => ?_⟩
  obtain ⟨n, hn⟩ := dries.finite
  exact quiet (.inr ⟨n, reports (n + 1) (hn (n + 1) (Nat.le_succ n) maxSize), fits (n + 1)⟩)

theorem packets_driesUp (contents : List Bytes) : DriesUp (packets contents) := by
  refine ⟨fun k => ⟨_, rfl⟩, fun k nbytes => ⟨_, rfl⟩, contents.length, fun k hk nbytes => ?_⟩
  simp [packets, List.getD, List.getElem?_eq_none hk]

theorem ends_iff_fallsQuiet_packets : Ends (packets [str "$GPGSA", str ",A"]) :=
  (ends_iff_fallsQuiet (packets_driesUp _)).1.mpr (.inr ⟨1, rfl, by decide⟩)

/-- The device is unplugged after its answer: `poll` reports that each time, `read` is empty. -/
def hungUp (answer : Bytes) : OS where
  poll _ := .ok 1
  read k nbytes := .ok (if k = 0 then answer.take nbytes else [])

theorem hungUp_never_ends : ¬ ∀ os : OS, os.Posix → DriesUp os → Ends os := by
  intro ends
  have posix : (hungUp (str "$GPGSA,A")).Posix := by
    intro k nbytes bytes h
    cases h
    split
    · exact List.length_take_le nbytes _
    · exact Nat.zero_le nbytes
  have dries : DriesUp (hungUp (str "$GPGSA,A")) :=
    ⟨fun k => ⟨1, rfl⟩, fun k nbytes => ⟨_, rfl⟩, 1, fun k hk nbytes => by
      simp [hungUp, Nat.ne_of_gt (Nat.lt_of_lt_of_le Nat.zero_lt_one hk)]⟩
  rcases fallsQuiet_of_ends dries.poll dries.read (ends _ posix dries) with h | ⟨k, h, -⟩ <;>
    cases h

end Connection

end Rdbus.Communication
