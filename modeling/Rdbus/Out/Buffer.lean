import Rdbus.Data
import Rdbus.Foundation.BinarySearch

/-!
# The output buffer

A deque of entries with the time of the `add` that stored them.  The template
is instantiated for readings and for processor outputs; `deviceName` is how an
entry names its device and `sizeofData` is `sizeof( rdbus::Data )`, which bounds
both instantiations.
-/

namespace Rdbus.Out

open Foundation

inductive BufferType where
  | stream
  | single
  deriving DecidableEq, Repr

structure Buffer (α : Type) where
  type : BufferType
  data : List (Timestamp × α) := []

namespace Buffer

variable {α : Type}

def maxBytes : Nat := 500000

/-- One `remove_if` and `erase` for every entry of the list. -/
def removeIntersection (deviceName : α → Bytes) (data : List (Timestamp × α))
    (list : List α) : List (Timestamp × α) :=
  list.foldl (fun data entry =>
    data.filter fun element => deviceName element.2 != deviceName entry) data

/-- Pop the front while the rest is too large. -/
def constrainSize (sizeofData : Nat) : List (Timestamp × α) → List (Timestamp × α)
  | [] => []
  | entry :: data =>
      if (data.length + 1) * sizeofData > maxBytes then constrainSize sizeofData data
      else entry :: data

/-- `now` is the clock read inside `add`. -/
def add (deviceName : α → Bytes) (sizeofData : Nat) (now : Timestamp)
    (buffer : Buffer α) (list : List α) : Buffer α :=
  let data := match buffer.type with
    | .single => removeIntersection deviceName buffer.data list
    | .stream => buffer.data
  let data := data ++ list.map fun entry => (now, entry)
  match buffer.type with
  | .stream => { buffer with data := constrainSize sizeofData data }
  | .single => { buffer with data }

/-- The entries `toJson` lists. -/
def parseFrom (lastTime : Timestamp) (buffer : Buffer α) : List α :=
  let begin := match buffer.type with
    | .stream => upperBound (fun pair => lastTime < pair.1) buffer.data
    | .single => 0
  (buffer.data.drop begin).map Prod.snd

theorem constrainSize_eq_drop (sizeofData : Nat) (data : List (Timestamp × α)) :
    constrainSize sizeofData data =
      data.drop (data.length - (constrainSize sizeofData data).length) := by
  induction data with
  | nil => rfl
  | cons entry data ih =>
      unfold constrainSize
      split
      case isTrue =>
        have hlength : (constrainSize sizeofData data).length ≤ data.length := by
          rw [ih, List.length_drop]
          omega
        rw [List.length_cons, Nat.succ_sub hlength, List.drop_succ_cons, ← ih]
      case isFalse => simp

theorem removeIntersection_eq (deviceName : α → Bytes) (data : List (Timestamp × α))
    (list : List α) : removeIntersection deviceName data list =
      data.filter fun element => deviceName element.2 ∉ list.map deviceName := by
  induction list generalizing data with
  | nil => simp [removeIntersection]
  | cons entry list ih =>
      unfold removeIntersection at ih ⊢
      rw [List.foldl_cons, ih, List.filter_filter]
      apply List.filter_congr
      intro element _
      by_cases hentry : deviceName element.2 = deviceName entry <;> simp [bne, hentry]

/-- What a `single` buffer holds after `add`. -/
theorem data_add_single {buffer : Buffer α} (h : buffer.type = .single)
    (deviceName : α → Bytes) (sizeofData : Nat) (now : Timestamp) (list : List α) :
    (buffer.add deviceName sizeofData now list).type = .single ∧
      (buffer.add deviceName sizeofData now list).data =
        (buffer.data.filter fun element => deviceName element.2 ∉ list.map deviceName) ++
          list.map fun entry => (now, entry) := by
  simp [add, h, removeIntersection_eq]

theorem parseFrom_stream {buffer : Buffer α} (htype : buffer.type = .stream)
    {early late : List (Timestamp × α)} (hdata : buffer.data = early ++ late)
    {lastTime : Timestamp} (hearly : ∀ pair ∈ early, pair.1 ≤ lastTime)
    (hlate : ∀ pair ∈ late, lastTime < pair.1) :
    buffer.parseFrom lastTime = late.map Prod.snd := by
  unfold Buffer.parseFrom
  rw [htype, hdata]
  simp only
  rw [upperBound_append, List.drop_left]
  · intro pair hmem
    simpa using hearly pair hmem
  · intro pair hmem
    simpa using hlate pair hmem

end Buffer

end Rdbus.Out
