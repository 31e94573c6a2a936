import Rdbus.Out.Buffer
import Rdbus.Foundation.Logs
import Rdbus.Foundation.Runs

/-!
# What a buffer holds after any calls of `add`

`log` lists everything that was ever added.  A stream buffer is a bounded end of
it, a single buffer its latest entry of every device.
-/

namespace Rdbus.Out.Buffer

open Foundation

variable {α : Type}

structure Adding (α : Type) where
  now : Timestamp
  list : List α
  deriving DecidableEq

def Adding.entries (call : Adding α) : List (Timestamp × α) :=
  call.list.map fun entry => (call.now, entry)

def log (calls : List (Adding α)) : List (Timestamp × α) := calls.flatMap Adding.entries

def addAll (deviceName : α → Bytes) (sizeofData : Nat) (buffer : Buffer α)
    (calls : List (Adding α)) : Buffer α :=
  calls.foldl (fun buffer call => buffer.add deviceName sizeofData call.now call.list) buffer

theorem addAll_concat (deviceName : α → Bytes) (sizeofData : Nat) (buffer : Buffer α)
    (calls : List (Adding α)) (call : Adding α) :
    addAll deviceName sizeofData buffer (calls ++ [call]) =
      (addAll deviceName sizeofData buffer calls).add deviceName sizeofData call.now
        call.list := by
  rw [addAll, List.foldl_append]
  rfl

theorem log_concat (calls : List (Adding α)) (call : Adding α) :
    log (calls ++ [call]) = log calls ++ call.entries := by
  rw [log, List.flatMap_append, List.flatMap_singleton]
  rfl

/-! ## A stream buffer is the end of the log -/

theorem constrainSize_eq_rtake {sizeofData : Nat} (hsize : 0 < sizeofData)
    (data : List (Timestamp × α)) :
    constrainSize sizeofData data = data.rtake (maxBytes / sizeofData) := by
  induction data with
  | nil => rw [constrainSize, List.rtake_nil]
  | cons entry data ih =>
      unfold constrainSize
      have fits := Nat.le_div_iff_mul_le (x := data.length + 1) (y := maxBytes) hsize
      split
      case isTrue large =>
        rw [ih]
        unfold List.rtake
        rw [List.length_cons, Nat.succ_sub (by omega), List.drop_succ_cons]
      case isFalse small =>
        rw [rtake_of_length_le]
        simp only [List.length_cons]
        omega

theorem data_add_stream {buffer : Buffer α} (h : buffer.type = .stream) {sizeofData : Nat}
    (hsize : 0 < sizeofData) (deviceName : α → Bytes) (call : Adding α) :
    (buffer.add deviceName sizeofData call.now call.list).type = .stream ∧
      (buffer.add deviceName sizeofData call.now call.list).data =
        (buffer.data ++ call.entries).rtake (maxBytes / sizeofData) := by
  simp [add, h, constrainSize_eq_rtake hsize, Adding.entries]

theorem addAll_stream {sizeofData : Nat} (hsize : 0 < sizeofData) (deviceName : α → Bytes)
    (calls : List (Adding α)) :
    (addAll deviceName sizeofData { type := .stream } calls).type = .stream ∧
      (addAll deviceName sizeofData { type := .stream } calls).data =
        (log calls).rtake (maxBytes / sizeofData) := by
  induction calls using List.reverseRecOn with
  | nil => exact ⟨rfl, (List.rtake_nil _).symm⟩
  | append_singleton calls call ih =>
      obtain ⟨htype, hdata⟩ := ih
      obtain ⟨hnext, hadded⟩ := data_add_stream htype hsize deviceName call
      rw [addAll_concat, log_concat]
      exact ⟨hnext, by rw [hadded, hdata, rtake_append_rtake]⟩

/--
The newest entries and no others: as many as have room, each with the time of
its own call.
-/
structure Newest (sizeofData : Nat) (calls : List (Adding α)) (buffer : Buffer α) : Prop where
  newest : buffer.data =
    (log calls).rtake (min (log calls).length (maxBytes / sizeofData))
  count : buffer.data.length = min (log calls).length (maxBytes / sizeofData)
  bounded : buffer.data.length * sizeofData ≤ maxBytes
  whole : (log calls).length * sizeofData ≤ maxBytes → buffer.data = log calls

theorem stream_holds_newest {sizeofData : Nat} (hsize : 0 < sizeofData)
    (deviceName : α → Bytes) (calls : List (Adding α)) :
    Newest sizeofData calls (addAll deviceName sizeofData { type := .stream } calls) := by
  obtain ⟨-, hdata⟩ := addAll_stream hsize deviceName calls
  have count : ((log calls).rtake (maxBytes / sizeofData)).length =
      min (log calls).length (maxBytes / sizeofData) := length_rtake _ _
  refine ⟨by rw [hdata, rtake_min], by rw [hdata, count], ?_, fun room => ?_⟩
  · rw [hdata, count, ← Nat.le_div_iff_mul_le hsize]
    exact Nat.min_le_right _ _
  · rw [hdata, rtake_of_length_le ((Nat.le_div_iff_mul_le hsize).mpr room)]

theorem stream_holds_newest_large :
    Newest 200000 [⟨1, [0, 1]⟩, ⟨2, [2, 3, 4]⟩]
      (addAll (fun _ : Nat => []) 200000 { type := .stream } [⟨1, [0, 1]⟩, ⟨2, [2, 3, 4]⟩]) :=
  stream_holds_newest (by decide) (fun _ : Nat => []) [⟨1, [0, 1]⟩, ⟨2, [2, 3, 4]⟩]

/-! ## A single buffer is the latest entry of every device -/

theorem addAll_single (deviceName : α → Bytes) (sizeofData : Nat) (calls : List (Adding α)) :
    (addAll deviceName sizeofData { type := .single } calls).type = .single ∧
      (addAll deviceName sizeofData { type := .single } calls).data =
        latest (fun pair => deviceName pair.2) (calls.map Adding.entries) := by
  induction calls using List.reverseRecOn with
  | nil => exact ⟨rfl, rfl⟩
  | append_singleton calls call ih =>
      obtain ⟨htype, hdata⟩ := ih
      obtain ⟨hnext, hadded⟩ := data_add_single htype deviceName sizeofData call.now call.list
      rw [addAll_concat, List.map_append, List.map_singleton, latest_concat]
      refine ⟨hnext, ?_⟩
      rw [hadded, hdata]
      simp [Adding.entries, Function.comp_def]

/--
One entry for every device that was ever named, and it is the one of the last
list that named it.  `contents` gives the order, `order` says what it is.
-/
structure LastWriter (deviceName : α → Bytes) (calls : List (Adding α))
    (buffer : Buffer α) : Prop where
  contents : buffer.data =
    latest (fun pair => deviceName pair.2) (calls.map Adding.entries)
  single : (buffer.data.map fun pair => deviceName pair.2).Nodup
  named : ∀ name, name ∈ buffer.data.map (fun pair => deviceName pair.2) ↔
    ∃ call ∈ calls, name ∈ call.list.map deviceName
  last : ∀ pair, pair ∈ buffer.data ↔ ∃ before call after, calls = before ++ call :: after ∧
    pair.1 = call.now ∧ pair.2 ∈ call.list ∧
    ∀ later ∈ after, deviceName pair.2 ∉ later.list.map deviceName
  order : buffer.data.Sublist (log calls)
  whole : ∀ lastTime, buffer.parseFrom lastTime = buffer.data.map Prod.snd

theorem mem_names_entries {deviceName : α → Bytes} {calls : List (Adding α)} {name : Bytes} :
    name ∈ (calls.map Adding.entries).flatten.map (fun pair => deviceName pair.2) ↔
      ∃ call ∈ calls, name ∈ call.list.map deviceName := by
  simp only [List.mem_map, List.mem_flatten, Adding.entries]
  constructor
  · rintro ⟨pair, ⟨_, ⟨call, hcall, rfl⟩, hpair⟩, rfl⟩
    obtain ⟨entry, hentry, rfl⟩ := List.mem_map.mp hpair
    exact ⟨call, hcall, entry, hentry, rfl⟩
  · rintro ⟨call, hcall, entry, hentry, rfl⟩
    exact ⟨(call.now, entry), ⟨_, ⟨call, hcall, rfl⟩, List.mem_map_of_mem hentry⟩, rfl⟩

theorem mem_latest_entries {deviceName : α → Bytes} {calls : List (Adding α)}
    {pair : Timestamp × α} :
    pair ∈ latest (fun pair => deviceName pair.2) (calls.map Adding.entries) ↔
      ∃ before call after, calls = before ++ call :: after ∧ pair.1 = call.now ∧
        pair.2 ∈ call.list ∧ ∀ later ∈ after, deviceName pair.2 ∉ later.list.map deviceName := by
  rw [mem_latest]
  constructor
  · rintro ⟨before, batch, after, hsplit, hmem, hlast⟩
    obtain ⟨first, rest, rfl, hfirst, hrest⟩ := List.map_eq_append_iff.mp hsplit
    obtain ⟨call, later, rfl, rfl, rfl⟩ := List.map_eq_cons_iff.mp hrest
    obtain ⟨entry, hentry, rfl⟩ := List.mem_map.mp hmem
    refine ⟨first, call, later, rfl, rfl, hentry, fun other hother hnamed => hlast ?_⟩
    exact mem_names_entries.mpr ⟨other, hother, hnamed⟩
  · rintro ⟨before, call, after, rfl, htime, hmem, hlast⟩
    refine ⟨before.map Adding.entries, call.entries, after.map Adding.entries, by simp, ?_, ?_⟩
    · exact List.mem_map.mpr ⟨pair.2, hmem, by rw [← htime]⟩
    · intro hnamed
      obtain ⟨later, hlater, hname⟩ := mem_names_entries.mp hnamed
      exact hlast later hlater hname

theorem single_is_lastWriter (deviceName : α → Bytes) (sizeofData : Nat)
    (calls : List (Adding α)) (once : ∀ call ∈ calls, (call.list.map deviceName).Nodup) :
    LastWriter deviceName calls
      (addAll deviceName sizeofData { type := .single } calls) := by
  obtain ⟨htype, hdata⟩ := addAll_single deviceName sizeofData calls
  constructor
  case contents => exact hdata
  case single =>
    rw [hdata]
    apply nodup_keys_latest
    intro batch hbatch
    obtain ⟨call, hcall, rfl⟩ := List.mem_map.mp hbatch
    simpa [Adding.entries, Function.comp_def] using once call hcall
  case named =>
    intro name
    rw [hdata, mem_keys_latest, mem_names_entries]
  case last =>
    intro pair
    rw [hdata, mem_latest_entries]
  case order =>
    rw [hdata, log, List.flatMap_def]
    exact latest_sublist _ _
  case whole =>
    intro lastTime
    simp [parseFrom, htype]

/-- The second list replaces the pump and leaves the tank. -/
def replaced : List (Adding (Bytes × Nat)) :=
  [⟨1, [(str "Pump", 1), (str "Tank", 2)]⟩, ⟨2, []⟩, ⟨3, [(str "Pump", 3)]⟩]

theorem single_is_lastWriter_replaced :
    LastWriter Prod.fst replaced (addAll Prod.fst 1 { type := .single } replaced) ∧
      (addAll Prod.fst 1 { type := .single } replaced).data =
        [(1, (str "Tank", 2)), (3, (str "Pump", 3))] :=
  ⟨single_is_lastWriter Prod.fst 1 replaced (by decide), by decide⟩

/-! ## A stream buffer in the order of the clock -/

/-- What `upper_bound` in `parseFrom` relies on, and what it is for. -/
structure Ordered (buffer : Buffer α) : Prop where
  sorted : (buffer.data.map Prod.fst).Pairwise (· ≤ ·)
  exact : ∀ lastTime, buffer.parseFrom lastTime =
    (buffer.data.filter fun pair => lastTime < pair.1).map Prod.snd

/-- The clock is not behind the newest entry, where an older entry stays beside the new ones. -/
def Advances (sizeofData : Nat) (buffer : Buffer α) (call : Adding α) : Prop :=
  call.list = [] ∨ maxBytes / sizeofData ≤ call.list.length ∨
    ∀ newest ∈ buffer.data.getLast?, newest.1 ≤ call.now

theorem ordered_of_sorted {buffer : Buffer α} (htype : buffer.type = .stream)
    (sorted : (buffer.data.map Prod.fst).Pairwise (· ≤ ·)) : Ordered buffer := by
  refine ⟨sorted, fun lastTime => ?_⟩
  simp only [parseFrom, htype]
  rw [drop_upperBound sorted]

theorem pairwise_entries (call : Adding α) : (call.entries.map Prod.fst).Pairwise (· ≤ ·) := by
  rw [Adding.entries, List.map_map]
  exact List.pairwise_map.mpr (List.pairwise_of_forall fun _ _ => le_rfl)

theorem fst_of_mem_entries {call : Adding α} {time : Timestamp}
    (h : time ∈ call.entries.map Prod.fst) : time = call.now := by
  obtain ⟨pair, hpair, rfl⟩ := List.mem_map.mp h
  obtain ⟨entry, -, rfl⟩ := List.mem_map.mp hpair
  rfl

theorem le_newest {data : List (Timestamp × α)} (sorted : (data.map Prod.fst).Pairwise (· ≤ ·))
    {time : Timestamp} (h : time ∈ data.map Prod.fst) :
    ∃ newest ∈ data.getLast?, time ≤ newest.1 := by
  cases data using List.reverseRecOn with
  | nil => cases h
  | append_singleton data newest =>
      rw [List.map_append, List.pairwise_append] at sorted
      rw [List.map_append, List.mem_append] at h
      refine ⟨newest, by simp, ?_⟩
      rcases h with h | h
      · exact sorted.2.2 time h newest.1 (by simp)
      · exact le_of_eq (List.mem_singleton.mp h)

theorem mem_rtake_getLast {data : List (Timestamp × α)} {newest : Timestamp × α}
    (h : newest ∈ data.getLast?) {n : Nat} (hn : 0 < n) : newest ∈ data.rtake n := by
  obtain ⟨n, rfl⟩ := Nat.exists_eq_succ_of_ne_zero hn.ne'
  obtain ⟨older, rfl⟩ := List.getLast?_eq_some_iff.mp h
  rw [List.rtake_concat_succ]
  simp

/-- Sorted before the call, sorted after it: only the newest old entry matters. -/
theorem sorted_add_iff {buffer : Buffer α} (htype : buffer.type = .stream) {sizeofData : Nat}
    (hsize : 0 < sizeofData) (deviceName : α → Bytes) (call : Adding α)
    (sorted : (buffer.data.map Prod.fst).Pairwise (· ≤ ·)) :
    ((buffer.add deviceName sizeofData call.now call.list).data.map Prod.fst).Pairwise (· ≤ ·) ↔
      Advances sizeofData buffer call := by
  have length : call.entries.length = call.list.length := List.length_map _
  have old : ((buffer.data.rtake (maxBytes / sizeofData - call.entries.length)).map
      Prod.fst).Pairwise (· ≤ ·) := sorted.sublist ((List.drop_sublist _ _).map _)
  have new : ((call.entries.rtake (maxBytes / sizeofData)).map Prod.fst).Pairwise (· ≤ ·) :=
    (pairwise_entries call).sublist ((List.drop_sublist _ _).map _)
  rw [(data_add_stream htype hsize deviceName call).2, rtake_append, List.map_append,
    List.pairwise_append]
  simp only [old, new, true_and, Advances]
  constructor
  · intro ordered
    by_cases empty : call.list = []
    · exact .inl empty
    by_cases full : maxBytes / sizeofData ≤ call.list.length
    · exact .inr (.inl full)
    -- the newest old entry stays, and so does the first new one
    refine .inr (.inr fun newest hnewest => ?_)
    obtain ⟨entry, hentry⟩ := List.exists_mem_of_ne_nil _ empty
    have room : 0 < maxBytes / sizeofData - call.entries.length := by omega
    have kept := mem_rtake_getLast hnewest room
    have added : (call.now, entry) ∈ call.entries.rtake (maxBytes / sizeofData) := by
      rw [rtake_of_length_le (by omega)]
      exact List.mem_map_of_mem hentry
    exact ordered _ (List.mem_map_of_mem kept) _ (List.mem_map_of_mem added)
  · intro advances time htime later hlater
    have hlater := List.map_subset Prod.fst (List.drop_subset _ _) hlater
    rw [fst_of_mem_entries hlater]
    rcases advances with empty | full | latest
    · simp [Adding.entries, empty] at hlater
    · rw [Nat.sub_eq_zero_of_le (by omega), List.rtake_zero] at htime
      cases htime
    · have htime := List.map_subset Prod.fst (List.drop_subset _ _) htime
      obtain ⟨newest, hnewest, hle⟩ := le_newest sorted htime
      exact hle.trans (latest newest hnewest)

def adding (deviceName : α → Bytes) (sizeofData : Nat) (buffer : Buffer α)
    (call : Adding α) : Option (Buffer α) :=
  some (buffer.add deviceName sizeofData call.now call.list)

private theorem ordered_along_iff {sizeofData : Nat} (hsize : 0 < sizeofData)
    (deviceName : α → Bytes) (calls : List (Adding α)) {buffer : Buffer α}
    (htype : buffer.type = .stream)
    (sorted : (buffer.data.map Prod.fst).Pairwise (· ≤ ·)) :
    (∀ before, before <+: calls → Ordered (addAll deviceName sizeofData buffer before)) ↔
      AlongRun (adding deviceName sizeofData) (Advances sizeofData) buffer calls := by
  induction calls generalizing buffer with
  | nil =>
      refine ⟨fun _ => trivial, fun _ before hbefore => ?_⟩
      rw [List.prefix_nil.mp hbefore]
      exact ordered_of_sorted htype sorted
  | cons call calls ih =>
      have step := sorted_add_iff htype hsize deviceName call sorted
      have hnext := (data_add_stream htype hsize deviceName call).1
      unfold AlongRun
      constructor
      · intro ordered
        have first := ordered [call] (List.prefix_cons_inj call |>.mpr (List.nil_prefix))
        refine ⟨step.mp first.sorted, (ih hnext first.sorted).mp fun before hbefore => ?_⟩
        exact ordered (call :: before) (List.prefix_cons_inj call |>.mpr hbefore)
      · rintro ⟨advances, along⟩ before hbefore
        rcases List.prefix_cons_iff.mp hbefore with rfl | ⟨before, rfl, hrest⟩
        · exact ordered_of_sorted htype sorted
        · exact (ih hnext (step.mpr advances)).mpr along before hrest

/-- The buffer is in the order of the clock after every call exactly when no call is set back. -/
theorem ordered_iff_advances {sizeofData : Nat} (hsize : 0 < sizeofData)
    (deviceName : α → Bytes) (calls : List (Adding α)) :
    (∀ before, before <+: calls →
      Ordered (addAll deviceName sizeofData { type := .stream } before)) ↔
      AlongRun (adding deviceName sizeofData) (Advances sizeofData) { type := .stream } calls :=
  ordered_along_iff hsize deviceName calls rfl List.Pairwise.nil

theorem ordered_iff_advances_steady : Ordered (addAll (fun _ : Nat => []) 100
    { type := .stream } [⟨1, [10]⟩, ⟨1, [11, 12]⟩, ⟨5, [13]⟩]) := by
  refine (ordered_iff_advances (by decide) (fun _ : Nat => [])
    [⟨1, [10]⟩, ⟨1, [11, 12]⟩, ⟨5, [13]⟩]).mpr
    ⟨.inr (.inr ?_), .inr (.inr ?_), .inr (.inr ?_), trivial⟩ _ List.prefix_rfl
  all_goals decide

/-- The clock is set back by a second: the older reading is no longer found. -/
theorem set_back_not_ordered :
    (addAll (fun _ : Nat => []) 100 { type := .stream } [⟨2, [10]⟩, ⟨1, [11]⟩]).data =
        [(2, 10), (1, 11)] ∧
      (addAll (fun _ : Nat => []) 100 { type := .stream } [⟨2, [10]⟩, ⟨1, [11]⟩]).parseFrom 1 =
        [] ∧
      ¬ Ordered (addAll (fun _ : Nat => []) 100 { type := .stream } [⟨2, [10]⟩, ⟨1, [11]⟩]) := by
  refine ⟨by decide, by decide, fun ordered => ?_⟩
  have found := ordered.exact 1
  exact absurd found (by decide)

end Rdbus.Out.Buffer
