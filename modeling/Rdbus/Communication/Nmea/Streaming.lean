import Rdbus.Communication.Nmea.Isolation

/-!
# A talker read piece by piece

`getData` cuts the stream of a talker wherever the line is quiet for a moment.
Nothing keeps the end of one read for the next one, so what the reads give is
what one read of all of it would give exactly when no cut is in a sentence that
needs the rest.
-/

namespace Rdbus.Communication.Nmea

open Foundation
open Config Config.Nmea

/-- `receive` for one read after the other. -/
def receiveAll (outside : Nat → Nat → UInt8) (settings : NMEA) :
    Nat → List (Timestamp × Bytes) → Except Throw (List Data)
  | _, [] => .ok []
  | n, (timestamp, rawed) :: reads => do
      let list ← receive (outside n) (.ok rawed) timestamp settings
      let rest ← receiveAll outside settings (n + 1) reads
      .ok (list ++ rest)

/-- The reading with another time. -/
def stamped (timestamp : Timestamp) (data : Data) : Data :=
  { data with fields := data.fields.map fun field => { field with timestamp } }

/-- The bytes in front of the first `$`, which no chunk of this read has. -/
def front (b : Bytes) : Bytes := b.takeWhile (· ≠ dollar)

/-- The last chunk of one read means the same without what the next one begins with. -/
def Uncut (settings : NMEA) (u v : Bytes) : Prop :=
  ∀ chunk ∈ (split u).getLast?, entry settings 0 (chunk ++ front v) = entry settings 0 chunk

/-! ## Chunks of two reads -/

theorem mem_split_iff {b : Bytes} : split b ≠ [] ↔ dollar ∈ b := by
  obtain ⟨trash, rests, rfl, hfree⟩ := exists_joined dollar b
  rw [split_joined hfree, Ne, List.map_eq_nil_iff, ← Ne, ← List.length_pos_iff,
    ← hfree.count_joined, List.count_pos_iff]

theorem front_joined {trash : Bytes} {rests : List Bytes} (h : Delimited dollar trash rests) :
    front (joined dollar trash rests) = trash := by
  have hstop : ∀ c ∈ (rests.flatMap (dollar :: ·)).head?, decide (c ≠ dollar) = false := by
    cases rests with
    | nil => simp
    | cons rest rests => simp
  have hfree : ∀ c ∈ trash, decide (c ≠ dollar) = true := fun c hc =>
    decide_eq_true fun heq => h.first (heq ▸ hc)
  rw [front, joined, takeWhile_append_stop hstop, List.takeWhile_eq_self_iff.mpr hfree]

theorem split_append_of_mem {u : Bytes} (h : dollar ∈ u) : ∃ before last,
    split u = before ++ [last] ∧
      ∀ v, split (u ++ v) = before ++ [last ++ front v] ++ split v := by
  obtain ⟨before, last, hu⟩ := List.eq_nil_or_concat (split u) |>.resolve_left (mem_split_iff.mpr h)
  rw [List.concat_eq_append] at hu
  refine ⟨before, last, hu, fun v => ?_⟩
  obtain ⟨trash, rests, rfl, hfree⟩ := exists_joined dollar v
  rw [front_joined hfree, split_joined hfree, split, List.foldl_append]
  change (joined dollar trash rests).foldl splitStep (split u) = _
  rw [hu, joined, List.foldl_append, foldl_splitStep_plain hfree.first,
    foldl_splitStep_chunks hfree.parts]

theorem split_append_of_not_mem {u : Bytes} (h : dollar ∉ u) (v : Bytes) :
    split (u ++ v) = split v := by
  rw [split, List.foldl_append, foldl_splitStep_trash h]
  rfl

theorem front_append {u : Bytes} (h : dollar ∈ u) (v : Bytes) : front (u ++ v) = front u := by
  have hfront : ∀ trash rest : Bytes, dollar ∉ trash → front (trash ++ dollar :: rest) = trash := by
    intro trash rest hfree
    have hall : ∀ c ∈ trash, decide (c ≠ dollar) = true := fun c hc =>
      decide_eq_true fun heq => hfree (heq ▸ hc)
    rw [front, takeWhile_append_stop (by simp), List.takeWhile_eq_self_iff.mpr hall]
  obtain ⟨trash, rest, rfl, hfree⟩ := List.eq_append_cons_of_mem h
  rw [List.append_assoc, List.cons_append, hfront _ _ hfree, hfront _ _ hfree]

/-! ## The time of a reading -/

theorem parseField_stamped (timestamp timestamp' : Timestamp) (field : Field) (text : Bytes) :
    parseField timestamp field text =
      (parseField timestamp' field text).map fun field => { field with timestamp } := by
  rw [parseField, parseField]
  split
  case isTrue => rfl
  case isFalse => cases rethrown (convert field.type text) <;> rfl

theorem parse_stamped (timestamp timestamp' : Timestamp) (response : Response)
    (sentences : List Sentence) : parse response sentences timestamp =
      (parse response sentences timestamp').map
        (List.map fun field => { field with timestamp }) := by
  rw [parse, parse]
  cases findSentence sentences response.sentenceId with
  | error e => rfl
  | ok sentence =>
      simp only [ok_bind]
      split
      case isTrue => rfl
      case isFalse =>
        induction sentence.fields.zip response.fields with
        | nil => rfl
        | cons pair pairs ih =>
            obtain ⟨field, text⟩ := pair
            rw [List.mapM_cons, List.mapM_cons, parseField_stamped timestamp timestamp', ih]
            cases parseField timestamp' field text with
            | error e => rfl
            | ok value =>
                simp only [Except.map, ok_bind]
                cases pairs.mapM fun pair => parseField timestamp' pair.1 pair.2 <;> rfl

theorem entry_stamped (settings : NMEA) (timestamp timestamp' : Timestamp) (chunk : Bytes) :
    entry settings timestamp chunk = stamped timestamp (entry settings timestamp' chunk) := by
  have hinterpret : interpret 0 settings timestamp chunk =
      (interpret 0 settings timestamp' chunk).map (stamped timestamp) := by
    rw [interpret, interpret]
    cases Response.parse 0 chunk settings.withChecksum with
    | error e => rfl
    | ok response =>
        rw [ok_bind, ok_bind, parse_stamped timestamp timestamp']
        cases parse response settings.sentences timestamp' <;> rfl
  rw [entry, entry, hinterpret]
  cases interpret 0 settings timestamp' chunk <;> rfl

/-! ## What one read gives -/

def entries (settings : NMEA) (timestamp : Timestamp) (b : Bytes) : List Data :=
  if split b = [] then [unidentifiable settings]
  else (split b).map (entry settings timestamp)

theorem receive_entries (outside : Nat → UInt8) (settings : NMEA) (timestamp : Timestamp)
    (b : Bytes) : receive outside (.ok b) timestamp settings =
      .ok (entries settings timestamp b) := by
  obtain ⟨trash, rests, rfl, hfree⟩ := exists_joined dollar b
  rw [receive_joined outside settings timestamp hfree, entries, split_joined hfree]
  cases rests with
  | nil => rfl
  | cons rest rests => simp

theorem entries_stamped (settings : NMEA) (timestamp timestamp' : Timestamp) (b : Bytes) :
    (entries settings timestamp' b).map (stamped timestamp) = entries settings timestamp b := by
  rw [entries, entries]
  split
  case isTrue => rfl
  case isFalse =>
    rw [List.map_map]
    exact List.map_congr_left fun chunk _ =>
      (entry_stamped settings timestamp timestamp' chunk).symm

theorem receiveAll_entries (outside : Nat → Nat → UInt8) (settings : NMEA)
    (timestamp : Timestamp) (n : Nat) (reads : List (Timestamp × Bytes)) :
    ∃ pieces, receiveAll outside settings n reads = .ok pieces ∧
      pieces.map (stamped timestamp) =
        (reads.map Prod.snd).flatMap (entries settings timestamp) := by
  induction reads generalizing n with
  | nil => exact ⟨[], rfl, rfl⟩
  | cons read reads ih =>
      obtain ⟨rest, hrest, hmap⟩ := ih (n + 1)
      refine ⟨_, by rw [receiveAll, receive_entries, ok_bind, hrest, ok_bind], ?_⟩
      rw [List.map_append, entries_stamped, hmap, List.map_cons, List.flatMap_cons]

/-! ## Several reads -/

section

variable {settings : NMEA} {timestamp : Timestamp}

theorem length_entries (b : Bytes) :
    (entries settings timestamp b).length = max 1 (split b).length := by
  rw [entries]
  split
  case isTrue h => rw [h]; rfl
  case isFalse h =>
    have := List.length_pos_iff.mpr h
    rw [List.length_map]
    omega

theorem length_split_append (u v : Bytes) :
    (split (u ++ v)).length = (split u).length + (split v).length := by
  by_cases h : dollar ∈ u
  case pos =>
    obtain ⟨before, last, hu, happend⟩ := split_append_of_mem h
    rw [happend, hu, List.length_append, List.length_append, List.length_append]
    rfl
  case neg =>
    have hnone : split u = [] := not_not.mp (mt mem_split_iff.mp h)
    rw [split_append_of_not_mem h, hnone, List.length_nil, Nat.zero_add]

variable (settings timestamp) in
theorem entry_eq_iff {chunk chunk' : Bytes} :
    entry settings timestamp chunk = entry settings timestamp chunk' ↔
      entry settings 0 chunk = entry settings 0 chunk' := by
  constructor
  · intro h
    rw [entry_stamped settings 0 timestamp, h, ← entry_stamped]
  · intro h
    rw [entry_stamped settings timestamp 0, h, ← entry_stamped]

theorem entries_append_iff {u v : Bytes} :
    entries settings timestamp u ++ entries settings timestamp v =
        entries settings timestamp (u ++ v) ↔
      dollar ∈ u ∧ dollar ∈ v ∧ Uncut settings u v := by
  by_cases hboth : dollar ∈ u ∧ dollar ∈ v
  case neg =>
    refine iff_of_false (fun h => ?_) fun h => hboth ⟨h.1, h.2.1⟩
    have hlength := congrArg List.length h
    rw [List.length_append, length_entries, length_entries, length_entries,
      length_split_append] at hlength
    refine hboth ⟨mem_split_iff.mp ?_, mem_split_iff.mp ?_⟩ <;>
      rw [← List.length_pos_iff] <;> omega
  case pos =>
    obtain ⟨before, last, hu, happend⟩ := split_append_of_mem hboth.1
    have huncut : Uncut settings u v ↔
        entry settings 0 (last ++ front v) = entry settings 0 last := by
      rw [Uncut, hu, List.getLast?_append_of_ne_nil _ (by simp)]
      simp
    rw [huncut, ← entry_eq_iff settings timestamp, entries, entries, entries,
      if_neg (mem_split_iff.mpr hboth.1), if_neg (mem_split_iff.mpr hboth.2),
      if_neg (mem_split_iff.mpr (List.mem_append_left _ hboth.1)), happend, hu]
    simp [hboth, eq_comm]

variable (settings timestamp) in
/-- Reads never give less than one read of all of it. -/
theorem length_entries_flatten {reads : List Bytes} (h : reads ≠ []) :
    (entries settings timestamp reads.flatten).length ≤
      (reads.flatMap (entries settings timestamp)).length := by
  induction reads with
  | nil => exact absurd rfl h
  | cons u reads ih =>
      rw [List.flatten_cons, List.flatMap_cons, List.length_append, length_entries,
        length_split_append, length_entries]
      cases reads with
      | nil => simp [split]
      | cons v reads =>
          have hrest := ih (by simp)
          rw [length_entries] at hrest
          omega

/-- A first read fits the rest when the rest is right and the two fit each other. -/
theorem flatMap_entries_cons_iff {u : Bytes} {reads : List Bytes} (h : reads ≠ []) :
    (u :: reads).flatMap (entries settings timestamp) =
        entries settings timestamp (u :: reads).flatten ↔
      reads.flatMap (entries settings timestamp) = entries settings timestamp reads.flatten ∧
        entries settings timestamp u ++ entries settings timestamp reads.flatten =
          entries settings timestamp (u ++ reads.flatten) := by
  rw [List.flatMap_cons, List.flatten_cons]
  constructor
  · intro heq
    have hrest := length_entries_flatten settings timestamp h
    have hlength := congrArg List.length heq
    rw [List.length_append, length_entries, length_entries, length_split_append] at hlength
    rw [length_entries] at hrest
    have hu : dollar ∈ u := by
      rw [← mem_split_iff, ← List.length_pos_iff]
      omega
    have hreads : dollar ∈ reads.flatten := by
      rw [← mem_split_iff, ← List.length_pos_iff]
      omega
    obtain ⟨before, last, hsplit, happend⟩ := split_append_of_mem hu
    have hwhole : entries settings timestamp (u ++ reads.flatten) =
        (before ++ [last ++ front reads.flatten]).map (entry settings timestamp) ++
          entries settings timestamp reads.flatten := by
      rw [entries, if_neg (mem_split_iff.mpr (List.mem_append_left _ hu)), happend,
        List.map_append, entries, if_neg (mem_split_iff.mpr hreads)]
    have hfirst : (entries settings timestamp u).length =
        ((before ++ [last ++ front reads.flatten]).map (entry settings timestamp)).length := by
      rw [length_entries, hsplit]
      simp
    rw [hwhole] at heq ⊢
    obtain ⟨hown, hothers⟩ := List.append_inj heq hfirst
    exact ⟨hothers, by rw [hown]⟩
  · rintro ⟨hrest, heq⟩
    rw [hrest, heq]

theorem flatMap_entries_iff {u : Bytes} {reads : List Bytes} :
    (u :: reads).flatMap (entries settings timestamp) =
        entries settings timestamp (u :: reads).flatten ↔
      reads = [] ∨ ((∀ b ∈ u :: reads, dollar ∈ b) ∧ (u :: reads).IsChain (Uncut settings)) := by
  induction reads generalizing u with
  | nil => simp
  | cons v reads ih =>
      rw [flatMap_entries_cons_iff (by simp), ih, entries_append_iff, List.isChain_cons_cons,
        List.forall_mem_cons (a := u)]
      have hfront : dollar ∈ v → (Uncut settings u (v :: reads).flatten ↔ Uncut settings u v) := by
        intro h
        rw [Uncut, Uncut, List.flatten_cons, front_append h]
      constructor
      · rintro ⟨hrest, hu, hflat, huncut⟩
        have hall : ∀ b ∈ v :: reads, dollar ∈ b := by
          rcases hrest with rfl | ⟨hall, -⟩
          · simpa using hflat
          · exact hall
        have hchain : (v :: reads).IsChain (Uncut settings) := by
          rcases hrest with rfl | ⟨-, hchain⟩
          · exact .singleton v
          · exact hchain
        exact .inr ⟨⟨hu, hall⟩, (hfront (hall v List.mem_cons_self)).mp huncut, hchain⟩
      · rintro (h | ⟨⟨hu, hall⟩, huncut, hchain⟩)
        · cases h
        · have hv := hall v List.mem_cons_self
          exact ⟨.inr ⟨hall, hchain⟩, hu, List.mem_append_left _ hv, (hfront hv).mpr huncut⟩

/--
What the reads of a stream give, one after the other, is but for the time what
one read of all of it gives exactly when there is one read, or each read has a
`$` and no sentence that goes on in the next read means something else without
the rest.
-/
theorem receiveAll_whole_iff {outside : Nat → Nat → UInt8} {outside' : Nat → UInt8}
    {reads : List (Timestamp × Bytes)} (hreads : reads ≠ []) :
    ∃ pieces whole, receiveAll outside settings 0 reads = .ok pieces ∧
      receive outside' (.ok (reads.map Prod.snd).flatten) timestamp settings = .ok whole ∧
      (pieces.map (stamped timestamp) = whole ↔ reads.length = 1 ∨
        ((∀ read ∈ reads, dollar ∈ read.2) ∧
          (reads.map Prod.snd).IsChain (Uncut settings))) := by
  obtain ⟨pieces, hpieces, hstamped⟩ := receiveAll_entries outside settings timestamp 0 reads
  refine ⟨pieces, _, hpieces, receive_entries _ _ _ _, ?_⟩
  obtain ⟨read, reads, rfl⟩ := List.exists_cons_of_ne_nil hreads
  rw [hstamped, List.map_cons, flatMap_entries_iff, List.map_eq_nil_iff, ← List.map_cons,
    List.forall_mem_map]
  simp

end

/-- The second read begins inside of the first sentence. -/
def cutSpeed : List (Timestamp × Bytes) :=
  [(1, str "$VDVHW,1"), (2, str "1*00\r\n$VDVHW,12*00\r\n")]

theorem receiveAll_whole_iff_cut : ∃ pieces whole,
    receiveAll (fun _ _ => 0) uncheckedSettings 0 cutSpeed = .ok pieces ∧
    receive (fun _ => 0) (.ok (cutSpeed.map Prod.snd).flatten) 0 uncheckedSettings = .ok whole ∧
    pieces.map (stamped 0) ≠ whole := by
  obtain ⟨pieces, whole, hpieces, hwhole, hiff⟩ : ∃ pieces whole,
      receiveAll (fun _ _ => 0) uncheckedSettings 0 cutSpeed = .ok pieces ∧
      receive (fun _ => 0) (.ok (cutSpeed.map Prod.snd).flatten) 0 uncheckedSettings = .ok whole ∧
      (pieces.map (stamped 0) = whole ↔ _) := receiveAll_whole_iff (by simp [cutSpeed])
  refine ⟨pieces, whole, hpieces, hwhole, fun heq => ?_⟩
  rcases hiff.mp heq with h | ⟨-, hchain⟩
  · cases h
  · have huncut := (List.isChain_cons_cons.mp hchain).1 (str "$VDVHW,1") (by decide)
    exact absurd huncut (by decide)

end Rdbus.Communication.Nmea
