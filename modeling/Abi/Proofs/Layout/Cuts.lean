/-
  Which buffers split, and where they are cut.

  The offsets are found at the places of the slots that hold them, behind the width of all slots in
  front (`offsetsBehind`). A buffer splits if it is long enough for its head and the offsets go up
  from the end of the head to the end of the buffer; without offsets it has to end with the head.
  Each tail goes from its offset to the next one, and the last tail to the end (`cuts`).

  * `split_isOk_iff`: these are the buffers that split; all others are malformed.
  * `ReadsHead.starts_eq`: the reader finds the offsets at these places.
  * `slices_startsFrom`, `cuts_startsFrom_ordered`: the tails are the pieces between the cuts, which
    do not overlap.
  * `ReadsHead.bitAt_run`, `ReadsHead.inline_eq_slice`: what the other children are read from.
-/
import Abi.Proofs.Layout.Tight

namespace Abi.Layout

/-! ## Offsets -/

/-- The number that the word at a place of the buffer holds. -/
def wordAt (buffer : Bytes) (place : Nat) : Nat :=
  BigEndian.decode ((buffer.drop place).take Limits.wordBytes)

/-- The offsets that slots hold, in order, if the slots `pre` stand in front of them. -/
def offsetsBehind (buffer : Bytes) (pre : List Slot) : List Slot → List Nat
  | [] => []
  | .offset :: ss => wordAt buffer (headWidth pre) :: offsetsBehind buffer (pre ++ [.offset]) ss
  | s :: ss => offsetsBehind buffer (pre ++ [s]) ss

theorem offsetsBehind_eq_nil_iff {buffer : Bytes} {pre slots : List Slot} :
    offsetsBehind buffer pre slots = [] ↔ .offset ∉ slots := by
  induction slots generalizing pre with
  | nil => simp [offsetsBehind]
  | cons s ss ih => cases s <;> simp [offsetsBehind, ih]

namespace ReadsHead

variable {left : List Bool} {slots pre : List Slot} {bs buffer rest : Bytes} {es xs ys : List Entry}

theorem length_eq (h : ReadsHead rest left slots bs es) : es.length = slots.length :=
  length_readHead h.readHead_eq

/-- The start of a dynamic child is the word in its slot. -/
theorem wordAt_eq {o : Nat} {ss : List Slot} (hl : xs.length = pre.length)
    (h : ReadsHead rest [] (pre ++ .offset :: ss) buffer (xs ++ .start o :: ys)) :
    wordAt buffer (headWidth pre) = o := by
  obtain ⟨us, behind, vs, hu, hv, he⟩ := h.of_apart (apart_of_head (by simp) _)
  obtain ⟨rfl, rfl⟩ := List.append_inj he (hl.trans hu.length_eq.symm)
  cases hv with
  | @offset _ _ _ bs _ ho _ =>
    have hword : (Word.bytes o ++ bs).take Limits.wordBytes = Word.bytes o :=
      List.take_left' (Word.length_bytes o)
    rw [wordAt, hu.drop_headWidth, hword, Word.decode_bytes ho]

/-- Only a slot for an offset is read as a start. -/
theorem offset_iff {s : Slot} {e : Entry} {ss : List Slot} (hl : xs.length = pre.length)
    (h : ReadsHead rest left (pre ++ s :: ss) buffer (xs ++ e :: ys)) :
    s = .offset ↔ ∃ o, e = .start o := by
  obtain ⟨us, behind, vs, left', hu, hv, he, -, -⟩ := h.exists_append
  obtain ⟨rfl, rfl⟩ := List.append_inj he (hl.trans hu.length_eq.symm)
  cases hv <;> simp

theorem starts_behind (hl : xs.length = pre.length)
    (h : ReadsHead rest [] (pre ++ slots) buffer (xs ++ ys)) :
    starts ys = offsetsBehind buffer pre slots := by
  induction slots generalizing pre xs ys with
  | nil =>
    have hlen := h.length_eq
    rw [List.append_nil, List.length_append, hl] at hlen
    obtain rfl := List.eq_nil_of_length_eq_zero (by omega : ys.length = 0)
    rfl
  | cons s ss ih =>
    have hlen := h.length_eq
    rw [List.length_append, List.length_append, hl, List.length_cons] at hlen
    have hys : ys.length = ss.length + 1 := by omega
    obtain ⟨e, ys, rfl⟩ := List.exists_cons_of_length_eq_add_one hys
    have hs := h.offset_iff hl
    have hrest := @ih (pre ++ [s]) (xs ++ [e]) ys (by simp [hl]) (by simpa using h)
    cases e with
    | inline cs =>
      cases s with
      | offset => simp at hs
      | bit => exact hrest
      | inline size => exact hrest
    | start o =>
      obtain rfl := hs.2 ⟨o, rfl⟩
      rw [starts, offsetsBehind, hrest, h.wordAt_eq hl]

/-- The starts that are read are the words in the slots for offsets. -/
theorem starts_eq (h : ReadsHead rest [] slots buffer es) :
    starts es = offsetsBehind buffer [] slots :=
  @starts_behind slots [] buffer rest [] es rfl h

end ReadsHead

/-! ## Buffers that split -/

theorem checkStarts_eq_ok_iff {total low : Nat} {os : List Nat} (hl : low ≤ total) :
    checkStarts total low os = .ok () ↔ (low :: (os ++ [total])).IsChain (· ≤ ·) := by
  induction os generalizing low with
  | nil => simp [checkStarts, hl]
  | cons o os ih =>
    rw [checkStarts, List.cons_append, List.isChain_cons_cons]
    split
    · rename_i ho
      simp only [reduceCtorEq, false_iff, not_and]
      intro hlo hchain
      have hle := hchain.rel_cons (by simp : total ∈ os ++ [total])
      omega
    · rename_i ho
      rw [ih (by omega)]
      exact ⟨fun h => ⟨by omega, h⟩, fun h => h.2⟩

/-- The buffer has bytes for all of the head, and behind it just the dynamic children, in order:
their offsets go up from the end of the head to the end of the buffer. -/
def Splits (slots : List Slot) (buffer : Bytes) : Prop :=
  headWidth slots ≤ buffer.length ∧
    (.offset ∉ slots ∧ headWidth slots = buffer.length ∨
      .offset ∈ slots ∧
        (headWidth slots :: (offsetsBehind buffer [] slots ++ [buffer.length])).IsChain (· ≤ ·))

/-- A buffer whose head was read splits if nothing follows a head without starts, or if the starts
pass the check. -/
theorem split_isOk_of_readsHead {slots : List Slot} {buffer rest : Bytes} {es : List Entry}
    (hr : ReadsHead rest [] slots buffer es) :
    (∃ children, split slots buffer = .ok children) ↔
      starts es = [] ∧ headWidth slots = buffer.length ∨
        starts es ≠ [] ∧ checkStarts buffer.length (headWidth slots) (starts es) = .ok () := by
  have hlen := hr.headWidth_add_length
  have hrest : rest = [] ↔ headWidth slots = buffer.length := by
    rw [← List.length_eq_zero_iff]
    omega
  simp only [split_eq_ok_iff hr, ← hrest]
  constructor
  · intro h
    obtain ⟨_, ⟨hnil, hr, _⟩ | ⟨first, more, hcons, hcheck, _⟩⟩ := h
    · exact Or.inl ⟨hnil, hr⟩
    · exact Or.inr ⟨by rw [hcons]; exact List.cons_ne_nil _ _, hcons ▸ hcheck⟩
  · intro h
    rcases h with ⟨hnil, hr⟩ | ⟨hne, hcheck⟩
    · exact ⟨_, Or.inl ⟨hnil, hr, rfl⟩⟩
    · obtain ⟨first, more, hcons⟩ := List.exists_cons_of_ne_nil hne
      exact ⟨_, Or.inr ⟨first, more, hcons, hcons ▸ hcheck, rfl⟩⟩

/-- Exactly these buffers split. -/
theorem split_isOk_iff {slots : List Slot} {buffer : Bytes} :
    (∃ children, split slots buffer = .ok children) ↔ Splits slots buffer := by
  unfold Splits
  by_cases hlong : headWidth slots ≤ buffer.length
  · rw [← headSize_eq_headWidth] at hlong
    obtain ⟨es, rest, hr⟩ := (@ReadsHead.exists_iff [] slots buffer).2 hlong
    rw [headSize_eq_headWidth] at hlong
    rw [split_isOk_of_readsHead hr, hr.starts_eq, checkStarts_eq_ok_iff hlong, ne_eq,
      offsetsBehind_eq_nil_iff, not_not]
    exact (and_iff_right hlong).symm
  · have hnot : ¬ ∃ children, split slots buffer = .ok children := by
      intro h
      obtain ⟨children, h⟩ := h
      obtain ⟨es, rest, hr⟩ := exists_readHead_of_split h
      have := hr.headWidth_add_length
      omega
    exact iff_of_false hnot fun h => hlong h.1

theorem malformed_of_checkStarts {total low : Nat} {os : List Nat} {e : Error}
    (h : checkStarts total low os = .error e) : ∃ cause, e = .malformed cause := by
  induction os generalizing low with
  | nil => cases h
  | cons o os ih =>
    rw [checkStarts] at h
    split at h
    · cases h
      exact ⟨_, rfl⟩
    · exact ih h

/-- A buffer that does not split is malformed. -/
theorem malformed_of_split {slots : List Slot} {buffer : Bytes} {e : Error}
    (h : split slots buffer = .error e) : ∃ cause, e = .malformed cause := by
  unfold split at h
  split at h
  · cases h
    exact ⟨_, rfl⟩
  · split at h
    · split at h
      · cases h
      · cases h
        exact ⟨_, rfl⟩
    · rcases Outcome.bind_eq_error_iff.1 h with hc | ⟨_, _, hc⟩
      · exact malformed_of_checkStarts hc
      · cases hc

/-! ## Cuts -/

/-- Where each dynamic child begins and ends: the first at the first offset, each where the next
one begins, and the last at the end. -/
def cuts (total : Nat) (os : List Nat) : List (Nat × Nat) := os.zip (os.tail ++ [total])

/-- The bytes from one place to another. -/
def slice (buffer : Bytes) (cut : Nat × Nat) : Bytes := (buffer.take cut.2).drop cut.1

theorem cuts_startsFrom_cons (start : Nat) (bs : Bytes) (bss : List Bytes) :
    cuts (start + (bs :: bss).flatten.length) (startsFrom start (bs :: bss)) =
      (start, start + bs.length) ::
        cuts (start + bs.length + bss.flatten.length) (startsFrom (start + bs.length) bss) := by
  rw [List.flatten_cons, List.length_append, ← Nat.add_assoc]
  cases bss with
  | nil => simp [cuts, startsFrom]
  | cons cs bss => simp [cuts, startsFrom]

/-- Byte strings that follow each other up to the end of a buffer are its pieces between the
cuts. -/
theorem slices_startsFrom {buffer : Bytes} {start : Nat} {bss : List Bytes}
    (h : buffer.drop start = bss.flatten) (hl : start + bss.flatten.length = buffer.length) :
    (cuts buffer.length (startsFrom start bss)).map (slice buffer) = bss := by
  induction bss generalizing start with
  | nil => rfl
  | cons bs bss ih =>
    have hslice : slice buffer (start, start + bs.length) = bs := by
      rw [slice, List.drop_take, h, List.flatten_cons, Nat.add_sub_cancel_left, List.take_left]
    have hdrop : buffer.drop (start + bs.length) = bss.flatten := by
      rw [← List.drop_drop, h, List.flatten_cons, List.drop_left]
    have hlen : start + bs.length + bss.flatten.length = buffer.length := by
      rw [← hl, List.flatten_cons, List.length_append, Nat.add_assoc]
    rw [← hl, cuts_startsFrom_cons, List.map_cons, hslice, hlen, ih hdrop hlen]

theorem head?_startsFrom {start first : Nat} {bss : List Bytes}
    (h : first ∈ (startsFrom start bss).head?) : first = start := by
  cases bss with
  | nil => cases h
  | cons bs bss => exact (Option.some.inj h).symm

/-- Such pieces lie in the buffer, and none begins before the one in front has ended. -/
theorem cuts_startsFrom_ordered {start : Nat} {bss : List Bytes} :
    (∀ c ∈ cuts (start + bss.flatten.length) (startsFrom start bss),
      start ≤ c.1 ∧ c.1 ≤ c.2 ∧ c.2 ≤ start + bss.flatten.length) ∧
      (cuts (start + bss.flatten.length) (startsFrom start bss)).Pairwise fun c d => c.2 ≤ d.1 := by
  induction bss generalizing start with
  | nil => simp [startsFrom, cuts]
  | cons bs bss ih =>
    obtain ⟨hin, hpair⟩ := @ih (start + bs.length)
    rw [cuts_startsFrom_cons, List.forall_mem_cons, List.pairwise_cons, List.flatten_cons,
      List.length_append]
    refine ⟨⟨by simp, fun c hc => ?_⟩, fun c hc => (hin c hc).1, hpair⟩
    have := hin c hc
    omega

/-! ## Places of children -/

theorem entries_append (start : Nat) (ps qs : List Part) :
    entries start (ps ++ qs) =
      entries start ps ++ entries (start + (tails ps).flatten.length) qs := by
  induction ps generalizing start with
  | nil => rfl
  | cons p ps ih =>
    cases p with
    | bit b => exact congrArg (.inline [boolByte b] :: ·) (ih start)
    | inline bs => exact congrArg (.inline bs :: ·) (ih start)
    | tail bs =>
      rw [List.cons_append, entries, entries, ih, tails, List.flatten_cons, List.length_append,
        Nat.add_assoc, List.cons_append]

theorem length_entries (start : Nat) (ps : List Part) : (entries start ps).length = ps.length := by
  induction ps generalizing start with
  | nil => rfl
  | cons p ps ih =>
    cases p with
    | bit b => exact congrArg (· + 1) (ih start)
    | inline bs => exact congrArg (· + 1) (ih start)
    | tail bs => exact congrArg (· + 1) (ih (start + bs.length))

section

variable {pre post : List Part} {buffer rest : Bytes} {start : Nat}

/-- The parts behind some others are read behind the width of these. -/
theorem ReadsHead.drop_parts {ps : List Part} (ha : Apart (pre.map Part.slot) (ps.map Part.slot))
    (h : ReadsHead rest [] ((pre ++ ps).map Part.slot) buffer (entries start (pre ++ ps))) :
    ReadsHead rest [] (ps.map Part.slot) (buffer.drop (headWidth (pre.map Part.slot)))
      (entries (start + (tails pre).flatten.length) ps) := by
  rw [List.map_append] at h
  obtain ⟨xs, behind, ys, hx, hy, he⟩ := h.of_apart ha
  rw [entries_append] at he
  have hlen : (entries start pre).length = xs.length := by
    rw [length_entries, hx.length_eq, List.length_map]
  obtain ⟨-, rfl⟩ := List.append_inj he hlen
  rwa [hx.drop_headWidth]

/-- The booleans of a run are read from the bits behind what is in front of it. -/
theorem ReadsHead.bitAt_run {bs : List Bool}
    (hrun : MaximalRun (· = Slot.bit) (pre.map Part.slot) ((bs.map Part.bit).map Part.slot)
      (post.map Part.slot))
    (h : ReadsHead rest [] ((pre ++ (bs.map Part.bit ++ post)).map Part.slot) buffer
      (entries start (pre ++ (bs.map Part.bit ++ post)))) {j : Nat} (hj : j < bs.length) :
    bitAt buffer (headWidth (pre.map Part.slot) + j / 8) (7 - j % 8) = bs[j] := by
  have hbehind := h.drop_parts (apart_of_getLast hrun.before _)
  obtain ⟨packed, behind, hbuf, hlen, hbits, -⟩ := hbehind.entries_run hrun.after
  have hpos : j / 8 < packed.length := by
    rw [hlen, packedBytes, Limits.boolsPerByte]
    omega
  rw [← bitAt_drop, hbuf, bitAt_append_left hpos, bitAt_eq_getD_bits]
  have hget : (bits packed).getD j false = ((bits packed).take bs.length).getD j false := by
    rw [List.getD_eq_getElem?_getD, List.getD_eq_getElem?_getD, List.getElem?_take_of_lt hj]
  rw [hget, hbits, List.getD_eq_getElem _ _ hj]

/-- An inline child is read from behind what is in front of it. -/
theorem ReadsHead.inline_eq_slice {bs : Bytes}
    (h : ReadsHead rest [] ((pre ++ .inline bs :: post).map Part.slot) buffer
      (entries start (pre ++ .inline bs :: post))) :
    headWidth (pre.map Part.slot) + bs.length ≤ buffer.length ∧
      bs = slice buffer
        (headWidth (pre.map Part.slot), headWidth (pre.map Part.slot) + bs.length) := by
  have hpre : headWidth (pre.map Part.slot) ≤ buffer.length := by
    have hfront : pre.Sublist (pre ++ .inline bs :: post) := List.sublist_append_left _ _
    have hle := headSize_le_of_sublist (hfront.map Part.slot) 0
    rw [headSize_eq_headWidth, headSize_eq_headWidth] at hle
    have := h.headWidth_add_length
    omega
  have hapart : Apart (pre.map Part.slot) ((Part.inline bs :: post).map Part.slot) :=
    apart_of_head (by simp [Part.slot]) _
  have hbehind := h.drop_parts hapart
  generalize hdrop : buffer.drop (headWidth (pre.map Part.slot)) = behind at hbehind
  cases hbehind with
  | @inline _ _ _ _ behind _ _ _ =>
    have hlen := congrArg List.length hdrop
    rw [List.length_drop, List.length_append] at hlen
    refine ⟨by omega, ?_⟩
    rw [slice, List.drop_take, hdrop, Nat.add_sub_cancel_left, List.take_left]

end

end Abi.Layout
