/-
  When a buffer is just what its children are written as.

  The reader lets two things pass that the writer never makes: bytes between the head and the first
  dynamic child, and set bits behind the last boolean of a run. A buffer without them is tight.
  Both conditions are about slots and buffer alone and do not mention the children.

  * `ReadsHead.gapless_iff`: no gap means that the first start is the width of the head.
  * `ReadsHead.eq_headOf_of_clear`: with clear bits behind every run, the head that was read is the
    one that is written.
  * `exists_assemble_of_split`: children that were read are written again, in no more bytes, and in
    the same ones exactly if the buffer is tight.
-/
import Abi.Proofs.Layout.Places
import Abi.Proofs.Layout.Reading

namespace Abi.Layout

/-! ## Tight buffers -/

/-- The first offset is the width of the head, so that no bytes stand behind the head in front of
the first dynamic child. -/
def Gapless (slots : List Slot) (buffer : Bytes) : Prop :=
  ∀ pre post, slots = pre ++ .offset :: post → .offset ∉ pre →
    BigEndian.decode ((buffer.drop (headWidth pre)).take Limits.wordBytes) = headWidth slots

/-- The bits behind the last boolean of every run are clear. -/
def Clear (slots : List Slot) (buffer : Bytes) : Prop :=
  ∀ pre run post, slots = pre ++ (run ++ post) → MaximalRun (· = Slot.bit) pre run post →
    ∀ j, run.length ≤ j → j < 8 * packedBytes run.length →
      bitAt buffer (headWidth pre + j / 8) (7 - j % 8) = false

/-- Nothing in the buffer is passed over by the reader. -/
structure Tight (slots : List Slot) (buffer : Bytes) : Prop where
  gapless : Gapless slots buffer
  clear : Clear slots buffer

/-! ## The first offset -/

theorem starts_append (es fs : List Entry) : starts (es ++ fs) = starts es ++ starts fs := by
  induction es with
  | nil => rfl
  | cons e es ih =>
    cases e with
    | inline bs => exact ih
    | start o => exact congrArg (o :: ·) ih

theorem tails_eq_nil_iff {ps : List Part} : tails ps = [] ↔ .offset ∉ ps.map Part.slot := by
  induction ps with
  | nil => simp [tails]
  | cons p ps ih => cases p <;> simp [tails, Part.slot, ih]

/-- The first start is the word in the first slot for an offset. -/
theorem ReadsHead.exists_starts {pre post : List Slot} {bs rest : Bytes} {es : List Entry}
    (hpre : .offset ∉ pre) (h : ReadsHead rest [] (pre ++ .offset :: post) bs es) :
    ∃ more, starts es =
      BigEndian.decode ((bs.drop (headWidth pre)).take Limits.wordBytes) :: more := by
  obtain ⟨xs, behind, ys, hx, hy, rfl⟩ := h.of_apart (apart_of_head (by simp) _)
  cases hy with
  | @offset _ _ o behind more ho _ =>
    have hword : (Word.bytes o ++ behind).take Limits.wordBytes = Word.bytes o :=
      List.take_left' (Word.length_bytes o)
    refine ⟨starts more, ?_⟩
    rw [starts_append, hx.starts_eq_nil hpre, List.nil_append, starts, hx.drop_headWidth, hword,
      Word.decode_bytes ho]

theorem ReadsHead.gapless_iff {ps : List Part} {start : Nat} {buffer rest : Bytes}
    (h : ReadsHead rest [] (ps.map Part.slot) buffer (entries start ps)) :
    Gapless (ps.map Part.slot) buffer ↔ (tails ps ≠ [] → start = headWidth (ps.map Part.slot)) := by
  have hfirst : ∀ pre post, ps.map Part.slot = pre ++ .offset :: post → .offset ∉ pre →
      BigEndian.decode ((buffer.drop (headWidth pre)).take Limits.wordBytes) = start := by
    intro pre post hps hpre
    rw [hps] at h
    obtain ⟨more, hmore⟩ := h.exists_starts hpre
    rw [starts_entries] at hmore
    cases ht : tails ps with
    | nil => exact absurd (hps ▸ List.mem_append_cons_self) (tails_eq_nil_iff.1 ht)
    | cons bs bss =>
      rw [ht, startsFrom] at hmore
      exact (List.cons.inj hmore).1.symm
  constructor
  · intro hg ht
    obtain ⟨pre, post, hps, hpre⟩ :=
      List.eq_append_cons_of_mem (not_not.1 (mt tails_eq_nil_iff.2 ht))
    rw [← hfirst pre post hps hpre, hg pre post hps hpre]
  · intro hstart pre post hps hpre
    rw [hfirst pre post hps hpre]
    exact hstart fun ht => tails_eq_nil_iff.1 ht (hps ▸ List.mem_append_cons_self)

/-! ## The bits behind a run -/

theorem Clear.of_append {ss ts : List Slot} {buffer : Bytes} (h : Clear (ss ++ ts) buffer)
    (ha : Apart ss ts) : Clear ts (buffer.drop (headWidth ss)) := by
  intro pre run post hts hrun j hle hj
  -- an empty run has no bits behind it
  have hne : run ≠ [] := by
    rintro rfl
    rw [show packedBytes ([] : List Slot).length = 0 from rfl] at hj
    omega
  have hpre : Apart ss pre := by
    intro s hs t ht
    refine ha s hs t ?_
    rw [hts, List.head?_append, Option.mem_def.1 ht]
    rfl
  have hlast : ∀ s ∈ (ss ++ pre).getLast?, ¬ s = .bit := by
    intro s hs
    rw [List.getLast?_append] at hs
    cases hp : pre.getLast? with
    | some t =>
      rw [hp] at hs
      obtain rfl : t = s := by simpa using hs
      exact hrun.before t hp
    | none =>
      rw [hp] at hs
      rw [List.getLast?_eq_none_iff.1 hp, List.nil_append] at hts
      obtain ⟨t, run', rfl⟩ := List.exists_cons_of_ne_nil hne
      intro he
      exact ha s hs t (by rw [hts]; rfl) ⟨he, hrun.all t (List.mem_cons_self ..)⟩
  have hbit := h (ss ++ pre) run post (by rw [hts, List.append_assoc])
    ⟨hrun.all, hlast, hrun.after⟩ j hle hj
  rwa [headWidth_append hpre, Nat.add_assoc, ← bitAt_drop] at hbit

/-- The bits behind a run in front are clear in the bytes that hold it. -/
theorem Clear.run {count : Nat} {ss : List Slot} {packed behind : Bytes}
    (h : Clear (List.replicate count .bit ++ ss) (packed ++ behind))
    (hss : ∀ s ∈ ss.head?, s ≠ .bit) (hl : packed.length = packedBytes count) :
    ∀ j, count ≤ j → j < 8 * packedBytes count → bitAt packed (j / 8) (7 - j % 8) = false := by
  intro j hle hj
  have hrun : MaximalRun (· = Slot.bit) [] (List.replicate count .bit) ss :=
    ⟨fun _ hs => List.eq_of_mem_replicate hs, fun _ hs => (Option.not_mem_none _ hs).elim, hss⟩
  have hbit := h [] _ ss rfl hrun j
    (by rwa [List.length_replicate]) (by rwa [List.length_replicate])
  rwa [show headWidth [] = 0 from rfl, Nat.zero_add, bitAt_append_left (by omega)] at hbit

/-- Where no booleans are, no bits stand behind them. -/
theorem clear_of_no_bit {slots : List Slot} (h : .bit ∉ slots) (buffer : Bytes) :
    Clear slots buffer := by
  intro pre run post hs hrun j _ hj
  have hnil : run = [] := by
    refine List.eq_nil_iff_forall_not_mem.2 fun s hm => h ?_
    rw [hs, ← hrun.all s hm]
    exact List.mem_append_right _ (List.mem_append_left _ hm)
  rw [hnil, show packedBytes ([] : List Slot).length = 0 from rfl] at hj
  omega

/-- The bytes of a run are those that its booleans are packed into, if the other bits are clear. -/
theorem eq_headOf_run {packed : Bytes} {bs : List Bool} (start : Nat)
    (hl : packed.length = packedBytes bs.length) (hbits : (bits packed).take bs.length = bs)
    (hclear : ∀ j, bs.length ≤ j → j < 8 * packedBytes bs.length →
      bitAt packed (j / 8) (7 - j % 8) = false) :
    packed = headOf start (bs.map .bit) := by
  have hdrop : (bits packed).drop bs.length =
      List.replicate (8 * packed.length - bs.length) false := by
    rw [List.eq_replicate_iff, List.length_drop, length_bits]
    refine ⟨rfl, fun b hb => ?_⟩
    obtain ⟨i, hi, rfl⟩ := List.mem_iff_getElem.1 hb
    rw [List.length_drop, length_bits] at hi
    have hbit := hclear (bs.length + i) (Nat.le_add_right _ _) (by omega)
    rw [bitAt_eq_getD_bits, List.getD_eq_getElem _ _ (by rw [length_bits]; omega)] at hbit
    rw [List.getElem_drop, hbit]
  obtain ⟨clear, _, hb⟩ := bits_headOf_run start bs
  have hlen := congrArg List.length hb
  rw [length_bits, length_headOf, map_slot_bit, headWidth_run, List.length_append,
    List.length_replicate] at hlen
  apply bits_injective
  rw [hb, ← List.take_append_drop bs.length (bits packed), hbits, hdrop]
  congr 2
  omega

theorem entries_bits_append (start : Nat) (bs : List Bool) (ps : List Part) :
    entries start (bs.map .bit ++ ps) =
      (bs.map fun b => .inline [boolByte b]) ++ entries start ps := by
  induction bs with
  | nil => rfl
  | cons b bs ih => exact congrArg (.inline [boolByte b] :: ·) ih

theorem boolByte_injective {b c : Bool} (h : boolByte b = boolByte c) : b = c := by
  revert h
  cases b <;> cases c <;> decide

/-- Parts in the slots of a run are booleans. -/
theorem exists_bits_of_map_slot {ps : List Part} {count : Nat}
    (h : ps.map Part.slot = List.replicate count .bit) :
    ∃ bs : List Bool, ps = bs.map .bit ∧ bs.length = count := by
  induction ps generalizing count with
  | nil =>
    obtain rfl : 0 = count := by simpa using congrArg List.length h
    exact ⟨[], rfl, rfl⟩
  | cons p ps ih =>
    cases count with
    | zero => cases h
    | succ count =>
      obtain ⟨hp, hps⟩ := List.cons.inj h
      obtain ⟨bs, rfl, rfl⟩ := ih hps
      cases p with
      | bit b => exact ⟨b :: bs, rfl, rfl⟩
      | inline cs => cases hp
      | tail cs => cases hp

/-- The booleans of a run in front of other parts are the first bits of the bytes that hold it. -/
theorem ReadsHead.entries_run {bs : List Bool} {qs : List Part} {start : Nat}
    {buffer rest : Bytes} (hqs : ∀ s ∈ (qs.map Part.slot).head?, s ≠ .bit)
    (h : ReadsHead rest [] ((bs.map Part.bit ++ qs).map Part.slot) buffer
      (entries start (bs.map .bit ++ qs))) :
    ∃ packed behind, buffer = packed ++ behind ∧ packed.length = packedBytes bs.length ∧
      (bits packed).take bs.length = bs ∧
      ReadsHead rest [] (qs.map Part.slot) behind (entries start qs) := by
  rw [List.map_append, map_slot_bit] at h
  obtain ⟨packed, behind, more, rfl, hl, he, hr⟩ := h.run hqs (by decide)
  rw [List.length_nil, Nat.sub_zero] at hl
  rw [List.nil_append, entries_bits_append] at he
  have hle : bs.length ≤ (bits packed).length := by
    rw [length_bits, hl]
    unfold packedBytes Limits.boolsPerByte
    omega
  obtain ⟨hbits, rfl⟩ := List.append_inj he (by
    rw [List.length_map, List.length_map, List.length_take, Nat.min_eq_left hle])
  have hinj : Function.Injective fun b => Entry.inline [boolByte b] := fun b c hbc =>
    boolByte_injective (List.cons.inj (Entry.inline.inj hbc)).1
  exact ⟨packed, behind, rfl, hl, (List.map_injective_iff.2 hinj hbits).symm, hr⟩

/-- If the bits behind every run are clear, the head is the one that is written for the parts. -/
theorem ReadsHead.eq_headOf_of_clear {ps : List Part} {start : Nat} {buffer rest : Bytes}
    (h : ReadsHead rest [] (ps.map Part.slot) buffer (entries start ps))
    (hc : Clear (ps.map Part.slot) buffer) : buffer = headOf start ps ++ rest := by
  induction hs : ps.map Part.slot using run_induction generalizing ps start buffer with
  | nil =>
    obtain rfl := List.map_eq_nil_iff.1 hs
    cases h
    rfl
  | single s ss hbit ih =>
    obtain ⟨p, qs, rfl, rfl, rfl⟩ := List.map_eq_cons_iff.1 hs
    have hrest := hc.of_append (apart_cons hbit _)
    cases p with
    | bit b => exact absurd rfl hbit
    | inline bs =>
      cases h with
      | @inline _ _ _ _ behind _ _ h =>
        have hdrop : (bs ++ behind).drop (headWidth [Part.slot (.inline bs)]) = behind :=
          List.drop_left
        rw [hdrop] at hrest
        rw [headOf_inline, List.append_assoc, ← ih h hrest rfl]
    | tail bs =>
      cases h with
      | @offset _ _ _ behind _ _ h =>
        have hdrop : (Word.bytes start ++ behind).drop (headWidth [Part.slot (.tail bs)]) =
            behind := List.drop_left' (Word.length_bytes _)
        rw [hdrop] at hrest
        rw [headOf_tail, List.append_assoc, ← ih h hrest rfl]
  | run count ss hcount hss ih =>
    obtain ⟨rs, qs, rfl, hrs, rfl⟩ := List.map_eq_append_iff.1 hs
    obtain ⟨bs, rfl, rfl⟩ := exists_bits_of_map_slot hrs
    have hapart := apart_of_head hss ((bs.map Part.bit).map Part.slot)
    obtain ⟨packed, behind, rfl, hl, hbits, hr⟩ := h.entries_run hss
    rw [List.map_append, map_slot_bit] at hc
    have hpacked := eq_headOf_run start hl hbits (hc.run hss hl)
    rw [← map_slot_bit] at hc
    have hrest := hc.of_append hapart
    rw [map_slot_bit, headWidth_run, List.drop_left' hl] at hrest
    have htails : tails (bs.map Part.bit) = [] := tails_eq_nil_iff.2 (by simp [Part.slot])
    rw [headOf_append hapart, htails, ← hpacked, List.append_assoc, List.flatten_nil,
      List.length_nil, Nat.add_zero, ← ih hr hrest rfl]

/-- Behind the runs that were written the bits are clear. -/
theorem clear_headOf (start : Nat) (ps : List Part) (rest : Bytes) :
    Clear (ps.map Part.slot) (headOf start ps ++ rest) := by
  intro pre run post hps hrun j hle hj
  obtain ⟨fs, gs, rfl, rfl, hgs⟩ := List.map_eq_append_iff.1 hps
  obtain ⟨rs, qs, rfl, rfl, rfl⟩ := List.map_eq_append_iff.1 hgs
  obtain ⟨bs, rfl, -⟩ := exists_bits_of_map_slot (List.eq_replicate_of_mem hrun.all)
  simp only [List.length_map] at hle hj
  have hwidth : (headOf start (fs ++ (bs.map Part.bit ++ qs))).length =
      headWidth (fs.map Part.slot) + (packedBytes bs.length + headWidth (qs.map Part.slot)) := by
    rw [length_headOf, List.map_append, List.map_append,
      headWidth_append (apart_of_getLast hrun.before _),
      headWidth_append (apart_of_head hrun.after _), map_slot_bit, headWidth_run]
  have hin : headWidth (fs.map Part.slot) + j / 8 <
      (headOf start (fs ++ (bs.map Part.bit ++ qs))).length := by omega
  rw [bitAt_append_left hin, bitAt_headOf hrun start hj, List.getD_eq_default bs false hle]

/-! ## Slots and contents -/

theorem Part.eq_of_slot_of_content {p q : Part} (hs : p.slot = q.slot)
    (hc : p.content = q.content) : p = q := by
  cases p with
  | bit b =>
    cases q with
    | bit c => rw [boolByte_injective (List.cons.inj hc).1]
    | inline cs => cases hs
    | tail cs => cases hs
  | inline bs =>
    cases q with
    | bit c => cases hs
    | inline cs => exact congrArg Part.inline hc
    | tail cs => cases hs
  | tail bs =>
    cases q with
    | bit c => cases hs
    | inline cs => cases hs
    | tail cs => exact congrArg Part.tail hc

/-- Parts are known by their slots and contents. -/
theorem eq_of_slots_of_contents {ps qs : List Part} (hs : ps.map Part.slot = qs.map Part.slot)
    (hc : ps.map Part.content = qs.map Part.content) : ps = qs := by
  induction ps generalizing qs with
  | nil => exact (List.map_eq_nil_iff.1 hs.symm).symm
  | cons p ps ih =>
    cases qs with
    | nil => cases hs
    | cons q qs =>
      obtain ⟨hp, hps⟩ := List.cons.inj hs
      obtain ⟨hpc, hpsc⟩ := List.cons.inj hc
      rw [Part.eq_of_slot_of_content hp hpc, ih hps hpsc]

/-- No part has more bytes than the sequence, unless it is a boolean. -/
theorem length_content_le {ps : List Part} {p : Part} (hp : p ∈ ps) (free : Nat) :
    p.content.length ≤ max 1 (headSize free (ps.map Part.slot) + (tails ps).flatten.length) := by
  induction ps generalizing free with
  | nil => cases hp
  | cons q ps ih =>
    cases q with
    | bit b =>
      rcases List.mem_cons.1 hp with rfl | hm
      · exact Nat.le_max_left _ _
      · cases free with
        | zero =>
          have := ih hm (Limits.boolsPerByte - 1)
          show _ ≤ max 1 (1 + headSize _ _ + (tails ps).flatten.length)
          omega
        | succ free => exact ih hm free
    | inline bs =>
      show _ ≤ max 1 (bs.length + headSize 0 _ + (tails ps).flatten.length)
      rcases List.mem_cons.1 hp with rfl | hm
      · show bs.length ≤ _
        omega
      · have := ih hm 0
        omega
    | tail bs =>
      show _ ≤ max 1 (Limits.wordBytes + headSize 0 _ + (bs ++ (tails ps).flatten).length)
      rw [List.length_append]
      rcases List.mem_cons.1 hp with rfl | hm
      · show bs.length ≤ _
        omega
      · have := ih hm 0
        omega

/-- Parts in the same slots and with no more bytes have no longer tails. -/
theorem length_tails_cons_le {p q : Part} {ps qs : List Part} (hs : q.slot = p.slot)
    (hc : q.content.length ≤ p.content.length)
    (h : (tails qs).flatten.length ≤ (tails ps).flatten.length) :
    (tails (q :: qs)).flatten.length ≤ (tails (p :: ps)).flatten.length := by
  cases p with
  | bit b =>
    cases q with
    | bit c => exact h
    | inline cs => cases hs
    | tail cs => cases hs
  | inline bs =>
    cases q with
    | bit c => cases hs
    | inline cs => exact h
    | tail cs => cases hs
  | tail bs =>
    cases q with
    | bit c => cases hs
    | inline cs => cases hs
    | tail cs =>
      rw [tails, tails, List.flatten_cons, List.flatten_cons, List.length_append,
        List.length_append]
      exact Nat.add_le_add hc h

/-! ## Writing again what was read -/

section

variable {ps : List Part} {gap buffer : Bytes}

/-- Parts that were read are written without the gap. -/
theorem ReadsHead.assemble (h : ReadsHead (gap ++ (tails ps).flatten) [] (ps.map Part.slot) buffer
      (entries (headWidth (ps.map Part.slot) + gap.length) ps)) :
    assemble ps = .ok (headOf (headWidth (ps.map Part.slot)) ps ++ (tails ps).flatten) := by
  rw [assemble_eq_ok_iff_tails, bytesOfCells_eq, headSize_eq_headWidth]
  refine ⟨fun o ho => ?_, rfl⟩
  have hmem := add_mem_startsFrom gap.length ho
  rw [← starts_entries] at hmem
  have := h.start_le_word _ hmem
  omega

/-- No bytes stand behind the head exactly if the first offset is its width. -/
theorem ReadsHead.gapless_iff_eq_nil (hgap : tails ps = [] → gap = [])
    (h : ReadsHead (gap ++ (tails ps).flatten) [] (ps.map Part.slot) buffer
      (entries (headWidth (ps.map Part.slot) + gap.length) ps)) :
    Gapless (ps.map Part.slot) buffer ↔ gap = [] := by
  rw [h.gapless_iff]
  constructor
  · intro hg
    by_cases ht : tails ps = []
    · exact hgap ht
    · have := hg ht
      exact List.eq_nil_of_length_eq_zero (by omega)
  · rintro rfl _
    rfl

theorem ReadsHead.tight_iff (hgap : tails ps = [] → gap = [])
    (h : ReadsHead (gap ++ (tails ps).flatten) [] (ps.map Part.slot) buffer
      (entries (headWidth (ps.map Part.slot) + gap.length) ps)) :
    Tight (ps.map Part.slot) buffer ↔
      headOf (headWidth (ps.map Part.slot)) ps ++ (tails ps).flatten = buffer := by
  have hnil := h.gapless_iff_eq_nil hgap
  constructor
  · intro ht
    obtain rfl := hnil.1 ht.gapless
    exact (h.eq_headOf_of_clear ht.clear).symm
  · rintro rfl
    refine ⟨hnil.2 ?_, clear_headOf _ _ _⟩
    have hlen := h.headWidth_add_length
    rw [List.length_append, List.length_append, length_headOf] at hlen
    exact List.eq_nil_of_length_eq_zero (by omega)

end

/-- The children of a buffer are written again, in no more bytes than it has, and in the same ones
exactly if the buffer is tight. -/
theorem exists_assemble_of_split {slots : List Slot} {buffer : Bytes} {children : List Bytes}
    (h : split slots buffer = .ok children) :
    ∃ ps c, ps.map Part.slot = slots ∧ ps.map Part.content = children ∧ assemble ps = .ok c ∧
      c.length ≤ buffer.length ∧ (c = buffer ↔ Tight slots buffer) := by
  obtain ⟨ps, gap, rfl, hc, hgap, hr⟩ := exists_parts_of_split h
  refine ⟨ps, _, rfl, hc, hr.assemble, ?_, (hr.tight_iff hgap).symm⟩
  have hlen := hr.headWidth_add_length
  rw [List.length_append] at hlen
  rw [List.length_append, length_headOf]
  omega

/-- No child has more bytes than the buffer, unless it is a boolean. -/
theorem length_le_of_split {slots : List Slot} {buffer child : Bytes} {children : List Bytes}
    (h : split slots buffer = .ok children) (hc : child ∈ children) :
    child.length ≤ max 1 buffer.length := by
  obtain ⟨ps, b, _, rfl, hb, hle, _⟩ := exists_assemble_of_split h
  obtain ⟨p, hp, rfl⟩ := List.mem_map.1 hc
  have hlen := length_of_assemble hb
  have hpart := length_content_le hp 0
  omega

end Abi.Layout
