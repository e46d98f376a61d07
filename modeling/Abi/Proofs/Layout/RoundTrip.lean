/-
  What was assembled is split into the parts that it was made of.

  The writer packs booleans as it goes and emits a byte when it is full or when the run ends; the
  reader takes a byte when the run begins and hands out its bits. In the middle of a run the
  writer therefore holds the booleans of a byte that the reader has already taken:
  `InStep` relates the two states.

  * `split_of_assemble`: splitting gives back the content of every part.
  * `length_of_assemble`: the length is that of the head and of all tails.
  * `assemble_isOk_of_length_le`: if head and tails fit into a word, no offset is too large.
-/
import Abi.Layout.Assemble
import Abi.Layout.Split

namespace Abi.Layout

/-- The bytes that come back for a part; a boolean gets a byte of its own. -/
def Part.content : Part → Bytes
  | .bit b => [boolByte b]
  | .inline bs => bs
  | .tail bs => bs

/-! ## The tail -/

/-- The contents of the dynamic parts, in order. -/
def tails : List Part → List Bytes
  | [] => []
  | .bit _ :: ps => tails ps
  | .inline _ :: ps => tails ps
  | .tail bs :: ps => bs :: tails ps

theorem tails_append (ps qs : List Part) : tails (ps ++ qs) = tails ps ++ tails qs := by
  induction ps with
  | nil => rfl
  | cons p ps ih =>
    cases p with
    | bit b => exact ih
    | inline bs => exact ih
    | tail bs => exact congrArg (bs :: ·) ih

/-- Where each of several byte strings starts if they follow each other from `start` on. -/
def startsFrom (start : Nat) : List Bytes → List Nat
  | [] => []
  | bs :: bss => start :: startsFrom (start + bs.length) bss

@[simp] theorem tailBytes_append (cs ds : List Cell) :
    tailBytes (cs ++ ds) = tailBytes cs ++ tailBytes ds := by
  simp [tailBytes]

@[simp] theorem tailBytes_flush (pending : List Bool) : tailBytes (flush pending) = [] := by
  cases pending <;> rfl

/-- Pending booleans stand in front of the cells without offsets of their own. -/
theorem offsets_flush_append (start : Nat) (pending : List Bool) (cs : List Cell) :
    offsets start (flush pending ++ cs) = offsets start cs := by
  cases pending <;> rfl

theorem tailBytes_cells (pending : List Bool) (ps : List Part) :
    tailBytes (cells pending ps) = (tails ps).flatten := by
  induction ps generalizing pending with
  | nil => exact tailBytes_flush pending
  | cons p ps ih =>
    cases p with
    | bit b =>
      rw [cells]
      split
      · exact ih _
      · exact ih []
    | inline bs =>
      rw [cells, tailBytes_append, tailBytes_flush]
      exact ih []
    | tail bs =>
      rw [cells, tailBytes_append, tailBytes_flush]
      show bs ++ tailBytes (cells [] ps) = bs ++ (tails ps).flatten
      rw [ih []]

theorem offsets_cells (start : Nat) (pending : List Bool) (ps : List Part) :
    offsets start (cells pending ps) = startsFrom start (tails ps) := by
  induction ps generalizing start pending with
  | nil => cases pending <;> rfl
  | cons p ps ih =>
    cases p with
    | bit b =>
      rw [cells]
      split
      · exact ih start _
      · exact ih start []
    | inline bs =>
      rw [cells, offsets_flush_append]
      exact ih start []
    | tail bs =>
      rw [cells, offsets_flush_append]
      show start :: offsets (start + bs.length) (cells [] ps) = _
      rw [ih]
      rfl

theorem add_mem_startsFrom {start o : Nat} {bss : List Bytes} (k : Nat)
    (h : o ∈ startsFrom start bss) : o + k ∈ startsFrom (start + k) bss := by
  induction bss generalizing start with
  | nil => cases h
  | cons bs bss ih =>
    rcases List.mem_cons.1 h with rfl | h
    · exact List.mem_cons_self ..
    · refine List.mem_cons_of_mem _ ?_
      rw [Nat.add_right_comm]
      exact ih h

/-- Byte strings that follow each other start no later than the last one ends. -/
theorem le_of_mem_startsFrom {start o : Nat} {bss : List Bytes} (h : o ∈ startsFrom start bss) :
    start ≤ o ∧ o ≤ start + bss.flatten.length := by
  induction bss generalizing start with
  | nil => simp [startsFrom] at h
  | cons bs bss ih =>
    rw [List.flatten_cons, List.length_append]
    rcases List.mem_cons.1 h with rfl | h
    · omega
    · have := ih h
      omega

/-! ## The head -/

/-- The bytes of a head with these slots, if the byte in front of it has room for `free` more
booleans. -/
def headSize (free : Nat) : List Slot → Nat
  | [] => 0
  | .bit :: ss =>
    match free with
    | 0 => 1 + headSize (Limits.boolsPerByte - 1) ss
    | free + 1 => headSize free ss
  | .inline n :: ss => n + headSize 0 ss
  | .offset :: ss => Limits.wordBytes + headSize 0 ss

/-- Room for more booleans never makes a head longer, and saves one byte at most. -/
theorem headSize_of_room (ss : List Slot) :
    (∀ a b, a ≤ b → headSize b ss ≤ headSize a ss) ∧
      ∀ a b, b ≤ Limits.boolsPerByte → headSize a ss ≤ headSize b ss + 1 := by
  induction ss with
  | nil => exact ⟨fun _ _ _ => Nat.le_refl 0, fun _ _ _ => Nat.zero_le 1⟩
  | cons s ss ih =>
    cases s with
    | inline n => exact ⟨fun _ _ _ => Nat.le_refl _, fun _ _ _ => Nat.le_succ _⟩
    | offset => exact ⟨fun _ _ _ => Nat.le_refl _, fun _ _ _ => Nat.le_succ _⟩
    | bit =>
      obtain ⟨hanti, hone⟩ := ih
      have hbyte : Limits.boolsPerByte - 1 ≤ Limits.boolsPerByte := Nat.sub_le _ _
      -- without room a byte is started, which leaves more room than is taken on the other side
      constructor
      · intro a b hab
        match a, b with
        | 0, 0 => exact Nat.le_refl _
        | 0, b + 1 =>
          rw [headSize, headSize, Nat.add_comm]
          exact hone b _ hbyte
        | a + 1, b + 1 => exact hanti a b (Nat.le_of_succ_le_succ hab)
      · intro a b hb
        match a, b with
        | 0, 0 => exact Nat.le_succ _
        | 0, b + 1 =>
          rw [headSize, headSize, Nat.add_comm]
          exact Nat.succ_le_succ (hanti b _ (Nat.le_sub_one_of_lt hb))
        | a + 1, 0 =>
          rw [headSize, headSize, Nat.add_comm 1]
          exact Nat.le_succ_of_le (hone a _ hbyte)
        | a + 1, b + 1 => exact hone a b (Nat.le_of_succ_le hb)

/-- With slots left out a head is no longer, although the booleans are packed anew. -/
theorem headSize_le_of_sublist {ss ts : List Slot} (h : ss.Sublist ts) (free : Nat) :
    headSize free ss ≤ headSize free ts := by
  induction h generalizing free with
  | slnil => exact Nat.le_refl _
  | @cons ss ts s h ih =>
    have hroom := headSize_of_room ss
    cases s with
    | bit =>
      cases free with
      | zero =>
        have hone := hroom.2 0 (Limits.boolsPerByte - 1) (Nat.sub_le _ _)
        rw [headSize, Nat.add_comm]
        exact Nat.le_trans hone (Nat.succ_le_succ (ih _))
      | succ free => exact Nat.le_trans (hroom.1 free _ (Nat.le_succ free)) (ih free)
    | inline n =>
      exact Nat.le_trans (hroom.1 0 free (Nat.zero_le _)) (Nat.le_add_left_of_le (ih 0))
    | offset =>
      exact Nat.le_trans (hroom.1 0 free (Nat.zero_le _)) (Nat.le_add_left_of_le (ih 0))
  | cons_cons s h ih =>
    cases s with
    | bit =>
      cases free with
      | zero => exact Nat.add_le_add_left (ih _) 1
      | succ free => exact ih free
    | inline n => exact Nat.add_le_add_left (ih 0) n
    | offset => exact Nat.add_le_add_left (ih 0) _

/-- The booleans that still find room in the byte of the pending ones. -/
def room : List Bool → Nat
  | [] => 0
  | b :: bs => Limits.boolsPerByte - (b :: bs).length

/-- The bytes that pending booleans take. -/
def flushSize : List Bool → Nat
  | [] => 0
  | _ :: _ => 1

theorem headLength_append (cs ds : List Cell) :
    headLength (cs ++ ds) = headLength cs + headLength ds := by
  induction cs with
  | nil => exact (Nat.zero_add _).symm
  | cons c cs ih => rw [List.cons_append, headLength, headLength, ih, Nat.add_assoc]

theorem headLength_flush (pending : List Bool) :
    headLength (flush pending) = flushSize pending := by
  cases pending <;> rfl

theorem headLength_cells {pending : List Bool} (hp : pending.length < Limits.boolsPerByte)
    (ps : List Part) :
    headLength (cells pending ps) =
      flushSize pending + headSize (room pending) (ps.map Part.slot) := by
  induction ps generalizing pending with
  | nil => rw [cells, headLength_flush]; rfl
  | cons p ps ih =>
    cases p with
    | bit b =>
      rw [cells, List.map_cons]
      cases pending with
      | nil =>
        rw [if_pos (by decide), ih (by simp [Limits.boolsPerByte])]
        simp [Part.slot, headSize, room, flushSize]
      | cons q qs =>
        have hroom : room (q :: qs) = (Limits.boolsPerByte - (qs.length + 2)) + 1 := by
          simp only [room, List.length_cons] at hp ⊢
          omega
        rw [hroom]
        split
        · rename_i hlt
          rw [ih (by simpa using hlt)]
          simp [Part.slot, headSize, room, flushSize, Nat.add_assoc]
        · rename_i hlt
          have hz : Limits.boolsPerByte - (qs.length + 2) = 0 := by
            simp only [List.length_cons] at hlt
            omega
          show 1 + headLength (cells [] ps) = _
          rw [ih (by decide), hz]
          simp [Part.slot, headSize, room, flushSize]
    | inline bs =>
      rw [cells, headLength_append, headLength_flush]
      show flushSize pending + (bs.length + headLength (cells [] ps)) = _
      rw [ih (by decide)]
      simp [Part.slot, headSize, room, flushSize]
    | tail bs =>
      rw [cells, headLength_append, headLength_flush]
      show flushSize pending + (Limits.wordBytes + headLength (cells [] ps)) = _
      rw [ih (by decide)]
      simp [Part.slot, headSize, room, flushSize]

/-- The head of a whole sequence. -/
theorem headLength_cells_nil (ps : List Part) :
    headLength (cells [] ps) = headSize 0 (ps.map Part.slot) := by
  rw [headLength_cells (by decide)]
  exact Nat.zero_add _

/-! ## Reading the head -/

/-- What the head says about the parts, if the first dynamic one starts at `start`. -/
def entries (start : Nat) : List Part → List Entry
  | [] => []
  | .bit b :: ps => .inline [boolByte b] :: entries start ps
  | .inline bs :: ps => .inline bs :: entries start ps
  | .tail bs :: ps => .start start :: entries (start + bs.length) ps

theorem starts_entries (start : Nat) (ps : List Part) :
    starts (entries start ps) = startsFrom start (tails ps) := by
  induction ps generalizing start with
  | nil => rfl
  | cons p ps ih =>
    cases p with
    | bit b => exact ih start
    | inline bs => exact ih start
    | tail bs => exact congrArg (start :: ·) (ih (start + bs.length))

theorem fill_entries (start : Nat) (ps : List Part) :
    fill (entries start ps) (tails ps) = ps.map Part.content := by
  induction ps generalizing start with
  | nil => rfl
  | cons p ps ih =>
    cases p with
    | bit b => exact congrArg ([boolByte b] :: ·) (ih start)
    | inline bs => exact congrArg (bs :: ·) (ih start)
    | tail bs => exact congrArg (bs :: ·) (ih (start + bs.length))

/-- The head of `cs` is read as what it says about `ps`, if `bits` are left of the byte in front. -/
def ReadsAs (bits : List Bool) (ps : List Part) (cs : List Cell) : Prop :=
  ∀ start rest, (∀ o ∈ startsFrom start (tails ps), o ≤ Limits.word) →
    readHead bits (ps.map Part.slot) (headBytes start cs ++ rest) = some (entries start ps, rest)

/-- The cells of `ps` behind pending booleans are read in step with them: without any, the head
is read from its first byte; otherwise the first byte holds the pending booleans and is gone, and
its other bits are still to be read. -/
def InStep (pending : List Bool) (ps : List Part) : Prop :=
  match pending with
  | [] => ReadsAs [] ps (cells [] ps)
  | _ :: _ => ∃ x cs, cells pending ps = .inline [x] :: cs ∧
      (unpack x).take pending.length = pending ∧ ReadsAs ((unpack x).drop pending.length) ps cs

theorem readsAs_inline (bits : List Bool) {bs : Bytes} {ps : List Part} {cs : List Cell}
    (h : ReadsAs [] ps cs) : ReadsAs bits (.inline bs :: ps) (.inline bs :: cs) := by
  intro start rest hb
  show readHead bits (.inline bs.length :: ps.map Part.slot) (bs ++ headBytes start cs ++ rest) = _
  rw [List.append_assoc, readHead, Bytes.takeExactly?_append]
  simp only [Option.bind_eq_bind, Option.bind_some]
  rw [h start rest hb]
  rfl

theorem readsAs_tail (bits : List Bool) {bs : Bytes} {ps : List Part} {cs : List Cell}
    (h : ReadsAs [] ps cs) : ReadsAs bits (.tail bs :: ps) (.tail bs :: cs) := by
  intro start rest hb
  have hstart : start ≤ Limits.word := hb start (List.mem_cons_self ..)
  have ht := Bytes.takeExactly?_append (Word.bytes start) (headBytes (start + bs.length) cs ++ rest)
  show readHead bits (.offset :: ps.map Part.slot)
    (Word.bytes start ++ headBytes (start + bs.length) cs ++ rest) = _
  rw [Word.length_bytes] at ht
  rw [List.append_assoc, readHead, Limits.wordBytes, ht]
  simp only [Option.bind_eq_bind, Option.bind_some]
  rw [h _ rest fun o ho => hb o (List.mem_cons_of_mem _ ho), Word.decode_bytes hstart]
  rfl

/-- A boolean that is left of the byte in front. -/
theorem readsAs_bit {b : Bool} {bits : List Bool} {ps : List Part} {cs : List Cell}
    (h : ReadsAs bits ps cs) : ReadsAs (b :: bits) (.bit b :: ps) cs := by
  intro start rest hb
  show readHead (b :: bits) (.bit :: ps.map Part.slot) (headBytes start cs ++ rest) = _
  rw [readHead]
  simp only [nextBit, Option.bind_eq_bind, Option.bind_some]
  rw [h start rest hb]
  rfl

/-- The first boolean of a run takes a new byte. -/
theorem readsAs_new_byte {x : UInt8} {b : Bool} {bits : List Bool} {ps : List Part}
    {cs : List Cell} (hx : unpack x = b :: bits) (h : ReadsAs bits ps cs) :
    ReadsAs [] (.bit b :: ps) (.inline [x] :: cs) := by
  intro start rest hb
  show readHead [] (.bit :: ps.map Part.slot) (x :: (headBytes start cs ++ rest)) = _
  rw [readHead]
  simp only [nextBit, hx, Option.bind_eq_bind, Option.bind_some]
  rw [h start rest hb]
  rfl

/-- The byte of pending booleans holds them in front. -/
theorem take_unpack_pack {bs : List Bool} (h : bs.length ≤ Limits.boolsPerByte) :
    (unpack (pack bs)).take bs.length = bs := by
  rw [unpack_pack h, List.take_append_of_le_length (Nat.le_refl _), List.take_length]

/-- Pending booleans are flushed in front of something else. -/
theorem inStep_flush {pending : List Bool} {ps : List Part} {cs : List Cell}
    (hp : pending.length < Limits.boolsPerByte) (hc : cells pending ps = flush pending ++ cs)
    (h : ∀ bits, ReadsAs bits ps cs) : InStep pending ps := by
  cases pending with
  | nil =>
    show ReadsAs [] ps (cells [] ps)
    rw [hc]
    exact h []
  | cons q qs => exact ⟨pack (q :: qs), cs, hc, take_unpack_pack (Nat.le_of_lt hp), h _⟩

/-- Taking one element more than `k` leaves the rest behind that element. -/
theorem take_drop_of_take_succ {xs ys : List Bool} {b : Bool}
    (h : xs.take (ys.length + 1) = ys ++ [b]) :
    xs.take ys.length = ys ∧ xs.drop ys.length = b :: xs.drop (ys.length + 1) := by
  have hx := List.take_append_drop (ys.length + 1) xs
  rw [h] at hx
  rw [← hx]
  constructor
  · simp
  · simp

theorem inStep_cells {pending : List Bool} (hp : pending.length < Limits.boolsPerByte)
    (ps : List Part) : InStep pending ps := by
  induction ps generalizing pending with
  | nil =>
    refine inStep_flush hp (List.append_nil _).symm fun bits start rest _ => ?_
    rfl
  | cons p ps ih =>
    have ih0 : ReadsAs [] ps (cells [] ps) := @ih [] (by decide)
    cases p with
    | inline bs =>
      exact inStep_flush hp rfl fun bits => readsAs_inline bits ih0
    | tail bs =>
      exact inStep_flush hp rfl fun bits => readsAs_tail bits ih0
    | bit b =>
      cases pending with
      | nil =>
        obtain ⟨x, cs, hc, ht, hr⟩ := @ih [b] (by simp [Limits.boolsPerByte])
        have hx : unpack x = b :: (unpack x).drop 1 := by
          simpa using (@take_drop_of_take_succ _ [] _ ht).2
        have hcells : cells [] (.bit b :: ps) = .inline [x] :: cs := by
          rw [← hc, cells, if_pos (by decide)]
          rfl
        show ReadsAs [] (.bit b :: ps) (cells [] (.bit b :: ps))
        rw [hcells]
        exact readsAs_new_byte hx hr
      | cons q qs =>
        by_cases hlt : (q :: qs).length + 1 < Limits.boolsPerByte
        · obtain ⟨x, cs, hc, ht, hr⟩ := @ih (q :: qs ++ [b]) (by simpa using hlt)
          rw [List.length_append, List.length_singleton] at ht hr
          obtain ⟨ht, hd⟩ := take_drop_of_take_succ ht
          refine ⟨x, cs, ?_, ht, ?_⟩
          · rw [cells, if_pos hlt]
            exact hc
          · rw [hd]
            exact readsAs_bit hr
        · have hlen : (q :: qs ++ [b]).length = Limits.boolsPerByte := by
            simp only [List.length_append, List.length_singleton]
            omega
          have ht := take_unpack_pack (Nat.le_of_eq hlen)
          rw [List.length_append, List.length_singleton] at ht
          obtain ⟨ht, hd⟩ := take_drop_of_take_succ ht
          refine ⟨pack (q :: qs ++ [b]), cells [] ps, ?_, ht, ?_⟩
          · rw [cells, if_neg hlt]
          · rw [hd, List.drop_eq_nil_of_le (by simp at hlen ⊢; omega)]
            exact readsAs_bit ih0

/-! ## Cutting the tail -/

/-- Byte strings that follow each other up to the end of the buffer pass the check. -/
theorem checkStarts_startsFrom {total low start : Nat} {bss : List Bytes} (hl : low ≤ start)
    (ht : start + bss.flatten.length ≤ total) :
    checkStarts total low (startsFrom start bss) = .ok () := by
  induction bss generalizing low start with
  | nil => rfl
  | cons bs bss ih =>
    rw [List.flatten_cons, List.length_append] at ht
    rw [startsFrom, checkStarts, if_neg (by omega)]
    exact ih (Nat.le_add_right _ _) (by omega)

theorem segments_startsFrom (start : Nat) (bs : Bytes) (bss : List Bytes) :
    segments start (startsFrom (start + bs.length) bss) (bs ++ bss.flatten) = bs :: bss := by
  induction bss generalizing start bs with
  | nil => simp [startsFrom, segments]
  | cons cs bss ih =>
    have hs : start + bs.length - start = bs.length := by omega
    rw [startsFrom, segments, hs, List.take_left, List.drop_left, List.flatten_cons, ih]

/-! ## The whole sequence -/

theorem assemble_eq_ok_iff_tails {ps : List Part} {bs : Bytes} :
    assemble ps = .ok bs ↔
      (∀ o ∈ startsFrom (headSize 0 (ps.map Part.slot)) (tails ps), o ≤ Limits.word) ∧
        bs = bytesOfCells (cells [] ps) := by
  rw [assemble_eq_ok_iff, offsets_cells, headLength_cells_nil]

theorem length_bytesOfCells_cells (ps : List Part) :
    (bytesOfCells (cells [] ps)).length =
      headSize 0 (ps.map Part.slot) + (tails ps).flatten.length := by
  rw [length_bytesOfCells, tailBytes_cells, headLength_cells_nil]

/-- An assembled sequence is as long as its head and all tails. -/
theorem length_of_assemble {ps : List Part} {bs : Bytes} (h : assemble ps = .ok bs) :
    bs.length = headSize 0 (ps.map Part.slot) + (tails ps).flatten.length := by
  rw [(assemble_eq_ok_iff.1 h).2, length_bytesOfCells_cells]

/-- Every offset lies within the sequence, so that a sequence no longer than a word can count is
always assembled. -/
theorem assemble_isOk_of_length_le {ps : List Part}
    (h : headSize 0 (ps.map Part.slot) + (tails ps).flatten.length ≤ Limits.word) :
    ∃ bs, assemble ps = .ok bs := by
  refine ⟨_, assemble_eq_ok_iff_tails.2 ⟨fun o ho => ?_, rfl⟩⟩
  exact Nat.le_trans (le_of_mem_startsFrom ho).2 h

/-- The head of an assembled sequence is read as what was assembled, and leaves all tails. -/
theorem readHead_of_assemble {ps : List Part} {bs : Bytes} (h : assemble ps = .ok bs) :
    readHead [] (ps.map Part.slot) bs =
      some (entries (headSize 0 (ps.map Part.slot)) ps, (tails ps).flatten) := by
  obtain ⟨hfit, rfl⟩ := assemble_eq_ok_iff_tails.1 h
  have hstep : ReadsAs [] ps (cells [] ps) := @inStep_cells [] (by decide) ps
  rw [bytesOfCells, headLength_cells_nil, tailBytes_cells]
  exact hstep _ _ hfit

/-- Splitting an assembled sequence gives back the content of every part. -/
theorem split_of_assemble {ps : List Part} {bs : Bytes} (h : assemble ps = .ok bs) :
    split (ps.map Part.slot) bs = .ok (ps.map Part.content) := by
  have hlen := length_of_assemble h
  have hread := readHead_of_assemble h
  have hhead : bs.length - (tails ps).flatten.length = headSize 0 (ps.map Part.slot) := by omega
  unfold split
  rw [hread]
  simp only [starts_entries, hhead]
  have hfill := fill_entries (headSize 0 (ps.map Part.slot)) ps
  cases ht : tails ps with
  | nil =>
    rw [ht] at hfill
    simp only [startsFrom, List.flatten_nil, List.isEmpty_nil, if_true, hfill]
  | cons t ts =>
    have hcheck := checkStarts_startsFrom (Nat.le_refl (headSize 0 (ps.map Part.slot)))
      (Nat.le_of_eq hlen.symm)
    rw [ht, startsFrom] at hcheck
    rw [ht] at hfill
    simp only [startsFrom, hcheck, Nat.sub_self, List.drop_zero, List.flatten_cons,
      segments_startsFrom, hfill, bind, Except.bind, pure, Except.pure]

/-! ## Without booleans and tails -/

theorem cells_inline (bss : List Bytes) : cells [] (bss.map .inline) = bss.map .inline := by
  induction bss with
  | nil => rfl
  | cons bs bss ih =>
    rw [List.map_cons, List.map_cons, cells, ih]
    rfl

theorem headBytes_inline (start : Nat) (bss : List Bytes) :
    headBytes start (bss.map .inline) = bss.flatten := by
  induction bss with
  | nil => rfl
  | cons bs bss ih => rw [List.map_cons, headBytes, ih, List.flatten_cons]

theorem tails_inline (bss : List Bytes) : tails (bss.map .inline) = [] := by
  induction bss with
  | nil => rfl
  | cons bs bss ih => exact ih

/-- Parts that stand in the head only follow each other. -/
theorem assemble_inline (bss : List Bytes) : assemble (bss.map .inline) = .ok bss.flatten := by
  have htail : tailBytes (bss.map .inline) = [] := by
    unfold tailBytes
    rw [List.flatMap_map]
    exact List.flatMap_eq_nil_iff.2 fun _ _ => rfl
  refine assemble_eq_ok_iff_tails.2 ⟨?_, ?_⟩
  · rw [tails_inline]
    exact nofun
  · rw [cells_inline, bytesOfCells, headBytes_inline, htail, List.append_nil]

/-- And are cut apart again. -/
theorem split_inline (bss : List Bytes) :
    split (bss.map fun bs => .inline bs.length) bss.flatten = .ok bss := by
  have h := split_of_assemble (assemble_inline bss)
  rw [List.map_map, List.map_map] at h
  exact h.trans (congrArg Except.ok (List.map_id _))

end Abi.Layout
