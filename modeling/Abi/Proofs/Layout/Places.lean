/-
  What stands at each place of an assembled sequence.

  The head of a row of parts is cut wherever no run of booleans goes on, and so every part stands
  behind the width of the parts in front of it. The bytes of a run are not written out: they are
  known by their bits, the booleans of the run and fewer than eight clear ones (`bits_headOf_run`).

  * `headOf_append`: the head of two rows, and where the tail of the second one starts.
  * `bitAt_headOf`: the booleans of a run, and the clear bits behind them.
  * `bytesOfCells_eq`: the whole sequence is its head and the dynamic parts.
-/
import Abi.Proofs.Layout.Head

namespace Abi.Layout

/-! ## Cells -/

theorem cells_append_of_head {qs : List Part} (h : ∀ s ∈ (qs.map Part.slot).head?, s ≠ .bit)
    (pending : List Bool) (ps : List Part) :
    cells pending (ps ++ qs) = cells pending ps ++ cells [] qs := by
  induction ps generalizing pending with
  | nil =>
    cases qs with
    | nil => exact (List.append_nil _).symm
    | cons q qs =>
      cases q with
      | bit b => exact absurd rfl (h .bit rfl)
      | inline bs => rfl
      | tail bs => rfl
  | cons p ps ih =>
    cases p with
    | bit b =>
      rw [List.cons_append, cells, cells]
      split
      · exact ih _
      · rw [ih, List.cons_append]
    | inline bs => rw [List.cons_append, cells, cells, ih, List.append_assoc, List.cons_append]
    | tail bs => rw [List.cons_append, cells, cells, ih, List.append_assoc, List.cons_append]

/-- What is packed does not depend on its neighbours unless a run goes on. -/
theorem cells_append {ps qs : List Part} (h : Apart (ps.map Part.slot) (qs.map Part.slot)) :
    cells [] (ps ++ qs) = cells [] ps ++ cells [] qs := by
  rcases h.cases with hq | hp | ⟨rs, s, hp, hs⟩
  · exact cells_append_of_head hq [] ps
  · rw [List.map_eq_nil_iff.1 hp]
    rfl
  · obtain ⟨ps, p, rfl, -, hp⟩ := List.map_eq_append_iff.1 hp
    obtain ⟨p, rfl, rfl⟩ := List.map_eq_singleton_iff.1 hp
    have hhead : ∀ rs, ∀ t ∈ ((p :: rs).map Part.slot).head?, t ≠ .bit := by
      intro rs t ht
      obtain rfl : p.slot = t := by simpa using ht
      exact hs
    rw [List.append_assoc, List.singleton_append, cells_append_of_head (hhead qs),
      cells_append_of_head (hhead []), List.append_assoc]
    cases p with
    | bit b => exact absurd rfl hs
    | inline bs => rfl
    | tail bs => rfl

/-- A run is packed into bytes whose bits are its booleans, and clear behind them. -/
theorem cells_run {pending : List Bool} (hp : pending.length < Limits.boolsPerByte)
    (bs : List Bool) :
    ∃ packed clear, cells pending (bs.map .bit) = packed.map (fun x => .inline [x]) ∧
      clear < Limits.boolsPerByte ∧ bits packed = pending ++ bs ++ List.replicate clear false := by
  induction bs generalizing pending with
  | nil =>
    cases pending with
    | nil => exact ⟨[], 0, rfl, by decide, rfl⟩
    | cons q qs =>
      refine ⟨[pack (q :: qs)], Limits.boolsPerByte - (q :: qs).length, rfl, ?_, ?_⟩
      · simp only [Limits.boolsPerByte, List.length_cons]
        omega
      · rw [bits_cons, bits_nil, List.append_nil, List.append_nil, unpack_pack (Nat.le_of_lt hp)]
  | cons b bs ih =>
    have hassoc : ∀ cs, pending ++ b :: bs ++ cs = pending ++ [b] ++ (bs ++ cs) := by simp
    rw [List.map_cons, cells]
    split
    · rename_i hlt
      obtain ⟨packed, clear, hc, hl, hb⟩ := @ih (pending ++ [b]) (by simpa using hlt)
      exact ⟨packed, clear, hc, hl, by rw [hb, hassoc, List.append_assoc]⟩
    · rename_i hge
      have hfull : (pending ++ [b]).length = Limits.boolsPerByte := by
        rw [List.length_append, List.length_singleton]
        omega
      obtain ⟨packed, clear, hc, hl, hb⟩ := @ih [] (by decide)
      refine ⟨pack (pending ++ [b]) :: packed, clear, ?_, hl, ?_⟩
      · rw [hc, List.map_cons]
      · rw [bits_cons, hb, unpack_pack (Nat.le_of_eq hfull), hfull, Nat.sub_self,
          List.replicate_zero, List.append_nil, hassoc, List.nil_append]

/-! ## Heads -/

theorem headBytes_append (start : Nat) (cs ds : List Cell) :
    headBytes start (cs ++ ds) =
      headBytes start cs ++ headBytes (start + (tailBytes cs).length) ds := by
  induction cs generalizing start with
  | nil => rfl
  | cons c cs ih =>
    cases c with
    | inline bs => rw [List.cons_append, headBytes, headBytes, ih, List.append_assoc]; rfl
    | tail bs =>
      have htail : tailBytes (.tail bs :: cs) = bs ++ tailBytes cs := rfl
      rw [List.cons_append, headBytes, headBytes, ih, List.append_assoc, htail, List.length_append,
        Nat.add_assoc]

/-- The head of parts, if the first dynamic one starts at `start`. -/
def headOf (start : Nat) (ps : List Part) : Bytes := headBytes start (cells [] ps)

theorem headOf_append {ps qs : List Part} (h : Apart (ps.map Part.slot) (qs.map Part.slot))
    (start : Nat) :
    headOf start (ps ++ qs) =
      headOf start ps ++ headOf (start + (tails ps).flatten.length) qs := by
  unfold headOf
  rw [cells_append h, headBytes_append, tailBytes_cells]

theorem headOf_inline (start : Nat) (bs : Bytes) (ps : List Part) :
    headOf start (.inline bs :: ps) = bs ++ headOf start ps := rfl

theorem headOf_tail (start : Nat) (bs : Bytes) (ps : List Part) :
    headOf start (.tail bs :: ps) = Word.bytes start ++ headOf (start + bs.length) ps := rfl

theorem length_headOf (start : Nat) (ps : List Part) :
    (headOf start ps).length = headWidth (ps.map Part.slot) := by
  rw [headOf, length_headBytes, headLength_cells_nil, headSize_eq_headWidth]

theorem map_slot_bit (bs : List Bool) :
    (bs.map Part.bit).map Part.slot = List.replicate bs.length .bit := by
  rw [List.map_map, ← List.map_const']
  rfl

/-- The bytes of a run hold its booleans in front of fewer than eight clear bits. -/
theorem bits_headOf_run (start : Nat) (bs : List Bool) :
    ∃ clear < Limits.boolsPerByte,
      bits (headOf start (bs.map .bit)) = bs ++ List.replicate clear false := by
  obtain ⟨packed, clear, hc, hl, hb⟩ := @cells_run [] (by decide) bs
  have hcells : packed.map (fun x => Cell.inline [x]) = (packed.map fun x => [x]).map .inline := by
    rw [List.map_map]
    rfl
  refine ⟨clear, hl, ?_⟩
  rw [headOf, hc, hcells, headBytes_inline, ← List.flatMap_def, List.flatMap_singleton', hb]
  rfl

/-- Behind the width of the parts in front stands the head of the rest. -/
theorem drop_headOf {ps qs : List Part} (h : Apart (ps.map Part.slot) (qs.map Part.slot))
    (start : Nat) :
    (headOf start (ps ++ qs)).drop (headWidth (ps.map Part.slot)) =
      headOf (start + (tails ps).flatten.length) qs := by
  rw [headOf_append h, List.drop_left' (length_headOf start ps)]

/-! ## Places -/

variable {pre post : List Part}

theorem getD_append_clear (bs : List Bool) (clear j : Nat) :
    (bs ++ List.replicate clear false).getD j false = bs.getD j false := by
  by_cases hj : j < bs.length
  · rw [List.getD_append _ _ _ _ hj]
  · rw [List.getD_append_right _ _ _ _ (by omega), List.getD_eq_default bs false (by omega),
      List.getD_eq_getElem?_getD, List.getElem?_getD_replicate_default_eq]

/-- A run of booleans and the clear bits of its last byte, bit by bit. -/
theorem bitAt_headOf {bs : List Bool}
    (hrun : MaximalRun (· = Slot.bit) (pre.map Part.slot) ((bs.map Part.bit).map Part.slot)
      (post.map Part.slot))
    (start : Nat) {j : Nat} (hj : j < 8 * packedBytes bs.length) :
    bitAt (headOf start (pre ++ (bs.map .bit ++ post))) (headWidth (pre.map Part.slot) + j / 8)
      (7 - j % 8) = bs.getD j false := by
  obtain ⟨clear, _, hb⟩ := bits_headOf_run (start + (tails pre).flatten.length) bs
  have hlen : (bits (headOf (start + (tails pre).flatten.length) (bs.map .bit))).length =
      8 * packedBytes bs.length := by
    rw [length_bits, length_headOf, map_slot_bit, headWidth_run]
  rw [← bitAt_drop, drop_headOf (apart_of_getLast hrun.before _),
    headOf_append (apart_of_head hrun.after _), bitAt_eq_getD_bits, bits_append,
    List.getD_append _ _ _ _ (by omega), hb]
  exact getD_append_clear bs clear j

/-- An inline part stands behind what is in front of it. -/
theorem inline_prefix_headOf (start : Nat) (bs : Bytes) :
    bs <+: (headOf start (pre ++ .inline bs :: post)).drop (headWidth (pre.map Part.slot)) := by
  rw [drop_headOf (apart_of_head (by simp [Part.slot]) _), headOf_inline]
  exact List.prefix_append _ _

/-- The offset of a dynamic part stands behind what is in front of it. -/
theorem offset_prefix_headOf (start : Nat) (bs : Bytes) :
    Word.bytes (start + (tails pre).flatten.length) <+:
      (headOf start (pre ++ .tail bs :: post)).drop (headWidth (pre.map Part.slot)) := by
  rw [drop_headOf (apart_of_head (by simp [Part.slot]) _), headOf_tail]
  exact List.prefix_append _ _

/-- A dynamic part stands where the dynamic parts in front of it end. -/
theorem tail_prefix_flatten (bs : Bytes) :
    bs <+: (tails (pre ++ .tail bs :: post)).flatten.drop (tails pre).flatten.length := by
  rw [tails_append, List.flatten_append, List.drop_left]
  exact List.prefix_append _ _

/-! ## The whole sequence -/

theorem bytesOfCells_eq (ps : List Part) :
    bytesOfCells (cells [] ps) =
      headOf (headWidth (ps.map Part.slot)) ps ++ (tails ps).flatten := by
  rw [bytesOfCells, tailBytes_cells, headLength_cells_nil, headSize_eq_headWidth]
  rfl

/-- A sequence is not written if some offset is too large for a word; such an offset is named. -/
theorem assemble_eq_error {ps : List Part} {o : Nat}
    (ho : o ∈ startsFrom (headWidth (ps.map Part.slot)) (tails ps)) (hlt : Limits.word < o) :
    ∃ o, Limits.word < o ∧ assemble ps = .error (.oversize (.word o)) := by
  rw [← headSize_eq_headWidth, ← headLength_cells_nil, ← offsets_cells _ []] at ho
  simp only [assemble]
  split
  · rename_i q hq
    exact ⟨q, by simpa using List.find?_some hq, rfl⟩
  · rename_i hnone
    have := List.find?_eq_none.1 hnone o ho
    exact absurd hlt (by simpa using this)

/-- Nothing but an offset keeps a sequence from being written. -/
theorem oversize_of_assemble {ps : List Part} {e : Error} (h : assemble ps = .error e) :
    ∃ o, e = .oversize (.word o) := by
  simp only [assemble] at h
  split at h
  · cases h
    exact ⟨_, rfl⟩
  · cases h

end Abi.Layout
