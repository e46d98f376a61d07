/-
  Writing again the values that were read from a buffer.

  The reader passes over two things: the bytes between the head and the first dynamic value
  (`gapLength`), and the bits behind a run of booleans. The writer makes neither. So the values of
  every buffer that is read are written again, with all offsets moved down by the length of the
  gap, and what is written differs from the buffer in these two respects only.

  * `gapLength_of_parts`: what stands behind the head is the gap that the offsets show.
  * `exists_encode_of_decode`: values that were read are always written, in bytes without the gap
    from which the same values are read; these are the bytes of the buffer exactly if nothing was
    passed over.
-/
import Abi.Proofs.Sequence.Cuts

namespace Abi.Sequence

open Layout (Clear Part ReadsHead headWidth)

/-- The number of bytes between the head and the first dynamic value; none without dynamic
values. -/
def gapLength (ts : List Ty) (buffer : Bytes) : Nat :=
  match offsetsIn ts buffer with
  | [] => 0
  | first :: _ => first - headWidth (ts.map Ty.slot)

section

variable {ts : List Ty} {buffer gap c : Bytes} {vs : List Value} {ps : List Part}

theorem gapLength_of_parts (hp : vs.mapM Value.part = .ok ps)
    (hgap : dynamicBytes vs = [] → gap = [])
    (hr : ReadsHead (gap ++ (dynamicBytes vs).flatten) [] (ps.map Part.slot) buffer
      (Layout.entries (headLength vs + gap.length) ps)) :
    gapLength (vs.map (·.ty)) buffer = gap.length := by
  unfold gapLength
  rw [offsetsIn_of_parts hp hr, headWidth_of_types]
  cases hd : dynamicBytes vs with
  | nil =>
    rw [hgap hd]
    rfl
  | cons bs bss => exact Nat.add_sub_cancel_left _ _

/-- Values that were read are written, and read again as they are. -/
theorem encode_isOk_of_decode (h : decode ts buffer = .ok vs) :
    ∃ c, encode vs = .ok c ∧ decode ts c = .ok vs := by
  obtain ⟨rfl, hn, ps, gap, hp, -, hr⟩ := exists_parts_of_decode h
  rw [← headWidth_of_parts hp, ← tails_of_parts hp] at hr
  have hc := encode_eq_ok_iff.2 ⟨ps, hp, hr.assemble⟩
  have hd := decode_of_encode hc
  rw [List.map_congr_left hn, List.map_id'] at hd
  exact ⟨_, hc, hd⟩

/-- They are written without the gap. -/
theorem length_add_gapLength (h : decode ts buffer = .ok vs) (hc : encode vs = .ok c) :
    c.length + gapLength ts buffer = buffer.length := by
  obtain ⟨rfl, _, ps, gap, hp, hgap, hr⟩ := exists_parts_of_decode h
  have hlen := hr.headWidth_add_length
  rw [headWidth_of_parts hp, List.length_append] at hlen
  rw [gapLength_of_parts hp hgap hr, length_of_encode hc, Layout.headSize_eq_headWidth,
    ← headLength]
  omega

/-- They are written as the buffer exactly if nothing in it was passed over. -/
theorem eq_buffer_iff (h : decode ts buffer = .ok vs) (hc : encode vs = .ok c) :
    c = buffer ↔ gapLength ts buffer = 0 ∧ Clear (ts.map Ty.slot) buffer := by
  obtain ⟨rfl, _, ps, gap, hp, hgap, hr⟩ := exists_parts_of_decode h
  rw [gapLength_of_parts hp hgap hr, List.length_eq_zero_iff, map_slot_types_of_parts hp]
  rw [← headWidth_of_parts hp, ← tails_of_parts hp] at hr
  rw [← tails_of_parts hp] at hgap
  have hwritten := encode_eq_ok_iff.2 ⟨ps, hp, hr.assemble⟩
  obtain rfl := Except.ok.inj (hc.symm.trans hwritten)
  rw [← hr.tight_iff hgap, ← hr.gapless_iff_eq_nil hgap]
  exact ⟨fun ht => ⟨ht.gapless, ht.clear⟩, fun ht => ⟨ht.1, ht.2⟩⟩

end

/-- The values of a buffer are always written again, without the gap behind its head, and read
again as they are. They are written as the buffer exactly if it has no gap and the bits behind its
runs of booleans are clear. -/
theorem exists_encode_of_decode (ts : List Ty) (buffer : Bytes) (vs : List Value)
    (h : decode ts buffer = .ok vs) :
    ∃ c, encode vs = .ok c ∧ decode ts c = .ok vs ∧
      c.length + gapLength ts buffer = buffer.length ∧
      (c = buffer ↔ gapLength ts buffer = 0 ∧ Clear (ts.map Ty.slot) buffer) := by
  obtain ⟨c, hc, hd⟩ := encode_isOk_of_decode h
  exact ⟨c, hc, hd, length_add_gapLength h hc, eq_buffer_iff h hc⟩

/-- Two bytes between the head and the first text are left out, and so is the last bit of the first
byte, which no boolean takes. What is written instead is written again as it is. -/
theorem exists_encode_of_decode_mixed :
    let ts : List Ty := [.bool, .string, .uint 16, .bool, .string]
    let buffer : Bytes := [0x81, 0, 10, 1, 2, 0x80, 0, 13, 0xee, 0xee, 0, 1, 97, 0, 0]
    let vs : List Value := [⟨.bool, [0x80]⟩, ⟨.string, [0, 1, 97]⟩, ⟨.uint 16, [1, 2]⟩,
      ⟨.bool, [0x80]⟩, ⟨.string, [0, 0]⟩]
    let c : Bytes := [0x80, 0, 8, 1, 2, 0x80, 0, 11, 0, 1, 97, 0, 0]
    decode ts buffer = .ok vs ∧ gapLength ts buffer = 2 ∧ encode vs = .ok c ∧
      c.length + gapLength ts buffer = buffer.length ∧ decode ts c = .ok vs ∧
      gapLength ts c = 0 ∧ Clear (ts.map Ty.slot) c := by
  intro ts buffer vs c
  have hsplit : Layout.split (ts.map Ty.slot) buffer = .ok (vs.map (·.bytes)) := by decide +kernel
  have h : decode ts buffer = .ok vs := Outcome.bind_eq_ok_iff.2 ⟨_, hsplit, rfl⟩
  have hwritten : encode vs = .ok c := by rfl
  obtain ⟨c', hc, hd, hlen, _⟩ := exists_encode_of_decode ts buffer vs h
  obtain rfl := Except.ok.inj (hwritten.symm.trans hc)
  obtain ⟨c', hc', _, _, hiff⟩ := exists_encode_of_decode ts c vs hd
  obtain ⟨hnone, hclear⟩ := hiff.1 (Except.ok.inj (hc'.symm.trans hwritten))
  exact ⟨h, by decide +kernel, hwritten, hlen, hd, hnone, hclear⟩

end Abi.Sequence
