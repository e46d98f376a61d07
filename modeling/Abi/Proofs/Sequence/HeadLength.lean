/-
  The head of a sequence against the size of the tuple of its types.

  Writer and reader ask first whether a type is dynamic, and give it an offset if it is. The size of
  a tuple goes by the form of its items alone: it counts a text or a list as an offset, but a
  dynamic tuple, struct or array as the sum of its own items. So the two differ, and they differ by
  the dynamic items only, where each takes an offset in the one and its size in the other.

  * `headEnd_of_encode`: the head ends where the offsets show it to end.
  * `fixedSize_tuple_of_encode`: the size of the tuple is the length of the head with the sizes of
    the dynamic items in place of their offsets; it is that length itself only if these sum up to
    the same.
  * `not_fixedSize_eq_headEnd`: in general they do not.
-/
import Abi.Proofs.Sequence.Cuts
import Abi.Proofs.Ty.Size

namespace Abi

/-! ## Rows -/

namespace Ty

/-- Head and row are alike but for the dynamic types. -/
theorem exists_static_width (free : Nat) (ts : List Ty) :
    ∃ width,
      Layout.headSize free (ts.map slot) =
        Limits.wordBytes * (ts.filter isDynamic).length + width ∧
      Layout.headSize free (ts.map fun t => t.countedSlot t.fixedSize) =
        ((ts.filter isDynamic).map fixedSize).sum + width := by
  induction ts generalizing free with
  | nil => exact ⟨0, rfl, rfl⟩
  | cons t ts ih =>
    rw [List.map_cons, List.map_cons, countedSlot]
    by_cases hb : t.isBool = true
    · have hstatic : t.isDynamic = false := by rw [isBool_iff.1 hb]; rfl
      rw [List.filter_cons_of_neg (by simp [hstatic]), if_pos hb, slot_eq_bit_iff.2 hb]
      cases free with
      | zero =>
        obtain ⟨width, hhead, hrow⟩ := ih (Limits.boolsPerByte - 1)
        refine ⟨width + 1, ?_, ?_⟩
        · rw [Layout.headSize, hhead]
          omega
        · rw [Layout.headSize, hrow]
          omega
      | succ free => exact ih free
    · rw [if_neg hb]
      obtain ⟨width, hhead, hrow⟩ := ih 0
      cases hd : t.isDynamic with
      | true =>
        refine ⟨width, ?_, ?_⟩
        · rw [slot_eq_offset_iff.2 hd, Layout.headSize, hhead, List.filter_cons_of_pos hd,
            List.length_cons, Nat.mul_succ]
          omega
        · rw [Layout.headSize, hrow, List.filter_cons_of_pos hd, List.map_cons, List.sum_cons,
            Nat.add_assoc]
      | false =>
        have hskip : (t :: ts).filter isDynamic = ts.filter isDynamic :=
          List.filter_cons_of_neg (by simp [hd])
        refine ⟨t.fixedSize + width, ?_, ?_⟩
        · rw [slot_eq_inline (mt isBool_iff.2 hb) hd, Layout.headSize, hhead, hskip,
            Nat.add_left_comm]
        · rw [Layout.headSize, hrow, hskip, Nat.add_left_comm]

end Ty

namespace Sequence

open Layout (headWidth)

/-! ## Where the head ends -/

/-- Where the head of a buffer ends: at the first offset, or with the buffer if there is none. -/
def headEnd (ts : List Ty) (buffer : Bytes) : Nat :=
  match offsetsIn ts buffer with
  | [] => buffer.length
  | first :: _ => first

theorem headEnd_of_encode {vs : List Value} {bs : Bytes} (h : encode vs = .ok bs) :
    headEnd (vs.map (·.ty)) bs = headLength vs := by
  obtain ⟨ps, hp, ha⟩ := encode_eq_ok_iff.1 h
  have hr := Layout.readsHead_of_readHead (Layout.readHead_of_assemble ha)
  have hlen := length_of_encode h
  rw [Layout.headSize_eq_headWidth, headWidth_of_parts hp] at hr
  rw [Layout.headSize_eq_headWidth, ← headLength] at hlen
  unfold headEnd
  rw [offsetsIn_of_parts hp hr]
  cases hd : dynamicBytes vs with
  | nil => rw [Layout.startsFrom, hlen, hd, List.flatten_nil, List.length_nil, Nat.add_zero]
  | cons bs bss => rfl

/-- A dynamic value of any type takes an offset in the head, whatever stands around it. -/
theorem headLength_of_dynamic {v : Value} (hd : v.ty.isDynamic = true) (front back : List Value) :
    headLength (front ++ v :: back) = headLength front + Limits.wordBytes + headLength back := by
  have hslot := Ty.slot_eq_offset_iff.2 hd
  unfold headLength
  rw [List.map_append, List.map_cons, hslot,
    Layout.headWidth_append (Layout.apart_of_head (by simp) _), Layout.headWidth_cons (by decide),
    Nat.add_assoc]
  rfl

/-- The head of a sequence ends behind its values, each dynamic one of which takes an offset, and
the size of the tuple of their types counts the sizes of these in place of the offsets. So it is
the length of the head exactly if the sizes of the dynamic types sum up to their offsets. -/
theorem fixedSize_tuple_of_encode (vs : List Value) (bs : Bytes) (h : encode vs = .ok bs) :
    let ts := vs.map (·.ty)
    let offsets := Limits.wordBytes * (ts.filter Ty.isDynamic).length
    let sizes := ((ts.filter Ty.isDynamic).map Ty.fixedSize).sum
    headEnd ts bs = headLength vs ∧
      (∀ front v back, vs = front ++ v :: back → v.ty.isDynamic = true →
        headEnd ts bs = headLength front + Limits.wordBytes + headLength back) ∧
      offsets ≤ headEnd ts bs ∧
      (Ty.tuple ts).fixedSize = min (headEnd ts bs - offsets + sizes) Limits.size ∧
      (bs.length < Limits.size → ((Ty.tuple ts).fixedSize = headEnd ts bs ↔ sizes = offsets)) := by
  intro ts offsets sizes
  have hend : headEnd ts bs = headLength vs := headEnd_of_encode h
  obtain ⟨width, hhead, hrow⟩ := Ty.exists_static_width 0 ts
  have hwidth : headLength vs = offsets + width := by
    rw [← headWidth_of_types, ← Layout.headSize_eq_headWidth, hhead]
  have hsize : (Ty.tuple ts).fixedSize = min (sizes + width) Limits.size := by
    show Ty.sizeOfItems 0 ts = _
    rw [Ty.sizeOfItems_eq_headSize (fun _ _ => rfl), hrow]
  have hle : headLength vs ≤ bs.length := by
    rw [length_of_encode h, Layout.headSize_eq_headWidth]
    exact Nat.le_add_right _ _
  refine ⟨hend, ?_, by omega, by omega, fun _ => by omega⟩
  rintro front v back rfl hd
  rw [hend, headLength_of_dynamic hd]

/-- Three offsets and a byte of booleans are the head of these values. The tuple of their types is
larger, since it counts the integer of the inner tuple as well. -/
theorem fixedSize_tuple_of_encode_mixed :
    let pair : Ty := .tuple [.uint 64, .string]
    let vs : List Value := [⟨.bool, [0x80]⟩, ⟨.string, [0, 1, 97]⟩,
      ⟨pair, [0, 0, 0, 0, 0, 0, 0, 7, 0, 10, 0, 1, 98]⟩, ⟨.list .bool, [0, 1, 0x80]⟩]
    let bs : Bytes := [0x80, 0, 7, 0, 10, 0, 23, 0, 1, 97, 0, 0, 0, 0, 0, 0, 0, 7, 0, 10, 0, 1, 98,
      0, 1, 0x80]
    let ts := vs.map (·.ty)
    encode vs = .ok bs ∧ headLength vs = 7 ∧ headEnd ts bs = 7 ∧
      (Ty.tuple ts).fixedSize = 7 - 3 * 2 + (2 + 10 + 2) ∧
      (Ty.tuple ts).fixedSize ≠ headEnd ts bs := by
  intro pair vs bs ts
  have h : encode vs = .ok bs := by decide +kernel
  have hlength : headLength vs = 7 := by decide +kernel
  obtain ⟨hend, -, -, hsize, hiff⟩ := fixedSize_tuple_of_encode vs bs h
  have hne : ((ts.filter Ty.isDynamic).map Ty.fixedSize).sum ≠
      Limits.wordBytes * (ts.filter Ty.isDynamic).length := by decide +kernel
  refine ⟨h, hlength, hend.trans hlength, ?_, mt (hiff (by decide)).1 hne⟩
  rw [hsize, hend, hlength]
  decide +kernel

/-- The size of a tuple is not the length of the head: an item that is a dynamic tuple takes two
bytes there but counts ten, and an array of no texts, which is dynamic as well, counts none. -/
theorem not_fixedSize_eq_headEnd :
    let pair : Ty := .tuple [.uint 64, .string]
    let none : Ty := .array .string 0
    let bs : Bytes := [0, 2, 0, 0, 0, 0, 0, 0, 0, 1, 0, 10, 0, 1, 97]
    (encode [⟨pair, bs.drop 2⟩] = .ok bs ∧ headEnd [pair] bs = 2 ∧
        (Ty.tuple [pair]).fixedSize = 10) ∧
      (encode [⟨none, []⟩] = .ok [0, 2] ∧ headEnd [none] [0, 2] = 2 ∧
        (Ty.tuple [none]).fixedSize = 0) ∧
      ¬ ∀ (vs : List Value) (bs : Bytes), encode vs = .ok bs →
        headEnd (vs.map (·.ty)) bs = (Ty.tuple (vs.map (·.ty))).fixedSize := by
  intro pair none bs
  have hpair : encode [⟨pair, bs.drop 2⟩] = .ok bs := by decide +kernel
  have hnone : encode [⟨none, []⟩] = .ok [0, 2] := by decide +kernel
  refine ⟨⟨hpair, by decide +kernel, by decide +kernel⟩,
    ⟨hnone, by decide +kernel, by decide +kernel⟩, fun hall => ?_⟩
  have hne : headEnd [pair] bs ≠ (Ty.tuple [pair]).fixedSize := by decide +kernel
  exact hne (hall _ _ hpair)

end Sequence

end Abi
