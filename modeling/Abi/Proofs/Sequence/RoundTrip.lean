/-
  Sequences of values: reading undoes writing, whatever bytes the values hold.

  The types decide the slots of a sequence and the values its parts, so the laws of the layout
  carry over (`part_eq_ok_iff`). Nothing is asked of the bytes of a dynamic value; an inline value
  has the length of its type, or else it is not written.

  * `decode_of_encode`: every value comes back in its place, normalised.
  * `decode_restores`: the same, item by item.
  * `length_of_encode`: head and dynamic values make up the length.
-/
import Abi.Proofs.Layout.RoundTrip
import Abi.Proofs.Outcome
import Abi.Proofs.Ty.Components

namespace Abi

/-! ## Values -/

theorem Layout.boolByte_eq_trueByte_iff {b : Bool} : boolByte b = Limits.trueByte ↔ b = true := by
  cases b <;> decide

/-- The value as a sequence gives it back: a boolean is true if its byte is the one of true and
false otherwise, any other value keeps its bytes. -/
def Value.normal (v : Value) : Value :=
  if v.ty.isBool then ⟨v.ty, [Layout.boolByte (v.bytes = [Limits.trueByte])]⟩ else v

@[simp] theorem Value.ty_normal (v : Value) : v.normal.ty = v.ty := by
  unfold Value.normal
  split <;> rfl

theorem Value.normal_of_not_bool {v : Value} (h : v.ty.isBool = false) : v.normal = v := by
  unfold Value.normal
  rw [h]
  rfl

/-- A value comes back with its type and, unless it is a boolean, with its bytes; a boolean comes
back as true exactly if its byte was the one of true. -/
structure Value.ComesBackAs (v w : Value) : Prop where
  ty : w.ty = v.ty
  bytes : v.ty ≠ .bool → w.bytes = v.bytes
  truth : v.ty = .bool →
    w.bytes = if v.bytes = [Limits.trueByte] then [Limits.trueByte] else [Limits.falseByte]

theorem Value.comesBackAs_normal (v : Value) : v.ComesBackAs v.normal where
  ty := v.ty_normal
  bytes hb := by rw [normal_of_not_bool (by simpa using mt Ty.isBool_iff.1 hb)]
  truth hb := by
    unfold normal Layout.boolByte
    rw [if_pos (Ty.isBool_iff.2 hb)]
    by_cases h : v.bytes = [Limits.trueByte]
    · simp [h]
    · simp [h]

theorem Ty.slot_eq_bit_iff {t : Ty} : t.slot = .bit ↔ t.isBool = true := by
  unfold Ty.slot
  split
  · simp [*]
  · split <;> simp [*]

/-- What a value is written as: a boolean has one byte, an inline value as many as its type asks
for, and a dynamic value any. -/
theorem Value.part_eq_ok_iff {v : Value} {p : Layout.Part} :
    v.part = .ok p ↔
      (v.ty.slot = .bit ∧ ∃ b, v.bytes = [b] ∧ p = .bit (b = Limits.trueByte)) ∨
      (v.ty.slot = .offset ∧ p = .tail v.bytes) ∨
      (v.ty.slot = .inline v.bytes.length ∧ p = .inline v.bytes) := by
  unfold Value.part
  cases hs : v.ty.slot with
  | bit =>
    cases hb : v.bytes with
    | nil => simp [Scalar.readBool, Except.map]
    | cons b bs => cases bs <;> simp [Scalar.readBool, Except.map, eq_comm]
  | offset => simp [eq_comm]
  | inline n =>
    simp only [reduceCtorEq, false_and, false_or, Layout.Slot.inline.injEq]
    split
    · simp [*, eq_comm]
    · simp only [reduceCtorEq, false_iff, not_and]
      intro h
      exact absurd h.symm ‹_›

theorem Value.slot_of_part {v : Value} {p : Layout.Part} (h : v.part = .ok p) :
    p.slot = v.ty.slot := by
  rcases part_eq_ok_iff.1 h with ⟨hs, b, _, rfl⟩ | ⟨hs, rfl⟩ | ⟨hs, rfl⟩
  · exact hs.symm
  · exact hs.symm
  · exact hs.symm

/-- A part comes back as the bytes of the normalised value. -/
theorem Value.content_of_part {v : Value} {p : Layout.Part} (h : v.part = .ok p) :
    p.content = v.normal.bytes := by
  rcases part_eq_ok_iff.1 h with ⟨hs, b, hb, rfl⟩ | ⟨hs, rfl⟩ | ⟨hs, rfl⟩
  · rw [Value.normal, if_pos (Ty.slot_eq_bit_iff.1 hs), hb]
    simp [Layout.Part.content]
  · rw [normal_of_not_bool]
    · rfl
    · simpa [hs] using mt (@Ty.slot_eq_bit_iff v.ty).2
  · rw [normal_of_not_bool]
    · rfl
    · simpa [hs] using mt (@Ty.slot_eq_bit_iff v.ty).2

namespace Sequence

theorem map_slot_of_parts {vs : List Value} {ps : List Layout.Part}
    (h : vs.mapM Value.part = .ok ps) : ps.map Layout.Part.slot = vs.map (·.ty.slot) :=
  Outcome.map_eq_of_mapM (fun _ _ _ hp => Value.slot_of_part hp) h

theorem map_content_of_parts {vs : List Value} {ps : List Layout.Part}
    (h : vs.mapM Value.part = .ok ps) :
    ps.map Layout.Part.content = vs.map (·.normal.bytes) :=
  Outcome.map_eq_of_mapM (fun _ _ _ hp => Value.content_of_part hp) h

theorem encode_eq_ok_iff {vs : List Value} {bs : Bytes} :
    encode vs = .ok bs ↔
      ∃ ps, vs.mapM Value.part = .ok ps ∧ Layout.assemble ps = .ok bs :=
  Outcome.bind_eq_ok_iff

/-- The values of a sequence have the types that were asked for. -/
theorem ty_mem_of_decode {ts : List Ty} {bs : Bytes} {vs : List Value} (h : decode ts bs = .ok vs)
    {v : Value} (hv : v ∈ vs) : v.ty ∈ ts := by
  obtain ⟨children, _, h⟩ := Outcome.bind_eq_ok_iff.1 h
  cases h
  rw [← List.map_uncurry_zip_eq_zipWith] at hv
  obtain ⟨⟨t, bs⟩, hm, rfl⟩ := List.mem_map.1 hv
  exact (List.of_mem_zip hm).1

/-- The bytes of the children, in terms of their slots. -/
theorem split_of_encode {vs : List Value} {bs : Bytes} (h : encode vs = .ok bs) :
    Layout.split (vs.map (·.ty.slot)) bs = .ok (vs.map (·.normal.bytes)) := by
  obtain ⟨ps, hp, ha⟩ := encode_eq_ok_iff.1 h
  rw [← map_slot_of_parts hp, ← map_content_of_parts hp]
  exact Layout.split_of_assemble ha

/-- What was written is read back as the same values, normalised. -/
theorem decode_of_encode {vs : List Value} {bs : Bytes} (h : encode vs = .ok bs) :
    decode (vs.map (·.ty)) bs = .ok (vs.map Value.normal) := by
  unfold decode
  rw [List.map_map]
  have hs := split_of_encode h
  have hz : List.zipWith Value.mk (vs.map (·.ty)) (vs.map (·.normal.bytes)) =
      vs.map Value.normal := by
    rw [List.zipWith_map, List.zipWith_self]
    refine List.map_congr_left fun v _ => ?_
    rw [← Value.ty_normal]
  show (Layout.split (vs.map (·.ty.slot)) bs >>= _) = _
  rw [hs]
  exact congrArg Except.ok hz

/-- What was written is read back: as many values, in the same order, each as its counterpart
comes back. -/
theorem decode_restores (vs : List Value) (bs : Bytes) (h : encode vs = .ok bs) :
    ∃ ws, decode (vs.map (·.ty)) bs = .ok ws ∧ List.Forall₂ Value.ComesBackAs vs ws := by
  refine ⟨_, decode_of_encode h, ?_⟩
  rw [List.forall₂_map_right_iff, List.forall₂_same]
  exact fun v _ => v.comesBackAs_normal

/-- A malformed text between booleans, a byte that is not one of a boolean's two, and an empty
text at the end. -/
theorem decode_restores_mixed :
    encode [⟨.bool, [0x80]⟩, ⟨.bool, [0x01]⟩, ⟨.string, [0xff]⟩, ⟨.uint 16, [1, 2]⟩, ⟨.string, []⟩] =
        .ok [0x80, 0, 7, 1, 2, 0, 8, 0xff] ∧
      ∃ ws, decode [.bool, .bool, .string, .uint 16, .string] [0x80, 0, 7, 1, 2, 0, 8, 0xff] =
          .ok ws ∧
        List.Forall₂ Value.ComesBackAs [⟨.bool, [0x80]⟩, ⟨.bool, [0x01]⟩, ⟨.string, [0xff]⟩,
          ⟨.uint 16, [1, 2]⟩, ⟨.string, []⟩] ws :=
  ⟨by rfl, decode_restores
    [⟨.bool, [0x80]⟩, ⟨.bool, [0x01]⟩, ⟨.string, [0xff]⟩, ⟨.uint 16, [1, 2]⟩, ⟨.string, []⟩]
    [0x80, 0, 7, 1, 2, 0, 8, 0xff] (by rfl)⟩

/-! ## Lengths -/

/-- The bytes of the values that stand in the tail. -/
def dynamicBytes (vs : List Value) : List Bytes :=
  (vs.filter (·.ty.slot = .offset)).map (·.bytes)

theorem tails_of_parts {vs : List Value} {ps : List Layout.Part}
    (h : vs.mapM Value.part = .ok ps) : Layout.tails ps = dynamicBytes vs := by
  rw [Outcome.mapM_eq_ok_iff] at h
  unfold dynamicBytes
  induction h with
  | nil => rfl
  | @cons v p vs ps hp _ ih =>
    rcases Value.part_eq_ok_iff.1 hp with ⟨hs, b, _, rfl⟩ | ⟨hs, rfl⟩ | ⟨hs, rfl⟩
    · rw [Layout.tails, ih, List.filter_cons_of_neg (by simp [hs])]
    · rw [Layout.tails, ih, List.filter_cons_of_pos (by simp [hs]), List.map_cons]
    · rw [Layout.tails, ih, List.filter_cons_of_neg (by simp [hs])]

/-- A sequence is as long as its head and its dynamic values. -/
theorem length_of_encode {vs : List Value} {bs : Bytes} (h : encode vs = .ok bs) :
    bs.length = Layout.headSize 0 (vs.map (·.ty.slot)) + (dynamicBytes vs).flatten.length := by
  obtain ⟨ps, hp, ha⟩ := encode_eq_ok_iff.1 h
  rw [Layout.length_of_assemble ha, map_slot_of_parts hp, tails_of_parts hp]

/-! ## Without booleans and dynamic values -/

theorem parts_of_inline {vs : List Value} {ps : List Layout.Part}
    (hv : ∀ v ∈ vs, v.ty.slot ≠ .bit ∧ v.ty.slot ≠ .offset) (h : vs.mapM Value.part = .ok ps) :
    ps = (vs.map (·.bytes)).map .inline := by
  rw [Outcome.mapM_eq_ok_iff] at h
  induction h with
  | nil => rfl
  | @cons v p vs ps hp _ ih =>
    obtain ⟨hbit, hoffset⟩ := hv v (List.mem_cons_self ..)
    rcases Value.part_eq_ok_iff.1 hp with ⟨hs, _⟩ | ⟨hs, _⟩ | ⟨_, rfl⟩
    · exact absurd hs hbit
    · exact absurd hs hoffset
    · rw [List.map_cons, List.map_cons, ih fun w hw => hv w (List.mem_cons_of_mem _ hw)]

/-- Values that all stand in the head only follow each other. -/
theorem eq_flatten_of_encode {vs : List Value} {bs : Bytes}
    (hv : ∀ v ∈ vs, v.ty.slot ≠ .bit ∧ v.ty.slot ≠ .offset) (h : encode vs = .ok bs) :
    bs = (vs.map (·.bytes)).flatten := by
  obtain ⟨ps, hp, ha⟩ := encode_eq_ok_iff.1 h
  rw [parts_of_inline hv hp, Layout.assemble_inline] at ha
  exact (Except.ok.inj ha).symm

end Sequence

end Abi
