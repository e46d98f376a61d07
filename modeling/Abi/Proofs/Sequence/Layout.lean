/-
  Which bytes a sequence of values is written as.

  `LaidOut` says it from outside, place by place: the head with the booleans of every run, the
  inline values and the offsets, and behind it the dynamic values. The place of a value is given
  by the values in front of it, so that each condition speaks about a way to cut the sequence.

  * `encode_lays_out`: values of the right sizes are written exactly if all offsets fit into a
    word, and then as `LaidOut` says; of other sizes they are malformed.
-/
import Abi.Proofs.Layout.Places
import Abi.Proofs.Sequence.RoundTrip

namespace Abi

/-! ## Sizes of values -/

theorem Ty.slot_eq_offset_iff {t : Ty} : t.slot = .offset ↔ t.isDynamic = true := by
  unfold slot
  split
  · rename_i h
    rw [isBool_iff.1 h]
    decide
  · split <;> simp [*]

theorem Ty.slot_eq_inline {t : Ty} (hb : t ≠ .bool) (hd : t.isDynamic = false) :
    t.slot = .inline t.fixedSize := by
  unfold slot
  rw [if_neg (mt isBool_iff.1 hb), hd]
  rfl

namespace Value

/-- A value of a static type has as many bytes as the type asks for; a dynamic one may have any
number of them. -/
def Sized (v : Value) : Prop := v.ty.isDynamic = false → v.bytes.length = v.ty.fixedSize

instance : DecidablePred Sized := fun _ => inferInstanceAs (Decidable (_ → _))

/-- Exactly the values of the right size are parts of a sequence. -/
theorem sized_iff_exists_part {v : Value} : v.Sized ↔ ∃ p, v.part = .ok p := by
  unfold Sized
  simp only [part_eq_ok_iff, Ty.slot_eq_offset_iff, Ty.slot_eq_bit_iff, Ty.isBool_iff]
  by_cases hb : v.ty = .bool
  · have hone : Ty.bool.fixedSize = 1 := rfl
    have hslot : Ty.bool.slot = .bit := rfl
    have hstatic : Ty.bool.isDynamic = false := rfl
    rw [hb, hone, hslot, hstatic, List.length_eq_one_iff]
    simp
  · cases hd : v.ty.isDynamic with
    | true => exact ⟨fun _ => ⟨.tail v.bytes, by simp⟩, fun _ h => by cases h⟩
    | false =>
      rw [Ty.slot_eq_inline hb hd]
      simp [hb, eq_comm]

theorem malformed_of_part {v : Value} {e : Error} (h : v.part = .error e) :
    ∃ cause, e = .malformed cause := by
  unfold part at h
  split at h
  · unfold Scalar.readBool at h
    split at h
    · cases h
    · cases h
      exact ⟨_, rfl⟩
  · cases h
  · split at h
    · cases h
    · cases h
      exact ⟨_, rfl⟩

end Value

namespace Sequence

open Layout (MaximalRun bitAt headWidth headOf)

/-! ## Places -/

/-- The bytes of the head of these values. -/
def headLength (vs : List Value) : Nat := headWidth (vs.map (·.ty.slot))

/-- Where a dynamic value starts in the sequence `vs` if `front` stands in front of it: behind the
head and the dynamic values of `front`. -/
def startBehind (vs front : List Value) : Nat :=
  headLength vs + (dynamicBytes front).flatten.length

/-- A word can hold the start of every dynamic value. -/
def OffsetsFit (vs : List Value) : Prop :=
  ∀ front v back, vs = front ++ v :: back → v.ty.isDynamic = true →
    startBehind vs front ≤ Limits.word

/-- Head and tail of these values, place by place. -/
structure LaidOut (vs : List Value) (head tail : Bytes) : Prop where
  length_head : head.length = headLength vs
  /-- Number `j` of a run of booleans is a bit of byte `j / 8` behind the start of the run, the
  highest one first. -/
  truth : ∀ front run back, vs = front ++ (run ++ back) →
    MaximalRun (fun v => v.ty = .bool) front run back → ∀ j v, run[j]? = some v →
      bitAt head (headLength front + j / 8) (7 - j % 8) = decide (v.bytes = [Limits.trueByte])
  /-- The bits behind the last boolean of a run are clear. -/
  clear : ∀ front run back, vs = front ++ (run ++ back) →
    MaximalRun (fun v => v.ty = .bool) front run back → ∀ j, run.length ≤ j →
      j < 8 * packedBytes run.length → bitAt head (headLength front + j / 8) (7 - j % 8) = false
  /-- Other static values stand in the head as they are. -/
  inline : ∀ front v back, vs = front ++ v :: back → v.ty ≠ .bool → v.ty.isDynamic = false →
    v.bytes <+: head.drop (headLength front)
  /-- For a dynamic value the head holds its start, which is not cut to fit, and there the value
  starts. -/
  offset : ∀ front v back, vs = front ++ v :: back → v.ty.isDynamic = true →
    startBehind vs front ≤ Limits.word ∧
      BigEndian.encode 2 (startBehind vs front) <+: head.drop (headLength front) ∧
      v.bytes <+: (head ++ tail).drop (startBehind vs front)
  /-- Nothing else follows. -/
  tail_eq : tail = (dynamicBytes vs).flatten

theorem headWidth_of_parts {vs : List Value} {ps : List Layout.Part}
    (h : vs.mapM Value.part = .ok ps) : headWidth (ps.map Layout.Part.slot) = headLength vs := by
  rw [map_slot_of_parts h]
  rfl

/-- A run of booleans is written as their truth values. -/
theorem parts_of_bools {run : List Value} {ps : List Layout.Part} (hrun : ∀ v ∈ run, v.ty = .bool)
    (h : run.mapM Value.part = .ok ps) :
    ps = (run.map fun v => decide (v.bytes = [Limits.trueByte])).map .bit := by
  rw [Outcome.mapM_eq_ok_iff] at h
  induction h with
  | nil => rfl
  | @cons v p run ps hp _ ih =>
    rw [List.forall_mem_cons] at hrun
    rw [List.map_cons, List.map_cons, ← ih hrun.2]
    rcases Value.part_eq_ok_iff.1 hp with ⟨_, b, hb, rfl⟩ | ⟨hs, _⟩ | ⟨hs, _⟩
    · rw [hb]
      simp
    · rw [hrun.1] at hs
      cases hs
    · rw [hrun.1] at hs
      cases hs

theorem dynamicBytes_cons_of_static {v : Value} (h : v.ty.isDynamic = false) (vs : List Value) :
    dynamicBytes (v :: vs) = dynamicBytes vs := by
  unfold dynamicBytes
  rw [List.filter_cons_of_neg (by simp [Ty.slot_eq_offset_iff, h])]

theorem dynamicBytes_cons_of_dynamic {v : Value} (h : v.ty.isDynamic = true) (vs : List Value) :
    dynamicBytes (v :: vs) = v.bytes :: dynamicBytes vs := by
  unfold dynamicBytes
  rw [List.filter_cons_of_pos (by simp [Ty.slot_eq_offset_iff, h]), List.map_cons]

/-- The starts of byte strings that follow each other are those of the dynamic values. -/
theorem mem_startsFrom_dynamicBytes_iff {start o : Nat} {vs : List Value} :
    o ∈ Layout.startsFrom start (dynamicBytes vs) ↔
      ∃ front v back, vs = front ++ v :: back ∧ v.ty.isDynamic = true ∧
        o = start + (dynamicBytes front).flatten.length := by
  induction vs generalizing start with
  | nil => simp [dynamicBytes, Layout.startsFrom]
  | cons v vs ih =>
    cases hd : v.ty.isDynamic with
    | false =>
      rw [dynamicBytes_cons_of_static hd, ih]
      constructor
      · intro h
        obtain ⟨front, w, back, rfl, hw, ho⟩ := h
        exact ⟨v :: front, w, back, rfl, hw, by rw [dynamicBytes_cons_of_static hd, ho]⟩
      · intro h
        obtain ⟨front, w, back, hvs, hw, ho⟩ := h
        cases front with
        | nil =>
          rw [← (List.cons.inj hvs).1, hd] at hw
          cases hw
        | cons u front =>
          obtain ⟨rfl, rfl⟩ := List.cons.inj hvs
          exact ⟨front, w, back, rfl, hw, by rw [ho, dynamicBytes_cons_of_static hd]⟩
    | true =>
      rw [dynamicBytes_cons_of_dynamic hd, Layout.startsFrom, List.mem_cons, ih]
      have hsum : ∀ front, start + (dynamicBytes (v :: front)).flatten.length =
          start + v.bytes.length + (dynamicBytes front).flatten.length := fun front => by
        rw [dynamicBytes_cons_of_dynamic hd, List.flatten_cons, List.length_append, Nat.add_assoc]
      constructor
      · intro h
        rcases h with rfl | ⟨front, w, back, rfl, hw, rfl⟩
        · exact ⟨[], v, vs, rfl, hd, rfl⟩
        · exact ⟨v :: front, w, back, rfl, hw, (hsum front).symm⟩
      · intro h
        obtain ⟨front, w, back, hvs, hw, ho⟩ := h
        cases front with
        | nil => exact Or.inl ho
        | cons u front =>
          obtain ⟨rfl, rfl⟩ := List.cons.inj hvs
          exact Or.inr ⟨front, w, back, rfl, hw, ho.trans (hsum front)⟩

theorem offsetsFit_iff {vs : List Value} :
    OffsetsFit vs ↔
      ∀ o ∈ Layout.startsFrom (headLength vs) (dynamicBytes vs), o ≤ Limits.word := by
  constructor
  · intro h o ho
    obtain ⟨front, v, back, hvs, hv, rfl⟩ := mem_startsFrom_dynamicBytes_iff.1 ho
    exact h front v back hvs hv
  · intro h front v back hvs hv
    exact h _ (mem_startsFrom_dynamicBytes_iff.2 ⟨front, v, back, hvs, hv, rfl⟩)

/-! ## The layout -/

theorem maximalRun_slots {front run back : List Value}
    (h : MaximalRun (fun v => v.ty = .bool) front run back) :
    MaximalRun (· = Layout.Slot.bit) (front.map (·.ty.slot)) (run.map (·.ty.slot))
      (back.map (·.ty.slot)) := by
  have hslot : ∀ v : Value, v.ty.slot = .bit ↔ v.ty = .bool := fun v =>
    Ty.slot_eq_bit_iff.trans Ty.isBool_iff
  exact h.map hslot

/-- The bits of a run: its truth values, and clear behind them. -/
theorem bitAt_of_parts {front run back : List Value} {ps : List Layout.Part} (start : Nat)
    (hp : (front ++ (run ++ back)).mapM Value.part = .ok ps)
    (hrun : MaximalRun (fun v => v.ty = .bool) front run back) {j : Nat}
    (hj : j < 8 * packedBytes run.length) :
    bitAt (headOf start ps) (headLength front + j / 8) (7 - j % 8) =
      (run.map fun v => decide (v.bytes = [Limits.trueByte])).getD j false := by
  obtain ⟨fs, ps, rfl, hf, hp⟩ := Outcome.mapM_append_eq_ok_iff.1 hp
  obtain ⟨rs, bs, rfl, hr, hb⟩ := Outcome.mapM_append_eq_ok_iff.1 hp
  have hslots := maximalRun_slots hrun
  rw [← map_slot_of_parts hf, ← map_slot_of_parts hr, ← map_slot_of_parts hb] at hslots
  obtain rfl := parts_of_bools hrun.all hr
  rw [← headWidth_of_parts hf]
  exact Layout.bitAt_headOf hslots start (by rwa [List.length_map])

/-- The values in front, the value itself and the values behind it become parts. -/
theorem parts_of_append_cons {front back : List Value} {v : Value} {ps : List Layout.Part}
    (h : (front ++ v :: back).mapM Value.part = .ok ps) :
    ∃ fs p bs, ps = fs ++ p :: bs ∧ front.mapM Value.part = .ok fs ∧ v.part = .ok p := by
  obtain ⟨fs, ps, rfl, hf, h⟩ := Outcome.mapM_append_eq_ok_iff.1 h
  obtain ⟨p, bs, rfl, hv, _⟩ := Outcome.mapM_cons_eq_ok_iff.1 h
  exact ⟨fs, p, bs, rfl, hf, hv⟩

theorem part_of_static {v : Value} {p : Layout.Part} (hb : v.ty ≠ .bool)
    (hd : v.ty.isDynamic = false) (h : v.part = .ok p) : p = .inline v.bytes := by
  have hslot := Ty.slot_eq_inline hb hd
  rcases Value.part_eq_ok_iff.1 h with ⟨hs, _⟩ | ⟨hs, _⟩ | ⟨_, rfl⟩
  · rw [hslot] at hs
    cases hs
  · rw [hslot] at hs
    cases hs
  · rfl

theorem part_of_dynamic {v : Value} {p : Layout.Part} (hd : v.ty.isDynamic = true)
    (h : v.part = .ok p) : p = .tail v.bytes := by
  have hslot := Ty.slot_eq_offset_iff.2 hd
  rcases Value.part_eq_ok_iff.1 h with ⟨hs, _⟩ | ⟨_, rfl⟩ | ⟨hs, _⟩
  · rw [hslot] at hs
    cases hs
  · rfl
  · rw [hslot] at hs
    cases hs

theorem laidOut_of_parts {vs : List Value} {ps : List Layout.Part}
    (hp : vs.mapM Value.part = .ok ps) (hfit : OffsetsFit vs) :
    LaidOut vs (headOf (headLength vs) ps) (Layout.tails ps).flatten where
  length_head := by rw [Layout.length_headOf, headWidth_of_parts hp]
  truth front run back hvs hrun j v hv := by
    have hlt : j < run.length := (List.getElem?_eq_some_iff.1 hv).1
    have hj : j < 8 * packedBytes run.length := by
      unfold packedBytes Limits.boolsPerByte
      omega
    rw [bitAt_of_parts _ (hvs ▸ hp) hrun hj, List.getD_eq_getElem?_getD, List.getElem?_map, hv]
    rfl
  clear front run back hvs hrun j hle hj := by
    rw [bitAt_of_parts _ (hvs ▸ hp) hrun hj, List.getD_eq_default _ _ (by rwa [List.length_map])]
  inline front v back hvs hb hd := by
    obtain ⟨fs, p, bs, rfl, hf, hv⟩ := parts_of_append_cons (hvs ▸ hp)
    rw [part_of_static hb hd hv, ← headWidth_of_parts hf]
    exact Layout.inline_prefix_headOf _ _
  offset front v back hvs hd := by
    obtain ⟨fs, p, bs, hps, hf, hv⟩ := parts_of_append_cons (hvs ▸ hp)
    obtain rfl := part_of_dynamic hd hv
    refine ⟨hfit front v back hvs hd, ?_, ?_⟩
    · rw [hps, startBehind, ← tails_of_parts hf, ← headWidth_of_parts hf]
      exact Layout.offset_prefix_headOf _ _
    · have hlen : (headOf (headLength vs) ps).length = headLength vs := by
        rw [Layout.length_headOf, headWidth_of_parts hp]
      rw [startBehind, List.drop_append, List.drop_eq_nil_of_le (by omega), hlen,
        Nat.add_sub_cancel_left, List.nil_append, hps, ← tails_of_parts hf]
      exact Layout.tail_prefix_flatten _
  tail_eq := by rw [tails_of_parts hp]

theorem encode_eq_ok_iff_of_parts {vs : List Value} {ps : List Layout.Part} {bs : Bytes}
    (hp : vs.mapM Value.part = .ok ps) :
    encode vs = .ok bs ↔
      OffsetsFit vs ∧ bs = headOf (headLength vs) ps ++ (Layout.tails ps).flatten := by
  have hencode : encode vs = Layout.assemble ps := by rw [encode, hp, Outcome.ok_bind]
  rw [hencode, Layout.assemble_eq_ok_iff_tails, Layout.headSize_eq_headWidth,
    Layout.bytesOfCells_eq, headWidth_of_parts hp, tails_of_parts hp, offsetsFit_iff]

theorem offsetsFit_of_encode {vs : List Value} {bs : Bytes} (h : encode vs = .ok bs) :
    OffsetsFit vs := by
  obtain ⟨ps, hp, _⟩ := encode_eq_ok_iff.1 h
  exact ((encode_eq_ok_iff_of_parts hp).1 h).1

/-- Values of the right sizes are written exactly if a word can hold every offset, and then they
are laid out as the format says; otherwise the offset is reported. Values of other sizes are
malformed. -/
theorem encode_lays_out (vs : List Value) :
    ((∀ v ∈ vs, v.Sized) →
      ((∃ bs, encode vs = .ok bs) ↔ OffsetsFit vs) ∧
      (¬ OffsetsFit vs → ∃ n, Limits.word < n ∧ encode vs = .error (.oversize (.word n))) ∧
      ∀ bs, encode vs = .ok bs → ∃ head tail, bs = head ++ tail ∧ LaidOut vs head tail) ∧
    ((∃ v ∈ vs, ¬ v.Sized) → ∃ cause, encode vs = .error (.malformed cause)) := by
  constructor
  · intro hsized
    obtain ⟨ps, hp⟩ : ∃ ps, vs.mapM Value.part = .ok ps := by
      rcases hm : vs.mapM Value.part with e | ps
      · obtain ⟨v, hv, he⟩ := Outcome.exists_of_mapM_eq_error hm
        obtain ⟨p, hp⟩ := Value.sized_iff_exists_part.1 (hsized v hv)
        rw [he] at hp
        cases hp
      · exact ⟨ps, rfl⟩
    refine ⟨⟨?_, ?_⟩, ?_, ?_⟩
    · intro h
      obtain ⟨bs, hb⟩ := h
      exact offsetsFit_of_encode hb
    · intro hfit
      exact ⟨_, (encode_eq_ok_iff_of_parts hp).2 ⟨hfit, rfl⟩⟩
    · intro hnot
      rw [offsetsFit_iff] at hnot
      push Not at hnot
      obtain ⟨o, ho, hlt⟩ := hnot
      rw [← headWidth_of_parts hp, ← tails_of_parts hp] at ho
      obtain ⟨o, hlt, he⟩ := Layout.assemble_eq_error ho hlt
      exact ⟨o, hlt, by rw [encode, hp, Outcome.ok_bind, he]⟩
    · intro bs hb
      obtain ⟨hfit, rfl⟩ := (encode_eq_ok_iff_of_parts hp).1 hb
      exact ⟨_, _, rfl, laidOut_of_parts hp hfit⟩
  · intro h
    obtain ⟨v, hv, hnot⟩ := h
    rcases hm : vs.mapM Value.part with e | ps
    · obtain ⟨w, _, he⟩ := Outcome.exists_of_mapM_eq_error hm
      obtain ⟨cause, rfl⟩ := Value.malformed_of_part he
      exact ⟨cause, by rw [encode, hm, Outcome.error_bind]⟩
    · obtain ⟨front, back, rfl⟩ := List.append_of_mem hv
      obtain ⟨_, p, _, _, _, hp⟩ := parts_of_append_cons hm
      exact absurd (Value.sized_iff_exists_part.2 ⟨p, hp⟩) hnot

/-- Behind a text of 65532 bytes a second one starts where no word can point. -/
theorem not_offsetsFit_of_long {bs : Bytes} (h : bs.length = 65532) :
    ¬ OffsetsFit [⟨.string, bs⟩, ⟨.string, []⟩] := by
  intro hfit
  have hstart := hfit [⟨.string, bs⟩] ⟨.string, []⟩ [] rfl rfl
  have hhead : headLength [⟨.string, bs⟩, ⟨.string, []⟩] = 4 := rfl
  have htail : (dynamicBytes [⟨.string, bs⟩]).flatten.length = 65532 := by
    rw [dynamicBytes_cons_of_dynamic rfl, List.flatten_cons, List.length_append, h]
    rfl
  rw [startBehind, hhead, htail, Limits.word] at hstart
  omega

/-- Nine booleans take two bytes, two more behind the number start a new one, and the second text
starts where the first one ends. A boolean without a byte is malformed, and a text behind 65532
bytes is out of reach. -/
theorem encode_lays_out_mixed :
    let vs : List Value := List.replicate 9 ⟨.bool, [0x80]⟩ ++
      [⟨.string, [0, 1, 97]⟩, ⟨.uint 16, [1, 2]⟩, ⟨.bool, [0]⟩, ⟨.bool, [0x80]⟩, ⟨.string, [0, 0]⟩]
    let bs : Bytes := [0xff, 0x80, 0, 9, 1, 2, 0x40, 0, 12, 0, 1, 97, 0, 0]
    let long : Bytes := List.replicate 65532 0
    ((∀ v ∈ vs, v.Sized) ∧ encode vs = .ok bs ∧
      ∃ head tail, bs = head ++ tail ∧ LaidOut vs head tail) ∧
    (¬ Value.Sized ⟨.bool, []⟩ ∧ ∃ cause, encode [⟨.bool, []⟩] = .error (.malformed cause)) ∧
    ¬ OffsetsFit [⟨.string, long⟩, ⟨.string, []⟩] ∧
      ∃ n, Limits.word < n ∧
        encode [⟨.string, long⟩, ⟨.string, []⟩] = .error (.oversize (.word n)) := by
  intro vs bs long
  have hsized : ∀ v ∈ vs, v.Sized := by decide
  have hb : encode vs = .ok bs := by rfl
  have hempty : ¬ Value.Sized ⟨.bool, []⟩ := by decide
  have hlong : ¬ OffsetsFit [⟨.string, long⟩, ⟨.string, []⟩] :=
    not_offsetsFit_of_long List.length_replicate
  clear_value long
  have hdynamic : ∀ v ∈ [(⟨.string, long⟩ : Value), ⟨.string, []⟩], v.Sized := by
    simp [Value.Sized, Ty.isDynamic]
  exact ⟨⟨hsized, hb, ((encode_lays_out vs).1 hsized).2.2 bs hb⟩,
    ⟨hempty, (encode_lays_out [⟨.bool, []⟩]).2 ⟨_, List.mem_singleton_self _, hempty⟩⟩,
    hlong, ((encode_lays_out _).1 hdynamic).2.1 hlong⟩

end Sequence

end Abi
