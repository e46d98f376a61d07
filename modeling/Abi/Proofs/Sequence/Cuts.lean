/-
  Which buffers are read as values of given types, and which bytes each value is read from.

  Nothing in a buffer is looked at but its head: the buffer has to be long enough for it, and the
  offsets in it have to go up from its end to the end of the buffer (`WellLaid`). What the values
  are is said from outside again, place by place (`CutInto`): the values in front of a static one
  give its place, and the dynamic ones are the pieces between the offsets.

  * `exists_parts_of_decode`: the values that were read are the parts of the buffer.
  * `decode_cuts`: exactly the well-laid buffers are read, all others are malformed, and the values
    are the pieces that the offsets cut.
-/
import Abi.Proofs.Layout.Cuts
import Abi.Proofs.Sequence.Layout

namespace Abi

namespace Value

/-- The bytes of a part are a value of every type that asks for its slot. -/
theorem part_mk_content {t : Ty} {p : Layout.Part} (h : p.slot = t.slot) :
    (⟨t, p.content⟩ : Value).part = .ok p := by
  refine part_eq_ok_iff.2 ?_
  cases p with
  | bit b =>
    refine Or.inl ⟨h.symm, Layout.boolByte b, rfl, ?_⟩
    cases b <;> rfl
  | inline bs => exact Or.inr (Or.inr ⟨h.symm, rfl⟩)
  | tail bs => exact Or.inr (Or.inl ⟨h.symm, rfl⟩)

theorem normal_mk_content {t : Ty} {p : Layout.Part} (h : p.slot = t.slot) :
    (⟨t, p.content⟩ : Value).normal = ⟨t, p.content⟩ :=
  congrArg₂ mk (ty_normal _) (content_of_part (part_mk_content h)).symm

/-- A normalised boolean has the byte of its truth value. -/
theorem bytes_of_bool {v : Value} (ht : v.ty = .bool) (hn : v.normal = v) :
    v.bytes = [Layout.boolByte (v.bytes = [Limits.trueByte])] := by
  unfold normal at hn
  rw [if_pos (Ty.isBool_iff.2 ht)] at hn
  exact (congrArg bytes hn).symm

end Value

namespace Sequence

open Layout (MaximalRun ReadsHead Part bitAt boolByte cuts headWidth slice)

/-! ## Offsets -/

/-- The offsets in the head of a buffer, in order: each is a word behind the width of all types in
front of its own. -/
def offsetsIn (ts : List Ty) (buffer : Bytes) : List Nat :=
  Layout.offsetsBehind buffer [] (ts.map Ty.slot)

/-- The head is in the buffer. Without dynamic types nothing follows it; otherwise the offsets go
up from its end to the end of the buffer. -/
def WellLaid (ts : List Ty) (buffer : Bytes) : Prop :=
  headWidth (ts.map Ty.slot) ≤ buffer.length ∧
    ((∀ t ∈ ts, t.isDynamic = false) ∧ headWidth (ts.map Ty.slot) = buffer.length ∨
      (∃ t ∈ ts, t.isDynamic = true) ∧
        (headWidth (ts.map Ty.slot) :: (offsetsIn ts buffer ++ [buffer.length])).IsChain (· ≤ ·))

instance (ts : List Ty) (buffer : Bytes) : Decidable (WellLaid ts buffer) :=
  inferInstanceAs (Decidable (_ ∧ _))

theorem offset_mem_slots_iff {ts : List Ty} :
    .offset ∈ ts.map Ty.slot ↔ ∃ t ∈ ts, t.isDynamic = true := by
  simp only [List.mem_map, Ty.slot_eq_offset_iff]

theorem splits_iff {ts : List Ty} {buffer : Bytes} :
    Layout.Splits (ts.map Ty.slot) buffer ↔ WellLaid ts buffer := by
  have hstatic : .offset ∉ ts.map Ty.slot ↔ ∀ t ∈ ts, t.isDynamic = false := by
    simp [offset_mem_slots_iff]
  unfold Layout.Splits WellLaid offsetsIn
  rw [hstatic, offset_mem_slots_iff]

theorem decode_isOk_iff {ts : List Ty} {buffer : Bytes} :
    (∃ vs, decode ts buffer = .ok vs) ↔
      ∃ children, Layout.split (ts.map Ty.slot) buffer = .ok children := by
  constructor
  · intro h
    obtain ⟨vs, h⟩ := h
    obtain ⟨children, hc, _⟩ := Outcome.bind_eq_ok_iff.1 h
    exact ⟨children, hc⟩
  · intro h
    obtain ⟨children, hc⟩ := h
    exact ⟨_, Outcome.bind_eq_ok_iff.2 ⟨children, hc, rfl⟩⟩

/-- A row of static types is cut out of exactly the bodies that its head fills. -/
theorem decode_static_isOk_iff {ts : List Ty} {body : Bytes} (hts : ∀ u ∈ ts, u.isDynamic = false) :
    (∃ vs, decode ts body = .ok vs) ↔ headWidth (ts.map Ty.slot) = body.length := by
  rw [decode_isOk_iff, Layout.split_isOk_iff, splits_iff]
  unfold WellLaid
  constructor
  · intro h
    rcases h.2 with ⟨_, hw⟩ | ⟨⟨u, hu, hdyn⟩, _⟩
    · exact hw
    · rw [hts u hu] at hdyn
      cases hdyn
  · intro hw
    exact ⟨Nat.le_of_eq hw, Or.inl ⟨hts, hw⟩⟩

/-- Whatever is not read is malformed. -/
theorem malformed_of_decode {ts : List Ty} {buffer : Bytes} {e : Error}
    (h : decode ts buffer = .error e) : ∃ cause, e = .malformed cause := by
  rcases Outcome.bind_eq_error_iff.1 h with hs | ⟨_, _, hp⟩
  · exact Layout.malformed_of_split hs
  · cases hp

/-! ## Pieces -/

/-- What each value of a buffer is read from. -/
structure CutInto (ts : List Ty) (buffer : Bytes) (vs : List Value) : Prop where
  /-- There is one value for each type, in order. -/
  types : vs.map (·.ty) = ts
  /-- Number `j` of a run of booleans is a bit of byte `j / 8` behind the start of the run, the
  highest one first. -/
  truth : ∀ front run back, vs = front ++ (run ++ back) →
    MaximalRun (fun v => v.ty = .bool) front run back → ∀ j v, run[j]? = some v →
      v.bytes = [boolByte (bitAt buffer (headLength front + j / 8) (7 - j % 8))]
  /-- Other static values are as many bytes as their types ask for, in the head. -/
  inline : ∀ front v back, vs = front ++ v :: back → v.ty ≠ .bool → v.ty.isDynamic = false →
    headLength front + v.ty.fixedSize ≤ buffer.length ∧
      v.bytes = slice buffer (headLength front, headLength front + v.ty.fixedSize)
  /-- The dynamic values are the pieces between the offsets. -/
  dynamic : dynamicBytes vs = (cuts buffer.length (offsetsIn ts buffer)).map (slice buffer)
  /-- All pieces are in the buffer, behind the head. -/
  inside : ∀ c ∈ cuts buffer.length (offsetsIn ts buffer),
    headWidth (ts.map Ty.slot) ≤ c.1 ∧ c.1 ≤ c.2 ∧ c.2 ≤ buffer.length
  /-- No byte belongs to two of them. -/
  disjoint : (cuts buffer.length (offsetsIn ts buffer)).Pairwise fun c d => c.2 ≤ d.1
  /-- No byte behind the first offset belongs to none. -/
  cover : ∀ first ∈ (offsetsIn ts buffer).head?, (dynamicBytes vs).flatten = buffer.drop first

/-- The contents of parts are values of the types that ask for their slots. -/
theorem values_of_slots {ts : List Ty} {ps : List Part} (h : ps.map Part.slot = ts.map Ty.slot) :
    let vs := List.zipWith Value.mk ts (ps.map Part.content)
    vs.map (·.ty) = ts ∧ (∀ v ∈ vs, v.normal = v) ∧ vs.mapM Value.part = .ok ps := by
  induction ps generalizing ts with
  | nil =>
    obtain rfl := List.map_eq_nil_iff.1 h.symm
    exact ⟨rfl, nofun, rfl⟩
  | cons p ps ih =>
    obtain ⟨t, ts, rfl, ht, hs⟩ := List.map_eq_cons_iff.1 h.symm
    obtain ⟨hty, hn, hp⟩ := ih hs.symm
    exact ⟨congrArg (t :: ·) hty,
      List.forall_mem_cons.2 ⟨Value.normal_mk_content ht.symm, hn⟩,
      Outcome.mapM_cons_eq_ok_iff.2 ⟨p, ps, rfl, Value.part_mk_content ht.symm, hp⟩⟩

/-- A buffer that is read holds the parts of its values: their head, a gap, and the dynamic
values. Where there are none of these, there is no gap. -/
theorem exists_parts_of_decode {ts : List Ty} {buffer : Bytes} {vs : List Value}
    (h : decode ts buffer = .ok vs) :
    vs.map (·.ty) = ts ∧ (∀ v ∈ vs, v.normal = v) ∧
      ∃ (ps : List Part) (gap : Bytes), vs.mapM Value.part = .ok ps ∧
        (dynamicBytes vs = [] → gap = []) ∧
        ReadsHead (gap ++ (dynamicBytes vs).flatten) [] (ps.map Part.slot) buffer
          (Layout.entries (headLength vs + gap.length) ps) := by
  obtain ⟨children, hc, h⟩ := Outcome.bind_eq_ok_iff.1 h
  cases h
  obtain ⟨ps, gap, hs, rfl, hgap, hr⟩ := Layout.exists_parts_of_split hc
  rw [← hs] at hr
  obtain ⟨hty, hn, hp⟩ := values_of_slots hs
  refine ⟨hty, hn, ps, gap, hp, ?_, ?_⟩
  · rwa [← tails_of_parts hp]
  · rwa [← tails_of_parts hp, ← headWidth_of_parts hp]

theorem map_slot_types_of_parts {vs : List Value} {ps : List Part}
    (hp : vs.mapM Value.part = .ok ps) : (vs.map (·.ty)).map Ty.slot = ps.map Part.slot := by
  rw [map_slot_of_parts hp, List.map_map]
  rfl

/-- The offsets are the starts of the dynamic values, one behind the other. -/
theorem offsetsIn_of_parts {vs : List Value} {ps : List Part} {buffer rest : Bytes} {start : Nat}
    (hp : vs.mapM Value.part = .ok ps)
    (hr : ReadsHead rest [] (ps.map Part.slot) buffer (Layout.entries start ps)) :
    offsetsIn (vs.map (·.ty)) buffer = Layout.startsFrom start (dynamicBytes vs) := by
  rw [offsetsIn, map_slot_types_of_parts hp, ← hr.starts_eq, Layout.starts_entries,
    tails_of_parts hp]

/-- The head of the types of values is the head of the values. -/
theorem headWidth_of_types (vs : List Value) :
    headWidth ((vs.map (·.ty)).map Ty.slot) = headLength vs := by
  rw [List.map_map]
  rfl

section

variable {front back vs : List Value} {ps : List Part} {buffer rest : Bytes} {start : Nat}

/-- The booleans of a run are read from the bits behind the values in front of it. -/
theorem bytes_of_run {run : List Value} (hp : (front ++ (run ++ back)).mapM Value.part = .ok ps)
    (hrun : MaximalRun (fun v => v.ty = .bool) front run back)
    (hr : ReadsHead rest [] (ps.map Part.slot) buffer (Layout.entries start ps)) {j : Nat}
    {v : Value} (hv : run[j]? = some v) (hn : v.normal = v) :
    v.bytes = [boolByte (bitAt buffer (headLength front + j / 8) (7 - j % 8))] := by
  obtain ⟨hj, hget⟩ := List.getElem?_eq_some_iff.1 hv
  obtain ⟨fs, ps, rfl, hf, hp⟩ := Outcome.mapM_append_eq_ok_iff.1 hp
  obtain ⟨rs, bs, rfl, hrs, hb⟩ := Outcome.mapM_append_eq_ok_iff.1 hp
  have hslots := maximalRun_slots hrun
  rw [← map_slot_of_parts hf, ← map_slot_of_parts hrs, ← map_slot_of_parts hb] at hslots
  obtain rfl := parts_of_bools hrun.all hrs
  rw [← headWidth_of_parts hf, hr.bitAt_run hslots (by rwa [List.length_map]), List.getElem_map,
    hget]
  exact Value.bytes_of_bool (hrun.all v (List.mem_of_getElem? hv)) hn

/-- An inline value is read from behind the values in front of it. -/
theorem bytes_of_inline {v : Value} (hp : (front ++ v :: back).mapM Value.part = .ok ps)
    (hr : ReadsHead rest [] (ps.map Part.slot) buffer (Layout.entries start ps))
    (hb : v.ty ≠ .bool) (hd : v.ty.isDynamic = false) :
    headLength front + v.ty.fixedSize ≤ buffer.length ∧
      v.bytes = slice buffer (headLength front, headLength front + v.ty.fixedSize) := by
  obtain ⟨fs, p, bs, rfl, hf, hv⟩ := parts_of_append_cons hp
  have hsize : v.bytes.length = v.ty.fixedSize := Value.sized_iff_exists_part.2 ⟨p, hv⟩ hd
  obtain rfl := part_of_static hb hd hv
  rw [← headWidth_of_parts hf, ← hsize]
  exact hr.inline_eq_slice

end

/-! ## The pieces of a buffer -/

theorem cutInto_of_decode {ts : List Ty} {buffer : Bytes} {vs : List Value}
    (h : decode ts buffer = .ok vs) : CutInto ts buffer vs := by
  obtain ⟨rfl, hn, ps, gap, hp, -, hr⟩ := exists_parts_of_decode h
  have hwidth := headWidth_of_types vs
  have hoffsets := (offsetsIn_of_parts hp hr).symm
  have hlen : headLength vs + gap.length + (dynamicBytes vs).flatten.length = buffer.length := by
    have := hr.headWidth_add_length
    rw [headWidth_of_parts hp, List.length_append] at this
    omega
  have hdrop : buffer.drop (headLength vs + gap.length) = (dynamicBytes vs).flatten := by
    have := hr.drop_headWidth
    rw [headWidth_of_parts hp] at this
    rw [← List.drop_drop, this, List.drop_left]
  obtain ⟨hinside, hpairwise⟩ := @Layout.cuts_startsFrom_ordered
    (headLength vs + gap.length) (dynamicBytes vs)
  rw [hlen, hoffsets] at hinside hpairwise
  refine ⟨rfl, ?_, ?_, ?_, ?_, hpairwise, ?_⟩
  · intro front run back hvs hrun j v hv
    subst hvs
    exact bytes_of_run hp hrun hr hv (hn v (by simp [List.mem_of_getElem? hv]))
  · intro front v back hvs hb hd
    subst hvs
    exact bytes_of_inline hp hr hb hd
  · rw [← hoffsets, Layout.slices_startsFrom hdrop hlen]
  · intro c hc
    have := hinside c hc
    rw [hwidth]
    omega
  · intro first hfirst
    rw [← hoffsets] at hfirst
    rw [Layout.head?_startsFrom hfirst, hdrop]

/-- Exactly the well-laid buffers are read, and all others are malformed. What is read are the
pieces of the buffer, one for each type. -/
theorem decode_cuts (ts : List Ty) (buffer : Bytes) :
    ((∃ vs, decode ts buffer = .ok vs) ↔ WellLaid ts buffer) ∧
      (¬ WellLaid ts buffer → ∃ cause, decode ts buffer = .error (.malformed cause)) ∧
      ∀ vs, decode ts buffer = .ok vs → CutInto ts buffer vs := by
  have hiff : (∃ vs, decode ts buffer = .ok vs) ↔ WellLaid ts buffer := by
    rw [decode_isOk_iff, Layout.split_isOk_iff, splits_iff]
  refine ⟨hiff, fun hnot => ?_, fun vs h => cutInto_of_decode h⟩
  obtain ⟨e, he⟩ := Outcome.exists_error_of_ne_ok fun vs h => hnot (hiff.1 ⟨vs, h⟩)
  obtain ⟨cause, rfl⟩ := malformed_of_decode he
  exact ⟨cause, he⟩

/-- Two texts behind a gap of one byte, with nine booleans and an integer between them; if the
second offset points in front of the first, or behind the end, the buffer is malformed. -/
theorem decode_cuts_mixed :
    let ts : List Ty := .string :: List.replicate 9 .bool ++ [.uint 16, .string]
    let buffer (o : UInt8) : Bytes := [0, 9, 0xff, 0xff, 1, 2, 0, o, 0xee, 0, 1, 97, 0, 0]
    (WellLaid ts (buffer 12) ∧ offsetsIn ts (buffer 12) = [9, 12] ∧
      ∃ vs, decode ts (buffer 12) = .ok vs ∧ CutInto ts (buffer 12) vs ∧
        dynamicBytes vs = [[0, 1, 97], [0, 0]]) ∧
    (¬ WellLaid ts (buffer 8) ∧ ∃ cause, decode ts (buffer 8) = .error (.malformed cause)) ∧
      ¬ WellLaid ts (buffer 15) ∧ ∃ cause, decode ts (buffer 15) = .error (.malformed cause) := by
  intro ts buffer
  have hlaid : WellLaid ts (buffer 12) := by decide +kernel
  have hback : ¬ WellLaid ts (buffer 8) := by decide +kernel
  have hpast : ¬ WellLaid ts (buffer 15) := by decide +kernel
  obtain ⟨hiff, -, hcut⟩ := decode_cuts ts (buffer 12)
  obtain ⟨vs, hvs⟩ := hiff.2 hlaid
  have hpieces := (hcut vs hvs).dynamic
  refine ⟨⟨hlaid, by decide +kernel, vs, hvs, hcut vs hvs, ?_⟩,
    ⟨hback, (decode_cuts ts (buffer 8)).2.1 hback⟩, hpast, (decode_cuts ts (buffer 15)).2.1 hpast⟩
  rw [hpieces]
  decide +kernel

end Sequence

end Abi
