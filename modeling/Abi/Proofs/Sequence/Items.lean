/-
  Values as the items of a container that declares their types.

  A container accepts a value whose type has the declared name, so that a struct may stand for a
  tuple, and it never looks at the bytes of a dynamic item. What it gives back has the declared
  type and is normalised (`Value.asTy`).

  * `encode_asTys`: neither change is seen in the encoding.
  * `decode_asTys`: the items come back in this form.
  * `encode_of_sublist`: some of the values are encoded if all are, and in no more bytes.
-/
import Abi.Proofs.Sequence.RoundTrip
import Abi.Proofs.Ty.Names
import Mathlib.Data.List.Flatten

namespace Abi

namespace Value

/-- The value as an item of the given type: of just this type, and normalised. -/
def asTy (v : Value) (t : Ty) : Value := (⟨t, v.bytes⟩ : Value).normal

@[simp] theorem ty_asTy (v : Value) (t : Ty) : (v.asTy t).ty = t := ty_normal _

@[simp] theorem normal_normal (v : Value) : v.normal.normal = v.normal := by
  by_cases h : v.ty.isBool = true
  · unfold normal
    rw [if_pos h, if_pos h]
    simp [Layout.boolByte_eq_trueByte_iff]
  · rw [normal_of_not_bool (v := v) (by simpa using h)]
    exact normal_of_not_bool (by simpa using h)

@[simp] theorem normal_asTy (v : Value) (t : Ty) : (v.asTy t).normal = v.asTy t := normal_normal _

/-- An item that came back stays as it is. -/
theorem asTy_of_normal {v : Value} {t : Ty} (ht : v.ty = t) (hn : v.normal = v) : v.asTy t = v := by
  subst ht
  exact hn

@[simp] theorem asTy_asTy (v : Value) (t : Ty) : (v.asTy t).asTy t = v.asTy t :=
  asTy_of_normal (ty_asTy v t) (normal_asTy v t)

theorem hasTy_asTy (v : Value) (t : Ty) : (v.asTy t).HasTy t := by
  show (v.asTy t).ty.Same t
  rw [ty_asTy]
  exact Ty.Same.refl t

/-- What a value is written as depends on the name of its type and on its bytes. -/
theorem part_of_hasTy {v : Value} {t : Ty} (h : v.HasTy t) {p : Layout.Part} :
    v.part = .ok p ↔ (⟨t, v.bytes⟩ : Value).part = .ok p := by
  rw [part_eq_ok_iff, part_eq_ok_iff, Ty.Same.slot_eq h]

theorem part_normal {v : Value} {p : Layout.Part} (h : v.part = .ok p) : v.normal.part = .ok p := by
  rw [part_eq_ok_iff, ty_normal]
  rcases part_eq_ok_iff.1 h with ⟨hs, b, hb, rfl⟩ | ⟨hs, rfl⟩ | ⟨hs, rfl⟩
  · refine Or.inl ⟨hs, Layout.boolByte (v.bytes = [Limits.trueByte]), ?_⟩
    unfold normal
    rw [if_pos (Ty.slot_eq_bit_iff.1 hs), hb]
    simp [Layout.boolByte_eq_trueByte_iff]
  · have hb : v.ty.isBool = false := by simpa [hs] using mt (@Ty.slot_eq_bit_iff v.ty).2
    exact Or.inr (Or.inl ⟨hs, by rw [normal_of_not_bool hb]⟩)
  · have hb : v.ty.isBool = false := by simpa [hs] using mt (@Ty.slot_eq_bit_iff v.ty).2
    exact Or.inr (Or.inr (by rw [normal_of_not_bool hb]; exact ⟨hs, rfl⟩))

theorem expectAll_eq_ok_iff {vs : List Value} {t : Ty} {u : Unit} :
    expectAll vs t = .ok u ↔ ∀ v ∈ vs, v.HasTy t := by
  unfold expectAll
  induction vs with
  | nil => simp [pure, Except.pure]
  | cons v vs ih =>
    show (v.expect t >>= fun _ => vs.forM (·.expect t)) = .ok u ↔ _
    rw [Outcome.bind_eq_ok_iff, List.forall_mem_cons, ih, ← expect_eq_ok_iff]
    exact ⟨fun ⟨_, hv, h⟩ => ⟨hv, h⟩, fun ⟨hv, h⟩ => ⟨(), hv, h⟩⟩

/-- Values of one type stay so when one is replaced by another of this type. -/
theorem forall_hasTy_set {vs : List Value} {v : Value} {t : Ty} (h : ∀ w ∈ vs, w.HasTy t)
    (hv : v.HasTy t) (k : Nat) : ∀ w ∈ vs.set k v, w.HasTy t := by
  intro w hw
  rcases List.mem_or_eq_of_mem_set hw with hw | rfl
  · exact h w hw
  · exact hv

theorem part_asTy {v : Value} {t : Ty} {p : Layout.Part} (h : v.HasTy t) (hp : v.part = .ok p) :
    (v.asTy t).part = .ok p := part_normal ((part_of_hasTy h).1 hp)

end Value

namespace Sequence

/-! ## Items of declared types -/

theorem map_ty_asTys {vs : List Value} {ts : List Ty} (hl : vs.length = ts.length) :
    (List.zipWith Value.asTy vs ts).map (·.ty) = ts := by
  rw [List.map_zipWith]
  simp only [Value.ty_asTy]
  exact (List.map_zip_eq_zipWith (f := Prod.snd)).symm.trans
    (List.map_snd_zip (Nat.le_of_eq hl.symm))

/-- Items are written alike under their own types and under the declared ones. -/
theorem encode_asTys {vs : List Value} {ts : List Ty} {bs : Bytes}
    (ht : List.Forall₂ Value.HasTy vs ts) (h : encode vs = .ok bs) :
    encode (List.zipWith Value.asTy vs ts) = .ok bs := by
  obtain ⟨ps, hp, ha⟩ := encode_eq_ok_iff.1 h
  refine encode_eq_ok_iff.2 ⟨ps, ?_, ha⟩
  clear h ha
  rw [Outcome.mapM_eq_ok_iff] at hp ⊢
  induction hp generalizing ts with
  | nil =>
    cases ht
    exact List.Forall₂.nil
  | cons hp _ ih =>
    cases ht with
    | cons hv ht => exact List.Forall₂.cons (Value.part_asTy hv hp) (ih ht)

/-- Items come back under the declared types, normalised. -/
theorem decode_asTys {vs : List Value} {ts : List Ty} {bs : Bytes}
    (ht : List.Forall₂ Value.HasTy vs ts) (h : encode vs = .ok bs) :
    decode ts bs = .ok (List.zipWith Value.asTy vs ts) := by
  have hd := decode_of_encode (encode_asTys ht h)
  rw [map_ty_asTys ht.length_eq, List.map_zipWith] at hd
  simpa only [Value.normal_asTy] using hd

/-! ## Items of one type -/

theorem zipWith_asTy_replicate (vs : List Value) (t : Ty) :
    List.zipWith Value.asTy vs (List.replicate vs.length t) = vs.map (·.asTy t) := by
  induction vs with
  | nil => rfl
  | cons v vs ih => exact congrArg (v.asTy t :: ·) ih

theorem forall₂_hasTy_replicate {vs : List Value} {t : Ty} (h : ∀ v ∈ vs, v.HasTy t) :
    List.Forall₂ Value.HasTy vs (List.replicate vs.length t) := by
  induction vs with
  | nil => exact List.Forall₂.nil
  | cons v vs ih =>
    rw [List.forall_mem_cons] at h
    exact List.Forall₂.cons h.1 (ih h.2)

theorem encode_map_asTy {vs : List Value} {t : Ty} {bs : Bytes} (ht : ∀ v ∈ vs, v.HasTy t)
    (h : encode vs = .ok bs) : encode (vs.map (·.asTy t)) = .ok bs := by
  rw [← zipWith_asTy_replicate]
  exact encode_asTys (forall₂_hasTy_replicate ht) h

theorem decode_replicate {vs : List Value} {t : Ty} {bs : Bytes} (ht : ∀ v ∈ vs, v.HasTy t)
    (h : encode vs = .ok bs) :
    decode (List.replicate vs.length t) bs = .ok (vs.map (·.asTy t)) := by
  rw [← zipWith_asTy_replicate]
  exact decode_asTys (forall₂_hasTy_replicate ht) h

/-! ## Some of the values -/

theorem exists_part_of_encode {vs : List Value} {v : Value} {bs : Bytes} (h : encode vs = .ok bs)
    (hv : v ∈ vs) : ∃ p, v.part = .ok p := by
  obtain ⟨ps, hp, _⟩ := encode_eq_ok_iff.1 h
  obtain ⟨p, _, hpart⟩ := Outcome.exists_result_of_mapM hp hv
  exact ⟨p, hpart⟩

/-- If a sequence is encoded in no more bytes than a word can count, then so are some of its values,
and in no more bytes: the head gets no longer, so that offsets only get smaller. -/
theorem encode_of_sublist {us vs : List Value} {bs : Bytes} (h : encode vs = .ok bs)
    (hs : us.Sublist vs) (hl : bs.length ≤ Limits.word) :
    ∃ cs, encode us = .ok cs ∧ cs.length ≤ bs.length := by
  obtain ⟨ps, hp⟩ := Outcome.exists_mapM fun v hv => exists_part_of_encode h (hs.subset hv)
  have hhead := Layout.headSize_le_of_sublist (hs.map (·.ty.slot)) 0
  have htails : (dynamicBytes us).flatten.Sublist (dynamicBytes vs).flatten :=
    ((hs.filter _).map _).flatten
  have hlen : Layout.headSize 0 (us.map (·.ty.slot)) + (dynamicBytes us).flatten.length ≤
      bs.length := by
    rw [length_of_encode h]
    exact Nat.add_le_add hhead htails.length_le
  have hfit := Nat.le_trans hlen hl
  rw [← map_slot_of_parts hp, ← tails_of_parts hp] at hfit
  obtain ⟨cs, hc⟩ := Layout.assemble_isOk_of_length_le hfit
  have hus : encode us = .ok cs := encode_eq_ok_iff.2 ⟨ps, hp, hc⟩
  refine ⟨cs, hus, ?_⟩
  rw [length_of_encode hus]
  exact hlen

end Sequence

end Abi
