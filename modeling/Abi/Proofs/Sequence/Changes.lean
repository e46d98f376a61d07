/-
  A sequence in which one value is replaced by another.

  What values are written as depends on their parts alone, and a value has the same part in every
  form in which a container accepts it. So it makes no difference whether further values are
  replaced in the row that was given or in the row that came back.

  * `encode_congr`: values with the same parts are written alike.
  * `decode_encode_set`: the row with the new value, in the form in which it comes back, is what is
    read from the new bytes.
-/
import Abi.Proofs.Sequence.Cuts
import Abi.Proofs.Sequence.Items

namespace Abi

namespace Value

/-- Under the declared type a value comes back as itself, normalised. -/
theorem asTy_same_normal {v : Value} {t : Ty} (h : v.HasTy t) : (v.asTy t).Same v.normal := by
  have hbool : t.isBool = v.ty.isBool := by
    rw [Bool.eq_iff_iff, ← Ty.slot_eq_bit_iff, ← Ty.slot_eq_bit_iff, Ty.Same.slot_eq h]
  constructor
  · rw [ty_asTy, ty_normal]
    exact Ty.Same.symm h
  · unfold asTy normal
    rw [hbool]
    split <;> rfl

end Value

namespace Sequence

variable {vs ws : List Value} {i : Nat} {v : Value} {t : Ty} {bs : Bytes}

theorem encode_congr (h : vs.map Value.part = ws.map Value.part) : encode vs = encode ws := by
  have hmap : ∀ us : List Value, us.mapM Value.part = (us.map Value.part).mapM id := fun us => by
    rw [List.mapM_map]
    rfl
  unfold encode
  rw [hmap vs, hmap ws, h]

/-- What is built from the bytes of a sequence, if they are not too many. -/
theorem limited_encode_eq_ok_iff {α : Type} {f : Bytes → α} {a : α} :
    (do
      let v ← Value.limited t (← encode vs)
      return f v.bytes) = .ok a ↔
      ∃ bs, encode vs = .ok bs ∧ bs.length ≤ Limits.valueBytes ∧ a = f bs := by
  simp only [Outcome.bind_eq_ok_iff, Value.limited_eq_ok_iff]
  constructor
  · intro h
    obtain ⟨bs, hb, v, ⟨hl, rfl⟩, ha⟩ := h
    cases ha
    exact ⟨bs, hb, hl, rfl⟩
  · intro h
    obtain ⟨bs, hb, hl, rfl⟩ := h
    exact ⟨bs, hb, _, ⟨hl, rfl⟩, rfl⟩

/-- Values of one type and the form in which they come back are written alike. -/
theorem map_part_map_asTy (ht : ∀ v ∈ vs, v.HasTy t) (h : encode vs = .ok bs) :
    (vs.map (·.asTy t)).map Value.part = vs.map Value.part := by
  rw [List.map_map]
  refine List.map_congr_left fun v hv => ?_
  obtain ⟨p, hp⟩ := exists_part_of_encode h hv
  exact (Value.part_asTy (ht v hv) hp).trans hp.symm

/-- A value and the form in which it comes back are written alike. -/
theorem map_part_set_asTy (ht : v.HasTy t) {p : Layout.Part} (hp : v.part = .ok p) :
    (vs.set i (v.asTy t)).map Value.part = (vs.set i v).map Value.part := by
  rw [List.map_set, List.map_set, Value.part_asTy ht hp, hp]

/-- The new value comes back under the type that is declared in its place. -/
theorem zipWith_asTy_set {vs : List Value} {ts : List Ty} {k : Nat} {v : Value} {t : Ty}
    (ht : ts[k]? = some t) :
    List.zipWith Value.asTy (vs.set k v) ts = (List.zipWith Value.asTy vs ts).set k (v.asTy t) := by
  induction vs generalizing ts k with
  | nil => rfl
  | cons w vs ih =>
    cases ts with
    | nil => cases ht
    | cons u ts =>
      cases k with
      | zero =>
        obtain rfl : u = t := by simpa using ht
        rfl
      | succ k => exact congrArg (w.asTy u :: ·) (ih (by simpa using ht))

/-- Values of declared types keep them when one is replaced. -/
theorem forall₂_hasTy_set {vs : List Value} {ts : List Ty} {k : Nat} {v : Value} {t : Ty}
    (h : List.Forall₂ Value.HasTy vs ts) (ht : ts[k]? = some t) (hv : v.HasTy t) :
    List.Forall₂ Value.HasTy (vs.set k v) ts := by
  induction h generalizing k with
  | nil => cases ht
  | @cons w u ws us hw hws ih =>
    cases k with
    | zero =>
      obtain rfl : u = t := by simpa using ht
      exact List.Forall₂.cons hv hws
    | succ k => exact List.Forall₂.cons hw (ih (by simpa using ht))

/-- Items of one type that were read are as many as were asked for and of just this type. -/
theorem ty_of_decode_replicate {count : Nat} {buffer : Bytes}
    (h : decode (List.replicate count t) buffer = .ok vs) :
    vs.length = count ∧ ∀ v ∈ vs, v.ty = t := by
  refine ⟨by simpa using length_decode h, fun v hv => ?_⟩
  obtain ⟨hty, _⟩ := exists_parts_of_decode h
  have hmem : v.ty ∈ vs.map (·.ty) := List.mem_map_of_mem hv
  rw [hty] at hmem
  exact List.eq_of_mem_replicate hmem

/-- Values that were read keep their form, and the new one gets it. -/
theorem decode_encode_set {ts : List Ty} {buffer : Bytes} {u : Value}
    (h : decode ts buffer = .ok vs) (hu : vs[i]? = some u) (ht : v.HasTy u.ty)
    (he : encode (vs.set i v) = .ok bs) : decode ts bs = .ok (vs.set i (v.asTy u.ty)) := by
  obtain ⟨hi, rfl⟩ := List.getElem?_eq_some_iff.1 hu
  obtain ⟨rfl, hn, _⟩ := exists_parts_of_decode h
  obtain ⟨p, hp⟩ := exists_part_of_encode he (List.mem_set hi v)
  rw [← encode_congr (map_part_set_asTy ht hp)] at he
  have hty : (vs.set i (v.asTy vs[i].ty)).map (·.ty) = vs.map (·.ty) := by
    have hlt : i < (vs.map (·.ty)).length := by simpa using hi
    have hself := List.set_getElem_self hlt
    rw [List.getElem_map] at hself
    rw [List.map_set, Value.ty_asTy, hself]
  have hnormal : (vs.set i (v.asTy vs[i].ty)).map Value.normal = vs.set i (v.asTy vs[i].ty) := by
    rw [List.map_set, Value.normal_asTy, List.map_congr_left hn, List.map_id']
  have hd := decode_of_encode he
  rwa [hty, hnormal] at hd

end Sequence

end Abi
