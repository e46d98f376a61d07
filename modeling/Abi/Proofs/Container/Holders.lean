/-
  The containers that give handles to their children, and what a handle does to the container.

  A handle is opened by an index or a field name and keeps a key that counts from the front. What
  is written through it replaces the child in its row, so the host value of the container changes
  in the one component that the caller's key means in a host value. There are three reasons to
  refuse a child: the struct is frozen, the child is of another type, or the new row does not fit.

  * `exists_opened`: a handle is opened at a child, and its key means the position of the child.
  * `native_of_set`: the host value after a child was written back.
  * `set_eq_error_iff`: why a child is refused.
-/
import Abi.Proofs.Container.Composes

namespace Abi

namespace Holder

/-! ## Keys and host values -/

/-- What a caller calls a child. -/
def Key : Holder → Type
  | staticArray | dynamicArray => Int
  | struct => String

/-- The handle to a child. -/
def handle : (h : Holder) → h.Carrier → h.Key → Except Error (Handle h.Carrier h.Place)
  | staticArray => StaticArray.handle
  | dynamicArray => DynamicArray.handle
  | struct => Struct.handle

/-- The container as a host value. -/
def native : (h : Holder) → h.Carrier → Except Error Host
  | staticArray => StaticArray.decode
  | dynamicArray => DynamicArray.decode
  | struct => Struct.decode

/-- The key in a host value. -/
def hostKey : (h : Holder) → h.Key → Host.Key
  | staticArray => .index
  | dynamicArray => .index
  | struct => .field

variable {h : Holder} {c d : h.Carrier} {j : h.Key} {g : Handle h.Carrier h.Place}
  {vs : List Value} {v u : Value} {n : Host}

theorem native_eq_decode (c : h.Carrier) : h.native c = (View.toValue c).decode := by
  cases h <;> rfl

/-- A value seen as a container is not changed by that. -/
theorem toValue_of_ofValue (hv : View.ofValue v = .ok c) : View.toValue c = v := by
  obtain ⟨t, bs⟩ := v
  cases h with
  | staticArray =>
    cases t <;> cases hv
    rfl
  | dynamicArray =>
    cases t <;> cases hv
    rfl
  | struct =>
    cases t <;> cases hv
    rfl

/-- The host value of a container is put together from those of its children. -/
theorem native_eq_ok_iff :
    h.native c = .ok n ↔ ∃ vs ns, h.rows.children c = .ok vs ∧ vs.mapM Value.decode = .ok ns ∧
      Host.Composes (View.toValue c).ty ns n := by
  cases h with
  | staticArray => exact StaticArray.decode_eq_ok_iff
  | dynamicArray => exact DynamicArray.decode_eq_ok_iff
  | struct => exact Struct.decode_eq_ok_iff

/-! ## Handles -/

/-- The handle was opened at the child at position `i` of the row `vs`. -/
structure Opened (c : h.Carrier) (j : h.Key) (g : Handle h.Carrier h.Place) (vs : List Value)
    (i : Nat) : Prop where
  owner : g.owner = c
  children : h.rows.children c = .ok vs
  direct : h.rows.Direct g.key
  place : h.rows.place (h.rows.shape c) vs.length g.key = .ok i
  child : vs[i]? = some g.value
  /-- In a host value put together from as many children the caller's key means this position. -/
  position : ∀ ns n, ns.length = vs.length → Host.Composes (View.toValue c).ty ns n →
    n.position? (h.hostKey j) = some i

theorem exists_opened (hg : h.handle c j = .ok g) : ∃ vs i, Opened c j g vs i := by
  cases h with
  | staticArray =>
    obtain ⟨k, hk, hg⟩ := Outcome.bind_eq_ok_iff.1 hg
    obtain ⟨ho, rfl, vs, i, hvs, hi, hv⟩ := StaticArray.rows.exists_of_handle hg
    have hlength := (StaticArray.ty_of_items hvs).1
    have hlt := hlength ▸ (Index.position_eq_ok_iff.1 hk).2
    have hd : StaticArray.rows.Direct g.key :=
      Nat.lt_trans hlt (StaticArray.length_lt_of_items hvs)
    refine ⟨vs, i, ho, hvs, hd, hi, hv, fun ns n hl hc => ?_⟩
    obtain ⟨_, rfl⟩ := (Index.position_signed_eq_ok_iff hd).1 hi
    refine (Host.Composes.position?_array hc j).trans ?_
    rw [hl, hlength, hk]
    rfl
  | dynamicArray =>
    obtain ⟨length, hlen, hg⟩ := Outcome.bind_eq_ok_iff.1 hg
    obtain ⟨k, hk, hg⟩ := Outcome.bind_eq_ok_iff.1 hg
    obtain ⟨ho, rfl, vs, i, hvs, hi, hv⟩ := DynamicArray.rows.exists_of_handle hg
    obtain rfl := Except.ok.inj (hlen.symm.trans (DynamicArray.length_of_items hvs))
    have hd : DynamicArray.rows.Direct g.key :=
      Nat.lt_trans (Index.position_eq_ok_iff.1 hk).2 (DynamicArray.length_lt_of_items hvs)
    refine ⟨vs, i, ho, hvs, hd, hi, hv, fun ns n hl hc => ?_⟩
    obtain ⟨_, rfl⟩ := (Index.position_signed_eq_ok_iff hd).1 hi
    refine (Host.Composes.position?_list hc j).trans ?_
    rw [hl, hk]
    rfl
  | struct =>
    obtain ⟨ho, rfl, vs, i, hvs, hi, hv⟩ := Struct.rows.exists_of_handle hg
    refine ⟨vs, i, ho, hvs, trivial, hi, hv, fun ns n _ hc => ?_⟩
    refine (Host.Composes.position?_struct hc g.key).trans ?_
    exact StructType.indexOf_eq_ok_iff.1 hi

/-! ## Writing -/

/-- The items of an array of bytes are bytes. -/
theorem ty_of_children (hc : (View.toValue c).ty = .list .byte) (hvs : h.rows.children c = .ok vs) :
    ∀ u ∈ vs, u.ty = .byte := by
  cases h with
  | staticArray => cases hc
  | dynamicArray =>
    have hitem : DynamicArray.item c = .byte := Ty.list.inj hc
    rw [← hitem]
    exact DynamicArray.ty_of_items hvs
  | struct => cases hc

/-- A container that was built is not longer than a value may be. -/
theorem length_le_of_build (hd : h.rows.build (h.rows.shape c) vs = .ok d) :
    (View.toValue d).bytes.length ≤ Limits.valueBytes := by
  cases h with
  | staticArray =>
    obtain ⟨body, _, hl, rfl⟩ := StaticArray.encode_eq_ok_iff.1 hd
    exact hl
  | dynamicArray =>
    obtain ⟨body, _, _, hl, rfl⟩ := DynamicArray.encode_eq_ok_iff.1 hd
    show (Word.bytes vs.length ++ body).length ≤ Limits.valueBytes
    rw [List.length_append, Word.length_bytes, Nat.add_comm]
    exact hl
  | struct =>
    obtain ⟨body, _, hl, rfl⟩ := Struct.encode_eq_ok_iff.1 hd
    exact hl

/-- What writing a child back has done: the container is of the same type, not longer than a value
may be, and its host value has another component where the child stands. -/
structure Rewritten (c d : h.Carrier) (j : h.Key) (N : Host) (u v : Value) (i : Nat) : Prop where
  position : N.position? (h.hostKey j) = some i
  before : ∃ n, N.children[i]? = some n ∧ u.decode = .ok n
  hasTy : v.HasTy u.ty
  ty : (View.toValue d).ty = (View.toValue c).ty
  length_le : (View.toValue d).bytes.length ≤ Limits.valueBytes
  native : ∀ m, Host.decode u.ty v.bytes = .ok m →
    ∃ N', N.withChild? i m = some N' ∧ h.native d = .ok N'

theorem native_of_set {N : Host} (hN : h.native c = .ok N) (hg : h.handle c j = .ok g)
    (hd : g.set v = .ok d) : ∃ i, Rewritten c d j N g.value v i := by
  obtain ⟨vs, i, hopen⟩ := exists_opened hg
  obtain ⟨rfl, hvs⟩ := hopen.owner, hopen.children
  obtain ⟨ws, k, u, hw⟩ := h.rows.written hd
  obtain rfl := Except.ok.inj (hvs.symm.trans hw.children)
  obtain rfl : i = k := Except.ok.inj (hopen.place.symm.trans hw.place)
  obtain rfl : g.value = u := Option.some.inj (hopen.child.symm.trans hw.child)
  obtain ⟨ws, ns, hws, hns, hc⟩ := native_eq_ok_iff.1 hN
  obtain rfl := Except.ok.inj (hvs.symm.trans hws)
  obtain ⟨n, hn, hun⟩ := Outcome.getElem?_of_mapM hns hopen.child
  have hty : (View.toValue d).ty = (View.toValue g.owner).ty := h.rows.ty_write hd
  refine ⟨i, ?_, ⟨n, ?_, hun⟩, hw.hasTy, hty, length_le_of_build hw.build, fun m hm => ?_⟩
  · exact hopen.position ns N (Outcome.mapM_eq_ok_iff.1 hns).length_eq.symm hc
  · rw [hc.children_eq]
    exact hn
  · have hbyte : (View.toValue g.owner).ty = .list .byte → ∃ b < 256, m = .int b := fun ht => by
      rw [ty_of_children ht hvs _ (List.mem_of_getElem? hopen.child)] at hm
      exact Host.exists_of_decode_byte hm
    obtain ⟨N', hN', hc'⟩ := hc.exists_withChild? i hbyte
    rw [← hty] at hc'
    exact ⟨N', hN', native_eq_ok_iff.2
      ⟨_, _, hw.children_after, Outcome.mapM_set hns i (Value.decode_asTy hm), hc'⟩⟩

/-! ## Refused children -/

/-- What a frozen struct complains of. -/
def frozen? : (h : Holder) → h.Carrier → h.Place → Option Error
  | staticArray | dynamicArray => fun _ _ => none
  | struct => fun s field =>
    if (Struct.type s).frozen then some (.immutable (Struct.type s).name field) else none

/-- Why a container refuses another child in the place of the one that a handle was opened at. -/
inductive Refuses (c : h.Carrier) (g : Handle h.Carrier h.Place) (v : Value) : Error → Prop where
  | frozen {e : Error} : h.frozen? c g.key = some e → Refuses c g v e
  | mistyped : h.frozen? c g.key = none → ¬ v.HasTy g.value.ty →
    Refuses c g v (.mismatch g.value.ty.name v.ty.name)
  /-- The new row of children cannot be laid out, or is too long. -/
  | unfit {vs : List Value} {i : Nat} {e : Error} : h.frozen? c g.key = none →
    v.HasTy g.value.ty → h.rows.children c = .ok vs →
    h.rows.place (h.rows.shape c) vs.length g.key = .ok i →
    h.rows.build (h.rows.shape c) (vs.set i v) = .error e → Refuses c g v e

namespace Opened

variable {i : Nat}

/-- A write looks where the value is accepted and builds the row anew. -/
theorem set_eq_accept (ho : Opened c j g vs i) (v : Value) :
    g.set v = h.rows.accept (h.rows.shape c) vs.length g.key v >>= fun k =>
      h.rows.build (h.rows.shape c) (vs.set k v) := by
  obtain ⟨rfl, hvs⟩ := ho.owner, ho.children
  exact h.rows.write_eq hvs g.key v

theorem set_of_frozen {e : Error} (ho : Opened c j g vs i) (hf : h.frozen? c g.key = some e)
    (v : Value) : g.set v = .error e := by
  rw [ho.set_eq_accept]
  cases h with
  | staticArray => cases hf
  | dynamicArray => cases hf
  | struct =>
    obtain ⟨hfrozen, he⟩ := Option.ite_none_right_eq_some.1 hf
    obtain rfl := Option.some.inj he
    exact congrArg (· >>= _) (StructType.acceptedAt_of_frozen hfrozen vs.length g.key v)

/-- If nothing is frozen, a child of the right type is accepted in its place. -/
theorem set_eq (ho : Opened c j g vs i) (hf : h.frozen? c g.key = none) (v : Value) :
    g.set v = v.expect g.value.ty >>= fun _ =>
      h.rows.build (h.rows.shape c) (vs.set i v) := by
  have hmem : g.value ∈ vs := List.mem_of_getElem? ho.child
  have haccept : h.rows.accept (h.rows.shape c) vs.length g.key v =
      (v.expect g.value.ty).map fun _ => i := by
    cases h with
    | staticArray =>
      rw [(StaticArray.ty_of_items ho.children).2 _ hmem]
      exact Value.acceptedAt_eq_map ho.direct ho.place v
    | dynamicArray =>
      rw [DynamicArray.ty_of_items ho.children _ hmem]
      exact Value.acceptedAt_eq_map ho.direct ho.place v
    | struct =>
      have hopen : (Struct.type c).frozen = false := by
        simpa using (ite_eq_right_iff.1 hf).mt (Option.some_ne_none _)
      have hty : (Struct.type c).types[i]? = some g.value.ty := by
        rw [← Struct.map_ty_of_values ho.children, List.getElem?_map, ho.child]
        rfl
      have hlt : i < vs.length := (List.getElem?_eq_some_iff.1 ho.child).1
      exact StructType.acceptedAt_eq_map hopen ho.place hlt hty v
  rw [ho.set_eq_accept, haccept]
  cases v.expect g.value.ty <;> rfl

end Opened

theorem set_eq_error_iff {e : Error} (hg : h.handle c j = .ok g) :
    g.set v = .error e ↔ Refuses c g v e := by
  obtain ⟨vs, i, ho⟩ := exists_opened hg
  constructor
  · intro he
    cases hf : h.frozen? c g.key with
    | some d =>
      rw [ho.set_of_frozen hf] at he
      cases he
      exact .frozen hf
    | none =>
      rw [ho.set_eq hf, Outcome.bind_eq_error_iff] at he
      rcases he with he | ⟨_, ht, he⟩
      · obtain ⟨ht, rfl⟩ := Value.expect_eq_error_iff.1 he
        exact .mistyped hf ht
      · exact .unfit hf (Value.expect_eq_ok_iff.1 ht) ho.children ho.place he
  · intro hr
    cases hr with
    | frozen hf => exact ho.set_of_frozen hf v
    | mistyped hf ht =>
      rw [ho.set_eq hf, Outcome.bind_eq_error_iff]
      exact .inl (Value.expect_eq_error_iff.2 ⟨ht, rfl⟩)
    | unfit hf ht hvs hi hb =>
      obtain rfl := Except.ok.inj (ho.children.symm.trans hvs)
      obtain rfl := Except.ok.inj (ho.place.symm.trans hi)
      rw [ho.set_eq hf, Outcome.bind_eq_error_iff]
      exact .inr ⟨(), Value.expect_eq_ok_iff.2 ht, hb⟩

/-! ## Frozen structs -/

/-- The container is a frozen struct. -/
def Frozen : (h : Holder) → h.Carrier → Prop
  | staticArray | dynamicArray => fun _ => False
  | struct => fun s => (Struct.type s).frozen = true

theorem frozen?_isSome (hc : h.Frozen c) (k : h.Place) : ∃ e, h.frozen? c k = some e := by
  cases h with
  | staticArray => exact hc.elim
  | dynamicArray => exact hc.elim
  | struct => exact ⟨_, if_pos hc⟩

theorem not_frozen_of_set (hg : h.handle c j = .ok g) (hd : g.set v = .ok d) : ¬ h.Frozen c := by
  intro hc
  obtain ⟨e, he⟩ := frozen?_isSome hc g.key
  rw [(set_eq_error_iff hg).2 (.frozen he)] at hd
  cases hd

end Holder

end Abi
