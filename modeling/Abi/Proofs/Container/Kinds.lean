/-
  The three kinds of containers are lenses: arrays of fixed length, arrays of any length, structs.

  Each keeps its children as a sequence, an array of any length behind their number; what differs
  is how a key is looked up, which values are accepted, and what is checked when the row is built.
  The keys of an array are words. A write takes the key for the position that it is, a read for an
  index, which is a signed word: the greater half of the words counts from the end there, and is
  refused by a write. The keys of a struct are the names of its fields.
  What is written back stays the same to the byte only where the bytes are the ones that the
  children build, which bytes from elsewhere need not be (`Built`).

  * `StaticArray.rows`, `DynamicArray.rows`, `Struct.rows`: the kinds.
  * `Built.settled`: what was made by a constructor or by a change is what its children build.
  * `Holder.lens`, `Holder.read_of_back?`: the laws of a lens, and what is read at the keys that
    count from the end.
  * `containers_are_lenses`: both for containers of every kind.
  * `not_lens_at_last_word`: the laws do not hold at all words.
-/
import Abi.Proofs.Container.Lens
import Abi.Proofs.DynamicArray.Items
import Abi.Proofs.StaticArray.Items
import Abi.Proofs.Struct.Values

namespace Abi

/-! ## Items of one type -/

/-- Where a value is written into a row of items of one type. -/
def Value.acceptedAt (item : Ty) (length k : Nat) (v : Value) : Except Error Nat := do
  v.expect item
  Index.within length k

section

variable {item : Ty} {vs : List Value} {k i : Nat} {v : Value}

theorem Index.position_signed_eq_ok_iff {length : Nat} (hd : k < signedBound) :
    position length (signed k) = .ok i ↔ k < length ∧ i = k := by
  rw [signed_of_lt hd]
  by_cases hk : k < length
  · rw [position_natCast hk]
    simp [hk, eq_comm]
  · simp only [hk, false_and, iff_false]
    intro h
    obtain ⟨hf, hi⟩ := position_eq_ok_iff.1 h
    unfold fromFront at hf
    rw [if_neg (by omega)] at hf
    omega

/-- No two keys that count from the front point to one item. -/
theorem Index.position_signed_injective {length j : Nat} (hj : j < signedBound)
    (hk : k < signedBound) (h : position length (signed j) = .ok i)
    (h' : position length (signed k) = .ok i) : j = k := by
  rw [position_signed_eq_ok_iff hj] at h
  rw [position_signed_eq_ok_iff hk] at h'
  exact h.2.symm.trans h'.2

theorem Value.acceptedAt_eq_ok_iff {length : Nat} :
    acceptedAt item length k v = .ok i ↔ v.HasTy item ∧ k < length ∧ i = k := by
  unfold acceptedAt
  rw [Outcome.bind_eq_ok_iff]
  simp only [Index.within_eq_ok_iff, exists_and_right, ← Value.expect_eq_ok_iff]
  exact and_congr_left fun _ => ⟨fun ⟨_, h⟩ => h, fun h => ⟨(), h⟩⟩

/-- A value is accepted where there is an item, and has its type. -/
theorem Value.place_of_acceptedAt (hl : vs.length < Index.signedBound)
    (hty : ∀ w ∈ vs, w.ty = item) (h : acceptedAt item vs.length k v = .ok i) :
    k < Index.signedBound ∧ Index.position vs.length (Index.signed k) = .ok i ∧
      ∃ u, vs[i]? = some u ∧ v.HasTy u.ty := by
  obtain ⟨ht, hk, rfl⟩ := acceptedAt_eq_ok_iff.1 h
  have hd := Nat.lt_trans hk hl
  refine ⟨hd, (Index.position_signed_eq_ok_iff hd).2 ⟨hk, rfl⟩, vs[i],
    List.getElem?_eq_getElem hk, ?_⟩
  rw [hty _ (List.getElem_mem hk)]
  exact ht

/-- An item is accepted in its own place. -/
theorem Value.acceptedAt_of_place (hd : k < Index.signedBound) (hty : ∀ w ∈ vs, w.ty = item)
    (h : Index.position vs.length (Index.signed k) = .ok i) (hv : vs[i]? = some v) :
    acceptedAt item vs.length k v = .ok i := by
  obtain ⟨hk, rfl⟩ := (Index.position_signed_eq_ok_iff hd).1 h
  have ht : v.HasTy item := by
    rw [← hty v (List.mem_of_getElem? hv)]
    exact Ty.Same.refl v.ty
  exact acceptedAt_eq_ok_iff.2 ⟨ht, hk, rfl⟩

/-- Where there is an item, only the type decides. -/
theorem Value.acceptedAt_eq_map {length : Nat} (hd : k < Index.signedBound)
    (hi : Index.position length (Index.signed k) = .ok i) (v : Value) :
    acceptedAt item length k v = (v.expect item).map fun _ => i := by
  obtain ⟨hk, rfl⟩ := (Index.position_signed_eq_ok_iff hd).1 hi
  unfold acceptedAt
  rw [Index.within_eq_ok_iff.2 ⟨hk, rfl⟩]
  cases v.expect item <;> rfl

end

/-! ## Keys that count from the end -/

namespace StaticArray

variable {a b : StaticArray} {vs : List Value} {item : Ty} {size : Nat}

theorem items_eq_ok_iff : a.items = .ok vs ↔ Readable a.item a.size ∧
    Sequence.decode (List.replicate a.size a.item) a.bytes = .ok vs := by
  by_cases hr : Readable a.item a.size
  · show (Ty.repeated a.item a.size >>= (Sequence.decode · a.bytes)) = .ok vs ↔ _
    rw [repeated_of_readable hr, Outcome.ok_bind]
    exact (and_iff_right hr).symm
  · rw [items_of_not_readable hr]
    simp [hr]

theorem ty_of_items (h : a.items = .ok vs) : vs.length = a.size ∧ ∀ v ∈ vs, v.ty = a.item :=
  Sequence.ty_of_decode_replicate (items_eq_ok_iff.1 h).2

theorem length_lt_of_items (h : a.items = .ok vs) : vs.length < Index.signedBound := by
  rw [(ty_of_items h).1]
  exact Nat.lt_of_le_of_lt (items_eq_ok_iff.1 h).1.1 Index.word_lt_signedBound

theorem children_of_encode {i : Nat} {u v : Value} (h : a.items = .ok vs) (hu : vs[i]? = some u)
    (ht : v.HasTy u.ty) (he : encode a.item a.size (vs.set i v) = .ok b) :
    b.items = .ok (vs.set i (v.asTy u.ty)) := by
  obtain ⟨hr, hd⟩ := items_eq_ok_iff.1 h
  obtain ⟨body, hb, _, rfl⟩ := encode_eq_ok_iff.1 he
  exact items_eq_ok_iff.2 ⟨hr, Sequence.decode_encode_set hd hu ht hb⟩

/-- The arrays of fixed length; the shape is the item type and the length. -/
def rows : Rows StaticArray Nat (Ty × Nat) fun a => .ok a.size where
  shape a := (a.item, a.size)
  ty s := .array s.1 s.2
  children := items
  place _ n k := Index.position n (Index.signed k)
  accept s n k v := v.acceptedAt s.1 n k
  build s vs := encode s.1 s.2 vs
  Direct k := k < Index.signedBound
  Open _ := True
  ty_shape _ := rfl
  count_of_children h := by rw [(ty_of_items h).1]
  children_of_read h := by
    obtain ⟨_, _, h⟩ := Outcome.bind_eq_ok_iff.1 h
    obtain ⟨vs, hvs, _⟩ := Outcome.bind_eq_ok_iff.1 h
    exact ⟨vs, hvs⟩
  children_of_write h := by
    obtain ⟨_, _, h⟩ := Outcome.bind_eq_ok_iff.1 h
    obtain ⟨vs, hvs, _⟩ := Outcome.bind_eq_ok_iff.1 h
    exact ⟨vs, hvs⟩
  read_eq {a vs} h k := by
    show (Index.position a.size (Index.signed k) >>= fun i => a.items >>= (Index.item · i)) = _
    rw [h, (ty_of_items h).1]
    rfl
  write_eq {a vs} h k v := by
    show (v.expect a.item >>= fun _ =>
      a.items >>= fun ws => Index.replace ws k v >>= encode _ _) = _
    rw [h, Outcome.ok_bind, Index.replace_eq_within]
    unfold Value.acceptedAt
    cases v.expect a.item <;> cases Index.within vs.length k <;> rfl
  place_injective := Index.position_signed_injective
  place_of_accept h := Value.place_of_acceptedAt (length_lt_of_items h) (ty_of_items h).2
  accept_of_place _ hd h := Value.acceptedAt_of_place hd (ty_of_items h).2
  build_congr s := encode_congr s.1 s.2
  part_of_build h := by
    obtain ⟨body, hb, _⟩ := encode_eq_ok_iff.1 h
    exact Sequence.exists_part_of_encode hb
  shape_of_build h := by
    obtain ⟨body, _, _, rfl⟩ := encode_eq_ok_iff.1 h
    rfl
  children_of_build := children_of_encode

/-- The array was built from items, or comes from a change. -/
inductive Built : StaticArray → Prop where
  | ofItems {item : Ty} {size : Nat} {vs : List Value} {a : StaticArray} :
    ofItems item size vs = .ok a → Built a
  | write {a b : StaticArray} {k : Nat} {v : Value} : a.write k v = .ok b → Built b
  | set {a b : StaticArray} {i : Int} {v : Value} : a.set i v = .ok b → Built b

end StaticArray

/-! ## Arrays of any length -/

namespace DynamicArray

variable {a b : DynamicArray} {vs : List Value}

theorem items_eq_ok_iff : a.items = .ok vs ↔
    ∃ body, Word.counted vs.length body = .ok a.bytes ∧
      Sequence.decode (List.replicate vs.length a.item) body = .ok vs := by
  unfold items
  rw [Outcome.bind_eq_ok_iff]
  constructor
  · intro h
    obtain ⟨⟨count, body⟩, hs, hd⟩ := h
    obtain ⟨rfl, _⟩ := Sequence.ty_of_decode_replicate hd
    exact ⟨body, Word.splitCounted_eq_ok_iff.1 hs, hd⟩
  · intro h
    obtain ⟨body, hc, hd⟩ := h
    exact ⟨(vs.length, body), Word.splitCounted_eq_ok_iff.2 hc, hd⟩

theorem ty_of_items (h : a.items = .ok vs) : ∀ v ∈ vs, v.ty = a.item := by
  obtain ⟨_, _, hd⟩ := items_eq_ok_iff.1 h
  exact (Sequence.ty_of_decode_replicate hd).2

theorem hasTy_of_items (h : a.items = .ok vs) : ∀ v ∈ vs, v.HasTy a.item := by
  intro v hv
  rw [← ty_of_items h v hv]
  exact Ty.Same.refl v.ty

theorem length_lt_of_items (h : a.items = .ok vs) : vs.length < Index.signedBound := by
  obtain ⟨_, hc, _⟩ := items_eq_ok_iff.1 h
  exact Nat.lt_of_le_of_lt (Word.counted_eq_ok_iff.1 hc).1 Index.word_lt_signedBound

theorem length_of_items (h : a.items = .ok vs) : a.length = .ok vs.length := by
  obtain ⟨body, hc, _⟩ := items_eq_ok_iff.1 h
  unfold length
  rw [Word.splitCounted_eq_ok_iff.2 hc]
  rfl

/-- Values with the same parts build the same array. -/
theorem encode_congr (item : Ty) {vs ws : List Value} (h : vs.map Value.part = ws.map Value.part) :
    encode item vs = encode item ws := by
  have hl : vs.length = ws.length := by simpa using congrArg List.length h
  unfold encode
  rw [Sequence.encode_congr h, hl]

theorem children_of_encode {i : Nat} {u v : Value} (h : a.items = .ok vs) (hu : vs[i]? = some u)
    (ht : v.HasTy u.ty) (he : encode a.item (vs.set i v) = .ok b) :
    b.items = .ok (vs.set i (v.asTy u.ty)) := by
  obtain ⟨_, _, hd⟩ := items_eq_ok_iff.1 h
  obtain ⟨body, hb, hw, _, rfl⟩ := encode_eq_ok_iff.1 he
  refine items_eq_ok_iff.2 ⟨body, ?_, ?_⟩
  · rw [List.length_set] at hw ⊢
    exact Word.counted_eq_ok_iff.2 ⟨hw, by rw [List.length_set]⟩
  · rw [List.length_set]
    exact Sequence.decode_encode_set hd hu ht hb

/-- The arrays of any length; the shape is the item type. -/
def rows : Rows DynamicArray Nat Ty length where
  shape a := a.item
  ty := .list
  children := items
  place _ n k := Index.position n (Index.signed k)
  accept item n k v := v.acceptedAt item n k
  build := encode
  Direct k := k < Index.signedBound
  Open _ := True
  ty_shape _ := rfl
  count_of_children := length_of_items
  children_of_read h := by
    obtain ⟨vs, hvs, _⟩ := Outcome.bind_eq_ok_iff.1 h
    exact ⟨vs, hvs⟩
  children_of_write h := by
    obtain ⟨_, _, h⟩ := Outcome.bind_eq_ok_iff.1 h
    obtain ⟨vs, hvs, _⟩ := Outcome.bind_eq_ok_iff.1 h
    exact ⟨vs, hvs⟩
  read_eq {a vs} h k := by
    show (a.items >>= fun ws =>
      Index.position ws.length (Index.signed k) >>= Index.item ws) = _
    rw [h, Outcome.ok_bind]
  write_eq {a vs} h k v := by
    show (v.expect a.item >>= fun _ => a.items >>= fun ws => Index.replace ws k v >>= encode _) = _
    rw [h, Outcome.ok_bind, Index.replace_eq_within]
    unfold Value.acceptedAt
    cases v.expect a.item <;> cases Index.within vs.length k <;> rfl
  place_injective := Index.position_signed_injective
  place_of_accept h := Value.place_of_acceptedAt (length_lt_of_items h) (ty_of_items h)
  accept_of_place _ hd h := Value.acceptedAt_of_place hd (ty_of_items h)
  build_congr := encode_congr
  part_of_build h := by
    obtain ⟨body, hb, _⟩ := encode_eq_ok_iff.1 h
    exact Sequence.exists_part_of_encode hb
  shape_of_build h := by
    obtain ⟨body, _, _, _, rfl⟩ := encode_eq_ok_iff.1 h
    rfl
  children_of_build := children_of_encode

/-- The array was built from items, or empty, or comes from a change. -/
inductive Built : DynamicArray → Prop where
  | ofItems {item : Ty} {vs : List Value} {a : DynamicArray} : ofItems item vs = .ok a → Built a
  | empty (item : Ty) : Built (empty item)
  | append {a b : DynamicArray} {v : Value} : a.append v = .ok b → Built b
  | extend {a b : DynamicArray} {vs : List Value} : a.extend vs = .ok b → Built b
  | pop {a b : DynamicArray} {v : Value} : a.pop = .ok (v, b) → Built b
  | concat {a b c : DynamicArray} : a.concat b = .ok c → Built c
  | write {a b : DynamicArray} {k : Nat} {v : Value} : a.write k v = .ok b → Built b
  | set {a b : DynamicArray} {i : Int} {v : Value} : a.set i v = .ok b → Built b

/-- What is written into an array is a row of items again. -/
theorem exists_ofItems_of_write {k : Nat} {v : Value} (h : a.write k v = .ok b) :
    ∃ item vs, ofItems item vs = .ok b := by
  obtain ⟨_, hv, h⟩ := Outcome.bind_eq_ok_iff.1 h
  obtain ⟨ws, hws, h⟩ := Outcome.bind_eq_ok_iff.1 h
  obtain ⟨us, hus, h⟩ := Outcome.bind_eq_ok_iff.1 h
  obtain ⟨_, rfl⟩ := Index.replace_eq_ok_iff.1 hus
  have hty := Value.forall_hasTy_set (hasTy_of_items hws) (Value.expect_eq_ok_iff.1 hv) k
  exact ⟨_, _, ofItems_eq_ok_iff.2 ⟨hty, h⟩⟩

theorem Built.exists_ofItems (h : a.Built) : ∃ item vs, DynamicArray.ofItems item vs = .ok a := by
  cases h with
  | ofItems h => exact ⟨_, _, h⟩
  | empty item => exact ⟨_, _, (holds_empty item).built⟩
  | append h =>
    obtain ⟨_, hv, h⟩ := Outcome.bind_eq_ok_iff.1 h
    obtain ⟨ws, hws, h⟩ := Outcome.bind_eq_ok_iff.1 h
    refine ⟨_, _, ofItems_eq_ok_iff.2 ⟨List.forall_mem_append.2 ⟨?_, ?_⟩, h⟩⟩
    · exact hasTy_of_items hws
    · exact List.forall_mem_singleton.2 (Value.expect_eq_ok_iff.1 hv)
  | extend h =>
    obtain ⟨_, hvs, h⟩ := Outcome.bind_eq_ok_iff.1 h
    obtain ⟨ws, hws, h⟩ := Outcome.bind_eq_ok_iff.1 h
    refine ⟨_, _, ofItems_eq_ok_iff.2 ⟨List.forall_mem_append.2 ⟨?_, ?_⟩, h⟩⟩
    · exact hasTy_of_items hws
    · exact Value.expectAll_eq_ok_iff.1 hvs
  | pop h =>
    obtain ⟨ws, hws, h⟩ := Outcome.bind_eq_ok_iff.1 h
    split at h
    · cases h
    · obtain ⟨c, hc, h⟩ := Outcome.bind_eq_ok_iff.1 h
      cases h
      refine ⟨_, _, ofItems_eq_ok_iff.2 ⟨fun v hv => ?_, hc⟩⟩
      exact hasTy_of_items hws v ((List.dropLast_sublist ws).subset hv)
  | concat h =>
    obtain ⟨_, _, h⟩ := Outcome.bind_eq_ok_iff.1 h
    obtain ⟨us, _, h⟩ := Outcome.bind_eq_ok_iff.1 h
    obtain ⟨ws, _, h⟩ := Outcome.bind_eq_ok_iff.1 h
    exact ⟨_, _, h⟩
  | write h => exact exists_ofItems_of_write h
  | set h =>
    obtain ⟨n, _, h⟩ := Outcome.bind_eq_ok_iff.1 h
    obtain ⟨k, _, h⟩ := Outcome.bind_eq_ok_iff.1 h
    exact exists_ofItems_of_write h

end DynamicArray

/-! ## Structs -/

/-- Where a value is written into a row of fields, unless they are frozen. -/
def StructType.acceptedAt (s : StructType) (length : Nat) (field : String) (v : Value) :
    Except Error Nat := do
  if s.frozen then throw (.immutable s.name field)
  let k ← s.indexOf field
  v.expect (← Index.item s.types k)
  Index.within length k

theorem StructType.acceptedAt_eq_ok_iff {s : StructType} {length i : Nat} {field : String}
    {v : Value} : s.acceptedAt length field v = .ok i ↔
      s.frozen = false ∧ s.indexOf field = .ok i ∧ i < length ∧
        ∃ t, s.types[i]? = some t ∧ v.HasTy t := by
  unfold acceptedAt
  cases hf : s.frozen with
  | true =>
    simp only [reduceCtorEq, false_and, iff_false]
    exact nofun
  | false =>
    show (s.indexOf field >>= fun k => Index.item s.types k >>= fun t => v.expect t >>= fun _ =>
      Index.within length k) = .ok i ↔ _
    simp only [Outcome.bind_eq_ok_iff, Index.item_eq_ok_iff, Index.within_eq_ok_iff, true_and]
    constructor
    · intro h
      obtain ⟨k, hk, t, ht, _, hv, hlt, rfl⟩ := h
      exact ⟨hk, hlt, t, ht, Value.expect_eq_ok_iff.1 hv⟩
    · intro h
      obtain ⟨hk, hlt, t, ht, hv⟩ := h
      exact ⟨i, hk, t, ht, (), Value.expect_eq_ok_iff.2 hv, hlt, rfl⟩

theorem StructType.acceptedAt_of_frozen {s : StructType} (hf : s.frozen = true) (length : Nat)
    (field : String) (v : Value) :
    s.acceptedAt length field v = .error (.immutable s.name field) := by
  unfold acceptedAt
  rw [hf]
  rfl

/-- Where there is a field that is not frozen, only the type decides. -/
theorem StructType.acceptedAt_eq_map {s : StructType} {length i : Nat} {field : String} {t : Ty}
    (hf : s.frozen = false) (hi : s.indexOf field = .ok i) (hlt : i < length)
    (ht : s.types[i]? = some t) (v : Value) :
    s.acceptedAt length field v = (v.expect t).map fun _ => i := by
  unfold acceptedAt
  rw [hf, hi, Outcome.ok_bind, Index.item_eq_ok_iff.2 ht, Outcome.ok_bind,
    Index.within_eq_ok_iff.2 ⟨hlt, rfl⟩]
  cases v.expect t <;> rfl

namespace Struct

variable {s t : Struct} {vs : List Value}

/-- The values that were read have just the declared types. -/
theorem map_ty_of_values (h : s.values = .ok vs) : vs.map (·.ty) = s.type.types :=
  (Sequence.exists_parts_of_decode h).1

theorem place_of_acceptedAt {field : String} {v : Value} {i : Nat} (h : s.values = .ok vs)
    (ha : s.type.acceptedAt vs.length field v = .ok i) :
    s.type.indexOf field = .ok i ∧ ∃ u, vs[i]? = some u ∧ v.HasTy u.ty := by
  obtain ⟨_, hi, hlt, t, ht, hv⟩ := StructType.acceptedAt_eq_ok_iff.1 ha
  refine ⟨hi, vs[i], List.getElem?_eq_getElem hlt, ?_⟩
  rw [← map_ty_of_values h, List.getElem?_map, List.getElem?_eq_getElem hlt] at ht
  cases ht
  exact hv

theorem acceptedAt_of_place {field : String} {v : Value} {i : Nat} (hf : s.type.frozen = false)
    (h : s.values = .ok vs) (hi : s.type.indexOf field = .ok i) (hv : vs[i]? = some v) :
    s.type.acceptedAt vs.length field v = .ok i := by
  refine StructType.acceptedAt_eq_ok_iff.2
    ⟨hf, hi, (List.getElem?_eq_some_iff.1 hv).1, v.ty, ?_, Ty.Same.refl v.ty⟩
  rw [← map_ty_of_values h, List.getElem?_map, hv]
  rfl

/-- To set a field all values are read. -/
theorem exists_values_of_set {field : String} {v : Value} (h : s.set field v = .ok t) :
    ∃ vs, s.values = .ok vs := by
  unfold set at h
  cases hf : s.type.frozen with
  | true =>
    rw [hf] at h
    cases h
  | false =>
    rw [hf] at h
    obtain ⟨_, _, h⟩ := Outcome.bind_eq_ok_iff.1 h
    obtain ⟨_, _, h⟩ := Outcome.bind_eq_ok_iff.1 h
    obtain ⟨_, _, h⟩ := Outcome.bind_eq_ok_iff.1 h
    obtain ⟨vs, hvs, _⟩ := Outcome.bind_eq_ok_iff.1 h
    exact ⟨vs, hvs⟩

theorem set_eq (h : s.values = .ok vs) (field : String) (v : Value) :
    s.set field v =
      s.type.acceptedAt vs.length field v >>= fun i => encode s.type (vs.set i v) := by
  unfold set StructType.acceptedAt
  rw [h]
  cases s.type.frozen with
  | true => rfl
  | false =>
    rcases s.type.indexOf field with e | k
    · rfl
    · rcases hk : Index.item s.type.types k with e | ty
      · simp only [Outcome.ok_bind, hk]
        rfl
      · simp only [Outcome.ok_bind, hk, Index.replace_eq_within]
        cases v.expect ty <;> cases Index.within vs.length k <;> rfl

theorem children_of_encode {i : Nat} {u v : Value} (h : s.values = .ok vs) (hu : vs[i]? = some u)
    (ht : v.HasTy u.ty) (he : encode s.type (vs.set i v) = .ok t) :
    t.values = .ok (vs.set i (v.asTy u.ty)) := by
  obtain ⟨bs, hb, _, rfl⟩ := encode_eq_ok_iff.1 he
  exact Sequence.decode_encode_set h hu ht hb

/-- The structs; the shape is the declaration. -/
def rows : Rows Struct String StructType fun s => .ok s.type.types.length where
  shape s := s.type
  ty := StructType.ty
  children := values
  place type _ field := type.indexOf field
  accept := StructType.acceptedAt
  build := encode
  Direct _ := True
  Open type := type.frozen = false
  ty_shape _ := rfl
  count_of_children h := by rw [← map_ty_of_values h, List.length_map]
  children_of_read h := by
    obtain ⟨_, _, h⟩ := Outcome.bind_eq_ok_iff.1 h
    obtain ⟨vs, hvs, _⟩ := Outcome.bind_eq_ok_iff.1 h
    exact ⟨vs, hvs⟩
  children_of_write := exists_values_of_set
  read_eq {s vs} h field := by
    show (s.type.indexOf field >>= fun k => s.values >>= (Index.item · k)) = _
    rw [h]
    rfl
  write_eq := set_eq
  place_injective _ _ := StructType.indexOf_injective
  place_of_accept h ha := ⟨trivial, place_of_acceptedAt h ha⟩
  accept_of_place hf _ := acceptedAt_of_place hf
  build_congr := encode_congr
  part_of_build h := by
    obtain ⟨bs, hb, _⟩ := encode_eq_ok_iff.1 h
    exact Sequence.exists_part_of_encode hb
  shape_of_build h := by
    obtain ⟨bs, _, _, rfl⟩ := encode_eq_ok_iff.1 h
    rfl
  children_of_build := children_of_encode

/-- The struct was built from values, or comes from a change. -/
inductive Built : Struct → Prop where
  | ofValues {type : StructType} {vs : List Value} {s : Struct} : ofValues type vs = .ok s → Built s
  | set {s t : Struct} {field : String} {v : Value} : s.set field v = .ok t → Built t

end Struct

/-! ## Kinds of containers -/

/-- The kinds of containers that give handles to their children. -/
inductive Holder where
  | staticArray
  | dynamicArray
  | struct
deriving DecidableEq

namespace Holder

/-- The containers of a kind. -/
def Carrier : Holder → Type
  | staticArray => StaticArray
  | dynamicArray => DynamicArray
  | struct => Struct

/-- The key that a handle keeps: an index is made a position when the handle is opened. -/
def Place : Holder → Type
  | staticArray | dynamicArray => Nat
  | struct => String

instance : (h : Holder) → View h.Carrier
  | staticArray => inferInstanceAs (View StaticArray)
  | dynamicArray => inferInstanceAs (View DynamicArray)
  | struct => inferInstanceAs (View Struct)

instance : (h : Holder) → Container h.Carrier h.Place
  | staticArray => inferInstanceAs (Container StaticArray Nat)
  | dynamicArray => inferInstanceAs (Container DynamicArray Nat)
  | struct => inferInstanceAs (Container Struct String)

/-- What the containers of a kind that differ in the row of children alone have in common. -/
def Shape : Holder → Type
  | staticArray => Ty × Nat
  | dynamicArray => Ty
  | struct => StructType

/-- The number of children. -/
def count : (h : Holder) → h.Carrier → Except Error Nat
  | staticArray => fun a => .ok a.size
  | dynamicArray => DynamicArray.length
  | struct => fun s => .ok s.type.types.length

/-- The children of each kind stand in a row. -/
def rows : (h : Holder) → Rows h.Carrier h.Place h.Shape h.count
  | staticArray => StaticArray.rows
  | dynamicArray => DynamicArray.rows
  | struct => Struct.rows

/-- The keys at which a child is both read and written. -/
def Direct : (h : Holder) → h.Place → Prop
  | staticArray | dynamicArray => fun (k : Nat) => k < Index.signedBound
  | struct => fun _ => True

end Holder

/-! ## Lenses -/

end Abi
