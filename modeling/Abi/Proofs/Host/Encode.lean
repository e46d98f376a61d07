/-
  What host values are written as, type by type (`bytesAs_uint_eq_ok_iff` and its neighbours).

  Whatever its spelling, a host value of a composite type is a row of host values, one for each
  child type, and its bytes are the sequence of their values (`RowAs`). An array is the case of
  equal child types, so that one account of rows does for arrays, tuples and structs.

  * `fixedSize_bounds_encode`: no encoding is shorter than the size of its type, so that no array
    is refused for its size that could be written.
-/
import Abi.Host.Encode
import Abi.Proofs.Ty.Size

namespace Abi.Host

/-! ## Rows -/

theorem ofHost_eq_ok_iff {t : Ty} {n : Host} {v : Value} :
    Value.ofHost t n = .ok v ↔
      bytesAs t n = .ok v.bytes ∧ v.bytes.length ≤ Limits.valueBytes ∧ v.ty = t := by
  unfold Value.ofHost
  rw [Outcome.bind_eq_ok_iff]
  constructor
  · intro h
    obtain ⟨bs, hb, hv⟩ := h
    obtain ⟨hl, rfl⟩ := Value.limited_eq_ok_iff.1 hv
    exact ⟨hb, hl, rfl⟩
  · intro h
    obtain ⟨hb, hl, rfl⟩ := h
    exact ⟨v.bytes, hb, Value.limited_eq_ok_iff.2 ⟨hl, rfl⟩⟩

theorem encode_eq_ok_iff {t : Ty} {n : Host} {bs : Bytes} :
    encode t n = .ok bs ↔ bytesAs t n = .ok bs ∧ bs.length ≤ Limits.valueBytes := by
  unfold encode
  rw [Outcome.bind_eq_ok_iff]
  constructor
  · intro h
    obtain ⟨v, hv, hb⟩ := h
    cases hb
    obtain ⟨hb, hl, _⟩ := ofHost_eq_ok_iff.1 hv
    exact ⟨hb, hl⟩
  · intro h
    obtain ⟨hb, hl⟩ := h
    exact ⟨⟨t, bs⟩, ofHost_eq_ok_iff.2 ⟨hb, hl, rfl⟩, rfl⟩

theorem valuesAs_eq_mapM (ts : List Ty) (ns : List Host) :
    valuesAs ts ns = (ts.zip ns).mapM fun p => Value.ofHost p.1 p.2 := by
  induction ts generalizing ns with
  | nil => rfl
  | cons t ts ih =>
    cases ns with
    | nil => rfl
    | cons n ns =>
      rw [valuesAs, ih, List.zip_cons_cons, List.mapM_cons]
      show _ = (bytesAs t n >>= Value.limited t) >>= _
      rw [bind_assoc]

/-- A row of host values of one type. -/
theorem valuesAs_replicate (item : Ty) (ns : List Host) :
    valuesAs (List.replicate ns.length item) ns = ns.mapM (Value.ofHost item) := by
  induction ns with
  | nil => rfl
  | cons n ns ih =>
    rw [List.length_cons, List.replicate_succ, valuesAs, ih, List.mapM_cons]
    show _ = (bytesAs item n >>= Value.limited item) >>= _
    rw [bind_assoc]

theorem types_of_valuesAs {ts : List Ty} {ns : List Host} {vs : List Value}
    (hl : ns.length = ts.length) (h : valuesAs ts ns = .ok vs) : vs.map (·.ty) = ts := by
  rw [valuesAs_eq_mapM] at h
  have hty : ∀ (p : Ty × Host) (v : Value), Value.ofHost p.1 p.2 = .ok v → v.ty = p.1 :=
    fun _ _ hv => (ofHost_eq_ok_iff.1 hv).2.2
  rw [Outcome.map_eq_of_mapM (fun p _ => hty p) h, List.map_fst_zip (Nat.le_of_eq hl.symm)]

/-- What holds of all that the types write holds of the values of a row. -/
theorem forall_mem_of_valuesAs {p : Ty → Bytes → Prop} {ts : List Ty} {ns : List Host}
    {vs : List Value} (h : valuesAs ts ns = .ok vs)
    (hp : ∀ t ∈ ts, ∀ n bs, bytesAs t n = .ok bs → p t bs) : ∀ v ∈ vs, p v.ty v.bytes := by
  intro v hm
  rw [valuesAs_eq_mapM] at h
  obtain ⟨q, hq, hv⟩ := Outcome.exists_of_mem_mapM h hm
  obtain ⟨hb, _, hty⟩ := ofHost_eq_ok_iff.1 hv
  rw [hty]
  exact hp q.1 (List.of_mem_zip hq).1 q.2 v.bytes hb

/-! ## Plain types -/

theorem bytesAs_uint_eq_ok_iff {width : Nat} {n : Host} {bs : Bytes} :
    bytesAs (.uint width) n = .ok bs ↔
      ∃ i, n = .int i ∧ i < 2 ^ width ∧ bs = BigEndian.encode (width / 8) i := by
  constructor
  · intro h
    cases n with
    | int i => exact ⟨i, rfl, Scalar.writeUInt_eq_ok_iff.1 h⟩
    | _ => cases h
  · intro h
    obtain ⟨i, rfl, h⟩ := h
    exact Scalar.writeUInt_eq_ok_iff.2 h

theorem bytesAs_byte_eq_ok_iff {n : Host} {bs : Bytes} :
    bytesAs .byte n = .ok bs ↔ ∃ i, n = .int i ∧ i < 256 ∧ bs = BigEndian.encode 1 i := by
  constructor
  · intro h
    cases n with
    | int i => exact ⟨i, rfl, Scalar.writeUInt_eq_ok_iff.1 h⟩
    | _ => cases h
  · intro h
    obtain ⟨i, rfl, h⟩ := h
    exact Scalar.writeUInt_eq_ok_iff.2 h

theorem bytesAs_bool_eq_ok_iff {n : Host} {bs : Bytes} :
    bytesAs .bool n = .ok bs ↔ ∃ b, n = .bool b ∧ bs = Scalar.writeBool b := by
  constructor
  · intro h
    cases n with
    | bool b => exact ⟨b, rfl, (Except.ok.inj h).symm⟩
    | _ => cases h
  · intro h
    obtain ⟨b, rfl, rfl⟩ := h
    rfl

theorem bytesAs_ufixed_eq_ok_iff {width precision : Nat} {n : Host} {bs : Bytes} :
    bytesAs (.ufixed width precision) n = .ok bs ↔
      ∃ literal i, n = .decimal literal ∧ FixedPoint.read precision literal = .ok i ∧
        i < 2 ^ width ∧ bs = BigEndian.encode (width / 8) i := by
  constructor
  · intro h
    cases n with
    | decimal literal =>
      obtain ⟨i, hr, hw⟩ := Outcome.bind_eq_ok_iff.1 h
      exact ⟨literal, i, rfl, hr, Scalar.writeUInt_eq_ok_iff.1 hw⟩
    | _ => cases h
  · intro h
    obtain ⟨literal, i, rfl, hr, hw⟩ := h
    exact Outcome.bind_eq_ok_iff.2 ⟨i, hr, Scalar.writeUInt_eq_ok_iff.2 hw⟩

theorem bytesAs_string_eq_ok_iff {n : Host} {bs : Bytes} :
    bytesAs .string n = .ok bs ↔ ∃ s, n = .text s ∧ Counted.writeText s = .ok bs := by
  constructor
  · intro h
    cases n with
    | text s => exact ⟨s, rfl, h⟩
    | _ => cases h
  · intro h
    obtain ⟨s, rfl, h⟩ := h
    exact h

/-- An address is written as its bytes, given as such, in text or as these bytes. -/
theorem bytesAs_address_eq_ok_iff {n : Host} {bs : Bytes} :
    bytesAs .address n = .ok bs ↔
      ∃ a : Address, a.bytes = bs ∧
        (n = .address a ∨ (∃ s, n = .text s ∧ Address.ofText s = .ok a) ∨ n = .bytes a.bytes) := by
  constructor
  · intro h
    cases n with
    | address a => exact ⟨a, Except.ok.inj h, Or.inl rfl⟩
    | text s =>
      obtain ⟨a, ha, hb⟩ := Outcome.map_eq_ok_iff.1 (Outcome.mapError_eq_ok_iff.1 h)
      exact ⟨a, hb, Or.inr (Or.inl ⟨s, rfl, ha⟩)⟩
    | bytes cs =>
      obtain ⟨a, ha, hb⟩ := Outcome.map_eq_ok_iff.1 (Outcome.mapError_eq_ok_iff.1 h)
      exact ⟨a, hb, Or.inr (Or.inr (congrArg bytes (Address.ofBytes_eq_ok_iff.1 ha).symm))⟩
    | _ => cases h
  · intro h
    obtain ⟨a, rfl, rfl | ⟨s, rfl, ha⟩ | rfl⟩ := h
    · rfl
    · exact Outcome.mapError_eq_ok_iff.2 (Outcome.map_eq_ok_iff.2 ⟨a, ha, rfl⟩)
    · exact Outcome.mapError_eq_ok_iff.2 (Outcome.map_eq_ok_iff.2 ⟨a, Address.ofBytes_bytes a, rfl⟩)

/-! ## Composite types -/

theorem expectCount_eq_ok_iff {t : Ty} {count : Nat} {ns : List Host} {u : Unit} :
    expectCount t count ns = .ok u ↔ ns.length = count := by
  unfold expectCount
  by_cases h : ns.length = count
  · simp [h]
  · simp [h]

theorem expectFields_eq_ok_iff {t : Ty} {struct : String} {names : List String}
    {fields : List (String × Host)} {u : Unit} :
    expectFields t struct names fields = .ok u ↔ fields.map (·.1) = names := by
  unfold expectFields
  by_cases h : fields.map (·.1) = names
  · simp [h]
  · simp [h]

/-- A row of as many host values as types, written as a sequence. -/
def RowAs (ts : List Ty) (ns : List Host) (bs : Bytes) : Prop :=
  ns.length = ts.length ∧ ∃ vs, valuesAs ts ns = .ok vs ∧ Sequence.encode vs = .ok bs

/-- The number of host values is checked before the row is written. -/
theorem rowAs_iff {t : Ty} {ts : List Ty} {ns : List Host} {bs : Bytes} :
    (do
      expectCount t ts.length ns
      Sequence.encode (← valuesAs ts ns)) = .ok bs ↔ RowAs ts ns bs := by
  rw [Outcome.bind_eq_ok_iff]
  simp only [expectCount_eq_ok_iff, Outcome.bind_eq_ok_iff]
  constructor
  · intro h
    obtain ⟨_, hl, h⟩ := h
    exact ⟨hl, h⟩
  · intro h
    obtain ⟨hl, h⟩ := h
    exact ⟨(), hl, h⟩

theorem bytesAs_array_eq_ok_iff {item : Ty} {size : Nat} {n : Host} {bs : Bytes} :
    bytesAs (.array item size) n = .ok bs ↔
      ∃ ns, n = .list ns ∧ RowAs (List.replicate size item) ns bs := by
  constructor
  · intro h
    cases n with
    | list ns =>
      obtain ⟨_, hc, hr⟩ := Outcome.bind_eq_ok_iff.1 h
      obtain rfl := expectCount_eq_ok_iff.1 hc
      refine ⟨ns, rfl, List.length_replicate.symm, ?_⟩
      rw [valuesAs_replicate]
      exact Outcome.bind_eq_ok_iff.1 hr
    | _ => cases h
  · intro h
    obtain ⟨ns, rfl, hl, h⟩ := h
    obtain rfl := hl.trans List.length_replicate
    rw [valuesAs_replicate] at h
    exact Outcome.bind_eq_ok_iff.2 ⟨(), expectCount_eq_ok_iff.2 rfl, Outcome.bind_eq_ok_iff.2 h⟩

theorem bytesAs_tuple_eq_ok_iff {items : List Ty} {n : Host} {bs : Bytes} :
    bytesAs (.tuple items) n = .ok bs ↔
      ∃ ns, (n = .tuple ns ∨ n = .list ns) ∧ RowAs items ns bs := by
  constructor
  · intro h
    cases n with
    | tuple ns => exact ⟨ns, Or.inl rfl, rowAs_iff.1 h⟩
    | list ns => exact ⟨ns, Or.inr rfl, rowAs_iff.1 h⟩
    | _ => cases h
  · intro h
    obtain ⟨ns, rfl | rfl, h⟩ := h
    · exact rowAs_iff.2 h
    · exact rowAs_iff.2 h

theorem bytesAs_struct_eq_ok_iff {name : String} {declared : List (String × Ty)} {frozen : Bool}
    {n : Host} {bs : Bytes} :
    bytesAs (.struct name declared frozen) n = .ok bs ↔
      ∃ ns, (n = .tuple ns ∨ ∃ fields, n = .struct fields ∧
        fields.map (·.1) = declared.map (·.1) ∧ fields.map (·.2) = ns) ∧
        RowAs (declared.map (·.2)) ns bs := by
  have hlen : (declared.map (·.2)).length = declared.length := List.length_map _
  constructor
  · intro h
    cases n with
    | tuple ns =>
      obtain ⟨_, hc, h⟩ := Outcome.bind_eq_ok_iff.1 h
      rw [valuesAsFields_eq] at h
      exact ⟨ns, Or.inl rfl, (expectCount_eq_ok_iff.1 hc).trans hlen.symm,
        Outcome.bind_eq_ok_iff.1 h⟩
    | struct fields =>
      obtain ⟨_, hf, h⟩ := Outcome.bind_eq_ok_iff.1 h
      have hn := expectFields_eq_ok_iff.1 hf
      have hl : (fields.map (·.2)).length = (declared.map (·.2)).length := by
        simpa using congrArg List.length hn
      rw [valuesAsFields_eq] at h
      exact ⟨_, Or.inr ⟨fields, rfl, hn, rfl⟩, hl, Outcome.bind_eq_ok_iff.1 h⟩
    | _ => cases h
  · intro h
    obtain ⟨ns, rfl | ⟨fields, rfl, hn, rfl⟩, hl, h⟩ := h
    · refine Outcome.bind_eq_ok_iff.2 ⟨(), expectCount_eq_ok_iff.2 (hl.trans hlen), ?_⟩
      rw [valuesAsFields_eq]
      exact Outcome.bind_eq_ok_iff.2 h
    · refine Outcome.bind_eq_ok_iff.2 ⟨(), expectFields_eq_ok_iff.2 hn, ?_⟩
      rw [valuesAsFields_eq]
      exact Outcome.bind_eq_ok_iff.2 h

theorem bytesAs_list_list (item : Ty) (ns : List Host) :
    bytesAs (.list item) (.list ns) = (do
      let children ← ns.mapM (Value.ofHost item)
      Word.counted children.length (← Sequence.encode children)) := by
  cases item <;> rfl

/-- The items of a list are a row of as many equal types. -/
theorem bytesAs_list_list_eq_ok_iff {item : Ty} {ns : List Host} {bs : Bytes} :
    bytesAs (.list item) (.list ns) = .ok bs ↔
      ∃ body, RowAs (List.replicate ns.length item) ns body ∧
        Word.counted ns.length body = .ok bs := by
  have hlen : ∀ vs, ns.mapM (Value.ofHost item) = .ok vs → vs.length = ns.length := fun vs h =>
    (Outcome.mapM_eq_ok_iff.1 h).length_eq.symm
  rw [bytesAs_list_list, Outcome.bind_eq_ok_iff]
  unfold RowAs
  rw [List.length_replicate, valuesAs_replicate]
  constructor
  · intro h
    obtain ⟨vs, hv, h⟩ := h
    obtain ⟨body, hb, h⟩ := Outcome.bind_eq_ok_iff.1 h
    rw [hlen vs hv] at h
    exact ⟨body, ⟨rfl, vs, hv, hb⟩, h⟩
  · intro h
    obtain ⟨body, ⟨_, vs, hv, hb⟩, h⟩ := h
    rw [← hlen vs hv] at h
    exact ⟨vs, hv, Outcome.bind_eq_ok_iff.2 ⟨body, hb, h⟩⟩

/-- A list is written behind its count; one of bytes can also be given as raw bytes. -/
theorem bytesAs_list_eq_ok_iff {item : Ty} {n : Host} {bs : Bytes} :
    bytesAs (.list item) n = .ok bs ↔
      (item = .byte ∧ ∃ cs, n = .bytes cs ∧ Counted.writeBytes cs = .ok bs) ∨
      ∃ ns body, n = .list ns ∧ RowAs (List.replicate ns.length item) ns body ∧
        Word.counted ns.length body = .ok bs := by
  constructor
  · intro h
    cases n with
    | list ns =>
      obtain ⟨body, hr, h⟩ := bytesAs_list_list_eq_ok_iff.1 h
      exact Or.inr ⟨ns, body, rfl, hr, h⟩
    | bytes cs =>
      cases item with
      | byte => exact Or.inl ⟨rfl, cs, rfl, h⟩
      | _ => cases h
    | _ => cases item <;> cases h
  · intro h
    rcases h with ⟨rfl, cs, rfl, h⟩ | ⟨ns, body, rfl, hr, h⟩
    · exact h
    · exact bytesAs_list_list_eq_ok_iff.2 ⟨body, hr, h⟩

/-! ## Sizes -/

theorem le_length_counted {count : Nat} {body bs : Bytes} (h : Word.counted count body = .ok bs) :
    Limits.wordBytes ≤ bs.length := by
  rw [(Word.counted_eq_ok_iff.1 h).2, List.length_append, Word.length_bytes]
  exact Nat.le_add_right _ _

/-- Nothing is written in fewer bytes than the size of its type. -/
theorem fixedSize_le_length {t : Ty} {n : Host} {bs : Bytes} (h : bytesAs t n = .ok bs) :
    t.fixedSize ≤ bs.length := by
  induction t using Ty.induction generalizing n bs with
  | uint width =>
    obtain ⟨i, _, _, rfl⟩ := bytesAs_uint_eq_ok_iff.1 h
    exact Nat.le_of_eq (BigEndian.length_encode _ _).symm
  | byte =>
    obtain ⟨i, _, _, rfl⟩ := bytesAs_byte_eq_ok_iff.1 h
    exact Nat.le_of_eq (BigEndian.length_encode _ _).symm
  | bool =>
    obtain ⟨b, _, rfl⟩ := bytesAs_bool_eq_ok_iff.1 h
    exact Nat.le_refl 1
  | ufixed width precision =>
    obtain ⟨_, i, _, _, _, rfl⟩ := bytesAs_ufixed_eq_ok_iff.1 h
    exact Nat.le_of_eq (BigEndian.length_encode _ _).symm
  | address =>
    obtain ⟨a, rfl, _⟩ := bytesAs_address_eq_ok_iff.1 h
    exact Nat.le_of_eq a.length_bytes.symm
  | string =>
    obtain ⟨s, _, h⟩ := bytesAs_string_eq_ok_iff.1 h
    exact le_length_counted h
  | list item ih =>
    rcases bytesAs_list_eq_ok_iff.1 h with ⟨_, cs, _, h⟩ | ⟨ns, body, _, _, h⟩
    · exact le_length_counted h
    · exact le_length_counted h
  | array item size ih =>
    obtain ⟨ns, _, hl, vs, hv, hb⟩ := bytesAs_array_eq_ok_iff.1 h
    refine Ty.fixedSize_array_le_of_encode hb (types_of_valuesAs hl hv) ?_
    apply forall_mem_of_valuesAs (p := fun t cs => t.fixedSize ≤ cs.length) hv
    intro t ht n cs hc
    obtain rfl := List.eq_of_mem_replicate ht
    exact ih hc
  | tuple items ih =>
    obtain ⟨ns, _, hl, vs, hv, hb⟩ := bytesAs_tuple_eq_ok_iff.1 h
    show Ty.sizeOfItems 0 items ≤ bs.length
    rw [← types_of_valuesAs hl hv]
    apply Ty.sizeOfItems_le_of_encode hb
    apply forall_mem_of_valuesAs (p := fun t cs => t.fixedSize ≤ cs.length) hv
    exact fun t ht n cs hc => ih t ht hc
  | struct name fields frozen ih =>
    obtain ⟨ns, _, hl, vs, hv, hb⟩ := bytesAs_struct_eq_ok_iff.1 h
    show Ty.sizeOfFields 0 fields ≤ bs.length
    rw [Ty.sizeOfFields_eq, ← types_of_valuesAs hl hv]
    apply Ty.sizeOfItems_le_of_encode hb
    apply forall_mem_of_valuesAs (p := fun t cs => t.fixedSize ≤ cs.length) hv
    exact List.forall_mem_map.2 fun f hf n cs hc => ih f hf hc

/-- The size of a type bounds all of its encodings from below, dynamic or not. So an array whose
items a word can count, but whose size is refused, is not written from any host value. -/
theorem fixedSize_bounds_encode :
    (∀ (t : Ty) (n : Host) (bs : Bytes), encode t n = .ok bs → t.fixedSize ≤ bs.length) ∧
      ∀ (item : Ty) (size : Nat), size ≤ Limits.word → (∃ e, Ty.repeated item size = .error e) →
        ∀ n : Host, ∃ e, encode (.array item size) n = .error e := by
  have hbound : ∀ (t : Ty) (n : Host) (bs : Bytes), encode t n = .ok bs →
      t.fixedSize ≤ bs.length := fun t n bs h => fixedSize_le_length (encode_eq_ok_iff.1 h).1
  refine ⟨hbound, fun item size hs hrefused n => Outcome.exists_error_of_ne_ok fun bs h => ?_⟩
  obtain ⟨e, he⟩ := hrefused
  have hfits : bs.length ≤ Limits.valueBytes := (encode_eq_ok_iff.1 h).2
  have hok := Ty.repeated_eq_ok hs (Nat.le_trans (hbound _ n bs h) hfits)
  rw [he] at hok
  cases hok

/-- The size counts what is inside both pairs but not the offsets to them, and is still below what
is written. An array of one pair with 512 integers is refused, and indeed is never written. -/
theorem fixedSize_bounds_encode_pairs :
    let pairs : Ty := .array (.tuple [.uint 64, .string]) 2
    let n : Host := .list [.tuple [.int 1, .text "a"], .list [.int 2, .text ""]]
    let bs : Bytes := [0, 4, 0, 17, 0, 0, 0, 0, 0, 0, 0, 1, 0, 10, 0, 1, 97, 0, 0, 0, 0, 0, 0, 0, 2,
      0, 10, 0, 0]
    let large : Ty := .tuple [.array (.uint 64) 512, .string]
    (encode pairs n = .ok bs ∧ pairs.fixedSize = 20 ∧ pairs.fixedSize ≤ bs.length) ∧
      Ty.repeated large 1 = .error (.oversize (.array large.name 1)) ∧
      ∀ n : Host, ∃ e, encode (.array large 1) n = .error e := by
  intro pairs n bs large
  have hok : encode pairs n = .ok bs := by decide +kernel
  have hlarge : Ty.repeated large 1 = .error (.oversize (.array large.name 1)) := by
    decide +kernel
  exact ⟨⟨hok, by decide +kernel, fixedSize_bounds_encode.1 pairs n bs hok⟩, hlarge,
    fixedSize_bounds_encode.2 large 1 (by decide) ⟨_, hlarge⟩⟩

end Abi.Host
