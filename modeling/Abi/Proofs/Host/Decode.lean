/-
  What bytes are read as, type by type (`decode_uint_eq_ok_iff` and its neighbours).

  A list, an array, a tuple and a struct hold one sequence each, the body. The types of its items
  follow from the type, for a list also from the count in front (`Ty.body?`). Texts and raw bytes
  have no body: they are plain, as integers are.

  * `decode_of_body`: a composite value is read by reading the row of its items from the body.
  * `exists_body_of_decode`: nothing else is read as a composite value.
  * `exists_bytes_of_rowAs`: a row that is written instead of the body takes its place.
  * `Ty.body_induction`: induction from the items of all bodies to the whole.
-/
import Abi.Proofs.Host.RoundTrip
import Abi.Proofs.Layout.Reading

namespace Abi

/-! ## Bodies -/

theorem Word.splitCounted_append {bs body : Bytes} {count : Nat}
    (h : splitCounted bs = .ok (count, body)) (suffix : Bytes) :
    splitCounted (bs ++ suffix) = .ok (count, body ++ suffix) := by
  rw [splitCounted_eq_ok_iff, counted_eq_ok_iff] at h ⊢
  obtain ⟨hc, rfl⟩ := h
  exact ⟨hc, List.append_assoc _ _ _⟩

namespace Ty

/-- Values of the type are read as a whole, without items that are read by themselves. -/
def isPlain : Ty → Bool
  | .list item => item = .byte
  | .array _ _ | .tuple _ | .struct _ _ _ => false
  | .uint _ | .byte | .bool | .ufixed _ _ | .address | .string => true

/-- The sequence that bytes of a composite type hold: the types of its items, and its bytes. -/
def body? : Ty → Bytes → Option (List Ty × Bytes)
  | .list item, bs =>
    if item = .byte then none
    else
      match Word.splitCounted bs with
      | .ok (count, body) => some (List.replicate count item, body)
      | .error _ => none
  | .array item size, bs =>
    match repeated item size with
    | .ok items => some (items, bs)
    | .error _ => none
  | .tuple items, bs => some (items, bs)
  | .struct _ fields _, bs => some (fields.map (·.2), bs)
  | .uint _, _ | .byte, _ | .bool, _ | .ufixed _ _, _ | .address, _ | .string, _ => none

theorem body?_list_eq_some_iff {item : Ty} {bs body : Bytes} {ts : List Ty} :
    (list item).body? bs = some (ts, body) ↔
      item ≠ .byte ∧ ∃ count, Word.splitCounted bs = .ok (count, body) ∧
        ts = List.replicate count item := by
  rw [body?]
  by_cases hb : item = .byte
  · simp [hb]
  · rw [if_neg hb]
    rcases Word.splitCounted bs with e | ⟨count, rest⟩
    · simp
    · simp [hb, and_comm, @eq_comm _ ts, @eq_comm _ rest]

theorem body?_array_eq_some_iff {item : Ty} {size : Nat} {bs body : Bytes} {ts : List Ty} :
    (array item size).body? bs = some (ts, body) ↔ repeated item size = .ok ts ∧ body = bs := by
  rw [body?]
  cases repeated item size with
  | error e => simp
  | ok items => simp [@eq_comm _ bs]

theorem body?_of_isPlain {t : Ty} (h : t.isPlain = true) (bs : Bytes) : t.body? bs = none := by
  cases t with
  | list item =>
    obtain rfl : item = .byte := of_decide_eq_true h
    rfl
  | array item size => cases h
  | tuple items => cases h
  | struct name fields frozen => cases h
  | _ => rfl

section

variable {t : Ty} {bs body : Bytes} {ts : List Ty}

theorem length_body_le (h : t.body? bs = some (ts, body)) : body.length ≤ bs.length := by
  cases t with
  | list item =>
    obtain ⟨_, count, hs, _⟩ := body?_list_eq_some_iff.1 h
    rw [Word.splitCounted_eq_ok_iff, Word.counted_eq_ok_iff] at hs
    rw [hs.2, List.length_append]
    exact Nat.le_add_left _ _
  | array item size =>
    obtain ⟨_, rfl⟩ := body?_array_eq_some_iff.1 h
    exact Nat.le_refl _
  | tuple items =>
    cases h
    exact Nat.le_refl _
  | struct name fields frozen =>
    cases h
    exact Nat.le_refl _
  | _ => cases h

/-- Bytes at the end of a composite value are bytes at the end of its body. -/
theorem body?_append (h : t.body? bs = some (ts, body)) (suffix : Bytes) :
    t.body? (bs ++ suffix) = some (ts, body ++ suffix) := by
  cases t with
  | list item =>
    obtain ⟨hb, count, hs, hts⟩ := body?_list_eq_some_iff.1 h
    exact body?_list_eq_some_iff.2 ⟨hb, count, Word.splitCounted_append hs suffix, hts⟩
  | array item size =>
    obtain ⟨hr, rfl⟩ := body?_array_eq_some_iff.1 h
    exact body?_array_eq_some_iff.2 ⟨hr, rfl⟩
  | tuple items =>
    cases h
    rfl
  | struct name fields frozen =>
    cases h
    rfl
  | _ => cases h

end

/-- Whatever follows for a type from the types in all its bodies holds of every type. -/
@[elab_as_elim]
theorem body_induction {motive : Ty → Prop}
    (step : ∀ t : Ty, (∀ bs ts body, t.body? bs = some (ts, body) → ∀ u ∈ ts, motive u) → motive t)
    (t : Ty) : motive t := by
  induction t using Ty.induction with
  | list item ih =>
    refine step _ fun bs ts body hb u hu => ?_
    obtain ⟨_, count, _, rfl⟩ := body?_list_eq_some_iff.1 hb
    exact List.eq_of_mem_replicate hu ▸ ih
  | array item size ih =>
    refine step _ fun bs ts body hb u hu => ?_
    rw [eq_replicate_of_repeated (body?_array_eq_some_iff.1 hb).1] at hu
    exact List.eq_of_mem_replicate hu ▸ ih
  | tuple items ih =>
    refine step _ fun bs ts body hb => ?_
    cases hb
    exact ih
  | struct name fields frozen ih =>
    refine step _ fun bs ts body hb => ?_
    cases hb
    exact List.forall_mem_map.2 ih
  | _ => exact step _ fun bs ts body hb => by cases hb

/-- What holds of every component of a type holds of every component of its items. -/
theorem Every.of_body {p : Ty → Prop} {t : Ty} {bs body : Bytes} {ts : List Ty} (h : t.Every p)
    (hb : t.body? bs = some (ts, body)) : ∀ u ∈ ts, u.Every p := by
  cases t with
  | list item =>
    obtain ⟨_, count, _, rfl⟩ := body?_list_eq_some_iff.1 hb
    exact fun u hu => List.eq_of_mem_replicate hu ▸ (every_list.1 h).2
  | array item size =>
    rw [eq_replicate_of_repeated (body?_array_eq_some_iff.1 hb).1]
    exact fun u hu => List.eq_of_mem_replicate hu ▸ (every_array.1 h).2
  | tuple items =>
    cases hb
    exact (every_tuple.1 h).2
  | struct name fields frozen =>
    cases hb
    exact List.forall_mem_map.2 (every_struct.1 h).2
  | _ => cases hb

end Ty

namespace Host

/-! ## Plain types -/

section

variable {bs : Bytes} {n : Host}

theorem decode_uint_eq_ok_iff {width : Nat} :
    decode (.uint width) bs = .ok n ↔
      bs.length = width / 8 ∧ width / 8 ≤ Limits.width / 8 ∧ n = .int (BigEndian.decode bs) := by
  rw [decode, Outcome.map_eq_ok_iff]
  constructor
  · intro h
    obtain ⟨i, hi, rfl⟩ := h
    obtain ⟨hl, hw, rfl⟩ := Scalar.readUInt_eq_ok_iff.1 hi
    exact ⟨hl, hw, rfl⟩
  · intro h
    obtain ⟨hl, hw, rfl⟩ := h
    exact ⟨_, Scalar.readUInt_eq_ok_iff.2 ⟨hl, hw, rfl⟩, rfl⟩

/-- A byte is read as an integer of eight bits. -/
theorem decode_byte_eq (bs : Bytes) : decode .byte bs = decode (.uint 8) bs := by
  rw [decode, decode]

theorem decode_bool_eq_ok_iff :
    decode .bool bs = .ok n ↔ ∃ b, bs = [b] ∧ n = .bool (b = Limits.trueByte) := by
  rw [decode, Outcome.map_eq_ok_iff]
  cases bs with
  | nil => simp [Scalar.readBool]
  | cons b bs => cases bs <;> simp [Scalar.readBool, eq_comm]

theorem decode_ufixed_eq_ok_iff {width precision : Nat} :
    decode (.ufixed width precision) bs = .ok n ↔
      bs.length = width / 8 ∧ width / 8 ≤ Limits.width / 8 ∧
        n = .decimal (FixedPoint.write precision (BigEndian.decode bs)) := by
  rw [decode, Outcome.bind_eq_ok_iff]
  constructor
  · intro h
    obtain ⟨i, hi, h⟩ := h
    obtain ⟨hl, hw, rfl⟩ := Scalar.readUInt_eq_ok_iff.1 hi
    cases h
    exact ⟨hl, hw, rfl⟩
  · intro h
    obtain ⟨hl, hw, rfl⟩ := h
    exact ⟨_, Scalar.readUInt_eq_ok_iff.2 ⟨hl, hw, rfl⟩, rfl⟩

theorem decode_address_eq_ok_iff :
    decode .address bs = .ok n ↔ ∃ a : Address, bs = a.bytes ∧ n = .address a := by
  simp only [decode, Outcome.map_eq_ok_iff, Scalar.readAddress_eq_ok_iff, @eq_comm _ n]

/-- A text is read exactly from what it is written as. -/
theorem decode_string_eq_ok_iff :
    decode .string bs = .ok n ↔ ∃ s, Counted.writeText s = .ok bs ∧ n = .text s := by
  simp only [decode, Outcome.map_eq_ok_iff, Counted.readText_eq_ok_iff, @eq_comm _ n]

/-- And so are raw bytes. -/
theorem decode_bytes_eq_ok_iff :
    decode (.list .byte) bs = .ok n ↔ ∃ cs, Counted.writeBytes cs = .ok bs ∧ n = .bytes cs := by
  simp only [decode, Outcome.map_eq_ok_iff, Counted.readBytes_eq_ok_iff, @eq_comm _ n]

end

/-! ## Reading bodies -/

/-- The host values of the items of a body. -/
def decodeRow (ts : List Ty) (body : Bytes) : Except Error (List Host) := do
  let children ← Layout.split (ts.map Ty.slot) body
  decodeItems ts children

/-- The host value that a composite type makes of the host values of its items. -/
def ofItems : Ty → List Host → Host
  | .tuple _, ns => .tuple ns
  | .struct _ fields _, ns => .struct ((fields.map (·.1)).zip ns)
  | _, ns => .list ns

/-- Items of one type are read one after the other. -/
theorem decodeRow_replicate (item : Ty) (count : Nat) (body : Bytes) :
    decodeRow (List.replicate count item) body = (do
      let children ← Layout.split (List.replicate count item.slot) body
      children.mapM (decode item)) := by
  unfold decodeRow
  rw [List.map_replicate]
  rcases hs : Layout.split (List.replicate count item.slot) body with e | children
  · rfl
  · have hc : children.length = count := by rw [Layout.length_split hs, List.length_replicate]
    rw [Outcome.ok_bind, Outcome.ok_bind, ← hc, decodeItems_replicate]

/-- A composite value is what its type makes of the items in the body. -/
theorem decode_of_body {t : Ty} {bs body : Bytes} {ts : List Ty}
    (h : t.body? bs = some (ts, body)) : decode t bs = (decodeRow ts body).map (ofItems t) := by
  cases t with
  | list item =>
    obtain ⟨hb, count, hs, rfl⟩ := Ty.body?_list_eq_some_iff.1 h
    rw [decode_list_of_ne hb, hs, decodeRow_replicate, Outcome.map_bind]
    simp only [Outcome.ok_bind, Outcome.bind_pure_eq_map]
    rfl
  | array item size =>
    obtain ⟨hr, rfl⟩ := Ty.body?_array_eq_some_iff.1 h
    have hts := Ty.eq_replicate_of_repeated hr
    rw [decode, hr, hts, decodeRow_replicate, Outcome.map_bind, Outcome.ok_bind, List.map_replicate]
    simp only [Outcome.bind_pure_eq_map]
    rfl
  | tuple items =>
    cases h
    rw [decode, decodeRow, Outcome.map_bind]
    simp only [Outcome.bind_pure_eq_map]
    rfl
  | struct name fields frozen =>
    cases h
    rw [decode, decodeRow, Outcome.map_bind, List.map_map]
    simp only [Outcome.bind_pure_eq_map, decodeFields_eq, Outcome.map_map]
    rfl
  | _ => cases h

/-- A composite value that is read has a body, and its items are read. -/
theorem exists_body_of_decode {t : Ty} {bs : Bytes} {n : Host} (ht : t.isPlain = false)
    (h : decode t bs = .ok n) :
    ∃ ts body ns, t.body? bs = some (ts, body) ∧ decodeRow ts body = .ok ns ∧ n = ofItems t ns := by
  have hbody : ∃ ts body, t.body? bs = some (ts, body) := by
    cases t with
    | list item =>
      have hb : item ≠ .byte := of_decide_eq_false ht
      rw [decode_list_of_ne hb] at h
      obtain ⟨⟨count, body⟩, hs, _⟩ := Outcome.bind_eq_ok_iff.1 h
      exact ⟨_, body, Ty.body?_list_eq_some_iff.2 ⟨hb, count, hs, rfl⟩⟩
    | array item size =>
      rw [decode] at h
      obtain ⟨ts, hr, _⟩ := Outcome.bind_eq_ok_iff.1 h
      exact ⟨ts, bs, Ty.body?_array_eq_some_iff.2 ⟨hr, rfl⟩⟩
    | tuple items => exact ⟨_, _, rfl⟩
    | struct name fields frozen => exact ⟨_, _, rfl⟩
    | _ => cases ht
  obtain ⟨ts, body, hb⟩ := hbody
  rw [decode_of_body hb] at h
  obtain ⟨ns, hns, rfl⟩ := Outcome.map_eq_ok_iff.1 h
  exact ⟨ts, body, ns, hb, hns, rfl⟩

/-! ## Items -/

theorem decodeItems_eq_mapM (ts : List Ty) (bss : List Bytes) :
    decodeItems ts bss = (ts.zip bss).mapM fun p => decode p.1 p.2 := by
  induction ts generalizing bss with
  | nil => rfl
  | cons t ts ih =>
    cases bss with
    | nil => rfl
    | cons bs bss => rw [decodeItems, ih, List.zip_cons_cons, List.mapM_cons]

/-- A row is read by cutting the body into values and reading each of them. -/
theorem decodeRow_eq (ts : List Ty) (body : Bytes) :
    decodeRow ts body = Sequence.decode ts body >>= fun vs => vs.mapM Value.decode := by
  unfold decodeRow Sequence.decode
  rcases Layout.split (ts.map Ty.slot) body with e | children
  · rfl
  · show decodeItems ts children = (List.zipWith Value.mk ts children).mapM Value.decode
    rw [decodeItems_eq_mapM, ← List.map_uncurry_zip_eq_zipWith, List.mapM_map]
    rfl

/-- A composite value is read exactly if its body is cut into values and each of these is read. -/
theorem decode_eq_ok_iff_of_body {t : Ty} {bs : Bytes} {n : Host} (ht : t.isPlain = false) :
    decode t bs = .ok n ↔
      ∃ ts body vs ns, t.body? bs = some (ts, body) ∧ Sequence.decode ts body = .ok vs ∧
        vs.mapM Value.decode = .ok ns ∧ n = ofItems t ns := by
  constructor
  · intro h
    obtain ⟨ts, body, ns, hb, hns, rfl⟩ := exists_body_of_decode ht h
    rw [decodeRow_eq] at hns
    obtain ⟨vs, hvs, hns⟩ := Outcome.bind_eq_ok_iff.1 hns
    exact ⟨ts, body, vs, ns, hb, hvs, hns, rfl⟩
  · intro h
    obtain ⟨ts, body, vs, ns, hb, hvs, hns, rfl⟩ := h
    rw [decode_of_body hb, decodeRow_eq, hvs, Outcome.ok_bind, hns]
    rfl

theorem length_of_decodeRow {ts : List Ty} {body : Bytes} {ns : List Host}
    (h : decodeRow ts body = .ok ns) : ns.length = ts.length := by
  rw [decodeRow_eq] at h
  obtain ⟨vs, hvs, hns⟩ := Outcome.bind_eq_ok_iff.1 h
  rw [← (Outcome.mapM_eq_ok_iff.1 hns).length_eq, Sequence.length_decode hvs]

theorem decodeItems_cons_eq_ok_iff {t : Ty} {ts : List Ty} {bs : Bytes} {bss : List Bytes}
    {ns : List Host} :
    decodeItems (t :: ts) (bs :: bss) = .ok ns ↔
      ∃ n ms, ns = n :: ms ∧ decode t bs = .ok n ∧ decodeItems ts bss = .ok ms := by
  rw [decodeItems_eq_mapM, List.zip_cons_cons, Outcome.mapM_cons_eq_ok_iff, decodeItems_eq_mapM]

/-- The item behind some others is read by itself. -/
theorem exists_decode_of_decodeItems {ss ts : List Ty} {t : Ty} {pre post : List Bytes} {bs : Bytes}
    {ns : List Host} (hl : ss.length = pre.length)
    (h : decodeItems (ss ++ t :: ts) (pre ++ bs :: post) = .ok ns) : ∃ n, decode t bs = .ok n := by
  rw [decodeItems_eq_mapM, List.zip_append hl, List.zip_cons_cons] at h
  obtain ⟨_, _, _, _, h⟩ := Outcome.mapM_append_eq_ok_iff.1 h
  obtain ⟨n, _, _, hn, _⟩ := Outcome.mapM_cons_eq_ok_iff.1 h
  exact ⟨n, hn⟩

/-! ## Writing bodies -/

/-- A row of the items of a value that was read is written in the place of the body. -/
theorem exists_bytes_of_rowAs {t : Ty} {bs body body' : Bytes} {ts : List Ty} {ns : List Host}
    (hb : t.body? bs = some (ts, body)) (h : RowAs ts ns body') :
    ∃ bs', bytesAs t (ofItems t ns) = .ok bs' ∧ t.body? bs' = some (ts, body') ∧
      bs'.length + body.length = bs.length + body'.length ∧ (bs' = bs ↔ body' = body) := by
  cases t with
  | list item =>
    obtain ⟨hne, count, hs, rfl⟩ := Ty.body?_list_eq_some_iff.1 hb
    obtain ⟨hc, rfl⟩ := Word.counted_eq_ok_iff.1 (Word.splitCounted_eq_ok_iff.1 hs)
    obtain rfl : ns.length = count := h.1.trans List.length_replicate
    have hcounted := Word.counted_eq_ok_iff.2 ⟨hc, @rfl _ (Word.bytes ns.length ++ body')⟩
    refine ⟨Word.bytes ns.length ++ body',
      bytesAs_list_eq_ok_iff.2 (Or.inr ⟨ns, body', rfl, h, hcounted⟩), ?_, ?_, ?_⟩
    · exact Ty.body?_list_eq_some_iff.2
        ⟨hne, ns.length, Word.splitCounted_eq_ok_iff.2 hcounted, rfl⟩
    · rw [List.length_append, List.length_append]
      omega
    · exact List.append_right_inj _
  | array item size =>
    obtain ⟨hr, rfl⟩ := Ty.body?_array_eq_some_iff.1 hb
    rw [Ty.eq_replicate_of_repeated hr] at h
    exact ⟨body', bytesAs_array_eq_ok_iff.2 ⟨ns, rfl, h⟩,
      Ty.body?_array_eq_some_iff.2 ⟨hr, rfl⟩, Nat.add_comm _ _, Iff.rfl⟩
  | tuple items =>
    cases hb
    exact ⟨body', bytesAs_tuple_eq_ok_iff.2 ⟨ns, Or.inl rfl, h⟩, rfl, Nat.add_comm _ _, Iff.rfl⟩
  | struct name fields frozen =>
    cases hb
    have hl : (fields.map (·.1)).length = ns.length := by
      rw [h.1, List.length_map, List.length_map]
    have hnames : ((fields.map (·.1)).zip ns).map (·.1) = fields.map (·.1) :=
      List.map_fst_zip (Nat.le_of_eq hl)
    have hitems : ((fields.map (·.1)).zip ns).map (·.2) = ns :=
      List.map_snd_zip (Nat.le_of_eq hl.symm)
    exact ⟨body', bytesAs_struct_eq_ok_iff.2 ⟨ns, Or.inr ⟨_, rfl, hnames, hitems⟩, h⟩, rfl,
      Nat.add_comm _ _, Iff.rfl⟩
  | _ => cases hb

end Host

end Abi
