/-
  Decoding gives back what was encoded, in the one spelling that decoding answers.

  Encoding accepts several spellings of a value: decimals with fewer places or with zeros in
  front, addresses in text, rows as lists. `canonical` rewrites them at every depth and leaves the
  rest alone. The parameters of a type have to be good (`Codable`): an integer of a width that is
  no whole number of bytes loses bits, and an array of more items than a word can count is
  refused when it is read, even if its items take no bytes at all.

  * `decodeItems_of_valuesAs`: a row of values comes back if each value does.
  * `restores_of_codable`: the round trip, by induction on the type. That an array is never refused
    for its size is `fixedSize_le_length`.
-/
import Abi.Host.Decode
import Abi.Proofs.Host.Encode
import Abi.Proofs.Numeral.FixedPoint

namespace Abi

/-! ## Types with good parameters -/

namespace Ty

/-- The width, if there is one, is one that the format has, and a word can count the items. -/
def Codable : Ty → Prop
  | .uint width | .ufixed width _ => IsWidth width
  | .array _ size => size ≤ Limits.word
  | .byte | .bool | .address | .list _ | .tuple _ | .struct _ _ _ | .string => True

instance : DecidablePred Codable
  | .uint width => inferInstanceAs (Decidable (IsWidth width))
  | .ufixed width _ => inferInstanceAs (Decidable (IsWidth width))
  | .array _ _ => inferInstanceAs (Decidable (_ ≤ _))
  | .byte | .bool | .address | .list _ | .tuple _ | .struct _ _ _ | .string => isTrue trivial

end Ty

namespace Host

/-! ## Canonical spellings -/

/-- The byte that an integer stands for. -/
def byteOf : Host → UInt8
  | .int i => UInt8.ofNat i
  | _ => 0

mutual

/-- The host value in the spelling that decoding answers, at every depth. -/
def canonical : Ty → Host → Host
  | .ufixed _ precision, .decimal literal => .decimal (FixedPoint.canonical precision literal)
  | .address, .text s =>
    match Address.ofText s with
    | .ok a => .address a
    | .error _ => .text s
  | .address, .bytes bs =>
    if h : bs.length = Limits.addressBytes then .address ⟨bs, h⟩ else .bytes bs
  | .list item, n =>
    match item, n with
    | .byte, .list ns => .bytes (ns.map byteOf)
    | _, .list ns => .list (ns.map (canonical item))
    | _, n => n
  | .array item _, .list ns => .list (ns.map (canonical item))
  | .tuple items, .tuple ns => .tuple (canonicalItems items ns)
  | .tuple items, .list ns => .tuple (canonicalItems items ns)
  | .struct _ declared _, .tuple ns => .struct (canonicalFields declared ns)
  | .struct _ declared _, .struct fields => .struct (canonicalFields declared (fields.map (·.2)))
  | _, n => n

/-- The host values as one type each. -/
def canonicalItems : List Ty → List Host → List Host
  | t :: ts, n :: ns => canonical t n :: canonicalItems ts ns
  | _, _ => []

/-- The host values as the type of one field each, with its name. -/
def canonicalFields : List (String × Ty) → List Host → List (String × Host)
  | (f, t) :: fs, n :: ns => (f, canonical t n) :: canonicalFields fs ns
  | _, _ => []

end

theorem canonicalFields_eq (fs : List (String × Ty)) (ns : List Host) :
    canonicalFields fs ns = (fs.map (·.1)).zip (canonicalItems (fs.map (·.2)) ns) := by
  induction fs generalizing ns with
  | nil => rfl
  | cons f fs ih =>
    cases ns with
    | nil => rfl
    | cons n ns => exact congrArg ((f.1, canonical f.2 n) :: ·) (ih ns)

theorem canonicalItems_replicate (item : Ty) (ns : List Host) :
    canonicalItems (List.replicate ns.length item) ns = ns.map (canonical item) := by
  induction ns with
  | nil => rfl
  | cons n ns ih => exact congrArg (canonical item n :: ·) ih

theorem decodeItems_replicate (item : Ty) (bss : List Bytes) :
    decodeItems (List.replicate bss.length item) bss = bss.mapM (decode item) := by
  induction bss with
  | nil => rfl
  | cons bs bss ih =>
    rw [List.length_cons, List.replicate_succ, decodeItems, ih, List.mapM_cons]

/-! ## Plain types -/

/-- What is read of an integer is what the whole bytes of the width hold. -/
theorem readUInt_encode_mod {width : Nat} (hw : width ≤ Limits.width) (i : Nat) :
    Scalar.readUInt width (BigEndian.encode (width / 8) i) = .ok (i % 256 ^ (width / 8)) := by
  rw [Scalar.readUInt_eq_ok_iff, BigEndian.length_encode, BigEndian.decode_encode]
  exact ⟨rfl, Nat.div_le_div_right hw, rfl⟩

/-- Whole bytes have as many numbers as their bits. -/
theorem pow_whole_bytes {width : Nat} (h : width % 8 = 0) : 256 ^ (width / 8) = 2 ^ width := by
  rw [show (256 : Nat) = 2 ^ 8 from rfl, ← Nat.pow_mul,
    Nat.mul_div_cancel' (Nat.dvd_of_mod_eq_zero h)]

/-- An integer that fits a whole number of bytes is read back. -/
theorem readUInt_encode {width i : Nat} (hw : Ty.IsWidth width) (hi : i < 2 ^ width) :
    Scalar.readUInt width (BigEndian.encode (width / 8) i) = .ok i := by
  rw [readUInt_encode_mod hw.2.2, pow_whole_bytes hw.1, Nat.mod_eq_of_lt hi]

theorem readAddress_bytes (a : Address) : Scalar.readAddress a.bytes = .ok a :=
  Scalar.readAddress_eq_ok_iff.2 rfl

/-- The bytes of a boolean are already normal. -/
theorem normal_of_ofHost {t : Ty} {n : Host} {v : Value} (h : Value.ofHost t n = .ok v) :
    v.normal = v := by
  obtain ⟨hb, _, rfl⟩ := ofHost_eq_ok_iff.1 h
  by_cases ht : v.ty.isBool = true
  · rw [Ty.isBool_iff.1 ht] at hb
    obtain ⟨b, _, hb⟩ := bytesAs_bool_eq_ok_iff.1 hb
    unfold Value.normal
    rw [if_pos ht, hb]
    cases b with
    | false => exact congrArg (Value.mk v.ty) hb.symm
    | true => exact congrArg (Value.mk v.ty) hb.symm
  · exact Value.normal_of_not_bool (by simpa using ht)

/-! ## Rows -/

/-- Whatever the type writes in no more bytes than a value may have, it reads back. -/
def Restores (t : Ty) : Prop :=
  ∀ n bs, bytesAs t n = .ok bs → bs.length ≤ Limits.valueBytes → decode t bs = .ok (canonical t n)

theorem decodeItems_of_valuesAs {ts : List Ty} {ns : List Host} {vs : List Value}
    (h : valuesAs ts ns = .ok vs) (ht : ∀ t ∈ ts, Restores t) :
    decodeItems ts (vs.map (·.normal.bytes)) = .ok (canonicalItems ts ns) := by
  rw [valuesAs_eq_mapM] at h
  induction ts generalizing ns vs with
  | nil =>
    cases h
    rfl
  | cons t ts ih =>
    cases ns with
    | nil =>
      cases h
      rfl
    | cons n ns =>
      rw [List.zip_cons_cons, List.mapM_cons] at h
      obtain ⟨v, hv, h⟩ := Outcome.bind_eq_ok_iff.1 h
      obtain ⟨vs, hvs, h⟩ := Outcome.bind_eq_ok_iff.1 h
      cases h
      obtain ⟨hb, hl, _⟩ := ofHost_eq_ok_iff.1 hv
      have hd : decode t v.bytes = .ok (canonical t n) := ht t (List.mem_cons_self ..) n _ hb hl
      have hrest := ih hvs fun s hs => ht s (List.mem_cons_of_mem t hs)
      rw [List.map_cons, normal_of_ofHost hv, decodeItems, hd, hrest]
      rfl

/-- A row is split into the bytes of its items, and these are read back. -/
theorem split_of_rowAs {ts : List Ty} {ns : List Host} {bs : Bytes} (h : RowAs ts ns bs)
    (ht : ∀ t ∈ ts, Restores t) :
    ∃ children, Layout.split (ts.map Ty.slot) bs = .ok children ∧
      decodeItems ts children = .ok (canonicalItems ts ns) := by
  obtain ⟨hl, vs, hv, hb⟩ := h
  refine ⟨_, ?_, decodeItems_of_valuesAs hv ht⟩
  rw [← types_of_valuesAs hl hv, List.map_map]
  exact Sequence.split_of_encode hb

/-- The same for items of one type. -/
theorem split_of_rowAs_replicate {item : Ty} {size : Nat} {ns : List Host} {bs : Bytes}
    (h : RowAs (List.replicate size item) ns bs) (ht : Restores item) :
    ∃ children, Layout.split (List.replicate size item.slot) bs = .ok children ∧
      children.mapM (decode item) = .ok (ns.map (canonical item)) := by
  obtain ⟨children, hs, hd⟩ := split_of_rowAs h fun t hm => List.eq_of_mem_replicate hm ▸ ht
  rw [List.map_replicate] at hs
  have hc : children.length = size := by rw [Layout.length_split hs, List.length_replicate]
  have hn : ns.length = size := by rw [h.1, List.length_replicate]
  rw [← hc, decodeItems_replicate, hc, ← hn, canonicalItems_replicate] at hd
  exact ⟨children, hs, hd⟩

/-! ## Lists -/

/-- Bytes that were given as a list of integers follow each other without a gap. -/
theorem eq_map_byteOf_of_rowAs {ns : List Host} {bs : Bytes}
    (h : RowAs (List.replicate ns.length .byte) ns bs) : bs = ns.map byteOf := by
  obtain ⟨_, vs, hv, hb⟩ := h
  rw [valuesAs_replicate] at hv
  have hslot : ∀ v ∈ vs, v.ty.slot ≠ .bit ∧ v.ty.slot ≠ .offset := by
    intro v hm
    obtain ⟨n, _, hn⟩ := Outcome.exists_of_mem_mapM hv hm
    rw [(ofHost_eq_ok_iff.1 hn).2.2]
    decide
  have hbyte : ∀ (n : Host) (v : Value), Value.ofHost .byte n = .ok v → v.bytes = [byteOf n] := by
    intro n v hn
    obtain ⟨i, rfl, hi, hb⟩ := bytesAs_byte_eq_ok_iff.1 (ofHost_eq_ok_iff.1 hn).1
    rw [hb]
    refine BigEndian.eq_of_decode_eq (BigEndian.length_encode _ _) ?_
    have hmod : (UInt8.ofNat i).toNat = i := by
      rw [UInt8.toNat_ofNat']
      exact Nat.mod_eq_of_lt hi
    rw [BigEndian.decode_encode_of_lt hi, byteOf, BigEndian.decode_cons, hmod, List.length_nil,
      BigEndian.decode_nil, Nat.pow_zero, Nat.mul_one, Nat.add_zero]
  rw [Sequence.eq_flatten_of_encode hslot hb, Outcome.map_eq_of_mapM (fun n _ => hbyte n) hv,
    ← List.flatMap_def, List.map_eq_flatMap]

theorem decode_list_of_ne {item : Ty} (h : item ≠ .byte) (bs : Bytes) :
    decode (.list item) bs = (do
      let (count, body) ← Word.splitCounted bs
      let children ← Layout.split (List.replicate count item.slot) body
      return .list (← children.mapM (decode item))) := by
  cases item
  case byte => exact absurd rfl h
  all_goals rfl

theorem canonical_list_of_ne {item : Ty} (h : item ≠ .byte) (ns : List Host) :
    canonical (.list item) (.list ns) = .list (ns.map (canonical item)) := by
  cases item
  case byte => exact absurd rfl h
  all_goals rfl

/-- A list of raw bytes comes back as raw bytes however it was given. -/
theorem restores_bytes : Restores (.list .byte) := by
  intro n bs h _
  show (Counted.readBytes bs).map bytes = _
  rcases bytesAs_list_eq_ok_iff.1 h with ⟨_, cs, rfl, h⟩ | ⟨ns, body, rfl, hr, h⟩
  · rw [Counted.readBytes_eq_ok_iff.2 h]
    rfl
  · obtain rfl := eq_map_byteOf_of_rowAs hr
    rw [← List.length_map byteOf] at h
    rw [Counted.readBytes_eq_ok_iff.2 h]
    rfl

theorem restores_list {item : Ty} (hne : item ≠ .byte) (h : Restores item) :
    Restores (.list item) := by
  intro n bs hb _
  rcases bytesAs_list_eq_ok_iff.1 hb with ⟨he, _⟩ | ⟨ns, body, rfl, hr, hc⟩
  · exact absurd he hne
  · obtain ⟨children, hs, hd⟩ := split_of_rowAs_replicate hr h
    rw [decode_list_of_ne hne, Word.splitCounted_eq_ok_iff.2 hc, canonical_list_of_ne hne]
    simp only [Outcome.ok_bind, hs, hd]
    rfl

/-! ## The round trip -/

theorem restores_of_codable {t : Ty} (ht : t.Every Ty.Codable) : Restores t := by
  induction t using Ty.induction with
  | uint width =>
    intro n bs h _
    obtain ⟨i, rfl, hi, rfl⟩ := bytesAs_uint_eq_ok_iff.1 h
    rw [decode, readUInt_encode ht.self hi]
    rfl
  | byte =>
    intro n bs h _
    obtain ⟨i, rfl, hi, rfl⟩ := bytesAs_byte_eq_ok_iff.1 h
    have hr := @readUInt_encode 8 i (by decide) hi
    show (Scalar.readUInt 8 (BigEndian.encode 1 i)).map int = _
    rw [hr]
    rfl
  | bool =>
    intro n bs h _
    obtain ⟨b, rfl, rfl⟩ := bytesAs_bool_eq_ok_iff.1 h
    rw [decode, Scalar.readBool_writeBool]
    rfl
  | ufixed width precision =>
    intro n bs h _
    obtain ⟨literal, i, rfl, hr, hi, rfl⟩ := bytesAs_ufixed_eq_ok_iff.1 h
    rw [decode, readUInt_encode ht.self hi]
    show Except.ok (decimal (FixedPoint.write precision i)) = _
    rw [FixedPoint.write_of_read hr]
    rfl
  | address =>
    intro n bs h _
    obtain ⟨a, rfl, rfl | ⟨s, rfl, hs⟩ | rfl⟩ := bytesAs_address_eq_ok_iff.1 h
    · rw [decode, readAddress_bytes]
      rfl
    · rw [decode, readAddress_bytes, canonical, hs]
      rfl
    · rw [decode, readAddress_bytes, canonical, dif_pos a.length_bytes]
      rfl
  | string =>
    intro n bs h _
    obtain ⟨s, rfl, h⟩ := bytesAs_string_eq_ok_iff.1 h
    rw [decode, Counted.readText_eq_ok_iff.2 h]
    rfl
  | list item ih =>
    by_cases hne : item = .byte
    · rw [hne]
      exact restores_bytes
    · exact restores_list hne (ih (Ty.every_list.1 ht).2)
  | array item size ih =>
    intro n bs h hl
    obtain ⟨hsize, hitem⟩ := Ty.every_array.1 ht
    have hrep : Ty.repeated item size = .ok (List.replicate size item) :=
      Ty.repeated_eq_ok hsize (Nat.le_trans (fixedSize_le_length h) hl)
    obtain ⟨ns, rfl, hr⟩ := bytesAs_array_eq_ok_iff.1 h
    obtain ⟨children, hs, hd⟩ := split_of_rowAs_replicate hr (ih hitem)
    rw [decode, hrep, Outcome.ok_bind, List.map_replicate, hs, Outcome.ok_bind, hd]
    rfl
  | tuple items ih =>
    intro n bs h _
    have hi := (Ty.every_tuple.1 ht).2
    obtain ⟨ns, hn, hr⟩ := bytesAs_tuple_eq_ok_iff.1 h
    obtain ⟨children, hs, hd⟩ := split_of_rowAs hr fun t hm => ih t hm (hi t hm)
    rw [decode, hs, Outcome.ok_bind, hd]
    rcases hn with rfl | rfl
    · rfl
    · rfl
  | struct name declared frozen ih =>
    intro n bs h _
    have hf := (Ty.every_struct.1 ht).2
    obtain ⟨ns, hn, hr⟩ := bytesAs_struct_eq_ok_iff.1 h
    obtain ⟨children, hs, hd⟩ := split_of_rowAs hr
      (List.forall_mem_map.2 fun f hm => ih f hm (hf f hm))
    rw [List.map_map] at hs
    have hfields : decodeFields declared children = .ok (canonicalFields declared ns) := by
      rw [decodeFields_eq, hd, canonicalFields_eq]
      rfl
    have hc : canonical (.struct name declared frozen) n =
        .struct (canonicalFields declared ns) := by
      rcases hn with rfl | ⟨fields, rfl, _, rfl⟩
      · rfl
      · rfl
    show (Layout.split (declared.map (·.2.slot)) bs >>= _) = _
    rw [hc]
    exact hs ▸ congrArg (Except.map struct) hfields

/-- Decoding what was encoded gives the same host value in its canonical spelling. -/
theorem decode_encode_canonical (t : Ty) (n : Host) (bs : Bytes) (ht : t.Every Ty.Codable)
    (h : encode t n = .ok bs) : decode t bs = .ok (canonical t n) := by
  obtain ⟨v, hv, hb⟩ := Outcome.bind_eq_ok_iff.1 h
  cases hb
  obtain ⟨hv, hl, _⟩ := ofHost_eq_ok_iff.1 hv
  exact restores_of_codable ht n v.bytes hv hl

/-- Lists for tuples and for raw bytes, a tuple for a struct, and a decimal with a zero too many in
front and a place too few behind. -/
theorem decode_encode_canonical_nested :
    let t : Ty := .tuple [.bool, .array (.tuple [.bool, .list .byte]) 2,
      .struct "Price" [("amount", .ufixed 16 2), ("unit", .string)] false]
    let n : Host := .list [.bool true,
      .list [.list [.bool true, .list [.int 7]], .tuple [.bool false, .bytes []]],
      .tuple [.decimal "00.5", .text "a"]]
    let bs : Bytes := [128, 0, 5, 0, 20, 0, 4, 0, 10, 128, 0, 3, 0, 1, 7, 0, 0, 3, 0, 0, 0, 50, 0, 4,
      0, 1, 97]
    t.Every Ty.Codable ∧ encode t n = .ok bs ∧ decode t bs = .ok (.tuple [.bool true,
      .list [.tuple [.bool true, .bytes [7]], .tuple [.bool false, .bytes []]],
      .struct [("amount", .decimal "0.50"), ("unit", .text "a")]]) := by
  intro t n bs
  have ht : t.Every Ty.Codable := by decide
  have he : encode t n = .ok bs := by decide +kernel
  exact ⟨ht, he, decode_encode_canonical t n bs ht he⟩

end Host

end Abi
