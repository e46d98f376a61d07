/-
  Which host values are encoded.

  The encoder measures what it writes many times: every child, every offset, every count and the
  whole. None of these checks is stricter than the one of the whole value, because no child takes
  more bytes than its parent and no offset is larger than the length; only the counts are of their
  own, as elements may take no bytes. So a host value that suits its type is written or does not
  fit, and then a size is reported, never anything else (`Written`).

  * `size_of_static`: a static value that fits takes the bytes that its type asks for, so that its
    length is never found wrong.
  * `written_row`: a row is written or does not fit, if that holds of its children.
  * `suits_of_bytesAs`: nothing else is written.
  * `encode_isOk_iff`: the host values that are encoded, and the error for those that do not fit.
-/
import Abi.Proofs.Host.Size

namespace Abi.Host

/-! ## Static values -/

/-- The slots of static children of the right sizes. -/
theorem rowSize_of_static {ts : List Ty} {ns : List Host} (hl : ns.length = ts.length)
    (hd : ∀ p ∈ ts.zip ns, p.1.isDynamic = false)
    (hs : ∀ p ∈ ts.zip ns, p.1.isBool = false → size p.1 p.2 = p.1.fixedSize) :
    rowSize ((ts.zip ns).map fun p => (p.1, size p.1 p.2)) =
      Layout.headSize 0 (ts.map Ty.slot) := by
  have hslots : ((ts.zip ns).map fun p => slotOf p.1 (size p.1 p.2)) = ts.map Ty.slot := by
    have hfst : (ts.zip ns).map (Ty.slot ∘ Prod.fst) = ts.map Ty.slot := by
      rw [← List.map_map, List.map_fst_zip (Nat.le_of_eq hl.symm)]
    rw [← hfst]
    refine List.map_congr_left fun p hp => ?_
    show slotOf p.1 (size p.1 p.2) = p.1.slot
    unfold slotOf Ty.slot
    cases hb : p.1.isBool with
    | true => rfl
    | false => rw [hs p hp hb]
  have hsum : ((ts.zip ns).map fun p => if p.1.isDynamic then size p.1 p.2 else 0).sum = 0 := by
    refine List.sum_eq_zero_iff_forall_eq_nat.2 fun k hk => ?_
    obtain ⟨p, hp, rfl⟩ := List.mem_map.1 hk
    rw [hd p hp]
    rfl
  unfold rowSize
  rw [List.map_map, List.map_map]
  show Layout.headWidth ((ts.zip ns).map fun p => slotOf p.1 (size p.1 p.2)) +
    ((ts.zip ns).map fun p => if p.1.isDynamic then size p.1 p.2 else 0).sum = _
  rw [hslots, hsum, Layout.headSize_eq_headWidth, Nat.add_zero]

/-- A static value that suits its type takes the bytes that the type asks for, unless these are too
many to be told apart. -/
theorem size_of_static {t : Ty} {n : Host} (h : Suits t n) (hd : t.isDynamic = false)
    (hl : size t n ≤ Limits.size) : size t n = t.fixedSize := by
  induction h with
  | @row t n ts ns hr _ ih =>
    have hstatic : ∀ p ∈ ts.zip ns, p.1.isDynamic = false := fun p hp =>
      hr.isDynamic_children hd p.1 (List.of_mem_zip hp).1
    rw [hr.size_eq, isCounted_of_static hd] at hl ⊢
    have hrow : rowSize ((ts.zip ns).map fun p => (p.1, size p.1 p.2)) =
        Layout.headSize 0 (ts.map Ty.slot) := by
      refine rowSize_of_static hr.length_eq hstatic fun p hp hb => ?_
      have hmem := List.mem_map_of_mem (f := fun p : Ty × Host => (p.1, size p.1 p.2)) hp
      have hle := le_rowSize hmem hb
      exact ih p hp (hstatic p hp) (by omega)
    rw [hrow] at hl ⊢
    rw [hr.fixedSize_eq hd (by omega)]
    exact Nat.zero_add _
  | string => cases hd
  | bytes => cases hd
  | _ => rfl

/-! ## Writing -/

/-- What the encoder does with a host value: it writes as many bytes as the size says, or it
reports a size, and then the value does not fit. -/
def Written (t : Ty) (n : Host) : Prop :=
  (∃ bs, bytesAs t n = .ok bs ∧ bs.length = size t n ∧ ∀ c ∈ counts t n, c ≤ Limits.word) ∨
    ∃ cause, bytesAs t n = .error (.oversize cause) ∧ ¬ Fits t n

/-- The same for the value, whose bytes are limited. -/
theorem Written.ofHost {t : Ty} {n : Host} (h : Written t n) :
    (∃ v, Value.ofHost t n = .ok v ∧ (v.ty, v.bytes.length) = (t, size t n) ∧ Fits t n) ∨
      ∃ cause, Value.ofHost t n = .error (.oversize cause) ∧ ¬ Fits t n := by
  unfold Value.ofHost
  rcases h with ⟨bs, hb, hl, hc⟩ | ⟨cause, he, hnot⟩
  · rw [hb, Outcome.ok_bind]
    by_cases hbig : Limits.valueBytes < bs.length
    · exact Or.inr ⟨_, if_pos hbig, fun hfit => by have := hfit.1; omega⟩
    · exact Or.inl ⟨⟨t, bs⟩, if_neg hbig, by rw [hl], by omega, hc⟩
  · rw [he, Outcome.error_bind]
    exact Or.inr ⟨cause, rfl, hnot⟩

/-- Children that are written have values; otherwise one of them does not fit. -/
theorem valuesAs_of_written {ts : List Ty} {ns : List Host}
    (h : ∀ p ∈ ts.zip ns, Written p.1 p.2) :
    (∃ vs, valuesAs ts ns = .ok vs ∧ (∀ p ∈ ts.zip ns, Fits p.1 p.2) ∧
      vs.map (fun v => (v.ty, v.bytes.length)) = (ts.zip ns).map fun p => (p.1, size p.1 p.2)) ∨
    ∃ cause, valuesAs ts ns = .error (.oversize cause) ∧ ∃ p ∈ ts.zip ns, ¬ Fits p.1 p.2 := by
  rw [valuesAs_eq_mapM]
  cases hv : (ts.zip ns).mapM fun p => Value.ofHost p.1 p.2 with
  | error e =>
    obtain ⟨p, hp, he⟩ := Outcome.exists_of_mapM_eq_error hv
    rcases (h p hp).ofHost with ⟨v, hok, _⟩ | ⟨cause, hbig, hnot⟩
    · rw [hok] at he
      cases he
    · rw [hbig] at he
      cases he
      exact Or.inr ⟨cause, rfl, p, hp, hnot⟩
  | ok vs =>
    have hall : ∀ p ∈ ts.zip ns, ∀ v, Value.ofHost p.1 p.2 = .ok v →
        (v.ty, v.bytes.length) = (p.1, size p.1 p.2) ∧ Fits p.1 p.2 := by
      intro p hp v hok
      rcases (h p hp).ofHost with ⟨w, hw, hl, hfit⟩ | ⟨cause, hbig, _⟩
      · rw [hw] at hok
        cases hok
        exact ⟨hl, hfit⟩
      · rw [hbig] at hok
        cases hok
    refine Or.inl ⟨vs, rfl, fun p hp => ?_,
      Outcome.map_eq_of_mapM (fun p hp v hok => (hall p hp v hok).1) hv⟩
    obtain ⟨v, _, hok⟩ := Outcome.exists_result_of_mapM hv hp
    exact (hall p hp v hok).2

/-- Values of the right sizes are written as a sequence, unless it is longer than a word can
count. -/
theorem encode_of_sized {vs : List Value} (h : ∀ v ∈ vs, v.Sized) :
    (∃ bs, Sequence.encode vs = .ok bs ∧
      bs.length = rowSize (vs.map fun v => (v.ty, v.bytes.length))) ∨
    ∃ cause, Sequence.encode vs = .error (.oversize cause) ∧
      Limits.word < rowSize (vs.map fun v => (v.ty, v.bytes.length)) := by
  have hsize := rowSize_of_values h
  cases he : Sequence.encode vs with
  | ok bs =>
    refine Or.inl ⟨bs, rfl, ?_⟩
    rw [hsize, Sequence.length_of_encode he, Layout.headSize_eq_headWidth, Sequence.headLength]
  | error e =>
    refine Or.inr ?_
    rcases Outcome.bind_eq_error_iff.1 he with hp | ⟨ps, hp, ha⟩
    · obtain ⟨v, hv, hpart⟩ := Outcome.exists_of_mapM_eq_error hp
      obtain ⟨p, hok⟩ := Value.sized_iff_exists_part.1 (h v hv)
      rw [hok] at hpart
      cases hpart
    · obtain ⟨o, rfl⟩ := Layout.oversize_of_assemble ha
      refine ⟨_, rfl, Nat.lt_of_not_le fun hle => ?_⟩
      obtain ⟨bs, hok⟩ := @Layout.assemble_isOk_of_length_le ps (by
        rwa [Layout.headSize_eq_headWidth, Sequence.headWidth_of_parts hp,
          Sequence.tails_of_parts hp, ← hsize])
      rw [hok] at ha
      cases ha

theorem counted_eq_error {count : Nat} (h : Limits.word < count) (body : Bytes) :
    Word.counted count body = .error (.oversize (.word count)) := by
  unfold Word.counted Word.fit
  rw [if_neg (by omega), Outcome.error_bind]

/-- The sequence of a row is written, behind the count if there is one. -/
theorem written_body {t : Ty} {n : Host} {ts : List Ty} {ns : List Host} {body : Bytes}
    (h : Row t n ts ns) (hfits : ∀ p ∈ ts.zip ns, Fits p.1 p.2)
    (hl : body.length = rowSize ((ts.zip ns).map fun p => (p.1, size p.1 p.2))) :
    (∃ bs, (if isCounted t then Word.counted ns.length body else .ok body) = .ok bs ∧
      bs.length = size t n ∧ ∀ c ∈ counts t n, c ≤ Limits.word) ∨
    ∃ cause, (if isCounted t then Word.counted ns.length body else .ok body) =
      .error (.oversize cause) ∧ ¬ Fits t n := by
  have hchildren : ∀ c ∈ (ts.zip ns).flatMap fun p => counts p.1 p.2, c ≤ Limits.word := by
    intro c hc
    obtain ⟨p, hp, hc⟩ := List.mem_flatMap.1 hc
    exact (hfits p hp).2 c hc
  have hsize := h.size_eq
  have hcounts := h.counts_eq
  rw [← hl] at hsize
  cases hlist : isCounted t with
  | false =>
    rw [hlist, if_neg (by decide), Nat.zero_add] at hsize
    rw [hlist, if_neg (by decide), List.nil_append] at hcounts
    exact Or.inl ⟨body, rfl, hsize.symm, hcounts ▸ hchildren⟩
  | true =>
    rw [hlist, if_pos rfl] at hsize hcounts
    rw [if_pos rfl]
    by_cases hcount : ns.length ≤ Limits.word
    · refine Or.inl ⟨_, Word.counted_eq_ok_iff.2 ⟨hcount, rfl⟩, ?_, ?_⟩
      · rw [hsize, List.length_append, Word.length_bytes, Limits.wordBytes]
      · rw [hcounts]
        exact List.forall_mem_append.2 ⟨List.forall_mem_singleton.2 hcount, hchildren⟩
    · refine Or.inr ⟨_, counted_eq_error (by omega) body, fun hfit => hcount ?_⟩
      exact hfit.2 _ (hcounts ▸ List.mem_append_left _ (List.mem_singleton_self _))

/-- A row is written or does not fit, if that holds of its children. -/
theorem written_row {t : Ty} {n : Host} {ts : List Ty} {ns : List Host} (h : Row t n ts ns)
    (hs : ∀ p ∈ ts.zip ns, Suits p.1 p.2) (hw : ∀ p ∈ ts.zip ns, Written p.1 p.2) :
    Written t n := by
  have hsmall : Limits.valueBytes ≤ Limits.word := by decide
  unfold Written
  rw [h.bytesAs_eq]
  rcases valuesAs_of_written hw with ⟨vs, hv, hfits, hsizes⟩ | ⟨cause, he, p, hp, hnot⟩
  · rw [hv, Outcome.ok_bind]
    have hsized : ∀ v ∈ vs, v.Sized := by
      intro v hm hd
      have hmem := List.mem_map_of_mem (f := fun v : Value => (v.ty, v.bytes.length)) hm
      rw [hsizes] at hmem
      obtain ⟨p, hp, heq⟩ := List.mem_map.1 hmem
      obtain ⟨hty, hlen⟩ := Prod.mk.inj heq
      rw [← hty] at hd ⊢
      rw [← hlen]
      refine size_of_static (hs p hp) hd (Nat.le_trans (hfits p hp).1 (by decide))
    rcases encode_of_sized hsized with ⟨body, hb, hl⟩ | ⟨cause, he, hlong⟩
    · rw [hsizes] at hl
      rw [hb, Outcome.ok_bind]
      exact written_body h hfits hl
    · rw [hsizes] at hlong
      rw [he, Outcome.error_bind]
      refine Or.inr ⟨cause, rfl, fun hfit => ?_⟩
      have := h.size_eq ▸ hfit.1
      omega
  · rw [he, Outcome.error_bind, Outcome.error_bind]
    exact Or.inr ⟨cause, rfl, fun hfit => hnot (fits_of_row h hfit p hp)⟩

theorem written_of_eq_ok {t : Ty} {n : Host} {bs : Bytes} (hb : bytesAs t n = .ok bs)
    (hl : bs.length = size t n) (hc : counts t n = []) : Written t n :=
  Or.inl ⟨bs, hb, hl, hc ▸ nofun⟩

/-- Bytes behind their number are written, unless that is larger than a word. -/
theorem written_of_counted {t : Ty} {n : Host} {bs : Bytes}
    (hb : bytesAs t n = Word.counted bs.length bs) (hs : size t n = Limits.wordBytes + bs.length)
    (hc : ∀ c ∈ counts t n, c = bs.length) : Written t n := by
  unfold Written
  rw [hb]
  by_cases hl : bs.length ≤ Limits.word
  · refine Or.inl ⟨_, Word.counted_eq_ok_iff.2 ⟨hl, rfl⟩, ?_, fun c hm => (hc c hm).trans_le hl⟩
    rw [hs, List.length_append, Word.length_bytes, Limits.wordBytes]
  · refine Or.inr ⟨_, counted_eq_error (by omega) bs, fun hfit => hl ?_⟩
    have hsmall : Limits.valueBytes ≤ Limits.word := by decide
    have := hfit.1
    omega

/-- Every host value that suits its type is written or does not fit. -/
theorem written_of_suits {t : Ty} {n : Host} (h : Suits t n) : Written t n := by
  induction h with
  | uint hi =>
    exact written_of_eq_ok (bytesAs_uint_eq_ok_iff.2 ⟨_, rfl, hi, rfl⟩)
      (BigEndian.length_encode _ _) rfl
  | byte hi =>
    exact written_of_eq_ok (bytesAs_byte_eq_ok_iff.2 ⟨_, rfl, hi, rfl⟩)
      (BigEndian.length_encode _ _) rfl
  | bool b => exact written_of_eq_ok rfl rfl rfl
  | ufixed hr hi =>
    exact written_of_eq_ok (bytesAs_ufixed_eq_ok_iff.2 ⟨_, _, rfl, hr, hi, rfl⟩)
      (BigEndian.length_encode _ _) rfl
  | address a => exact written_of_eq_ok rfl a.length_bytes rfl
  | @addressText s a ha =>
    have hb := bytesAs_address_eq_ok_iff.2 ⟨a, rfl, Or.inr (Or.inl ⟨s, rfl, ha⟩)⟩
    exact written_of_eq_ok hb a.length_bytes rfl
  | @addressBytes bs hl =>
    have hb := bytesAs_address_eq_ok_iff.2 ⟨⟨bs, hl⟩, rfl, Or.inr (Or.inr rfl)⟩
    exact written_of_eq_ok hb hl rfl
  | string s => exact @written_of_counted _ _ (Utf8.encode s) rfl rfl nofun
  | bytes bs => exact written_of_counted rfl rfl fun c hc => List.mem_singleton.1 hc
  | row hr hs ih => exact written_row hr hs ih

/-! ## Acceptance -/

/-- The children of a row that is written suit their types if everything does that the types
write. -/
theorem suits_of_valuesAs {ts : List Ty} {ns : List Host} {vs : List Value}
    (h : valuesAs ts ns = .ok vs) (ht : ∀ t ∈ ts, ∀ n bs, bytesAs t n = .ok bs → Suits t n) :
    ∀ p ∈ ts.zip ns, Suits p.1 p.2 := by
  intro p hp
  rw [valuesAs_eq_mapM] at h
  obtain ⟨v, _, hv⟩ := Outcome.exists_result_of_mapM h hp
  exact ht p.1 (List.of_mem_zip hp).1 p.2 v.bytes (ofHost_eq_ok_iff.1 hv).1

/-- Nothing is written that does not suit its type. -/
theorem suits_of_bytesAs {t : Ty} {n : Host} {bs : Bytes} (h : bytesAs t n = .ok bs) :
    Suits t n := by
  induction t using Ty.induction generalizing n bs with
  | uint width =>
    obtain ⟨i, rfl, hi, _⟩ := bytesAs_uint_eq_ok_iff.1 h
    exact .uint hi
  | byte =>
    obtain ⟨i, rfl, hi, _⟩ := bytesAs_byte_eq_ok_iff.1 h
    exact .byte hi
  | bool =>
    obtain ⟨b, rfl, _⟩ := bytesAs_bool_eq_ok_iff.1 h
    exact .bool b
  | ufixed width precision =>
    obtain ⟨literal, i, rfl, hr, hi, _⟩ := bytesAs_ufixed_eq_ok_iff.1 h
    exact .ufixed hr hi
  | address =>
    obtain ⟨a, _, rfl | ⟨s, rfl, ha⟩ | rfl⟩ := bytesAs_address_eq_ok_iff.1 h
    · exact .address a
    · exact .addressText ha
    · exact .addressBytes a.length_bytes
  | string =>
    obtain ⟨s, rfl, _⟩ := bytesAs_string_eq_ok_iff.1 h
    exact .string s
  | list item ih =>
    rcases bytesAs_list_eq_ok_iff.1 h with ⟨rfl, cs, rfl, _⟩ | ⟨ns, body, rfl, ⟨_, vs, hv, _⟩, _⟩
    · exact .bytes cs
    · refine .row (.list item ns) (suits_of_valuesAs hv fun t ht n bs hb => ?_)
      obtain rfl := List.eq_of_mem_replicate ht
      exact ih hb
  | array item size ih =>
    obtain ⟨ns, rfl, hl, vs, hv, _⟩ := bytesAs_array_eq_ok_iff.1 h
    obtain rfl := hl.trans List.length_replicate
    refine .row (.array item ns) (suits_of_valuesAs hv fun t ht n bs hb => ?_)
    obtain rfl := List.eq_of_mem_replicate ht
    exact ih hb
  | tuple items ih =>
    obtain ⟨ns, rfl | rfl, hl, vs, hv, _⟩ := bytesAs_tuple_eq_ok_iff.1 h
    · exact .row (.tuple hl) (suits_of_valuesAs hv fun t ht n bs hb => ih t ht hb)
    · exact .row (.tupleAsList hl) (suits_of_valuesAs hv fun t ht n bs hb => ih t ht hb)
  | struct name declared frozen ih =>
    have hfields : ∀ t ∈ declared.map (·.2), ∀ n bs, bytesAs t n = .ok bs → Suits t n :=
      List.forall_mem_map.2 fun f hf n bs hb => ih f hf hb
    obtain ⟨ns, rfl | ⟨fields, rfl, hn, rfl⟩, hl, vs, hv, _⟩ := bytesAs_struct_eq_ok_iff.1 h
    · exact .row (.structAsTuple (hl.trans (List.length_map _))) (suits_of_valuesAs hv hfields)
    · exact .row (.struct hn) (suits_of_valuesAs hv hfields)

/-- Exactly the host values are encoded that suit the type and fit, in as many bytes as their size
says. If one suits the type and does not fit, a size is reported. -/
theorem encode_isOk_iff (t : Ty) (n : Host) :
    ((∃ bs, encode t n = .ok bs) ↔ Suits t n ∧ Fits t n) ∧
      (Suits t n → ¬ Fits t n → ∃ cause, encode t n = .error (.oversize cause)) ∧
      ∀ bs, encode t n = .ok bs → bs.length = size t n := by
  have hcases : Suits t n → (∃ bs, encode t n = .ok bs ∧ bs.length = size t n ∧ Fits t n) ∨
      ∃ cause, encode t n = .error (.oversize cause) ∧ ¬ Fits t n := by
    intro hs
    unfold encode
    rcases (written_of_suits hs).ofHost with ⟨v, hv, hl, hfit⟩ | ⟨cause, he, hnot⟩
    · exact Or.inl ⟨v.bytes, by rw [hv]; rfl, (Prod.mk.inj hl).2, hfit⟩
    · exact Or.inr ⟨cause, by rw [he]; rfl, hnot⟩
  have hsuits : ∀ bs, encode t n = .ok bs → Suits t n := fun bs h =>
    suits_of_bytesAs (encode_eq_ok_iff.1 h).1
  refine ⟨⟨?_, ?_⟩, ?_, ?_⟩
  · rintro ⟨bs, h⟩
    rcases hcases (hsuits bs h) with ⟨_, _, _, hfit⟩ | ⟨cause, he, _⟩
    · exact ⟨hsuits bs h, hfit⟩
    · rw [h] at he
      cases he
  · rintro ⟨hs, hfit⟩
    rcases hcases hs with ⟨bs, h, _⟩ | ⟨_, _, hnot⟩
    · exact ⟨bs, h⟩
    · exact absurd hfit hnot
  · intro hs hnot
    rcases hcases hs with ⟨_, _, _, hfit⟩ | ⟨cause, he, _⟩
    · exact absurd hfit hnot
    · exact ⟨cause, he⟩
  · intro bs h
    rcases hcases (hsuits bs h) with ⟨cs, hc, hl, _⟩ | ⟨cause, he, _⟩
    · rw [h] at hc
      cases hc
      exact hl
    · rw [h] at he
      cases he

/-- Two booleans share a byte. Raw bytes can be too many for a value with their count in front, and
empty tuples too many to be counted. -/
theorem encode_isOk_iff_nested :
    let t : Ty :=
      .tuple [.bool, .bool, .list .string, .struct "Price" [("amount", .ufixed 16 2)] false]
    let n : Host :=
      .list [.bool true, .bool false, .list [.text "a", .text ""], .tuple [.decimal "0.5"]]
    let raw : Host := .bytes (List.replicate 4095 0)
    let units : Host := .list (List.replicate 65536 (.tuple []))
    (Suits t n ∧ Fits t n ∧ size t n = 16 ∧ ∃ bs, encode t n = .ok bs) ∧
    (Suits Ty.bytes raw ∧ ¬ Fits Ty.bytes raw ∧
      ∃ cause, encode Ty.bytes raw = .error (.oversize cause)) ∧
    (Suits (.list (.tuple [])) units ∧ ¬ Fits (.list (.tuple [])) units ∧
      ∃ cause, encode (.list (.tuple [])) units = .error (.oversize cause)) ∧
    ¬ ∃ bs, encode (.uint 8) (.int 256) = .ok bs := by
  intro t n raw units
  have hok : encode t n = .ok [0x80, 0, 5, 0, 50, 0, 2, 0, 4, 0, 7, 0, 1, 97, 0, 0] := by
    decide +kernel
  obtain ⟨hiff, -, hsize⟩ := encode_isOk_iff t n
  obtain ⟨hsuits, hfits⟩ := hiff.1 ⟨_, hok⟩
  have hraw : Suits Ty.bytes raw := .bytes _
  have hlong : ¬ Fits Ty.bytes raw := by
    intro hfit
    have hle : Limits.wordBytes + (List.replicate 4095 (0 : UInt8)).length ≤ Limits.valueBytes :=
      hfit.1
    rw [List.length_replicate, Limits.wordBytes, Limits.valueBytes] at hle
    omega
  have hunits : Suits (.list (.tuple [])) units := by
    refine .row (.list _ _) fun p hp => ?_
    obtain ⟨ht, hn⟩ := List.of_mem_zip hp
    rw [List.eq_of_mem_replicate ht, List.eq_of_mem_replicate hn]
    exact .row (.tuple rfl) fun q hq => absurd hq List.not_mem_nil
  have hmany : ¬ Fits (.list (.tuple [])) units := by
    intro hfit
    have hle := hfit.2 _ (List.mem_cons_self ..)
    rw [List.length_replicate, Limits.word] at hle
    omega
  refine ⟨⟨hsuits, hfits, (hsize _ hok).symm, _, hok⟩,
    ⟨hraw, hlong, (encode_isOk_iff Ty.bytes raw).2.1 hraw hlong⟩,
    ⟨hunits, hmany, (encode_isOk_iff _ units).2.1 hunits hmany⟩, fun h => ?_⟩
  obtain ⟨hbyte, -⟩ := (encode_isOk_iff (.uint 8) (.int 256)).1.1 h
  cases hbyte with
  | uint hi => exact absurd hi (by decide)
  | row hr => cases hr

end Abi.Host
