/-
  Static types: how many bytes their values take, and that nothing else is asked of the bytes.

  Writer, reader and the size of a type pack adjacent booleans each in their own way; here all
  three are compared with the width of a head, body by body. A reader of a static type then looks
  at lengths only: the slots of a head are filled as soon as it is long enough, and what fills a
  slot has the size of the type that asked for it.

  Sizes are clamped at `Limits.size`, so without a bound on the type a length is known up to the
  clamp only.

  * `fixedSize_of_body`: the size of a static type is the clamped width of the head of its body.
  * `length_of_encode_static`, `min_length_of_decode_static`: what is written and what is read.
  * `decode_isOk_of_length`: bytes of the right length are read, by induction over bodies.
  * `static_length_decides`: the three put together.
-/
import Abi.Proofs.Host.Accepts
import Abi.Proofs.Host.Decode
import Abi.Proofs.Sequence.Cuts

namespace Abi.Host

open Layout (headWidth)

/-! ## Heads -/

/-- The row of static types takes the width of its head, clamped. -/
theorem sizeOfItems_eq_headWidth {ts : List Ty} (h : ∀ u ∈ ts, u.isDynamic = false) :
    Ty.sizeOfItems 0 ts = min (headWidth (ts.map Ty.slot)) Limits.size := by
  rw [Ty.sizeOfItems_of_static h, Layout.headSize_eq_headWidth]

/-- The body of a static value is all of the value, and its items are static. -/
theorem static_of_body {t : Ty} {bs body : Bytes} {ts : List Ty} (hd : t.isDynamic = false)
    (hb : t.body? bs = some (ts, body)) : body = bs ∧ ∀ u ∈ ts, u.isDynamic = false := by
  cases t with
  | list item => cases hd
  | array item size =>
    obtain ⟨hr, rfl⟩ := Ty.body?_array_eq_some_iff.1 hb
    obtain rfl := Ty.eq_replicate_of_repeated hr
    exact ⟨rfl, fun u hu => (List.eq_of_mem_replicate hu).symm ▸ hd⟩
  | tuple items =>
    cases hb
    exact ⟨rfl, Ty.isDynamic_tuple_eq_false_iff.1 hd⟩
  | struct name fields frozen =>
    cases hb
    exact ⟨rfl, Ty.isDynamic_struct_eq_false_iff.1 hd⟩
  | _ => cases hb

/-- The size of a static type is the width of the head of its body, clamped. -/
theorem fixedSize_of_body {t : Ty} {bs body : Bytes} {ts : List Ty} (hd : t.isDynamic = false)
    (hb : t.body? bs = some (ts, body)) :
    t.fixedSize = min (headWidth (ts.map Ty.slot)) Limits.size := by
  obtain ⟨_, hts⟩ := static_of_body hd hb
  cases t with
  | list item => cases hd
  | array item size =>
    obtain ⟨hr, _⟩ := Ty.body?_array_eq_some_iff.1 hb
    have hle := Ty.fixedSize_le_of_repeated hr
    obtain rfl := Ty.eq_replicate_of_repeated hr
    cases hbool : item.isBool with
    | false =>
      rw [← sizeOfItems_eq_headWidth hts, Ty.sizeOfItems_replicate hbool, Ty.fixedSize,
        if_neg (by simp [hbool])]
    | true =>
      -- the size of a packed array is not clamped, but no array is that large
      rw [Ty.fixedSize, if_pos hbool] at hle ⊢
      have hclamp : Limits.valueBytes ≤ Limits.size := by decide
      rw [List.map_replicate, Ty.slot_eq_bit_iff.2 hbool, Layout.headWidth_run,
        Nat.min_eq_left (Nat.le_trans hle hclamp)]
  | tuple items =>
    cases hb
    exact sizeOfItems_eq_headWidth hts
  | struct name fields frozen =>
    cases hb
    rw [Ty.fixedSize, Ty.sizeOfFields_eq]
    exact sizeOfItems_eq_headWidth hts
  | _ => cases hb

/-! ## What is written -/

/-- A value is written in as many bytes as its size says. -/
theorem length_of_bytesAs {t : Ty} {n : Host} {bs : Bytes} (h : bytesAs t n = .ok bs) :
    bs.length = size t n := by
  rcases written_of_suits (suits_of_bytesAs h) with ⟨cs, hc, hl, _⟩ | ⟨cause, he, _⟩
  · rw [h] at hc
    cases hc
    exact hl
  · rw [h] at he
    cases he

theorem length_of_encode_static {t : Ty} {n : Host} {bs : Bytes} (hd : t.isDynamic = false)
    (h : encode t n = .ok bs) : bs.length = t.fixedSize := by
  obtain ⟨hb, hl⟩ := encode_eq_ok_iff.1 h
  have hsize := length_of_bytesAs hb
  have hclamp : Limits.valueBytes ≤ Limits.size := by decide
  rw [hsize, size_of_static (suits_of_bytesAs hb) hd (by omega)]

/-! ## What is read -/

/-- What is read as a static type has the size of the type, up to the clamp. -/
theorem min_length_of_decode_static {t : Ty} {n : Host} {bs : Bytes} (hd : t.isDynamic = false)
    (h : decode t bs = .ok n) : min bs.length Limits.size = t.fixedSize := by
  have hwidth : Limits.width / 8 ≤ Limits.size := by decide
  cases ht : t.isPlain with
  | false =>
    obtain ⟨ts, body, ns, hb, hns, _⟩ := exists_body_of_decode ht h
    obtain ⟨rfl, hts⟩ := static_of_body hd hb
    rw [decodeRow_eq] at hns
    obtain ⟨vs, hvs, _⟩ := Outcome.bind_eq_ok_iff.1 hns
    rw [fixedSize_of_body hd hb, (Sequence.decode_static_isOk_iff hts).1 ⟨vs, hvs⟩]
  | true =>
    cases t with
    | uint width =>
      obtain ⟨hl, hw, _⟩ := decode_uint_eq_ok_iff.1 h
      rw [hl, Nat.min_eq_left (Nat.le_trans hw hwidth), Ty.fixedSize]
    | ufixed width precision =>
      obtain ⟨hl, hw, _⟩ := decode_ufixed_eq_ok_iff.1 h
      rw [hl, Nat.min_eq_left (Nat.le_trans hw hwidth), Ty.fixedSize]
    | byte =>
      rw [decode_byte_eq] at h
      rw [(decode_uint_eq_ok_iff.1 h).1]
      decide
    | bool =>
      obtain ⟨b, rfl, _⟩ := decode_bool_eq_ok_iff.1 h
      rw [List.length_singleton]
      decide
    | address =>
      obtain ⟨a, rfl, _⟩ := decode_address_eq_ok_iff.1 h
      rw [a.length_bytes]
      decide
    | array item size => cases ht
    | tuple items => cases ht
    | struct name fields frozen => cases ht
    | list item => cases hd
    | string => cases hd

/-- The values of a static row have the sizes of their types, and none of them has more bytes than
the body, unless it is a boolean. -/
theorem sized_of_decode {ts : List Ty} {body : Bytes} {vs : List Value} {v : Value}
    (h : Sequence.decode ts body = .ok vs) (hv : v ∈ vs) :
    v.Sized ∧ v.bytes.length ≤ max 1 body.length := by
  obtain ⟨_, _, ps, _, hps, _⟩ := Sequence.exists_parts_of_decode h
  obtain ⟨p, _, hp⟩ := Outcome.exists_result_of_mapM hps hv
  obtain ⟨children, hc, h⟩ := Outcome.bind_eq_ok_iff.1 h
  cases h
  rw [← List.map_uncurry_zip_eq_zipWith] at hv
  obtain ⟨q, hq, rfl⟩ := List.mem_map.1 hv
  exact ⟨Value.sized_iff_exists_part.2 ⟨p, hp⟩, Layout.length_le_of_split hc (List.of_mem_zip hq).2⟩

/-- Plain static types ask for a length only. -/
theorem decode_isOk_of_isPlain {t : Ty} {bs : Bytes} (ht : t.isPlain = true)
    (hd : t.isDynamic = false) (hc : t.Codable) (hl : bs.length = t.fixedSize) :
    ∃ n, decode t bs = .ok n := by
  cases t with
  | uint width =>
    have hw : width / 8 ≤ Limits.width / 8 := Nat.div_le_div_right hc.2.2
    exact ⟨_, decode_uint_eq_ok_iff.2 ⟨hl, hw, rfl⟩⟩
  | ufixed width precision =>
    have hw : width / 8 ≤ Limits.width / 8 := Nat.div_le_div_right hc.2.2
    exact ⟨_, decode_ufixed_eq_ok_iff.2 ⟨hl, hw, rfl⟩⟩
  | byte => exact ⟨_, decode_byte_eq bs ▸ decode_uint_eq_ok_iff.2 ⟨hl, by decide, rfl⟩⟩
  | bool =>
    obtain ⟨b, rfl⟩ := List.length_eq_one_iff.1 hl
    exact ⟨_, decode_bool_eq_ok_iff.2 ⟨b, rfl, rfl⟩⟩
  | address => exact ⟨_, decode_address_eq_ok_iff.2 ⟨⟨bs, hl⟩, rfl, rfl⟩⟩
  | array item size => cases ht
  | tuple items => cases ht
  | struct name fields frozen => cases ht
  | list item => cases hd
  | string => cases hd

/-- A composite type has a body in all bytes of its size if it takes no more bytes than a value
may. -/
theorem exists_body_of_static {t : Ty} (ht : t.isPlain = false) (hd : t.isDynamic = false)
    (hc : t.Codable) (hf : t.fixedSize ≤ Limits.valueBytes) (bs : Bytes) :
    ∃ ts, t.body? bs = some (ts, bs) := by
  cases t with
  | array item size => exact ⟨_, Ty.body?_array_eq_some_iff.2 ⟨Ty.repeated_eq_ok hc hf, rfl⟩⟩
  | tuple items => exact ⟨_, rfl⟩
  | struct name fields frozen => exact ⟨_, rfl⟩
  | list item => cases hd
  | _ => cases ht

/-- All bytes of the right length are read. -/
theorem decode_isOk_of_length {t : Ty} {bs : Bytes} (hd : t.isDynamic = false)
    (hc : t.Every Ty.Codable) (hf : t.fixedSize ≤ Limits.valueBytes)
    (hl : bs.length = t.fixedSize) : ∃ n, decode t bs = .ok n := by
  induction t using Ty.body_induction generalizing bs with
  | step t ih =>
    cases ht : t.isPlain with
    | true => exact decode_isOk_of_isPlain ht hd hc.self hl
    | false =>
      obtain ⟨ts, hb⟩ := exists_body_of_static ht hd hc.self hf bs
      obtain ⟨_, hts⟩ := static_of_body hd hb
      have hhead := fixedSize_of_body hd hb
      have hclamp : Limits.valueBytes < Limits.size := by decide
      have hwidth : Layout.headWidth (ts.map Ty.slot) = bs.length := by omega
      obtain ⟨vs, hvs⟩ := (Sequence.decode_static_isOk_iff hts).2 hwidth
      -- each value that is cut out has the length of its type, so the induction reaches it
      have hread : ∀ v ∈ vs, ∃ n, v.decode = .ok n := by
        intro v hv
        have hmem := Sequence.ty_mem_of_decode hvs hv
        obtain ⟨hsized, hle⟩ := sized_of_decode hvs hv
        have hsized := hsized (hts _ hmem)
        have hone : 1 ≤ Limits.valueBytes := by decide
        exact ih bs ts bs hb _ hmem (hts _ hmem) (hc.of_body hb _ hmem) (by omega) hsized
      obtain ⟨ns, hns⟩ := Outcome.exists_mapM hread
      refine ⟨ofItems t ns, ?_⟩
      rw [decode_of_body hb, decodeRow_eq, hvs, Outcome.ok_bind, hns]
      rfl

/-! ## Lengths -/

/-- The length is all there is to a static type. What is written has the size of the type, and so
has what is read; sizes are clamped, which no buffer is long enough to notice. If all parameters
are good and the size is not too large for a value, then exactly the bytes of this length are
read. -/
theorem static_length_decides (t : Ty) (hd : t.isDynamic = false) :
    (∀ n bs, encode t n = .ok bs → bs.length = t.fixedSize) ∧
      (∀ bs n, decode t bs = .ok n →
        min bs.length Limits.size = t.fixedSize ∧
          (bs.length ≤ Limits.size → bs.length = t.fixedSize)) ∧
      (t.Every Ty.Codable → t.fixedSize ≤ Limits.valueBytes →
        ∀ bs, (∃ n, decode t bs = .ok n) ↔ bs.length = t.fixedSize) := by
  refine ⟨fun n bs h => length_of_encode_static hd h, fun bs n h => ?_, fun hc hf bs => ⟨?_, ?_⟩⟩
  · have hmin := min_length_of_decode_static hd h
    exact ⟨hmin, fun hl => by rw [← hmin, Nat.min_eq_left hl]⟩
  · rintro ⟨n, h⟩
    have hmin := min_length_of_decode_static hd h
    have hclamp : Limits.valueBytes < Limits.size := by decide
    omega
  · exact decode_isOk_of_length hd hc hf

/-- Two booleans in a row share a byte, the one behind the struct has a byte of its own, and the
units take no room at all. -/
theorem static_length_decides_nested :
    let t : Ty := .tuple [.bool, .bool, .struct "Terms" [("flags", .array .bool 9),
      ("units", .array (.tuple []) 3), ("rate", .ufixed 16 2)] false, .bool,
      .array (.array (.uint 24) 2) 2]
    t.isDynamic = false ∧ t.Every Ty.Codable ∧ t.fixedSize = 18 ∧
      (∃ n, decode t (List.replicate 18 0xa5) = .ok n) ∧
      (¬ ∃ n, decode t (List.replicate 17 0xa5) = .ok n) ∧
      (∀ n bs, encode t n = .ok bs → bs.length = 18) ∧
      ∀ bs n, decode t bs = .ok n → bs.length ≤ Limits.size → bs.length = 18 := by
  intro t
  have hd : t.isDynamic = false := rfl
  have hc : t.Every Ty.Codable := by decide
  have hf : t.fixedSize = 18 := by decide
  obtain ⟨hencode, hdecode, hiff⟩ := static_length_decides t hd
  have hsmall : t.fixedSize ≤ Limits.valueBytes := by rw [hf]; decide
  rw [hf] at hencode hdecode
  refine ⟨hd, hc, hf, (hiff hc hsmall _).2 ?_, ?_, hencode, fun bs n h => (hdecode bs n h).2⟩
  · rw [hf, List.length_replicate]
  · rw [hiff hc hsmall, hf, List.length_replicate]
    decide

end Abi.Host
