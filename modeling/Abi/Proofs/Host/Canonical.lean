/-
  Encoding again what was decoded.

  Reading is more liberal than writing: it passes over gaps in front of a tail and over bits behind
  a run of booleans, in every sequence inside a value (`Reads`), and takes any byte by itself for a
  truth value. Nothing else is lost. So a buffer comes back unchanged exactly if it is `Canonical`,
  and otherwise in other bytes, but never in more of them.

  * `exists_rowRewritten`: the items of a row are written again one by one.
  * `rewrites`: so is every value, by induction on the type.
  * `encode_of_decode`: what is decoded is encoded again, in the same bytes exactly if these are
    canonical.
  * `encode_eq_ok_iff_gapless`: without booleans only gaps are passed over.
-/
import Abi.Proofs.Host.Decode
import Abi.Proofs.Layout.Tight

namespace Abi

namespace Host

open Layout (Part Tight Gapless Clear)

/-! ## Canonical buffers -/

/-- A sequence of items of these types is read from `body` when a value is read from `bs`: it is
the body of the value, or it is read for an item in that body. -/
inductive Reads : Ty → Bytes → List Ty → Bytes → Prop
  | body {t : Ty} {bs body : Bytes} {ts : List Ty} :
    t.body? bs = some (ts, body) → Reads t bs ts body
  | item {t : Ty} {bs outer body : Bytes} {us ts : List Ty} {vs : List Value} {v : Value} :
    t.body? bs = some (us, outer) → Sequence.decode us outer = .ok vs → v ∈ vs →
      Reads v.ty v.bytes ts body → Reads t bs ts body

/-- Every sequence that is read is tight. -/
def TightInside (t : Ty) (bs : Bytes) : Prop :=
  ∀ ts body, Reads t bs ts body → Tight (ts.map Ty.slot) body

/-- Nothing in the bytes is passed over when they are read as a value of the type. -/
structure Canonical (t : Ty) (bs : Bytes) : Prop where
  /-- A truth value by itself has one of the two bytes that are written. -/
  truth : t = .bool → bs = [Limits.falseByte] ∨ bs = [Limits.trueByte]
  inside : TightInside t bs

theorem tightInside_of_isPlain {t : Ty} (ht : t.isPlain = true) (bs : Bytes) :
    TightInside t bs := by
  intro ts body h
  have hnone := Ty.body?_of_isPlain ht bs
  cases h with
  | body hb =>
    rw [hnone] at hb
    cases hb
  | item hb =>
    rw [hnone] at hb
    cases hb

/-- A composite value is tight inside if its body is tight and its items are tight inside. -/
theorem tightInside_iff_of_body {t : Ty} {bs body : Bytes} {ts : List Ty} {vs : List Value}
    (hb : t.body? bs = some (ts, body)) (hv : Sequence.decode ts body = .ok vs) :
    TightInside t bs ↔ Tight (ts.map Ty.slot) body ∧ ∀ v ∈ vs, TightInside v.ty v.bytes := by
  constructor
  · intro h
    exact ⟨h ts body (.body hb), fun v hm us inner hr => h us inner (.item hb hv hm hr)⟩
  · rintro ⟨hbody, hitems⟩ us inner hr
    cases hr with
    | body hb' =>
      rw [hb] at hb'
      cases hb'
      exact hbody
    | item hb' hv' hm hr =>
      rw [hb] at hb'
      cases hb'
      rw [hv] at hv'
      cases hv'
      exact hitems _ hm us inner hr

theorem canonical_iff_of_ne_bool {t : Ty} (ht : t ≠ .bool) (bs : Bytes) :
    Canonical t bs ↔ TightInside t bs :=
  ⟨Canonical.inside, fun h => ⟨fun hb => absurd hb ht, h⟩⟩

/-! ## Plain types -/

/-- What the type reads from at most as many bytes as a value may have, it writes again. -/
def Rewrites (t : Ty) : Prop :=
  ∀ bs n, bs.length ≤ Limits.valueBytes → decode t bs = .ok n →
    ∃ c, bytesAs t n = .ok c ∧ c.length ≤ bs.length ∧ decode t c = .ok n ∧ (c = bs ↔ Canonical t bs)

/-- Bytes denote a number of no more bits than they have. -/
theorem decode_lt_two_pow {width : Nat} {bs : Bytes} (hl : bs.length ≤ width / 8) :
    BigEndian.decode bs < 2 ^ width := by
  have hlt := BigEndian.decode_lt bs
  have hpow : (256 : Nat) ^ bs.length = 2 ^ (8 * bs.length) := by
    rw [Nat.pow_mul]
  have hle : (2 : Nat) ^ (8 * bs.length) ≤ 2 ^ width :=
    Nat.pow_le_pow_right (by decide) (by omega)
  rw [hpow] at hlt
  exact Nat.lt_of_lt_of_le hlt hle

theorem encode_decode_of_length {size : Nat} {bs : Bytes} (hl : bs.length = size) :
    bs = BigEndian.encode size (BigEndian.decode bs) := by
  rw [← hl, BigEndian.encode_decode]

/-- Apart from a truth value, a plain value is written as the bytes that it was read from. -/
theorem bytesAs_of_decode {t : Ty} (ht : t.isPlain = true) (hne : t ≠ .bool) {bs : Bytes} {n : Host}
    (h : decode t bs = .ok n) : bytesAs t n = .ok bs := by
  cases t with
  | uint width =>
    obtain ⟨hl, _, rfl⟩ := decode_uint_eq_ok_iff.1 h
    exact bytesAs_uint_eq_ok_iff.2
      ⟨_, rfl, decode_lt_two_pow (Nat.le_of_eq hl), encode_decode_of_length hl⟩
  | byte =>
    rw [decode_byte_eq] at h
    obtain ⟨hl, _, rfl⟩ := decode_uint_eq_ok_iff.1 h
    exact bytesAs_byte_eq_ok_iff.2
      ⟨_, rfl, decode_lt_two_pow (Nat.le_of_eq hl), encode_decode_of_length hl⟩
  | bool => exact absurd rfl hne
  | ufixed width precision =>
    obtain ⟨hl, hw, rfl⟩ := decode_ufixed_eq_ok_iff.1 h
    have hbound : BigEndian.decode bs < FixedPoint.bound := decode_lt_two_pow (hl ▸ hw)
    exact bytesAs_ufixed_eq_ok_iff.2 ⟨_, _, rfl, FixedPoint.read_write hbound,
      decode_lt_two_pow (Nat.le_of_eq hl), encode_decode_of_length hl⟩
  | address =>
    obtain ⟨a, rfl, rfl⟩ := decode_address_eq_ok_iff.1 h
    rfl
  | string =>
    obtain ⟨s, hs, rfl⟩ := decode_string_eq_ok_iff.1 h
    exact hs
  | list item =>
    obtain rfl : item = .byte := of_decide_eq_true ht
    obtain ⟨cs, hc, rfl⟩ := decode_bytes_eq_ok_iff.1 h
    exact hc
  | array item size => cases ht
  | tuple items => cases ht
  | struct name fields frozen => cases ht

theorem rewrites_bool : Rewrites .bool := by
  intro bs n _ h
  obtain ⟨b, rfl, rfl⟩ := decode_bool_eq_ok_iff.1 h
  refine ⟨Scalar.writeBool (b = Limits.trueByte), rfl, Nat.le_refl 1, ?_, ?_⟩
  · rw [decode, Scalar.readBool_writeBool]
    rfl
  · have hbyte : Scalar.writeBool (b = Limits.trueByte) = [b] ↔
        [b] = [Limits.falseByte] ∨ [b] = [Limits.trueByte] := by
      by_cases hb : b = Limits.trueByte
      · simp [Scalar.writeBool, Layout.boolByte, hb]
      · simp [Scalar.writeBool, Layout.boolByte, hb, eq_comm]
    rw [hbyte]
    exact ⟨fun h => ⟨fun _ => h, tightInside_of_isPlain rfl [b]⟩, fun h => h.truth rfl⟩

theorem rewrites_of_isPlain {t : Ty} (ht : t.isPlain = true) : Rewrites t := by
  by_cases hne : t = .bool
  · exact hne ▸ rewrites_bool
  · intro bs n _ h
    refine ⟨bs, bytesAs_of_decode ht hne h, Nat.le_refl _, h, ?_⟩
    rw [canonical_iff_of_ne_bool hne]
    exact ⟨fun _ => tightInside_of_isPlain ht bs, fun _ => rfl⟩

/-! ## Rows -/

/-- The part `q` is how the type writes the host value that it read from the part `p`. -/
structure Rewritten (t : Ty) (n : Host) (p q : Part) : Prop where
  value : ∃ v, Value.ofHost t n = .ok v ∧ v.part = .ok q
  slot : q.slot = p.slot
  length : q.content.length ≤ p.content.length
  decode : decode t q.content = .ok n
  same : q = p ↔ TightInside t p.content

/-- The same for a row. -/
structure RowRewritten (ts : List Ty) (ns : List Host) (ps qs : List Part) : Prop where
  count : ns.length = ts.length
  values : ∃ vs, valuesAs ts ns = .ok vs ∧ vs.mapM Value.part = .ok qs
  slots : qs.map Part.slot = ps.map Part.slot
  length : (Layout.tails qs).flatten.length ≤ (Layout.tails ps).flatten.length
  decode : decodeItems ts (qs.map Part.content) = .ok ns
  same : qs = ps ↔
    ∀ v ∈ List.zipWith Value.mk ts (ps.map Part.content), TightInside v.ty v.bytes

theorem RowRewritten.cons {t : Ty} {ts : List Ty} {n : Host} {ns : List Host} {p q : Part}
    {ps qs : List Part} (h : Rewritten t n p q) (hs : RowRewritten ts ns ps qs) :
    RowRewritten (t :: ts) (n :: ns) (p :: ps) (q :: qs) where
  count := congrArg (· + 1) hs.count
  values := by
    obtain ⟨v, hv, hp⟩ := h.value
    obtain ⟨vs, hvs, hps⟩ := hs.values
    refine ⟨v :: vs, ?_, Outcome.mapM_cons_eq_ok_iff.2 ⟨q, qs, rfl, hp, hps⟩⟩
    rw [valuesAs_eq_mapM] at hvs ⊢
    exact Outcome.mapM_cons_eq_ok_iff.2 ⟨v, vs, rfl, hv, hvs⟩
  slots := by rw [List.map_cons, List.map_cons, h.slot, hs.slots]
  length := Layout.length_tails_cons_le h.slot h.length hs.length
  decode := decodeItems_cons_eq_ok_iff.2 ⟨n, ns, rfl, h.decode, hs.decode⟩
  same := by
    rw [List.cons.injEq, h.same, hs.same, List.map_cons, List.zipWith_cons_cons,
      List.forall_mem_cons]

/-- An item is written in the slot that it was read from. -/
theorem exists_rewritten {t : Ty} {p : Part} {n : Host} (hr : Rewrites t) (hs : p.slot = t.slot)
    (hl : p.content.length ≤ Limits.valueBytes) (hd : Host.decode t p.content = .ok n) :
    ∃ q, Rewritten t n p q := by
  obtain ⟨c, hc, hle, hdc, hsame⟩ := hr p.content n hl hd
  have hv : Value.ofHost t n = .ok ⟨t, c⟩ := ofHost_eq_ok_iff.2 ⟨hc, Nat.le_trans hle hl, rfl⟩
  have hne : p.slot ≠ .bit → t ≠ .bool := fun h ht => h (hs.trans (ht ▸ rfl))
  cases p with
  | bit b =>
    obtain rfl : t = .bool := Ty.isBool_iff.1 (Ty.slot_eq_bit_iff.1 hs.symm)
    have hbyte : [Layout.boolByte b] = [Limits.falseByte] ∨
        [Layout.boolByte b] = [Limits.trueByte] := by
      cases b
      · exact Or.inl rfl
      · exact Or.inr rfl
    have hinside : TightInside .bool [Layout.boolByte b] := tightInside_of_isPlain rfl _
    obtain rfl : c = [Layout.boolByte b] := hsame.2 ⟨fun _ => hbyte, hinside⟩
    have hp : (⟨.bool, [Layout.boolByte b]⟩ : Value).part = .ok (.bit b) := by
      refine Value.part_eq_ok_iff.2 (Or.inl ⟨rfl, _, rfl, ?_⟩)
      simp [Layout.boolByte_eq_trueByte_iff]
    exact ⟨.bit b, ⟨⟨_, hv, hp⟩, rfl, hle, hdc, iff_of_true rfl hinside⟩⟩
  | inline bs =>
    have hlen : c.length = bs.length :=
      Nat.le_antisymm hle (Ty.fixedSize_of_slot hs.symm ▸ fixedSize_le_length hc)
    have hslot : t.slot = .inline c.length := by rw [hlen, ← hs]; rfl
    have hp : (⟨t, c⟩ : Value).part = .ok (.inline c) :=
      Value.part_eq_ok_iff.2 (Or.inr (Or.inr ⟨hslot, rfl⟩))
    refine ⟨.inline c, ⟨⟨_, hv, hp⟩, congrArg Layout.Slot.inline hlen, hle, hdc, ?_⟩⟩
    rw [Part.inline.injEq, ← canonical_iff_of_ne_bool (hne (by simp [Part.slot]))]
    exact hsame
  | tail bs =>
    have hp : (⟨t, c⟩ : Value).part = .ok (.tail c) :=
      Value.part_eq_ok_iff.2 (Or.inr (Or.inl ⟨hs.symm, rfl⟩))
    refine ⟨.tail c, ⟨⟨_, hv, hp⟩, rfl, hle, hdc, ?_⟩⟩
    rw [Part.tail.injEq, ← canonical_iff_of_ne_bool (hne (by simp [Part.slot]))]
    exact hsame

theorem exists_rowRewritten {ts : List Ty} {ps : List Part} {ns : List Host}
    (hs : ps.map Part.slot = ts.map Ty.slot) (ht : ∀ t ∈ ts, Rewrites t)
    (hl : ∀ p ∈ ps, p.content.length ≤ Limits.valueBytes)
    (hd : decodeItems ts (ps.map Part.content) = .ok ns) : ∃ qs, RowRewritten ts ns ps qs := by
  induction ps generalizing ts ns with
  | nil =>
    obtain rfl := List.map_eq_nil_iff.1 hs.symm
    cases hd
    exact ⟨[], ⟨rfl, ⟨[], rfl, rfl⟩, rfl, Nat.le_refl _, rfl, by simp⟩⟩
  | cons p ps ih =>
    obtain ⟨t, ts, rfl, hp, hps⟩ := List.map_eq_cons_iff.1 hs.symm
    rw [List.forall_mem_cons] at ht hl
    obtain ⟨n, ms, rfl, hn, hms⟩ := decodeItems_cons_eq_ok_iff.1 hd
    obtain ⟨q, hq⟩ := exists_rewritten ht.1 hp.symm hl.1 hn
    obtain ⟨qs, hqs⟩ := ih hps.symm ht.2 hl.2 hms
    exact ⟨q :: qs, RowRewritten.cons hq hqs⟩

/-- A row that was read is written again, in no more bytes and in the same ones exactly if it is
tight through and through. -/
theorem exists_rowAs_of_decodeRow {ts : List Ty} {body : Bytes} {ns : List Host}
    (ht : ∀ t ∈ ts, Rewrites t) (hl : body.length ≤ Limits.valueBytes)
    (hd : decodeRow ts body = .ok ns) :
    ∃ c vs, RowAs ts ns c ∧ c.length ≤ body.length ∧ decodeRow ts c = .ok ns ∧
      Sequence.decode ts body = .ok vs ∧
      (c = body ↔ Tight (ts.map Ty.slot) body ∧ ∀ v ∈ vs, TightInside v.ty v.bytes) := by
  obtain ⟨children, hc, hns⟩ := Outcome.bind_eq_ok_iff.1 hd
  obtain ⟨ps, b, hps, rfl, hb, hle, htight⟩ := Layout.exists_assemble_of_split hc
  have hlen := Layout.length_of_assemble hb
  have hcontent : ∀ p ∈ ps, p.content.length ≤ Limits.valueBytes := by
    intro p hp
    have := Layout.length_content_le hp 0
    have : 1 ≤ Limits.valueBytes := by decide
    omega
  obtain ⟨qs, hq⟩ := exists_rowRewritten hps ht hcontent hns
  have hlength := hq.length
  have hword : Limits.valueBytes ≤ Limits.word := by decide
  obtain ⟨c, hqc⟩ := @Layout.assemble_isOk_of_length_le qs (by rw [hq.slots]; omega)
  have hclen := Layout.length_of_assemble hqc
  rw [hq.slots] at hclen
  obtain ⟨vs, hvs, hparts⟩ := hq.values
  have hsplit : Layout.split (ts.map Ty.slot) c = .ok (qs.map Part.content) := by
    rw [← hps, ← hq.slots]
    exact Layout.split_of_assemble hqc
  have hdecode : Sequence.decode ts body =
      .ok (List.zipWith Value.mk ts (ps.map Part.content)) := by
    rw [Sequence.decode, hc]
    rfl
  refine ⟨c, _, ⟨hq.count, vs, hvs, Sequence.encode_eq_ok_iff.2 ⟨qs, hparts, hqc⟩⟩, by omega, ?_,
    hdecode, ?_⟩
  · rw [decodeRow, hsplit, Outcome.ok_bind, hq.decode]
  · rw [← htight, ← hq.same]
    constructor
    · rintro rfl
      rw [hc] at hsplit
      have hqs := Layout.eq_of_slots_of_contents hq.slots (Except.ok.inj hsplit).symm
      rw [hqs, hb] at hqc
      exact ⟨Except.ok.inj hqc, hqs⟩
    · rintro ⟨rfl, rfl⟩
      rw [hb] at hqc
      exact (Except.ok.inj hqc).symm

/-! ## All types -/

theorem rewrites (t : Ty) : Rewrites t := by
  induction t using Ty.body_induction with
  | step t ih =>
    cases ht : t.isPlain with
    | true => exact rewrites_of_isPlain ht
    | false =>
      intro bs n hl hd
      obtain ⟨ts, body, ns, hb, hns, rfl⟩ := exists_body_of_decode ht hd
      have hbody := Nat.le_trans (Ty.length_body_le hb) hl
      obtain ⟨c, vs, hrow, hle, hdc, hvs, hsame⟩ :=
        exists_rowAs_of_decodeRow (ih bs ts body hb) hbody hns
      obtain ⟨cs, hcs, hcb, hlen, hiff⟩ := exists_bytes_of_rowAs hb hrow
      refine ⟨cs, hcs, by omega, ?_, ?_⟩
      · rw [decode_of_body hcb, hdc]
        rfl
      · have hne : t ≠ .bool := by
          rintro rfl
          cases ht
        rw [hiff, hsame, canonical_iff_of_ne_bool hne, tightInside_iff_of_body hb hvs]

/-- What is decoded from at most as many bytes as a value may have is encoded again, in no more
bytes, and decoded from these as the same value; the bytes are the same ones exactly if they are
canonical. -/
theorem encode_of_decode (t : Ty) (bs : Bytes) (n : Host) (hl : bs.length ≤ Limits.valueBytes)
    (h : decode t bs = .ok n) :
    ∃ c, encode t n = .ok c ∧ c.length ≤ bs.length ∧ decode t c = .ok n ∧
      (c = bs ↔ Canonical t bs) := by
  obtain ⟨c, hc, hle, hd, hiff⟩ := rewrites t bs n hl h
  exact ⟨c, encode_eq_ok_iff.2 ⟨hc, Nat.le_trans hle hl⟩, hle, hd, hiff⟩

/-- Three things are passed over: the second bit of the boolean in front, the byte behind the head,
and the last bit in the list of booleans inside. -/
theorem encode_of_decode_nested :
    let t : Ty := .tuple [.bool, .string, .tuple [.list .bool]]
    let bs : Bytes := [0xc0, 0, 6, 0, 9, 0xff, 0, 1, 97, 0, 2, 0, 2, 0x81]
    let c : Bytes := [0x80, 0, 5, 0, 8, 0, 1, 97, 0, 2, 0, 2, 0x80]
    let n : Host := .tuple [.bool true, .text "a", .tuple [.list [.bool true, .bool false]]]
    bs.length ≤ Limits.valueBytes ∧ decode t bs = .ok n ∧
      encode t n = .ok c ∧ c.length ≤ bs.length ∧ decode t c = .ok n ∧ ¬ Canonical t bs := by
  intro t bs c n
  have hl : bs.length ≤ Limits.valueBytes := by decide
  have h : decode t bs = .ok n := by decide +kernel
  have hc : encode t n = .ok c := by decide +kernel
  obtain ⟨c', hc', hle, hd, hiff⟩ := encode_of_decode t bs n hl h
  obtain rfl : c = c' := Except.ok.inj (hc.symm.trans hc')
  exact ⟨hl, h, hc, hle, hd, mt hiff.2 (by decide)⟩

/-! ## Without booleans -/

/-- No sequence that is read has a gap. -/
def GaplessInside (t : Ty) (bs : Bytes) : Prop :=
  ∀ ts body, Reads t bs ts body → Gapless (ts.map Ty.slot) body

/-- What holds of every component of the type holds of every component of the items that are
read. -/
theorem Reads.every {p : Ty → Prop} {t : Ty} {bs body : Bytes} {ts : List Ty}
    (h : Reads t bs ts body) (ht : t.Every p) : ∀ u ∈ ts, u.Every p := by
  induction h with
  | body hb => exact ht.of_body hb
  | item hb hv hm _ ih => exact ih (ht.of_body hb _ (Sequence.ty_mem_of_decode hv hm))

theorem tightInside_iff_of_no_bool {t : Ty} (ht : t.Every (· ≠ .bool)) (bs : Bytes) :
    TightInside t bs ↔ GaplessInside t bs := by
  constructor
  · exact fun h ts body hr => (h ts body hr).gapless
  · intro h ts body hr
    have hbit : .bit ∉ ts.map Ty.slot := by
      intro hm
      obtain ⟨u, hu, hs⟩ := List.mem_map.1 hm
      exact (hr.every ht u hu).self (Ty.isBool_iff.1 (Ty.slot_eq_bit_iff.1 hs))
    exact ⟨h ts body hr, Layout.clear_of_no_bit hbit body⟩

/-- Without booleans, what is decoded is encoded again in the same bytes exactly if there is no gap
in any sequence inside; so only one buffer without gaps is decoded to any value. -/
theorem encode_eq_ok_iff_gapless (t : Ty) (ht : t.Every (· ≠ .bool)) (bs : Bytes) (n : Host)
    (hl : bs.length ≤ Limits.valueBytes) (h : decode t bs = .ok n) :
    (encode t n = .ok bs ↔ GaplessInside t bs) ∧
      ∀ cs : Bytes, cs.length ≤ Limits.valueBytes → decode t cs = .ok n →
        GaplessInside t bs → GaplessInside t cs → cs = bs := by
  have hiff : ∀ cs : Bytes, cs.length ≤ Limits.valueBytes → decode t cs = .ok n →
      (encode t n = .ok cs ↔ GaplessInside t cs) := by
    intro cs hl h
    obtain ⟨c, hc, hle, _, hsame⟩ := rewrites t cs n hl h
    rw [canonical_iff_of_ne_bool ht.self, tightInside_iff_of_no_bool ht] at hsame
    have hc : encode t n = .ok c := encode_eq_ok_iff.2 ⟨hc, Nat.le_trans hle hl⟩
    rw [hc, Except.ok.injEq, hsame]
  refine ⟨hiff bs hl h, fun cs hl' h' hb hc => ?_⟩
  have hbs := (hiff bs hl h).2 hb
  have hcs := (hiff cs hl' h').2 hc
  exact Except.ok.inj (hcs.symm.trans hbs)

/-- The list inside a tuple has a byte between its offset and the text. -/
theorem encode_eq_ok_iff_gapless_nested :
    let t : Ty := .tuple [.uint 16, .list .string]
    let bs : Bytes := [1, 2, 0, 4, 0, 1, 0, 3, 0xff, 0, 1, 97]
    let n : Host := .tuple [.int 258, .list [.text "a"]]
    t.Every (· ≠ .bool) ∧ bs.length ≤ Limits.valueBytes ∧ decode t bs = .ok n ∧
      encode t n = .ok [1, 2, 0, 4, 0, 1, 0, 2, 0, 1, 97] ∧ ¬ GaplessInside t bs := by
  intro t bs n
  have ht : t.Every (· ≠ .bool) := by decide
  have hl : bs.length ≤ Limits.valueBytes := by decide
  have h : decode t bs = .ok n := by decide +kernel
  have hc : encode t n = .ok [1, 2, 0, 4, 0, 1, 0, 2, 0, 1, 97] := by decide +kernel
  refine ⟨ht, hl, h, hc, fun hg => ?_⟩
  have hbs := (encode_eq_ok_iff_gapless t ht bs n hl h).1.2 hg
  rw [hc, Except.ok.injEq] at hbs
  exact absurd hbs (by decide)

/-- Two bytes between the offset and the text are never looked at: not even without booleans is
every buffer the encoding of what it is decoded to. -/
theorem not_encode_of_decode_of_gap :
    ¬ ∀ (t : Ty) (bs : Bytes) (n : Host), t.Every (· ≠ .bool) → bs.length ≤ Limits.valueBytes →
      decode t bs = .ok n → encode t n = .ok bs := by
  intro h
  have hgap : encode (.tuple [.string]) (.tuple [.text ""]) = .ok [0, 4, 0xff, 0xff, 0, 0] :=
    h _ _ _ (by decide) (by decide) (by decide +kernel)
  have hno : encode (.tuple [.string]) (.tuple [.text ""]) = .ok [0, 2, 0, 0] := by decide +kernel
  rw [hno] at hgap
  cases hgap

end Host

end Abi
