/-
  The host value of a container, from those of its children.

  The host value of an array or a struct is put together from the host values of its children, in
  the same order (`Host.Composes`). An array of bytes is the exception in form: its host value is
  raw bytes, and its children are single bytes. So another child in the same place gives the host
  value with another component there.

  * `Host.Composes.exists_withChild?`: another child is another component.
  * `StaticArray.decode_eq_ok_iff`, `DynamicArray.decode_eq_ok_iff`, `Struct.decode_eq_ok_iff`: the
    host value of each kind.
  * `Value.decode_asTy`: a child that came back has the host value that it had before.
-/
import Abi.Proofs.Container.Kinds
import Abi.Proofs.Host.Paths
import Abi.Proofs.Host.Same

namespace Abi

/-! ## Rows of bytes -/

namespace Sequence

theorem zipWith_mk_replicate (t : Ty) (bss : List Bytes) :
    List.zipWith Value.mk (List.replicate bss.length t) bss = bss.map (Value.mk t) := by
  induction bss with
  | nil => rfl
  | cons bs bss ih => exact congrArg (⟨t, bs⟩ :: ·) ih

/-- A row of bytes is cut into single bytes. -/
theorem decode_bytes (body : Bytes) :
    decode (List.replicate body.length .byte) body = .ok (body.map fun b => ⟨.byte, [b]⟩) := by
  have hslots : (List.replicate body.length Ty.byte).map Ty.slot =
      (body.map fun b => [b]).map fun bs => Layout.Slot.inline bs.length := by
    rw [List.map_replicate, List.map_map]
    exact List.map_const.symm
  have hsplit := Layout.split_inline (body.map fun b => [b])
  rw [← hslots, ← List.flatMap_def, List.flatMap_singleton'] at hsplit
  have hvalues := zipWith_mk_replicate .byte (body.map fun b => [b])
  rw [List.length_map, List.map_map] at hvalues
  unfold decode
  rw [hsplit]
  exact congrArg Except.ok hvalues

theorem decode_bytes_eq_ok_iff {count : Nat} {body : Bytes} {vs : List Value} :
    decode (List.replicate count .byte) body = .ok vs ↔
      body.length = count ∧ vs = body.map fun b => ⟨.byte, [b]⟩ := by
  constructor
  · intro h
    have hstatic : ∀ u ∈ List.replicate count Ty.byte, u.isDynamic = false := fun u hu =>
      List.eq_of_mem_replicate hu ▸ rfl
    have hwidth := (decode_static_isOk_iff hstatic).1 ⟨vs, h⟩
    rw [List.map_replicate, ← Layout.headSize_eq_headWidth] at hwidth
    have hcount : 1 * count = body.length :=
      (Layout.headSize_replicate_inline 1 0 count).symm.trans hwidth
    rw [Nat.one_mul] at hcount
    subst hcount
    exact ⟨rfl, Except.ok.inj (h.symm.trans (decode_bytes body))⟩
  · rintro ⟨rfl, rfl⟩
    exact decode_bytes body

theorem mapM_decode_bytes (bs : Bytes) :
    (bs.map fun b => (⟨.byte, [b]⟩ : Value)).mapM Value.decode =
      .ok (bs.map fun b => .int b.toNat) := by
  rw [Outcome.mapM_eq_ok_iff, List.forall₂_map_left_iff, List.forall₂_map_right_iff,
    List.forall₂_same]
  intro b _
  show Host.decode .byte [b] = _
  rw [Host.decode_byte_eq, Host.decode_uint_eq_ok_iff]
  refine ⟨rfl, by decide, ?_⟩
  rw [BigEndian.decode_cons]
  simp

end Sequence

/-! ## Host values of containers -/

/-- A value is read alike before and after it came back. -/
theorem Value.decode_asTy {v : Value} {t : Ty} {m : Host} (h : Host.decode t v.bytes = .ok m) :
    (v.asTy t).decode = .ok m := by
  by_cases hb : t.isBool = true
  · obtain rfl := Ty.isBool_iff.1 hb
    obtain ⟨b, hbs, rfl⟩ := Host.decode_bool_eq_ok_iff.1 h
    refine Host.decode_bool_eq_ok_iff.2 ⟨Layout.boolByte (b = Limits.trueByte), ?_, ?_⟩
    · show (Value.normal ⟨.bool, v.bytes⟩).bytes = _
      rw [hbs]
      simp [normal, Ty.isBool]
    · simp [Layout.boolByte_eq_trueByte_iff]
  · have hv : v.asTy t = ⟨t, v.bytes⟩ := normal_of_not_bool (by simpa using hb)
    rw [hv]
    exact h

/-- A byte is read as a number that a byte can hold. -/
theorem Host.exists_of_decode_byte {bs : Bytes} {m : Host} (h : decode .byte bs = .ok m) :
    ∃ b < 256, m = .int b := by
  rw [decode_byte_eq, decode_uint_eq_ok_iff] at h
  obtain ⟨hl, _, rfl⟩ := h
  refine ⟨_, ?_, rfl⟩
  have hlt := BigEndian.decode_lt bs
  rw [hl] at hlt
  exact hlt

namespace Host

/-- How the host value of a container is put together from those of its children. -/
inductive Composes : Ty → List Host → Host → Prop where
  | array (item : Ty) (size : Nat) (ns : List Host) : Composes (.array item size) ns (.list ns)
  | list {item : Ty} (ns : List Host) : item ≠ .byte → Composes (.list item) ns (.list ns)
  | bytes (bs : Bytes) : Composes (.list .byte) (bs.map fun b => .int b.toNat) (.bytes bs)
  | struct {name : String} {fields : List (String × Ty)} {frozen : Bool} {ns : List Host} :
    ns.length = fields.length →
      Composes (.struct name fields frozen) ns (.struct ((fields.map (·.1)).zip ns))

namespace Composes

variable {t : Ty} {ns : List Host} {n m : Host}

theorem children_eq (h : Composes t ns n) : n.children = ns := by
  cases h with
  | array | list | bytes => rfl
  | struct h => exact List.map_snd_zip (Nat.le_of_eq (by rw [h, List.length_map]))

theorem eq_bytes {bs : Bytes} (h : Composes (.list .byte) (bs.map fun b => .int b.toNat) n) :
    n = .bytes bs := by
  generalize hns : (bs.map fun b => Host.int b.toNat) = ns at h
  cases h with
  | list ns hne => exact absurd rfl hne
  | bytes cs =>
    have hinj : Function.Injective fun b : UInt8 => Host.int b.toNat := fun b c hbc =>
      UInt8.toNat_inj.1 (Host.int.inj hbc)
    rw [List.map_injective_iff.2 hinj hns]

theorem position?_array {item : Ty} {size : Nat} (h : Composes (.array item size) ns n) (i : Int) :
    n.position? (.index i) = (Index.position ns.length i).toOption := by
  cases h
  rfl

theorem position?_list {item : Ty} (h : Composes (.list item) ns n) (i : Int) :
    n.position? (.index i) = (Index.position ns.length i).toOption := by
  cases h with
  | list => rfl
  | bytes bs =>
    rw [List.length_map]
    rfl

theorem position?_struct {name : String} {fields : List (String × Ty)} {frozen : Bool}
    (h : Composes (.struct name fields frozen) ns n) (field : String) :
    n.position? (.field field) = (fields.map (·.1)).findIdx? (· = field) := by
  cases h with
  | struct hl =>
    have hnames : ((fields.map (·.1)).zip ns).map (·.1) = fields.map (·.1) :=
      List.map_fst_zip (Nat.le_of_eq (by rw [hl, List.length_map]))
    show ((fields.map (·.1)).zip ns).findIdx? (·.1 = field) = _
    conv_rhs => rw [← hnames, List.findIdx?_map]
    rfl

/-- Another child is put in; one of an array of bytes has to be a byte. -/
theorem exists_withChild? (h : Composes t ns n) (i : Nat)
    (hm : t = .list .byte → ∃ b < 256, m = .int b) :
    ∃ n', n.withChild? i m = some n' ∧ Composes t (ns.set i m) n' := by
  cases h with
  | array item size ns => exact ⟨_, rfl, .array item size _⟩
  | list ns hb => exact ⟨_, rfl, .list _ hb⟩
  | bytes bs =>
    obtain ⟨b, hb, rfl⟩ := hm rfl
    have hbyte : (UInt8.ofNat b).toNat = b := UInt8.toNat_ofNat_of_lt' hb
    refine ⟨_, if_pos hb, ?_⟩
    have hset := Composes.bytes (bs.set i (UInt8.ofNat b))
    rwa [List.map_set, hbyte] at hset
  | @struct name fields frozen ns h =>
    have hnames : ((fields.map (·.1)).zip ns).map (·.1) = fields.map (·.1) :=
      List.map_fst_zip (Nat.le_of_eq (by rw [h, List.length_map]))
    have hitems : ((fields.map (·.1)).zip ns).map (·.2) = ns :=
      List.map_snd_zip (Nat.le_of_eq (by rw [h, List.length_map]))
    refine ⟨_, rfl, ?_⟩
    rw [hnames, hitems]
    exact .struct (by rw [List.length_set, h])

end Composes

end Host

section

variable {vs : List Value} {n : Host}

/-- The host value of an array of fixed length is put together from those of its items. -/
theorem StaticArray.decode_eq_ok_iff {a : StaticArray} :
    a.decode = .ok n ↔ ∃ vs ns, a.items = .ok vs ∧ vs.mapM Value.decode = .ok ns ∧
      Host.Composes a.ty ns n := by
  have hplain : (Ty.array a.item a.size).isPlain = false := rfl
  unfold decode items ty
  rw [Host.decode_eq_ok_iff_of_body hplain]
  constructor
  · intro h
    obtain ⟨ts, body, vs, ns, hb, hvs, hns, rfl⟩ := h
    obtain ⟨hr, rfl⟩ := Ty.body?_array_eq_some_iff.1 hb
    exact ⟨vs, ns, Outcome.bind_eq_ok_iff.2 ⟨ts, hr, hvs⟩, hns, .array _ _ ns⟩
  · intro h
    obtain ⟨vs, ns, hvs, hns, hc⟩ := h
    obtain ⟨ts, hr, hvs⟩ := Outcome.bind_eq_ok_iff.1 hvs
    cases hc
    exact ⟨ts, _, vs, ns, Ty.body?_array_eq_some_iff.2 ⟨hr, rfl⟩, hvs, hns, rfl⟩

/-- And so is that of a struct. -/
theorem Struct.decode_eq_ok_iff {s : Struct} :
    s.decode = .ok n ↔ ∃ vs ns, s.values = .ok vs ∧ vs.mapM Value.decode = .ok ns ∧
      Host.Composes s.ty ns n := by
  have hplain : (Ty.struct s.type.name s.type.fields s.type.frozen).isPlain = false := rfl
  unfold decode values ty StructType.ty
  rw [Host.decode_eq_ok_iff_of_body hplain]
  constructor
  · intro h
    obtain ⟨ts, body, vs, ns, hb, hvs, hns, rfl⟩ := h
    cases hb
    have hl : ns.length = s.type.fields.length := by
      rw [← (Outcome.mapM_eq_ok_iff.1 hns).length_eq, Sequence.length_decode hvs, List.length_map]
    exact ⟨vs, ns, hvs, hns, .struct hl⟩
  · intro h
    obtain ⟨vs, ns, hvs, hns, hc⟩ := h
    cases hc
    exact ⟨_, _, vs, ns, rfl, hvs, hns, rfl⟩

namespace DynamicArray

theorem items_bytes_eq_ok_iff {bytes : Bytes} :
    items ⟨.byte, bytes⟩ = .ok vs ↔
      ∃ bs, Counted.writeBytes bs = .ok bytes ∧ vs = bs.map fun b => ⟨.byte, [b]⟩ := by
  unfold items
  rw [Outcome.bind_eq_ok_iff]
  constructor
  · intro h
    obtain ⟨⟨count, body⟩, hs, hd⟩ := h
    have hd : Sequence.decode (List.replicate count .byte) body = .ok vs := hd
    obtain ⟨rfl, rfl⟩ := Sequence.decode_bytes_eq_ok_iff.1 hd
    exact ⟨body, Word.splitCounted_eq_ok_iff.1 hs, rfl⟩
  · intro h
    obtain ⟨bs, hb, rfl⟩ := h
    exact ⟨(bs.length, bs), Word.splitCounted_eq_ok_iff.2 hb, Sequence.decode_bytes bs⟩

/-- And so is that of an array of any length; an array of bytes has the bytes for items. -/
theorem decode_eq_ok_iff {a : DynamicArray} :
    a.decode = .ok n ↔ ∃ vs ns, a.items = .ok vs ∧ vs.mapM Value.decode = .ok ns ∧
      Host.Composes a.ty ns n := by
  obtain ⟨item, bytes⟩ := a
  by_cases hbyte : item = .byte
  · subst hbyte
    simp only [items_bytes_eq_ok_iff]
    show Host.decode (.list .byte) bytes = .ok n ↔ _
    rw [Host.decode_bytes_eq_ok_iff]
    constructor
    · intro h
      obtain ⟨bs, hb, rfl⟩ := h
      exact ⟨_, _, ⟨bs, hb, rfl⟩, Sequence.mapM_decode_bytes bs, .bytes bs⟩
    · intro h
      obtain ⟨_, ns, ⟨bs, hb, rfl⟩, hns, hc⟩ := h
      obtain rfl := Except.ok.inj ((Sequence.mapM_decode_bytes bs).symm.trans hns)
      exact ⟨bs, hb, hc.eq_bytes⟩
  · have hplain : (Ty.list item).isPlain = false := decide_eq_false hbyte
    unfold decode items ty
    rw [Host.decode_eq_ok_iff_of_body hplain]
    constructor
    · intro h
      obtain ⟨ts, body, vs, ns, hb, hvs, hns, rfl⟩ := h
      obtain ⟨_, count, hs, rfl⟩ := Ty.body?_list_eq_some_iff.1 hb
      exact ⟨vs, ns, Outcome.bind_eq_ok_iff.2 ⟨_, hs, hvs⟩, hns, .list ns hbyte⟩
    · intro h
      obtain ⟨vs, ns, hvs, hns, hc⟩ := h
      obtain ⟨⟨count, body⟩, hs, hvs⟩ := Outcome.bind_eq_ok_iff.1 hvs
      cases hc with
      | bytes => exact absurd rfl hbyte
      | list =>
        exact ⟨_, body, vs, ns, Ty.body?_list_eq_some_iff.2 ⟨hbyte, count, hs, rfl⟩, hvs, hns, rfl⟩

end DynamicArray

end

end Abi
