/-
  Arrays and texts are put together as lists and strings are.

  Every operation reads all items, puts lists together and encodes the result anew. The booleans are
  packed anew with every change, all offsets move with the number of items, and each intermediate
  array has to keep within the limits; but what is part of an array within the limits keeps within
  them itself (`DynamicArray.ofItems_of_sublist`), so that no order of joining fails where another
  one succeeds.

  * `ofItems_extend_iff`: extending what was built from items is building it with the further items.
  * `extend_iff_append`, `concat_eq_extend`: there is one way to grow, in three forms.
  * `concat_associative`: of arrays, whatever their bytes are, and of texts.
  * `joined_like_lists`: these together.
-/
import Abi.Proofs.Container.Kinds
import Abi.Typed.Text

namespace Abi

/-- An operation that may fail is associative: if three can be joined from one end, then they can
from the other, with the same result. -/
def Outcome.Associative {α : Type} (op : α → α → Except Error α) : Prop :=
  ∀ a b c d, (op a b >>= fun ab => op ab c) = .ok d ↔ (op b c >>= fun bc => op a bc) = .ok d

/-! ## Arrays -/

namespace DynamicArray

variable {a b c : DynamicArray} {item : Ty} {us vs ws : List Value}

/-- The bytes are the ones that the items of the array build. -/
def Canonical (a : DynamicArray) : Prop := ∃ vs, a.items = .ok vs ∧ ofItems a.item vs = .ok a

theorem Built.canonical (h : a.Built) : a.Canonical := by
  obtain ⟨item, vs, h⟩ := h.exists_ofItems
  have hholds := holds_of_ofItems h
  exact ⟨_, hholds.items, hholds.built⟩

/-! ### Rows that build the same array -/

/-- Rows that build the same array of this type, alone or as a part of a longer row. -/
structure BuildAlike (item : Ty) (vs ws : List Value) : Prop where
  types : (∀ v ∈ vs, v.HasTy item) ↔ ∀ w ∈ ws, w.HasTy item
  parts : vs.map Value.part = ws.map Value.part

namespace BuildAlike

theorem refl (item : Ty) (vs : List Value) : BuildAlike item vs vs := ⟨Iff.rfl, rfl⟩

theorem append {us' vs' : List Value} (hu : BuildAlike item us us') (hv : BuildAlike item vs vs') :
    BuildAlike item (us ++ vs) (us' ++ vs') where
  types := by
    rw [List.forall_mem_append, List.forall_mem_append]
    exact and_congr hu.types hv.types
  parts := by rw [List.map_append, List.map_append, hu.parts, hv.parts]

theorem ofItems_iff (h : BuildAlike item vs ws) :
    ofItems item vs = .ok a ↔ ofItems item ws = .ok a := by
  rw [ofItems_eq_ok_iff, ofItems_eq_ok_iff, h.types, encode_congr item h.parts]

/-- What an array gives back builds it again, also under another type of its name. -/
theorem of_ofItems {item' : Ty} (h : ofItems item vs = .ok a) (hs : item.Same item') :
    BuildAlike item' (vs.map (·.asTy item)) vs := by
  obtain ⟨ht, he⟩ := ofItems_eq_ok_iff.1 h
  obtain ⟨body, hb, _⟩ := encode_eq_ok_iff.1 he
  constructor
  · refine iff_of_true ?_ fun v hv => (ht v hv).trans hs
    exact List.forall_mem_map.2 fun v _ => (v.hasTy_asTy item).trans hs
  · exact Sequence.map_part_map_asTy ht hb

end BuildAlike

/-- Under another type of the same name the bytes are the same. -/
theorem ofItems_of_same {item' : Ty} (hs : item.Same item') (h : ofItems item vs = .ok a) :
    ofItems item' vs = .ok ⟨item', a.bytes⟩ := by
  obtain ⟨ht, he⟩ := ofItems_eq_ok_iff.1 h
  obtain ⟨body, hb, hw, hl, rfl⟩ := encode_eq_ok_iff.1 he
  refine ofItems_eq_ok_iff.2 ⟨fun v hv => (ht v hv).trans hs, encode_eq_ok_iff.2 ?_⟩
  exact ⟨body, hb, hw, hl, rfl⟩

/-! ### Extending -/

theorem extend_eq_ok_iff :
    a.extend vs = .ok b ↔ ∃ us, a.items = .ok us ∧ ofItems a.item (us ++ vs) = .ok b := by
  unfold extend
  simp only [Outcome.bind_eq_ok_iff, Value.expectAll_eq_ok_iff, exists_const, ofItems_eq_ok_iff,
    List.forall_mem_append]
  constructor
  · intro h
    obtain ⟨ht, us, hus, he⟩ := h
    exact ⟨us, hus, ⟨hasTy_of_items hus, ht⟩, he⟩
  · intro h
    obtain ⟨us, hus, ⟨_, ht⟩, he⟩ := h
    exact ⟨ht, us, hus, he⟩

/-- Extending the array of some items is building the array of all. -/
theorem extend_of_ofItems (h : ofItems item us = .ok a) :
    a.extend vs = .ok b ↔ ofItems item (us ++ vs) = .ok b := by
  have halike : BuildAlike item (us.map (·.asTy item) ++ vs) (us ++ vs) :=
    (BuildAlike.of_ofItems h (Ty.Same.refl item)).append (BuildAlike.refl item vs)
  rw [extend_eq_ok_iff, (holds_of_ofItems h).items, item_of_ofItems h, ← halike.ofItems_iff]
  constructor
  · intro h
    obtain ⟨_, hus, hb⟩ := h
    cases hus
    exact hb
  · intro hb
    exact ⟨_, rfl, hb⟩

/-- Items can be built first and extended then, since the array in between keeps within the limits
if the whole one does. -/
theorem ofItems_extend_iff :
    (ofItems item us >>= fun a => a.extend vs) = .ok b ↔ ofItems item (us ++ vs) = .ok b := by
  rw [Outcome.bind_eq_ok_iff]
  constructor
  · intro h
    obtain ⟨a, h, hb⟩ := h
    exact (extend_of_ofItems h).1 hb
  · intro hb
    obtain ⟨a, h⟩ := ofItems_of_sublist hb (List.sublist_append_left us vs)
    exact ⟨a, h, (extend_of_ofItems h).2 hb⟩

/-- Items can be added in one go or in two. -/
theorem extend_append_iff :
    (a.extend us >>= fun b => b.extend vs) = .ok c ↔ a.extend (us ++ vs) = .ok c := by
  have hjoin : ∀ ws, ofItems a.item (ws ++ (us ++ vs)) = .ok c ↔
      (ofItems a.item (ws ++ us) >>= fun b => b.extend vs) = .ok c := by
    intro ws
    rw [ofItems_extend_iff, List.append_assoc]
  simp only [extend_eq_ok_iff (a := a), hjoin, Outcome.bind_eq_ok_iff]
  constructor
  · intro h
    obtain ⟨b, ⟨ws, hws, hb⟩, hc⟩ := h
    exact ⟨ws, hws, b, hb, hc⟩
  · intro h
    obtain ⟨ws, hws, b, hb, hc⟩ := h
    exact ⟨b, ⟨ws, hws, hb⟩, hc⟩

theorem Canonical.extend_nil (h : a.Canonical) : a.extend [] = .ok a := by
  obtain ⟨vs, hvs, hb⟩ := h
  exact extend_eq_ok_iff.2 ⟨vs, hvs, by rwa [List.append_nil]⟩

/-- Extending by a list is appending its items one after another. -/
theorem Canonical.extend_iff_append (h : a.Canonical) :
    a.extend vs = .ok b ↔ vs.foldlM append a = .ok b := by
  induction vs generalizing a with
  | nil => rw [h.extend_nil, List.foldlM_nil]; rfl
  | cons v vs ih =>
    rw [List.foldlM_cons, append_eq_extend, ← List.singleton_append, ← extend_append_iff,
      Outcome.bind_eq_ok_iff, Outcome.bind_eq_ok_iff]
    refine exists_congr fun c => and_congr_right fun hc => ?_
    exact ih (Built.extend hc).canonical

/-! ### Joining -/

/-- To join two arrays is to extend the one by the items of the other. -/
theorem concat_eq_extend (hs : b.ty.Same a.ty) (hb : b.items = .ok ws) :
    a.concat b = a.extend ws := by
  have hty : ∀ w ∈ ws, w.HasTy a.item := fun w hw =>
    (hasTy_of_items hb w hw).trans (Ty.same_list_iff.1 hs)
  have hself : (View.toValue b).expect a.ty = .ok () := Value.expect_eq_ok_iff.2 hs
  have hall : Value.expectAll ws a.item = .ok () := Value.expectAll_eq_ok_iff.2 hty
  unfold concat extend
  rw [hself, hb, hall, Outcome.ok_bind, Outcome.ok_bind]
  refine Outcome.bind_congr fun vs hvs => ?_
  exact ofItems_eq_encode (List.forall_mem_append.2 ⟨hasTy_of_items hvs, hty⟩)

theorem concat_eq_ok_iff :
    a.concat b = .ok c ↔ b.ty.Same a.ty ∧ ∃ ws, b.items = .ok ws ∧ a.extend ws = .ok c := by
  constructor
  · intro h
    obtain ⟨_, hs, hrest⟩ := Outcome.bind_eq_ok_iff.1 h
    obtain ⟨_, _, hrest⟩ := Outcome.bind_eq_ok_iff.1 hrest
    obtain ⟨ws, hws, _⟩ := Outcome.bind_eq_ok_iff.1 hrest
    have hsame : b.ty.Same a.ty := Value.expect_eq_ok_iff.1 hs
    exact ⟨hsame, ws, hws, (concat_eq_extend hsame hws).symm.trans h⟩
  · intro h
    obtain ⟨hs, ws, hws, h⟩ := h
    exact (concat_eq_extend hs hws).trans h

theorem item_of_extend (h : a.extend vs = .ok b) : b.item = a.item := by
  obtain ⟨_, _, h⟩ := extend_eq_ok_iff.1 h
  exact item_of_ofItems h

/-- Three arrays that are joined from the front. -/
theorem concat_concat_left_iff {d : DynamicArray} :
    (a.concat b >>= fun ab => ab.concat c) = .ok d ↔ b.ty.Same a.ty ∧ c.ty.Same a.ty ∧
      ∃ vs ws, b.items = .ok vs ∧ c.items = .ok ws ∧ a.extend (vs ++ ws) = .ok d := by
  simp only [Outcome.bind_eq_ok_iff, concat_eq_ok_iff, ← extend_append_iff]
  constructor
  · intro h
    obtain ⟨ab, ⟨hb, vs, hvs, hab⟩, hc, ws, hws, hd⟩ := h
    have hty : ab.ty = a.ty := congrArg Ty.list (item_of_extend hab)
    exact ⟨hb, hty ▸ hc, vs, ws, hvs, hws, ab, hab, hd⟩
  · intro h
    obtain ⟨hb, hc, vs, ws, hvs, hws, ab, hab, hd⟩ := h
    have hty : ab.ty = a.ty := congrArg Ty.list (item_of_extend hab)
    exact ⟨ab, ⟨hb, vs, hvs, hab⟩, hty ▸ hc, ws, hws, hd⟩

/-- An array is extended alike by items as they were given and as another array gives them back. -/
theorem extend_iff_of_ofItems (hb : ofItems item vs = .ok b) (hs : item.Same a.item) :
    a.extend (vs.map (·.asTy item)) = .ok c ↔ a.extend vs = .ok c := by
  simp only [extend_eq_ok_iff]
  refine exists_congr fun us => and_congr_right fun _ => ?_
  exact ((BuildAlike.refl a.item us).append (BuildAlike.of_ofItems hb hs)).ofItems_iff

/-- Three arrays that are joined from the back. -/
theorem concat_concat_right_iff {d : DynamicArray} :
    (b.concat c >>= fun bc => a.concat bc) = .ok d ↔ b.ty.Same a.ty ∧ c.ty.Same a.ty ∧
      ∃ vs ws, b.items = .ok vs ∧ c.items = .ok ws ∧ a.extend (vs ++ ws) = .ok d := by
  simp only [Outcome.bind_eq_ok_iff, concat_eq_ok_iff, extend_eq_ok_iff (a := b)]
  constructor
  · intro h
    obtain ⟨bc, ⟨hc, ws, hws, vs, hvs, hbc⟩, hb, us, hus, hd⟩ := h
    have hitem := item_of_ofItems hbc
    have hty : bc.ty = b.ty := congrArg Ty.list hitem
    rw [hty] at hb
    rw [(holds_of_ofItems hbc).items] at hus
    cases hus
    exact ⟨hb, hc.trans hb, vs, ws, hvs, hws,
      (extend_iff_of_ofItems hbc (Ty.same_list_iff.1 hb)).1 hd⟩
  · intro h
    obtain ⟨hb, hc, vs, ws, hvs, hws, hd⟩ := h
    obtain ⟨us, _, hall⟩ := extend_eq_ok_iff.1 hd
    -- the back part keeps within the limits because the whole array does
    obtain ⟨e, he⟩ := ofItems_of_sublist hall (List.sublist_append_right us _)
    have hbc := ofItems_of_same (Ty.same_list_iff.1 hb).symm he
    refine ⟨_, ⟨hc.trans hb.symm, ws, hws, vs, hvs, hbc⟩, hb, _, (holds_of_ofItems hbc).items, ?_⟩
    exact (extend_iff_of_ofItems hbc (Ty.same_list_iff.1 hb)).2 hd

theorem concat_associative : Outcome.Associative concat := fun _ _ _ _ =>
  concat_concat_left_iff.trans concat_concat_right_iff.symm

/-- An array without items adds nothing, on either side. -/
theorem Canonical.concat_empty (h : a.Canonical) (hs : b.ty.Same a.ty) (hb : b.items = .ok []) :
    a.concat b = .ok a ∧ b.concat a = .ok ⟨b.item, a.bytes⟩ := by
  constructor
  · rw [concat_eq_extend hs hb, h.extend_nil]
  · obtain ⟨vs, hvs, hbuilt⟩ := h
    have hsame : a.item.Same b.item := (Ty.same_list_iff.1 hs).symm
    rw [concat_eq_extend hs.symm hvs, extend_eq_ok_iff]
    exact ⟨[], hb, ofItems_of_same hsame hbuilt⟩

/-- Arrays grow as lists do: item by item, by a list, or by another array of the same type. -/
structure GrowLikeLists : Prop where
  canonical (a : DynamicArray) : a.Built → a.Canonical
  extend_iff_append (a b : DynamicArray) (vs : List Value) : a.Built →
    (a.extend vs = .ok b ↔ vs.foldlM append a = .ok b)
  concat_eq_extend (a b : DynamicArray) (vs : List Value) : b.ty.Same a.ty → b.items = .ok vs →
    a.concat b = a.extend vs
  concat_associative : Outcome.Associative concat
  concat_empty (a b : DynamicArray) : a.Canonical → b.ty.Same a.ty → b.items = .ok [] →
    a.concat b = .ok a ∧ b.concat a = .ok ⟨b.item, a.bytes⟩

theorem growLikeLists : GrowLikeLists where
  canonical _ := Built.canonical
  extend_iff_append _ _ _ h := h.canonical.extend_iff_append
  concat_eq_extend _ _ _ := concat_eq_extend
  concat_associative := concat_associative
  concat_empty _ _ := Canonical.concat_empty

end DynamicArray

/-! ## Texts -/

namespace Text

variable {s t u : Text} {x y : String}

/-- A text is built if its bytes are not too many, and it is read from nothing else. -/
theorem ofString_eq_ok_iff :
    ofString x = .ok t ↔ t.decode = .ok x ∧ t.bytes.length ≤ Limits.valueBytes := by
  unfold ofString decode
  simp only [Outcome.bind_eq_ok_iff, Value.limited_eq_ok_iff, Counted.readText_eq_ok_iff]
  constructor
  · intro h
    obtain ⟨bs, hbs, v, ⟨hl, hv⟩, ht⟩ := h
    cases hv
    cases ht
    exact ⟨hbs, hl⟩
  · intro h
    obtain ⟨hbs, hl⟩ := h
    exact ⟨_, hbs, _, ⟨hl, rfl⟩, rfl⟩

theorem exists_ofString_iff :
    (∃ t, ofString x = .ok t) ↔ (Utf8.encode x).length + Limits.wordBytes ≤ Limits.valueBytes := by
  simp only [ofString_eq_ok_iff, decode, Counted.readText_eq_ok_iff, Counted.writeText,
    Word.counted_eq_ok_iff]
  constructor
  · intro h
    obtain ⟨t, ⟨_, hb⟩, hl⟩ := h
    rwa [hb, List.length_append, Word.length_bytes, Nat.add_comm] at hl
  · intro hl
    refine ⟨⟨Word.bytes (Utf8.encode x).length ++ Utf8.encode x⟩, ⟨?_, rfl⟩, ?_⟩
    · unfold Limits.valueBytes at hl
      unfold Limits.word
      omega
    · rwa [List.length_append, Word.length_bytes, Nat.add_comm]

/-- Both parts of a text that is built can be built. -/
theorem exists_ofString_of_append (h : ∃ t, ofString (x ++ y) = .ok t) :
    (∃ t, ofString x = .ok t) ∧ ∃ t, ofString y = .ok t := by
  rw [exists_ofString_iff, Utf8.encode_append, List.length_append] at h
  rw [exists_ofString_iff, exists_ofString_iff]
  omega

theorem concat_eq_ok_iff : s.concat t = .ok u ↔
    ∃ x y, s.decode = .ok x ∧ t.decode = .ok y ∧ ofString (x ++ y) = .ok u := by
  unfold concat
  simp only [Outcome.bind_eq_ok_iff]
  constructor
  · intro h
    obtain ⟨x, hx, y, hy, h⟩ := h
    exact ⟨x, y, hx, hy, h⟩
  · intro h
    obtain ⟨x, y, hx, hy, h⟩ := h
    exact ⟨x, hx, y, hy, h⟩

theorem concat_associative : Outcome.Associative concat := by
  intro s t u r
  simp only [Outcome.bind_eq_ok_iff, concat_eq_ok_iff]
  constructor
  · intro h
    obtain ⟨st, ⟨x, y, hx, hy, hst⟩, xy, z, hxy, hz, hr⟩ := h
    cases (ofString_eq_ok_iff.1 hst).1.symm.trans hxy
    rw [String.append_assoc] at hr
    obtain ⟨tu, htu⟩ := (exists_ofString_of_append ⟨r, hr⟩).2
    exact ⟨tu, ⟨y, z, hy, hz, htu⟩, x, y ++ z, hx, (ofString_eq_ok_iff.1 htu).1, hr⟩
  · intro h
    obtain ⟨tu, ⟨y, z, hy, hz, htu⟩, x, yz, hx, hyz, hr⟩ := h
    cases (ofString_eq_ok_iff.1 htu).1.symm.trans hyz
    rw [← String.append_assoc] at hr
    obtain ⟨st, hst⟩ := (exists_ofString_of_append ⟨r, hr⟩).1
    exact ⟨st, ⟨x, y, hx, hy, hst⟩, x ++ y, z, (ofString_eq_ok_iff.1 hst).1, hz, hr⟩

/-- Texts are joined as strings are: what is read from the new text is the one string behind the
other, and there is a new text if it is not too long. -/
structure JoinLikeStrings : Prop where
  concat_eq_ok_iff (s t u : Text) : s.concat t = .ok u ↔ ∃ x y, s.decode = .ok x ∧
    t.decode = .ok y ∧ u.decode = .ok (x ++ y) ∧ u.bytes.length ≤ Limits.valueBytes
  concat_associative : Outcome.Associative concat

theorem joinLikeStrings : JoinLikeStrings where
  concat_eq_ok_iff s t u := by simp only [concat_eq_ok_iff, ofString_eq_ok_iff]
  concat_associative := concat_associative

end Text

/-- Arrays grow as lists do, and texts are joined as strings are. -/
theorem joined_like_lists : DynamicArray.GrowLikeLists ∧ Text.JoinLikeStrings :=
  ⟨DynamicArray.growLikeLists, Text.joinLikeStrings⟩

/-- Booleans that fill a byte and run into the next one, some of them from bytes with bits set
behind the items; and two texts. -/
theorem joined_like_lists_bools :
    let a : DynamicArray := ⟨.bool, [0, 1, 0x80]⟩
    let b : DynamicArray := ⟨.bool, [0, 7, 0xfe]⟩
    let c : DynamicArray := ⟨.bool, [0, 2, 0x7f]⟩
    let abc : DynamicArray := ⟨.bool, [0, 10, 0xff, 0x40]⟩
    let vs : List Value := [⟨.bool, [0x80]⟩, ⟨.bool, [0x00]⟩]
    a.Built ∧ (b.concat c >>= fun bc => a.concat bc) = .ok abc ∧
      (a.concat b >>= fun ab => ab.concat c) = .ok abc ∧
      vs.foldlM DynamicArray.append a = .ok ⟨.bool, [0, 3, 0xc0]⟩ ∧
      (DynamicArray.empty .bool).concat a = .ok a ∧
      Text.concat ⟨[0, 2, 0xc3, 0xa9]⟩ ⟨[0, 1, 0x21]⟩ = .ok ⟨[0, 3, 0xc3, 0xa9, 0x21]⟩ := by
  intro a b c abc vs
  have hright : (b.concat c >>= fun bc => a.concat bc) = .ok abc := by cbv
  have hextend : a.extend vs = .ok ⟨.bool, [0, 3, 0xc0]⟩ := by cbv
  have hbuilt : a.Built := @DynamicArray.Built.ofItems .bool [⟨.bool, [0x80]⟩] a rfl
  obtain ⟨harrays, htexts⟩ := joined_like_lists
  refine ⟨hbuilt, hright, ?_, ?_, ?_, ?_⟩
  · exact (harrays.concat_associative a b c abc).2 hright
  · exact (harrays.extend_iff_append a _ vs hbuilt).1 hextend
  · exact (harrays.concat_empty a (.empty .bool) (harrays.canonical a hbuilt) (Ty.Same.refl _)
      (DynamicArray.holds_empty .bool).items).2
  · refine (htexts.concat_eq_ok_iff _ _ _).2 ⟨"é", "!", ?_, ?_, ?_, by decide⟩
    · exact Counted.readText_eq_ok_iff.2 rfl
    · exact Counted.readText_eq_ok_iff.2 rfl
    · exact Counted.readText_eq_ok_iff.2 rfl

end Abi
