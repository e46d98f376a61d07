/-
  What is read from an array of fixed length that was built from items.

  Building looks at the bytes, reading looks at the type first: an array of more items than a word
  can count is refused, and so is one whose items would not leave room for each other in a value
  (`Readable`). The two do not agree. Items without bytes can be any number, and a dynamic item can
  be given in fewer bytes than its type has fixed ones.

  * `items_of_ofItems`, `set_of_ofItems`: an array that is not refused gives its items back, and
    setting one is building the array anew.
  * `readable_iff`: what is refused although no item is shorter than its type.
  * `reads_back`: the three together, and what a refused array answers.
  * `not_items_of_ofItems`, `not_items_of_units`: arrays that are built and then refused.
-/
import Abi.Proofs.Sequence.Changes
import Abi.Proofs.Ty.Size
import Abi.Typed.StaticArray

namespace Abi

/-- Units take no room, however many they are. -/
theorem Sequence.encode_units (count : Nat) :
    encode (List.replicate count ⟨.tuple [], []⟩) = .ok [] := by
  have hp : (List.replicate count (⟨.tuple [], []⟩ : Value)).mapM Value.part =
      .ok (List.replicate count (.inline [])) := by
    induction count with
    | zero => rfl
    | succ count ih =>
      rw [List.replicate_succ, List.mapM_cons, ih]
      rfl
  have htails : Layout.tails (List.replicate count (.inline [])) = [] :=
    Layout.tails_eq_nil_iff.2 (by simp [Layout.Part.slot])
  have hhead :
      Layout.headSize 0 ((List.replicate count (.inline [])).map Layout.Part.slot) = 0 := by
    rw [List.map_replicate]
    exact (Layout.headSize_replicate_inline 0 0 count).trans (Nat.zero_mul count)
  have hfits : Layout.headSize 0 ((List.replicate count (.inline [])).map Layout.Part.slot) +
      (Layout.tails (List.replicate count (.inline []))).flatten.length ≤ Limits.word := by
    rw [hhead, htails]
    exact Nat.zero_le _
  obtain ⟨body, hb⟩ := Layout.assemble_isOk_of_length_le hfits
  have hlen := Layout.length_of_assemble hb
  rw [hhead, htails] at hlen
  obtain rfl := List.eq_nil_of_length_eq_zero hlen
  exact encode_eq_ok_iff.2 ⟨_, hp, hb⟩

namespace StaticArray

/-! ## Building -/

theorem encode_eq_ok_iff {item : Ty} {size : Nat} {vs : List Value} {a : StaticArray} :
    encode item size vs = .ok a ↔
      ∃ body, Sequence.encode vs = .ok body ∧ body.length ≤ Limits.valueBytes ∧
        a = ⟨item, size, body⟩ :=
  @Sequence.limited_encode_eq_ok_iff vs (.array item size) StaticArray (⟨item, size, ·⟩) a

/-- Values with the same parts build the same array. -/
theorem encode_congr (item : Ty) (size : Nat) {vs ws : List Value}
    (h : vs.map Value.part = ws.map Value.part) : encode item size vs = encode item size ws := by
  unfold encode
  rw [Sequence.encode_congr h]

theorem ofItems_eq_encode {item : Ty} {size : Nat} {vs : List Value} (hl : vs.length = size)
    (h : ∀ v ∈ vs, v.HasTy item) : ofItems item size vs = encode item size vs := by
  have hvs : Value.expectAll vs item = .ok () := Value.expectAll_eq_ok_iff.2 h
  unfold ofItems
  rw [if_neg (not_not.2 hl), hvs]
  rfl

theorem ofItems_eq_ok_iff {item : Ty} {size : Nat} {vs : List Value} {a : StaticArray} :
    ofItems item size vs = .ok a ↔
      vs.length = size ∧ (∀ v ∈ vs, v.HasTy item) ∧ encode item size vs = .ok a := by
  unfold ofItems
  by_cases hl : vs.length = size
  · rw [if_neg (not_not.2 hl)]
    show (Value.expectAll vs item >>= fun _ => encode item size vs) = .ok a ↔ _
    rw [Outcome.bind_eq_ok_iff]
    simp only [Value.expectAll_eq_ok_iff, exists_const, hl, true_and]
  · rw [if_pos hl]
    simp only [hl, false_and, iff_false]
    exact nofun

/-! ## Reading -/

/-- An array of this type is not refused when it is read. -/
def Readable (item : Ty) (size : Nat) : Prop :=
  size ≤ Limits.word ∧ (Ty.array item size).fixedSize ≤ Limits.valueBytes

instance (item : Ty) (size : Nat) : Decidable (Readable item size) :=
  inferInstanceAs (Decidable (_ ∧ _))

theorem repeated_of_readable {item : Ty} {size : Nat} (h : Readable item size) :
    Ty.repeated item size = .ok (List.replicate size item) := Ty.repeated_eq_ok h.1 h.2

theorem repeated_of_not_readable {item : Ty} {size : Nat} (h : ¬ Readable item size) :
    Ty.repeated item size = .error (.oversize (.array item.name size)) := by
  unfold Readable at h
  unfold Ty.repeated
  rw [if_pos (by omega)]

section

variable {item : Ty} {size : Nat} {vs : List Value} {a : StaticArray}

theorem item_size_of_ofItems (h : ofItems item size vs = .ok a) :
    a.item = item ∧ a.size = size := by
  obtain ⟨_, _, h⟩ := ofItems_eq_ok_iff.1 h
  obtain ⟨body, _, _, rfl⟩ := encode_eq_ok_iff.1 h
  exact ⟨rfl, rfl⟩

/-- An array gives back the items that it was built from, unless it is refused. -/
theorem items_of_ofItems (h : ofItems item size vs = .ok a) (hr : Readable item size) :
    a.items = .ok (vs.map (·.asTy item)) := by
  obtain ⟨rfl, ht, h⟩ := ofItems_eq_ok_iff.1 h
  obtain ⟨body, hb, _, rfl⟩ := encode_eq_ok_iff.1 h
  show Ty.repeated item vs.length >>= (Sequence.decode · body) = _
  rw [repeated_of_readable hr, Outcome.ok_bind, Sequence.decode_replicate ht hb]

theorem items_of_not_readable (h : ¬ Readable a.item a.size) :
    a.items = .error (.oversize (.array a.item.name a.size)) := by
  show Ty.repeated a.item a.size >>= (Sequence.decode · a.bytes) = _
  rw [repeated_of_not_readable h, Outcome.error_bind]

/-- Setting an item is building the array with the item replaced. -/
theorem set_of_ofItems (h : ofItems item size vs = .ok a) (hr : Readable item size) {k : Nat}
    (hk : k < size) {x : Value} (hx : x.HasTy item) :
    a.set k x = ofItems item size (vs.set k x) := by
  have hitems := items_of_ofItems h hr
  obtain ⟨rfl, rfl⟩ := item_size_of_ofItems h
  obtain ⟨hl, ht, h⟩ := ofItems_eq_ok_iff.1 h
  obtain ⟨body, hb, _⟩ := encode_eq_ok_iff.1 h
  have hparts : ((vs.map (·.asTy a.item)).set k x).map Value.part =
      (vs.set k x).map Value.part := by
    rw [List.map_set, Sequence.map_part_map_asTy ht hb, ← List.map_set]
  have hlen : k < (vs.map (·.asTy a.item)).length := by rwa [List.length_map, hl]
  rw [ofItems_eq_encode (by rwa [List.length_set]) (Value.forall_hasTy_set ht hx k),
    ← encode_congr a.item a.size hparts]
  unfold StaticArray.set write
  rw [Index.position_natCast hk, Outcome.ok_bind, Value.expect_eq_ok_iff.2 hx, Outcome.ok_bind,
    hitems, Outcome.ok_bind, Index.replace_eq_ok_iff.2 ⟨hlen, rfl⟩, Outcome.ok_bind]

/-- Items of a static type are as long as the type asks for. -/
theorem length_of_static (h : ofItems item size vs = .ok a) (hs : item.isDynamic = false)
    {v : Value} (hv : v ∈ vs) : v.bytes.length = item.fixedSize := by
  obtain ⟨_, ht, h⟩ := ofItems_eq_ok_iff.1 h
  obtain ⟨body, hb, _⟩ := encode_eq_ok_iff.1 h
  obtain ⟨p, hp⟩ := Sequence.exists_part_of_encode hb hv
  have hsized : (⟨item, v.bytes⟩ : Value).Sized :=
    Value.sized_iff_exists_part.2 ⟨p, (Value.part_of_hasTy (ht v hv)).1 hp⟩
  exact hsized hs

/-- If no item is shorter than the fixed size of its type, then there is room for all. -/
theorem fixedSize_le_of_ofItems (h : ofItems item size vs = .ok a)
    (hv : ∀ v ∈ vs, item.fixedSize ≤ v.bytes.length) :
    (Ty.array item size).fixedSize ≤ Limits.valueBytes := by
  obtain ⟨rfl, ht, h⟩ := ofItems_eq_ok_iff.1 h
  obtain ⟨body, hb, hl, _⟩ := encode_eq_ok_iff.1 h
  have hty : (vs.map (·.asTy item)).map (·.ty) = List.replicate vs.length item := by
    rw [List.map_map, ← List.map_const']
    exact List.map_congr_left fun v _ => v.ty_asTy item
  refine Nat.le_trans (Ty.fixedSize_array_le_of_encode (Sequence.encode_map_asTy ht hb) hty ?_) hl
  refine List.forall_mem_map.2 fun v hm => ?_
  rw [Value.ty_asTy]
  unfold Value.asTy Value.normal
  split
  · rename_i hbool
    obtain rfl := Ty.isBool_iff.1 hbool
    exact Nat.le_refl 1
  · exact hv v hm

/-- Only items without bytes can be too many, if no dynamic one is shorter than the fixed size of
its type. -/
theorem readable_iff (h : ofItems item size vs = .ok a)
    (hv : item.isDynamic = true → ∀ v ∈ vs, item.fixedSize ≤ v.bytes.length) :
    Readable item size ↔ (item.fixedSize = 0 → size ≤ Limits.word) := by
  have hlong : ∀ v ∈ vs, item.fixedSize ≤ v.bytes.length := by
    intro v hm
    cases hd : item.isDynamic with
    | true => exact hv hd v hm
    | false => exact Nat.le_of_eq (length_of_static h hd hm).symm
  have hroom := fixedSize_le_of_ofItems h hlong
  constructor
  · intro hr _
    exact hr.1
  · intro hz
    refine ⟨?_, hroom⟩
    by_cases hf : item.fixedSize = 0
    · exact hz hf
    · exact Ty.size_le_of_fixedSize_array hf hroom

end

/-! ## What is read and set -/

/-- An array gives back the items that it was built from, all of them or one at a time from either
end, and setting one is building the array with the item replaced. -/
structure ReadsBack (item : Ty) (size : Nat) (vs : List Value) (a : StaticArray) : Prop where
  items : a.items = .ok (vs.map (·.asTy item))
  get (k : Nat) (v : Value) : vs[k]? = some v → a.get k = .ok (v.asTy item)
  get_back (k : Nat) (v : Value) : vs[k]? = some v → a.get (k - size) = .ok (v.asTy item)
  set (k : Nat) (x : Value) : k < size → x.HasTy item →
    a.set k x = ofItems item size (vs.set k x)

/-- An array that is refused for the size of its type. -/
structure Refused (a : StaticArray) : Prop where
  items : a.items = .error (.oversize (.array a.item.name a.size))
  get (i : Int) (k : Nat) : Index.position a.size i = .ok k →
    a.get i = .error (.oversize (.array a.item.name a.size))
  set (i : Int) (k : Nat) (x : Value) : Index.position a.size i = .ok k → x.HasTy a.item →
    a.set i x = .error (.oversize (.array a.item.name a.size))

section

variable {item : Ty} {size : Nat} {vs : List Value} {a : StaticArray}

theorem readsBack_of_readable (h : ofItems item size vs = .ok a) (hr : Readable item size) :
    ReadsBack item size vs a := by
  have hitems := items_of_ofItems h hr
  obtain ⟨_, hsize⟩ := item_size_of_ofItems h
  obtain ⟨hl, _⟩ := ofItems_eq_ok_iff.1 h
  have hget : ∀ (i : Int) (k : Nat) (v : Value), vs[k]? = some v →
      Index.position size i = .ok k → a.get i = .ok (v.asTy item) := by
    intro i k v hv hi
    unfold StaticArray.get
    rw [hsize, hi, Outcome.ok_bind, hitems, Outcome.ok_bind, Index.item_eq_ok_iff,
      List.getElem?_map, hv]
    rfl
  have hlt : ∀ (k : Nat) (v : Value), vs[k]? = some v → k < size := by
    intro k v hv
    obtain ⟨hk, _⟩ := List.getElem?_eq_some_iff.1 hv
    rwa [← hl]
  have hword : size < Index.signedBound := Nat.lt_of_le_of_lt hr.1 Index.word_lt_signedBound
  exact {
    items := hitems
    get := fun k v hv => hget k k v hv (Index.position_natCast (hlt k v hv))
    get_back := fun k v hv => hget _ k v hv (Index.position_sub_length (hlt k v hv) hword)
    set := fun k x hk hx => set_of_ofItems h hr hk hx }

theorem refused_of_not_readable (h : ¬ Readable a.item a.size) : Refused a := by
  have hitems := items_of_not_readable h
  exact {
    items := hitems
    get := fun i k hi => by
      unfold StaticArray.get
      rw [hi, Outcome.ok_bind, hitems, Outcome.error_bind]
    set := fun i k x hi hx => by
      unfold StaticArray.set write
      rw [hi, Outcome.ok_bind, Value.expect_eq_ok_iff.2 hx, Outcome.ok_bind, hitems,
        Outcome.error_bind] }

end

/-- An array that was built is read back unless its type is too large, and then it is refused. With
items that are as long as their type asks for, that takes more items without bytes than a word can
count. -/
theorem reads_back (item : Ty) (size : Nat) (vs : List Value) (a : StaticArray)
    (h : ofItems item size vs = .ok a) :
    (Readable item size → ReadsBack item size vs a) ∧ (¬ Readable item size → Refused a) ∧
      ((item.isDynamic = true → ∀ v ∈ vs, item.fixedSize ≤ v.bytes.length) →
        (Readable item size ↔ (item.fixedSize = 0 → size ≤ Limits.word))) := by
  refine ⟨readsBack_of_readable h, fun hr => ?_, readable_iff h⟩
  obtain ⟨rfl, rfl⟩ := item_size_of_ofItems h
  exact refused_of_not_readable hr

/-- Three booleans, of which one is not normalised. -/
theorem reads_back_bools :
    let vs : List Value := [⟨.bool, [0x80]⟩, ⟨.bool, [0x01]⟩, ⟨.bool, [0x80]⟩]
    let a : StaticArray := ⟨.bool, 3, [0xa0]⟩
    ofItems .bool 3 vs = .ok a ∧ Readable .bool 3 ∧ ReadsBack .bool 3 vs a := by
  intro vs a
  have h : ofItems .bool 3 vs = .ok a := rfl
  have hr : Readable .bool 3 := by decide
  exact ⟨h, hr, (reads_back .bool 3 vs a h).1 hr⟩

/-- Not every array that was built is read back: a dynamic item given in fewer bytes than its type
has fixed ones fits into the array, and the array is refused. -/
theorem not_items_of_ofItems :
    let item : Ty := .tuple [.array (.uint 64) 512, .string]
    let a : StaticArray := ⟨item, 1, [0, 2]⟩
    ofItems item 1 [⟨item, []⟩] = .ok a ∧ a.items = .error (.oversize (.array item.name 1)) ∧
      ¬ ∀ (item : Ty) (size : Nat) (vs : List Value) (a : StaticArray), size < Index.signedBound →
        ofItems item size vs = .ok a → a.items = .ok (vs.map (·.asTy item)) := by
  have hbody : Sequence.encode [⟨.tuple [.array (.uint 64) 512, .string], []⟩] = .ok [0, 2] := rfl
  intro item a
  have h : ofItems item 1 [⟨item, []⟩] = .ok a := ofItems_eq_ok_iff.2
    ⟨rfl, List.forall_mem_singleton.2 (Ty.Same.refl item),
      encode_eq_ok_iff.2 ⟨[0, 2], hbody, by decide, rfl⟩⟩
  have hitems : a.items = .error (.oversize (.array item.name 1)) :=
    items_of_not_readable (by decide)
  refine ⟨h, hitems, fun hall => ?_⟩
  rw [hall item 1 _ a (by decide) h] at hitems
  cases hitems

/-- Any number of units is an array without bytes. -/
theorem ofItems_units (size : Nat) :
    ofItems (.tuple []) size (List.replicate size ⟨.tuple [], []⟩) = .ok ⟨.tuple [], size, []⟩ := by
  have ht : ∀ v ∈ List.replicate size (⟨.tuple [], []⟩ : Value), v.HasTy (.tuple []) := by
    intro v hv
    rw [List.eq_of_mem_replicate hv]
    exact Ty.Same.refl _
  refine ofItems_eq_ok_iff.2 ⟨List.length_replicate, ht, encode_eq_ok_iff.2 ⟨[], ?_⟩⟩
  exact ⟨Sequence.encode_units size, Nat.zero_le _, rfl⟩

/-- An array of more units than a word can count is built, without a byte, and refused. -/
theorem not_items_of_units {size : Nat} (h : Limits.word < size) : ∃ a : StaticArray,
    ofItems (.tuple []) size (List.replicate size ⟨.tuple [], []⟩) = .ok a ∧ a.bytes = [] ∧
      Refused a := by
  refine ⟨_, ofItems_units size, rfl, refused_of_not_readable fun hr => ?_⟩
  exact Nat.not_le_of_lt h hr.1

end StaticArray

end Abi
