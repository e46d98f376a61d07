/-
  An array that was built from items holds them.

  `Holds` is what every array satisfies that does not come from foreign bytes: it is the one that
  its items build. Reading the items, their number or one of them is then reading the list.

  * `holds_of_ofItems`: an array holds the items that it was built from, in the form in which it
    gives items back.
  * `Holds.items`, `Holds.length`: what is read from an array that holds a list.
  * `ofItems_of_sublist`: items can always be left out.
-/
import Abi.Proofs.Sequence.Items
import Abi.Typed.DynamicArray

namespace Abi

namespace DynamicArray

/-! ## Building -/

theorem encode_eq_ok_iff {item : Ty} {vs : List Value} {a : DynamicArray} :
    encode item vs = .ok a ↔
      ∃ body, Sequence.encode vs = .ok body ∧ vs.length ≤ Limits.word ∧
        body.length + Limits.wordBytes ≤ Limits.valueBytes ∧
        a = ⟨item, Word.bytes vs.length ++ body⟩ := by
  unfold encode
  simp only [Outcome.bind_eq_ok_iff, Word.counted_eq_ok_iff, Value.limited_eq_ok_iff]
  constructor
  · intro h
    obtain ⟨body, hb, bs, ⟨hw, rfl⟩, v, ⟨hl, rfl⟩, ha⟩ := h
    cases ha
    rw [List.length_append, Word.length_bytes, Nat.add_comm] at hl
    exact ⟨body, hb, hw, hl, rfl⟩
  · intro h
    obtain ⟨body, hb, hw, hl, rfl⟩ := h
    refine ⟨body, hb, _, ⟨hw, rfl⟩, _, ⟨?_, rfl⟩, rfl⟩
    rw [List.length_append, Word.length_bytes, Nat.add_comm]
    exact hl

theorem ofItems_eq_encode {item : Ty} {vs : List Value} (h : ∀ v ∈ vs, v.HasTy item) :
    ofItems item vs = encode item vs := by
  have hvs : Value.expectAll vs item = .ok () := Value.expectAll_eq_ok_iff.2 h
  unfold ofItems
  rw [hvs]
  rfl

theorem ofItems_eq_ok_iff {item : Ty} {vs : List Value} {a : DynamicArray} :
    ofItems item vs = .ok a ↔ (∀ v ∈ vs, v.HasTy item) ∧ encode item vs = .ok a := by
  unfold ofItems
  rw [Outcome.bind_eq_ok_iff]
  simp only [Value.expectAll_eq_ok_iff, exists_const]

/-- Some of the items that an array was built from build an array too. -/
theorem ofItems_of_sublist {item : Ty} {us vs : List Value} {a : DynamicArray}
    (h : ofItems item vs = .ok a) (hs : us.Sublist vs) : ∃ b, ofItems item us = .ok b := by
  obtain ⟨ht, h⟩ := ofItems_eq_ok_iff.1 h
  obtain ⟨body, hb, hw, hl, _⟩ := encode_eq_ok_iff.1 h
  have hword : body.length ≤ Limits.word := by
    unfold Limits.valueBytes at hl
    unfold Limits.word
    omega
  obtain ⟨some, hsome, hlen⟩ := Sequence.encode_of_sublist hb hs hword
  have hcount := hs.length_le
  have hty : ∀ v ∈ us, v.HasTy item := fun v hv => ht v (hs.subset hv)
  exact ⟨_, ofItems_eq_ok_iff.2 ⟨hty, encode_eq_ok_iff.2 ⟨some, hsome, by omega, by omega, rfl⟩⟩⟩

/-- To append an item is to extend the array by one. -/
theorem append_eq_extend (a : DynamicArray) (v : Value) :
    a.append v = a.extend [v] := by
  unfold append extend
  show _ = (v.expect a.item >>= fun _ => pure ()) >>= _
  cases v.expect a.item with
  | error e => rfl
  | ok u => rfl

/-! ## Arrays that hold a list -/

/-- The array is the one that the items build, and they are as it gives them back. -/
structure Holds (a : DynamicArray) (vs : List Value) : Prop where
  built : ofItems a.item vs = .ok a
  restored : vs.map (·.asTy a.item) = vs

theorem item_of_ofItems {item : Ty} {vs : List Value} {a : DynamicArray}
    (h : ofItems item vs = .ok a) : a.item = item := by
  obtain ⟨_, h⟩ := ofItems_eq_ok_iff.1 h
  obtain ⟨body, _, _, _, rfl⟩ := encode_eq_ok_iff.1 h
  rfl

/-- An array holds the items that it was built from. -/
theorem holds_of_ofItems {item : Ty} {vs : List Value} {a : DynamicArray}
    (h : ofItems item vs = .ok a) : a.Holds (vs.map (·.asTy item)) := by
  have hitem := item_of_ofItems h
  obtain ⟨ht, h⟩ := ofItems_eq_ok_iff.1 h
  obtain ⟨body, hb, hw, hl, ha⟩ := encode_eq_ok_iff.1 h
  constructor
  · rw [hitem, ofItems_eq_ok_iff]
    refine ⟨List.forall_mem_map.2 fun v _ => v.hasTy_asTy item, encode_eq_ok_iff.2 ⟨body, ?_⟩⟩
    rw [List.length_map]
    exact ⟨Sequence.encode_map_asTy ht hb, hw, hl, ha⟩
  · rw [hitem, List.map_map]
    refine List.map_congr_left fun v _ => ?_
    exact v.asTy_asTy item

theorem holds_empty (item : Ty) : (empty item).Holds [] := ⟨rfl, rfl⟩

namespace Holds

variable {a : DynamicArray} {vs : List Value}

theorem hasTy (h : a.Holds vs) : ∀ v ∈ vs, v.HasTy a.item := (ofItems_eq_ok_iff.1 h.built).1

/-- The bytes are the count and the sequence of the items. -/
theorem exists_body (h : a.Holds vs) :
    ∃ body, Sequence.encode vs = .ok body ∧ body.length + Limits.wordBytes ≤ Limits.valueBytes ∧
      Word.counted vs.length body = .ok a.bytes := by
  obtain ⟨body, hb, hw, hl, ha⟩ := encode_eq_ok_iff.1 (ofItems_eq_ok_iff.1 h.built).2
  refine ⟨body, hb, hl, Word.counted_eq_ok_iff.2 ⟨hw, ?_⟩⟩
  rw [ha]

theorem length (h : a.Holds vs) : a.length = .ok vs.length := by
  obtain ⟨body, _, _, hc⟩ := h.exists_body
  unfold DynamicArray.length
  rw [Word.splitCounted_eq_ok_iff.2 hc]
  rfl

theorem items (h : a.Holds vs) : a.items = .ok vs := by
  obtain ⟨body, hb, _, hc⟩ := h.exists_body
  unfold DynamicArray.items
  rw [Word.splitCounted_eq_ok_iff.2 hc]
  exact (Sequence.decode_replicate h.hasTy hb).trans (congrArg Except.ok h.restored)

theorem length_bytes_le (h : a.Holds vs) : a.bytes.length ≤ Limits.valueBytes := by
  obtain ⟨body, _, hl, hc⟩ := h.exists_body
  rw [(Word.counted_eq_ok_iff.1 hc).2, List.length_append, Word.length_bytes, Nat.add_comm]
  exact hl

theorem length_le (h : a.Holds vs) : vs.length ≤ Limits.word := by
  obtain ⟨body, _, _, hc⟩ := h.exists_body
  exact (Word.counted_eq_ok_iff.1 hc).1

/-- The last item can be left out. -/
theorem ofItems_dropLast (h : a.Holds vs) : ∃ b, ofItems a.item vs.dropLast = .ok b :=
  ofItems_of_sublist h.built (List.dropLast_sublist vs)

end Holds

end DynamicArray

end Abi
