/-
  The items of an array that an index or two bounds ask for.

  A slice is cut out between two clamped positions. Here it is described from the side of the items:
  each bound lets a position in or not (`Bound.OpensAt`, `Bound.Reaches`), wherever the bound itself
  lies, and the slice has the items in the positions that both let in. Clamping changes nothing
  about that, since it is only positions within the list that are asked about (`first_le_iff`,
  `lt_last_iff`); and bounds in reverse let nothing in.

  * `Index.slice_eq_itemsAt`: a slice has the items in the positions that its bounds let in.
  * `arrays_select`: slices and single items of both kinds of arrays.
-/
import Abi.Proofs.Container.Kinds

namespace Abi

/-! ## Positions -/

/-- The place that an index names: from the front or, by a negative number, from the end. There need
not be an item. -/
def Index.place (length : Nat) (i : Int) : Int := if 0 ≤ i then i else i + length

/-- The position is not in front of a slice that starts with the bound. -/
def Bound.OpensAt (length k : Nat) : Bound → Prop
  | .unbounded => True
  | .included i => Index.place length i ≤ k
  | .excluded i => Index.place length i < k

/-- The position is not behind a slice that ends with the bound. -/
def Bound.Reaches (length k : Nat) : Bound → Prop
  | .unbounded => True
  | .included i => k ≤ Index.place length i
  | .excluded i => k < Index.place length i

instance (length k : Nat) : (b : Bound) → Decidable (b.OpensAt length k)
  | .unbounded => inferInstanceAs (Decidable True)
  | .included _ => inferInstanceAs (Decidable (_ ≤ _))
  | .excluded _ => inferInstanceAs (Decidable (_ < _))

instance (length k : Nat) : (b : Bound) → Decidable (b.Reaches length k)
  | .unbounded => inferInstanceAs (Decidable True)
  | .included _ => inferInstanceAs (Decidable (_ ≤ _))
  | .excluded _ => inferInstanceAs (Decidable (_ < _))

namespace Index

/-- The items in the positions that pass a test, in their order. -/
def itemsAt {α : Type} (xs : List α) (p : Nat → Prop) [DecidablePred p] : List α :=
  (xs.zipIdx.filter fun x => p x.2).map (·.1)

section

variable {length k : Nat}

theorem fromFront_eq_place (h : length < signedBound) (i : Int) :
    fromFront length i = place length i := by
  unfold fromFront place
  split <;> split <;> omega

/-- The slice has begun in a position exactly if the bound lets it in. -/
theorem first_le_iff (h : length < signedBound) (hk : k < length) (start : Bound) :
    first length start ≤ k ↔ start.OpensAt length k := by
  unfold first Bound.OpensAt clamp
  cases start with
  | unbounded => simp
  | included i =>
    simp only [fromFront_eq_place h]
    omega
  | excluded i =>
    simp only [fromFront_eq_place h]
    omega

/-- The slice has not ended in a position exactly if the bound lets it in. -/
theorem lt_last_iff (h : length < signedBound) (hk : k < length) (stop : Bound) :
    k < last length stop ↔ stop.Reaches length k := by
  unfold last Bound.Reaches clamp
  cases stop with
  | unbounded => simpa using hk
  | included i =>
    simp only [fromFront_eq_place h]
    omega
  | excluded i =>
    simp only [fromFront_eq_place h]
    omega

end

/-! ## Slices -/

section

variable {α : Type} {xs : List α}

/-- Only the positions within the list matter. -/
theorem itemsAt_congr {p q : Nat → Prop} [DecidablePred p] [DecidablePred q]
    (h : ∀ k < xs.length, p k ↔ q k) : itemsAt xs p = itemsAt xs q := by
  unfold itemsAt
  congr 1
  refine List.filter_congr fun x hx => ?_
  have hk : x.2 < xs.length := by simpa using List.snd_lt_add_of_mem_zipIdx hx
  exact decide_eq_decide.2 (h x.2 hk)

/-- What stands between two positions, counted from `n` on. -/
theorem zipIdx_filter_between (xs : List α) (n first last : Nat) :
    ((xs.zipIdx n).filter fun x => first ≤ x.2 ∧ x.2 < last).map (·.1) =
      (xs.drop (first - n)).take (last - max first n) := by
  induction xs generalizing n with
  | nil => simp
  | cons x xs ih =>
    rw [List.zipIdx_cons, List.filter_cons]
    by_cases hf : first ≤ n
    · by_cases hl : n < last
      · -- the item in front stands between the positions
        rw [if_pos (by simp [hf, hl]), List.map_cons, ih, Nat.sub_eq_zero_of_le hf,
          Nat.sub_eq_zero_of_le (Nat.le_succ_of_le hf), Nat.max_eq_right hf,
          Nat.max_eq_right (Nat.le_succ_of_le hf), List.drop_zero, List.drop_zero,
          show last - n = (last - (n + 1)) + 1 by omega, List.take_succ_cons]
      · rw [if_neg (by simp [hl]), ih, show last - max first (n + 1) = 0 by omega,
          show last - max first n = 0 by omega, List.take_zero, List.take_zero]
    · rw [if_neg (by simp [hf]), ih, show first - n = (first - (n + 1)) + 1 by omega,
        List.drop_succ_cons, show max first (n + 1) = max first n by omega]

/-- A slice has the items in the positions that its bounds let in. -/
theorem slice_eq_itemsAt (h : xs.length < signedBound) (start stop : Bound) :
    slice xs start stop =
      itemsAt xs fun k => start.OpensAt xs.length k ∧ stop.Reaches xs.length k := by
  have hbetween : slice xs start stop =
      itemsAt xs fun k => first xs.length start ≤ k ∧ k < last xs.length stop := by
    have hcut := zipIdx_filter_between xs 0 (first xs.length start) (last xs.length stop)
    rw [Nat.sub_zero, Nat.max_eq_left (Nat.zero_le _)] at hcut
    exact hcut.symm
  rw [hbetween]
  refine itemsAt_congr fun k hk => ?_
  rw [first_le_iff h hk, lt_last_iff h hk]

/-- The item in the place that an index names. -/
theorem item_of_place (h : xs.length < signedBound) {i : Int} {k : Nat} {x : α}
    (hi : place xs.length i = k) (hx : xs[k]? = some x) :
    (position xs.length i >>= item xs) = .ok x := by
  obtain ⟨hk, _⟩ := List.getElem?_eq_some_iff.1 hx
  rw [position_eq_ok_iff.2 ⟨(fromFront_eq_place h i).trans hi, hk⟩, Outcome.ok_bind]
  exact item_eq_ok_iff.2 hx

/-- An index that names no place within the list is out of range. -/
theorem position_outside {length : Nat} (h : length < signedBound) {i : Int}
    (hi : place length i < 0 ∨ length ≤ place length i) :
    position length i = .error (.index i length) := by
  unfold position
  rw [fromFront_eq_place h]
  exact if_neg (by omega)

end

end Index

/-! ## Arrays -/

/-- An array with these items gives for two bounds the items in the positions that both let in, and
for an index the item in the place that it names, or else an error that names index and length. -/
structure Selects (vs : List Value) (get : Int → Except Error Value)
    (slice : Bound → Bound → Except Error (List Value)) : Prop where
  slice_eq (start stop : Bound) : slice start stop =
    .ok (Index.itemsAt vs fun k => start.OpensAt vs.length k ∧ stop.Reaches vs.length k)
  get_eq (i : Int) (k : Nat) (v : Value) : Index.place vs.length i = k → vs[k]? = some v →
    get i = .ok v
  get_outside (i : Int) : Index.place vs.length i < 0 ∨ vs.length ≤ Index.place vs.length i →
    get i = .error (.index i vs.length)

/-- An array that reads all its items first selects among them. -/
theorem selects_of_items {vs : List Value} {get : Int → Except Error Value}
    {slice : Bound → Bound → Except Error (List Value)} (hl : vs.length < Index.signedBound)
    (hget : ∀ i, get i = Index.position vs.length i >>= Index.item vs)
    (hslice : ∀ start stop, slice start stop = .ok (Index.slice vs start stop)) :
    Selects vs get slice where
  slice_eq start stop := by rw [hslice, Index.slice_eq_itemsAt hl]
  get_eq i k v hi hv := by rw [hget, Index.item_of_place hl hi hv]
  get_outside i hi := by rw [hget, Index.position_outside hl hi, Outcome.error_bind]

theorem StaticArray.selects {a : StaticArray} {vs : List Value} (h : a.items = .ok vs) :
    Selects vs a.get a.slice := by
  refine selects_of_items (length_lt_of_items h) (fun i => ?_) fun start stop => ?_
  · unfold StaticArray.get
    rw [h, (ty_of_items h).1]
    rfl
  · unfold StaticArray.slice
    rw [h]
    rfl

theorem DynamicArray.selects {a : DynamicArray} {vs : List Value} (h : a.items = .ok vs) :
    Selects vs a.get a.slice := by
  refine selects_of_items (length_lt_of_items h) (fun i => ?_) fun start stop => ?_
  · unfold DynamicArray.get
    rw [h]
    rfl
  · unfold DynamicArray.slice
    rw [h]
    rfl

/-- Arrays of both kinds, whatever their bytes, select the items that an index and bounds ask for,
as soon as the items can be read at all. -/
theorem arrays_select :
    (∀ (a : StaticArray) (vs : List Value), a.items = .ok vs → Selects vs a.get a.slice) ∧
      ∀ (a : DynamicArray) (vs : List Value), a.items = .ok vs → Selects vs a.get a.slice :=
  ⟨fun _ _ h => StaticArray.selects h, fun _ _ h => DynamicArray.selects h⟩

/-- Three bytes: all but the first, by a start that is excluded and an end that is included and both
counted from the end; none by bounds in reverse, all by bounds that are out of range; and an index
in front of the first item. -/
theorem arrays_select_bytes :
    let vs : List Value := [⟨.byte, [7]⟩, ⟨.byte, [8]⟩, ⟨.byte, [9]⟩]
    let a : StaticArray := ⟨.byte, 3, [7, 8, 9]⟩
    let b : DynamicArray := ⟨.byte, [0, 3, 7, 8, 9]⟩
    a.items = .ok vs ∧ b.items = .ok vs ∧
      a.slice (.excluded (-3)) (.included (-1)) = .ok vs.tail ∧
      a.slice (.included 2) (.excluded (-2)) = .ok [] ∧
      b.slice (.excluded (-9)) (.included 9) = .ok vs ∧
      b.get (-4) = .error (.index (-4) 3) := by
  intro vs a b
  have ha : a.items = .ok vs := StaticArray.items_eq_ok_iff.2 ⟨by decide, rfl⟩
  have hb : b.items = .ok vs := DynamicArray.items_eq_ok_iff.2
    ⟨[7, 8, 9], Word.counted_eq_ok_iff.2 ⟨by decide, by decide⟩, rfl⟩
  have hfixed := arrays_select.1 a vs ha
  have hcounted := arrays_select.2 b vs hb
  refine ⟨ha, hb, ?_, ?_, ?_, hcounted.get_outside (-4) (Or.inl (by decide))⟩
  · exact (hfixed.slice_eq _ _).trans rfl
  · exact (hfixed.slice_eq _ _).trans rfl
  · exact (hcounted.slice_eq _ _).trans rfl

end Abi
