/-
  Which host values suit a type, and how many bytes they take.

  Whatever its spelling, a host value of a composite type is a row of host values, one for each
  child type (`Row`). `Suits`, `size` and `counts` look at types and host values alone, and the
  rows carry each of them from the children to the whole.

  * `Row.bytesAs_eq`, `Row.size_eq`, `Row.counts_eq`: bytes, size and element counts of a row.
  * `rowSize_of_values`: the size of a row is the length of the sequence of its values.
  * `fits_of_row`: the children of a host value that fits all fit.
-/
import Abi.Proofs.Host.Encode
import Abi.Proofs.Sequence.Layout

namespace Abi.Host

open Layout (Slot headWidth)

/-! ## Rows -/

/-- A host value of a composite type and its children: their types, and as many host values. A
tuple can be given as a list; a struct can be given as a tuple, or as a struct with the declared
names in the declared order. -/
inductive Row : Ty → Host → List Ty → List Host → Prop
  | list (item : Ty) (ns : List Host) :
    Row (.list item) (.list ns) (List.replicate ns.length item) ns
  | array (item : Ty) (ns : List Host) :
    Row (.array item ns.length) (.list ns) (List.replicate ns.length item) ns
  | tuple {items : List Ty} {ns : List Host} : ns.length = items.length →
    Row (.tuple items) (.tuple ns) items ns
  | tupleAsList {items : List Ty} {ns : List Host} : ns.length = items.length →
    Row (.tuple items) (.list ns) items ns
  | structAsTuple {name : String} {declared : List (String × Ty)} {frozen : Bool}
    {ns : List Host} : ns.length = declared.length →
      Row (.struct name declared frozen) (.tuple ns) (declared.map (·.2)) ns
  | struct {name : String} {declared : List (String × Ty)} {frozen : Bool}
    {fields : List (String × Host)} : fields.map (·.1) = declared.map (·.1) →
      Row (.struct name declared frozen) (.struct fields) (declared.map (·.2)) (fields.map (·.2))

/-- The host value has a shape that the type accepts, at every depth. -/
inductive Suits : Ty → Host → Prop
  | uint {width i : Nat} : i < 2 ^ width → Suits (.uint width) (.int i)
  | byte {i : Nat} : i < 256 → Suits .byte (.int i)
  | bool (b : Bool) : Suits .bool (.bool b)
  | ufixed {width precision i : Nat} {literal : String} :
    FixedPoint.read precision literal = .ok i → i < 2 ^ width →
      Suits (.ufixed width precision) (.decimal literal)
  | address (a : Address) : Suits .address (.address a)
  | addressText {s : String} {a : Address} : Address.ofText s = .ok a → Suits .address (.text s)
  | addressBytes {bs : Bytes} : bs.length = Limits.addressBytes → Suits .address (.bytes bs)
  | string (s : String) : Suits .string (.text s)
  /-- Raw bytes for a list of bytes. -/
  | bytes (bs : Bytes) : Suits (.list .byte) (.bytes bs)
  | row {t : Ty} {n : Host} {ts : List Ty} {ns : List Host} : Row t n ts ns →
    (∀ p ∈ ts.zip ns, Suits p.1 p.2) → Suits t n

/-! ## Sizes -/

/-- The slot of a child that takes `size` bytes. -/
def slotOf (t : Ty) (size : Nat) : Slot :=
  if t.isBool then .bit
  else if t.isDynamic then .offset
  else .inline size

/-- The bytes of children of these types and sizes: a head, in which adjacent booleans share
bytes and a dynamic child has an offset, and behind it the dynamic children. -/
def rowSize (cs : List (Ty × Nat)) : Nat :=
  headWidth (cs.map fun c => slotOf c.1 c.2) +
    (cs.map fun c => if c.1.isDynamic then c.2 else 0).sum

mutual

/-- The bytes that a host value takes as a type. -/
def size : Ty → Host → Nat
  | .uint width, _ => width / 8
  | .byte, _ => 1
  | .bool, _ => 1
  | .ufixed width _, _ => width / 8
  | .address, _ => Limits.addressBytes
  | .string, .text s => Limits.wordBytes + (Utf8.encode s).length
  | .list _, .bytes bs => Limits.wordBytes + bs.length
  | .list item, .list ns => Limits.wordBytes + rowSize (ns.map fun n => (item, size item n))
  | .array item _, .list ns => rowSize (ns.map fun n => (item, size item n))
  | .tuple items, .tuple ns => rowSize (sizesOfItems items ns)
  | .tuple items, .list ns => rowSize (sizesOfItems items ns)
  | .struct _ declared _, .tuple ns => rowSize (sizesOfFields declared ns)
  | .struct _ declared _, .struct fields => rowSize (sizesOfFields declared (fields.map (·.2)))
  | _, _ => 0

/-- The types, and the bytes that the host values take as one type each. -/
def sizesOfItems : List Ty → List Host → List (Ty × Nat)
  | t :: ts, n :: ns => (t, size t n) :: sizesOfItems ts ns
  | _, _ => []

/-- The types of the fields, and the bytes that the host values take as the type of one field
each. -/
def sizesOfFields : List (String × Ty) → List Host → List (Ty × Nat)
  | (_, t) :: fs, n :: ns => (t, size t n) :: sizesOfFields fs ns
  | _, _ => []

end

mutual

/-- The numbers of elements of all lists in a host value. -/
def counts : Ty → Host → List Nat
  | .list _, .bytes bs => [bs.length]
  | .list item, .list ns => ns.length :: ns.flatMap (counts item)
  | .array item _, .list ns => ns.flatMap (counts item)
  | .tuple items, .tuple ns => countsOfItems items ns
  | .tuple items, .list ns => countsOfItems items ns
  | .struct _ declared _, .tuple ns => countsOfFields declared ns
  | .struct _ declared _, .struct fields => countsOfFields declared (fields.map (·.2))
  | _, _ => []

/-- The numbers of elements of all lists in host values of one type each. -/
def countsOfItems : List Ty → List Host → List Nat
  | t :: ts, n :: ns => counts t n ++ countsOfItems ts ns
  | _, _ => []

/-- The numbers of elements of all lists in host values of the type of one field each. -/
def countsOfFields : List (String × Ty) → List Host → List Nat
  | (_, t) :: fs, n :: ns => counts t n ++ countsOfFields fs ns
  | _, _ => []

end

/-- The host value takes no more bytes than a value may have, and a word can count the elements
of every list in it. -/
def Fits (t : Ty) (n : Host) : Prop :=
  size t n ≤ Limits.valueBytes ∧ ∀ c ∈ counts t n, c ≤ Limits.word

instance (t : Ty) (n : Host) : Decidable (Fits t n) := inferInstanceAs (Decidable (_ ∧ _))

/-! ## Sizes of rows -/

theorem sizesOfItems_eq (ts : List Ty) (ns : List Host) :
    sizesOfItems ts ns = (ts.zip ns).map fun p => (p.1, size p.1 p.2) := by
  induction ts generalizing ns with
  | nil => rfl
  | cons t ts ih =>
    cases ns with
    | nil => rfl
    | cons n ns => exact congrArg ((t, size t n) :: ·) (ih ns)

theorem sizesOfFields_eq (fs : List (String × Ty)) (ns : List Host) :
    sizesOfFields fs ns = sizesOfItems (fs.map (·.2)) ns := by
  induction fs generalizing ns with
  | nil => rfl
  | cons f fs ih =>
    cases ns with
    | nil => rfl
    | cons n ns => exact congrArg ((f.2, size f.2 n) :: ·) (ih ns)

theorem countsOfItems_eq (ts : List Ty) (ns : List Host) :
    countsOfItems ts ns = (ts.zip ns).flatMap fun p => counts p.1 p.2 := by
  induction ts generalizing ns with
  | nil => rfl
  | cons t ts ih =>
    cases ns with
    | nil => rfl
    | cons n ns => exact congrArg (counts t n ++ ·) (ih ns)

theorem countsOfFields_eq (fs : List (String × Ty)) (ns : List Host) :
    countsOfFields fs ns = countsOfItems (fs.map (·.2)) ns := by
  induction fs generalizing ns with
  | nil => rfl
  | cons f fs ih =>
    cases ns with
    | nil => rfl
    | cons n ns => exact congrArg (counts f.2 n ++ ·) (ih ns)

/-- The type counts its children: a list does, in a word in front of them. -/
def isCounted : Ty → Bool
  | .list _ => true
  | _ => false

theorem zip_replicate_length (item : Ty) (ns : List Host) :
    (List.replicate ns.length item).zip ns = ns.map fun n => (item, n) := by
  induction ns with
  | nil => rfl
  | cons n ns ih => exact congrArg ((item, n) :: ·) ih

namespace Row

variable {t : Ty} {n : Host} {ts : List Ty} {ns : List Host}

theorem length_eq (h : Row t n ts ns) : ns.length = ts.length := by
  cases h with
  | list item | array item => exact List.length_replicate.symm
  | tuple h | tupleAsList h => exact h
  | structAsTuple h => exact h.trans (List.length_map _).symm
  | struct h => simpa using congrArg List.length h

/-- The values of a row are written as a sequence, behind their count if the type counts them. -/
theorem bytesAs_eq (h : Row t n ts ns) :
    bytesAs t n = (valuesAs ts ns >>= Sequence.encode) >>= fun body =>
      if isCounted t then Word.counted ns.length body else .ok body := by
  have hcount : ∀ t, expectCount t ns.length ns = .ok () := fun t =>
    expectCount_eq_ok_iff.2 rfl
  cases h with
  | list item =>
    rw [bytesAs_list_list, valuesAs_replicate]
    cases hv : ns.mapM (Value.ofHost item) with
    | error e => rfl
    | ok vs =>
      have hlen : ns.length = vs.length := (Outcome.mapM_eq_ok_iff.1 hv).length_eq
      rw [hlen]
      rfl
  | array item =>
    refine Eq.trans ?_ (bind_pure _).symm
    rw [valuesAs_replicate, bytesAs, hcount]
    rfl
  | tuple h =>
    refine Eq.trans ?_ (bind_pure _).symm
    rw [bytesAs, ← h, hcount]
    rfl
  | tupleAsList h =>
    refine Eq.trans ?_ (bind_pure _).symm
    rw [bytesAs, ← h, hcount]
    rfl
  | structAsTuple h =>
    refine Eq.trans ?_ (bind_pure _).symm
    rw [bytesAs, ← h, hcount, ← valuesAsFields_eq]
    rfl
  | struct h =>
    refine Eq.trans ?_ (bind_pure _).symm
    rw [bytesAs, (expectFields_eq_ok_iff (u := ())).2 h, ← valuesAsFields_eq]
    rfl

theorem size_eq (h : Row t n ts ns) :
    size t n = (if isCounted t then Limits.wordBytes else 0) +
      rowSize ((ts.zip ns).map fun p => (p.1, size p.1 p.2)) := by
  have hlist : ∀ item, (ns.map fun n => (item, size item n)) =
      ((List.replicate ns.length item).zip ns).map fun p => (p.1, size p.1 p.2) := by
    intro item
    rw [zip_replicate_length, List.map_map]
    rfl
  cases h with
  | list item =>
    rw [size, hlist]
    rfl
  | array item =>
    rw [size, hlist]
    exact (Nat.zero_add _).symm
  | tuple h | tupleAsList h =>
    rw [size, sizesOfItems_eq]
    exact (Nat.zero_add _).symm
  | structAsTuple h | struct h =>
    rw [size, sizesOfFields_eq, sizesOfItems_eq]
    exact (Nat.zero_add _).symm

theorem counts_eq (h : Row t n ts ns) :
    counts t n = (if isCounted t then [ns.length] else []) ++
      (ts.zip ns).flatMap fun p => counts p.1 p.2 := by
  have hlist : ∀ item, ns.flatMap (counts item) =
      ((List.replicate ns.length item).zip ns).flatMap fun p => counts p.1 p.2 := by
    intro item
    rw [zip_replicate_length, List.flatMap_map]
  cases h with
  | list item | array item =>
    rw [counts, hlist]
    rfl
  | tuple h | tupleAsList h =>
    rw [counts, countsOfItems_eq]
    rfl
  | structAsTuple h | struct h =>
    rw [counts, countsOfFields_eq, countsOfItems_eq]
    rfl

end Row

/-! ## Children -/

theorem le_headSize_add_sum {c : Ty × Nat} {cs : List (Ty × Nat)} (hc : c ∈ cs)
    (hb : c.1.isBool = false) (free : Nat) :
    c.2 ≤ Layout.headSize free (cs.map fun c => slotOf c.1 c.2) +
      (cs.map fun c => if c.1.isDynamic then c.2 else 0).sum := by
  induction cs generalizing free with
  | nil => cases hc
  | cons d cs ih =>
    rw [List.map_cons, List.map_cons, List.sum_cons, slotOf]
    by_cases hdb : d.1.isBool = true
    · have hm : c ∈ cs := by
        refine (List.mem_cons.1 hc).resolve_left ?_
        rintro rfl
        rw [hdb] at hb
        cases hb
      rw [if_pos hdb]
      cases free with
      | zero =>
        have := ih hm (Limits.boolsPerByte - 1)
        rw [Layout.headSize]
        omega
      | succ free =>
        have := ih hm free
        rw [Layout.headSize]
        omega
    · rw [if_neg hdb]
      cases hdd : d.1.isDynamic with
      | true =>
        rw [if_pos rfl, if_pos rfl, Layout.headSize]
        rcases List.mem_cons.1 hc with rfl | hm
        · omega
        · have := ih hm 0
          omega
      | false =>
        rw [if_neg (by decide), if_neg (by decide), Layout.headSize]
        rcases List.mem_cons.1 hc with rfl | hm
        · omega
        · have := ih hm 0
          omega

/-- No child takes more bytes than the row, unless it is a boolean. -/
theorem le_rowSize {c : Ty × Nat} {cs : List (Ty × Nat)} (hc : c ∈ cs) (hb : c.1.isBool = false) :
    c.2 ≤ rowSize cs := by
  rw [rowSize, ← Layout.headSize_eq_headWidth]
  exact le_headSize_add_sum hc hb 0

section

variable {t : Ty} {n : Host} {ts : List Ty} {ns : List Host}

/-- The children of a host value that fits all fit. -/
theorem fits_of_row (h : Row t n ts ns) (hfit : Fits t n) : ∀ p ∈ ts.zip ns, Fits p.1 p.2 := by
  intro p hp
  obtain ⟨hsize, hcounts⟩ := hfit
  rw [h.size_eq] at hsize
  rw [h.counts_eq] at hcounts
  refine ⟨?_, fun c hc => hcounts c ?_⟩
  · cases hb : p.1.isBool with
    | true =>
      rw [Ty.isBool_iff.1 hb, size]
      decide
    | false =>
      have hmem := List.mem_map_of_mem (f := fun p : Ty × Host => (p.1, size p.1 p.2)) hp
      exact Nat.le_trans (Nat.le_trans (le_rowSize hmem hb) (Nat.le_add_left _ _)) hsize
  · exact List.mem_append_right _ (List.mem_flatMap.2 ⟨p, hp, hc⟩)

/-! ## Static types -/

/-- The children of a static value are static. -/
theorem Row.isDynamic_children (h : Row t n ts ns) (hd : t.isDynamic = false) :
    ∀ u ∈ ts, u.isDynamic = false := by
  cases h with
  | list item => cases hd
  | array item => exact fun u hu => (List.eq_of_mem_replicate hu).symm ▸ hd
  | tuple h | tupleAsList h => exact Ty.isDynamic_tuple_eq_false_iff.1 hd
  | structAsTuple h | struct h => exact Ty.isDynamic_struct_eq_false_iff.1 hd

theorem isCounted_of_static (hd : t.isDynamic = false) : isCounted t = false := by
  cases t with
  | list item => cases hd
  | _ => rfl

/-- A static type takes the head of its children, unless that is too much to be told apart. -/
theorem Row.fixedSize_eq (h : Row t n ts ns) (hd : t.isDynamic = false)
    (hl : Layout.headSize 0 (ts.map Ty.slot) ≤ Limits.size) :
    t.fixedSize = Layout.headSize 0 (ts.map Ty.slot) := by
  have hrow : Ty.sizeOfItems 0 ts = Layout.headSize 0 (ts.map Ty.slot) := by
    rw [Ty.sizeOfItems_of_static (h.isDynamic_children hd), Nat.min_eq_left hl]
  cases h with
  | list item => cases hd
  | array item =>
    cases hb : item.isBool with
    | true =>
      rw [List.map_replicate, Ty.slot_eq_bit_iff.2 hb, Layout.headSize_replicate_bit (by decide),
        Ty.fixedSize, if_pos hb, Nat.sub_zero]
    | false =>
      rw [Ty.fixedSize, if_neg (by simp [hb]), ← Ty.sizeOfItems_replicate hb 0]
      exact hrow
  | tuple h | tupleAsList h => exact hrow
  | structAsTuple h | struct h =>
    rw [Ty.fixedSize, Ty.sizeOfFields_eq]
    exact hrow

end

/-! ## Values -/

theorem length_dynamicBytes (vs : List Value) :
    (Sequence.dynamicBytes vs).flatten.length =
      (vs.map fun v => if v.ty.isDynamic then v.bytes.length else 0).sum := by
  induction vs with
  | nil => rfl
  | cons v vs ih =>
    rw [List.map_cons, List.sum_cons]
    cases hd : v.ty.isDynamic with
    | true =>
      rw [Sequence.dynamicBytes_cons_of_dynamic hd, List.flatten_cons, List.length_append, ih,
        if_pos rfl]
    | false =>
      rw [Sequence.dynamicBytes_cons_of_static hd, ih, if_neg (by decide), Nat.zero_add]

/-- The size of a row is the length of the sequence of its values. -/
theorem rowSize_of_values {vs : List Value} (h : ∀ v ∈ vs, v.Sized) :
    rowSize (vs.map fun v => (v.ty, v.bytes.length)) =
      Sequence.headLength vs + (Sequence.dynamicBytes vs).flatten.length := by
  have hslots : (vs.map fun v => slotOf v.ty v.bytes.length) = vs.map (·.ty.slot) := by
    refine List.map_congr_left fun v hv => ?_
    unfold slotOf Ty.slot
    cases hd : v.ty.isDynamic with
    | true => rfl
    | false => rw [h v hv hd]
  unfold rowSize Sequence.headLength
  rw [length_dynamicBytes, List.map_map, List.map_map]
  exact congrArg (headWidth · + _) hslots

end Abi.Host
