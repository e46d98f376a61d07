/-
  What can be read off a name: the form of the type and the names of its parts.

  * `formOf_nameChars`: the ends of a name show how the type is built.
  * `splitTuple_intercalate_names`: the names of a tuple's items are found again between its
    parentheses, since no name has a comma outside of parentheses and every name closes what it
    opens (`passes_nameChars`).
  * `same_iff_asTuples`: two types have one name exactly if they are equal up to structs. Such
    types take the same room (`Same.slot_eq`).
-/
import Abi.Proofs.Ty.Components
import Abi.Ty.Parser

namespace Abi.Ty

/-! ## Characters of names -/

/-- A character that means something to the splitting at commas. -/
def IsMark (c : Char) : Prop := c = ',' ∨ c = '(' ∨ c = ')'

instance (c : Char) : Decidable (IsMark c) := inferInstanceAs (Decidable (_ ∨ _ ∨ _))

theorem ne_of_isDigit {c d : Char} (hc : c.isDigit = true) (hd : d.isDigit = false) : c ≠ d := by
  rintro rfl
  rw [hc] at hd
  cases hd

/-- A character that is no digit does not occur in a number. -/
theorem not_mem_write {c : Char} (hc : c.isDigit = false) (n : Nat) : c ∉ Decimal.write n := by
  intro h
  exact ne_of_isDigit (List.all_eq_true.1 (Decimal.allDigits_write n) c h) hc rfl

theorem not_isMark_of_mem_write {c : Char} {n : Nat} (h : c ∈ Decimal.write n) : ¬ IsMark c := by
  have hd : c.isDigit = true := List.all_eq_true.1 (Decimal.allDigits_write n) c h
  intro h
  rcases h with rfl | rfl | rfl
  · cases hd
  · cases hd
  · cases hd

theorem nameChars_ne_nil (t : Ty) : t.nameChars ≠ [] := by
  cases t <;> simp [nameChars, parenthesized, Keyword.uint, Keyword.byte, Keyword.bool,
    Keyword.ufixed, Keyword.address, Keyword.string]

theorem nameChars_tuple (items : List Ty) :
    (tuple items).nameChars = '(' :: ([','].intercalate (items.map nameChars) ++ [')']) := by
  rw [nameChars, parenthesized, namesChars_eq_map]

theorem nameChars_struct (name : String) (fields : List (String × Ty)) (frozen : Bool) :
    (struct name fields frozen).nameChars =
      '(' :: ([','].intercalate (fields.map (·.2.nameChars)) ++ [')']) := by
  rw [same_iff.1 (struct_same_tuple name fields frozen), nameChars_tuple, List.map_map]
  rfl

/-! ## Forms -/

theorem formOf_list (item : List Char) : formOf (item ++ ['[', ']']) = .list item := by
  unfold formOf
  simp

theorem formOf_array (item : List Char) {size : List Char} (hne : size ≠ []) (ho : '[' ∉ size) :
    formOf (item ++ '[' :: (size ++ [']'])) = .array item size := by
  have hr : (item ++ '[' :: (size ++ [']'])).reverse =
      ']' :: (size.reverse ++ '[' :: item.reverse) := by simp
  have hp : ∀ c ∈ size.reverse, decide (c ≠ '[') = true := by
    intro c hc
    simp only [decide_eq_true_eq]
    rintro rfl
    exact ho (List.mem_reverse.1 hc)
  have hd : (size.reverse ++ '[' :: item.reverse).dropWhile (· ≠ '[') = '[' :: item.reverse := by
    rw [List.dropWhile_append_of_pos hp]
    simp
  have ht : (size.reverse ++ '[' :: item.reverse).takeWhile (· ≠ '[') = size.reverse := by
    rw [List.takeWhile_append_of_pos hp]
    simp
  unfold formOf
  rw [hr]
  split
  · rename_i rest he
    -- the size would start with the bracket that opens it
    obtain ⟨c, cs, hs⟩ := List.exists_cons_of_ne_nil (mt List.reverse_eq_nil_iff.1 hne)
    rw [hs] at he
    cases he
    exact absurd (hp '[' (hs ▸ List.mem_cons_self ..)) (by decide)
  · rename_i body _ he
    cases he
    rw [hd, ht]
    simp
  · rename_i he
    cases he
  · rename_i h _
    exact absurd rfl (h _)

theorem formOf_tuple (body : List Char) : formOf ('(' :: (body ++ [')'])) = .tuple body := by
  have hr : ('(' :: (body ++ [')'])).reverse = ')' :: (body.reverse ++ ['(']) := by simp
  have hb : (body.reverse ++ ['(']).reverse = '(' :: body := by simp
  unfold formOf
  rw [hr]
  simp only [hb]

/-- A text that does not end in a bracket or a parenthesis has no other form. -/
theorem formOf_plain {s : List Char} {c : Char} (hb : c ≠ ']') (hp : c ≠ ')') :
    formOf (s ++ [c]) = .plain := by
  unfold formOf
  rw [List.reverse_append, List.reverse_singleton, List.singleton_append]
  split
  · rename_i he
    exact absurd (List.cons.inj he).1 hb
  · rename_i he
    exact absurd (List.cons.inj he).1 hb
  · rename_i he
    exact absurd (List.cons.inj he).1 hp
  · rfl

/-- A text that ends in a number has no other form. -/
theorem formOf_append_write (s : List Char) (n : Nat) :
    formOf (s ++ Decimal.write n) = .plain := by
  obtain ⟨cs, c, hc⟩ := List.eq_nil_or_concat (Decimal.write n) |>.resolve_left
    (Decimal.write_ne_nil n)
  rw [List.concat_eq_append] at hc
  have hd : c.isDigit = true := by
    apply List.all_eq_true.1 (Decimal.allDigits_write n) c
    rw [hc]
    simp
  rw [hc, ← List.append_assoc]
  exact formOf_plain (ne_of_isDigit hd (by decide)) (ne_of_isDigit hd (by decide))

/-- How the name of a type is built. -/
def nameForm : Ty → Form
  | .array item size => .array item.nameChars (Decimal.write size)
  | .list item => .list item.nameChars
  | .tuple items => .tuple ([','].intercalate (items.map nameChars))
  | .struct _ fields _ => .tuple ([','].intercalate (fields.map (·.2.nameChars)))
  | .uint _ | .byte | .bool | .ufixed _ _ | .address | .string => .plain

/-- The form of a name shows how the type is built. -/
theorem formOf_nameChars (t : Ty) : formOf t.nameChars = t.nameForm := by
  cases t with
  | array item size =>
    exact formOf_array _ (Decimal.write_ne_nil size) (not_mem_write (by decide) size)
  | list item => exact formOf_list _
  | tuple items => rw [nameChars_tuple]; exact formOf_tuple _
  | struct name fields frozen => rw [nameChars_struct]; exact formOf_tuple _
  | uint width => exact formOf_append_write _ _
  | ufixed width precision =>
    rw [nameChars, List.append_cons]
    exact formOf_append_write _ _
  | byte => rfl
  | bool => rfl
  | address => rfl
  | string => rfl

/-! ## Splitting at commas -/

/-- Puts a text in front of the first part. -/
def prepend (cs : List Char) (ps : List (List Char)) : List (List Char) :=
  cs.foldr extendFirst ps

theorem prepend_cons (cs p : List Char) (ps : List (List Char)) :
    prepend cs (p :: ps) = (cs ++ p) :: ps := by
  induction cs with
  | nil => rfl
  | cons c cs ih =>
    show extendFirst c (prepend cs (p :: ps)) = _
    rw [ih]
    rfl

/-- The splitting passes over the text: no comma in it counts, and it closes what it opens. -/
def Passes (depth : Nat) (cs : List Char) : Prop :=
  ∀ rest, splitCommas depth (cs ++ rest) = (splitCommas depth rest).map (prepend cs)

theorem passes_nil (depth : Nat) : Passes depth [] := fun rest => by
  show splitCommas depth rest = (splitCommas depth rest).map id
  rw [Option.map_id_fun, id]

theorem Passes.append {depth : Nat} {cs ds : List Char} (hc : Passes depth cs)
    (hd : Passes depth ds) : Passes depth (cs ++ ds) := by
  intro rest
  rw [List.append_assoc, hc, hd, Option.map_map]
  congr 1
  funext ps
  exact (List.foldr_append ..).symm

theorem passes_of_not_isMark {depth : Nat} {cs : List Char} (h : ∀ c ∈ cs, ¬ IsMark c) :
    Passes depth cs := by
  induction cs with
  | nil => exact passes_nil depth
  | cons c cs ih =>
    intro rest
    have hc := h c (List.mem_cons_self ..)
    simp only [IsMark, not_or] at hc
    have hd : depthAfter c depth = some depth := by
      rw [depthAfter, if_neg hc.2.1, if_neg hc.2.2]
    rw [List.cons_append, splitCommas, if_neg (fun hm => hc.1 hm.1), hd]
    show (splitCommas depth (cs ++ rest)).map (extendFirst c) = _
    rw [ih (fun d hd => h d (List.mem_cons_of_mem c hd)), Option.map_map]
    rfl

/-- The same for characters that are known. -/
theorem passes_of_all {depth : Nat} {cs : List Char} (h : cs.all (¬ IsMark ·) = true) :
    Passes depth cs :=
  passes_of_not_isMark fun c hc => by simpa using List.all_eq_true.1 h c hc

/-- A comma between parentheses does not count. -/
theorem passes_comma (depth : Nat) : Passes (depth + 1) [','] := by
  intro rest
  show splitCommas (depth + 1) (',' :: rest) = _
  rw [splitCommas, if_neg (by simp)]
  rfl

theorem passes_parenthesized {depth : Nat} {body : List Char} (h : Passes (depth + 1) body) :
    Passes depth ('(' :: (body ++ [')'])) := by
  intro rest
  have hclose : splitCommas (depth + 1) (')' :: rest) =
      (splitCommas depth rest).map (prepend [')']) := by
    rw [splitCommas, if_neg (by simp)]
    rfl
  rw [List.cons_append, splitCommas, if_neg (by simp)]
  show (splitCommas (depth + 1) (body ++ [')'] ++ rest)).map (extendFirst '(') = _
  rw [List.append_assoc, h, List.singleton_append, hclose, Option.map_map, Option.map_map]
  congr 1
  funext ps
  exact congrArg (extendFirst '(') (List.foldr_append ..).symm

theorem passes_intercalate {depth : Nat} {ns : List (List Char)}
    (h : ∀ n ∈ ns, Passes (depth + 1) n) : Passes (depth + 1) ([','].intercalate ns) := by
  induction ns with
  | nil => exact passes_nil _
  | cons n ns ih =>
    have hn := h n (List.mem_cons_self ..)
    have ih := ih fun m hm => h m (List.mem_cons_of_mem n hm)
    cases ns with
    | nil => rw [List.intercalate_singleton]; exact hn
    | cons m ns =>
      rw [List.intercalate_cons_cons]
      exact (hn.append (passes_comma depth)).append ih

/-- The splitting passes over every name. -/
theorem passes_nameChars (t : Ty) (depth : Nat) : Passes depth t.nameChars := by
  induction t using Ty.induction generalizing depth with
  | array item size ih =>
    refine (ih depth).append (passes_of_not_isMark fun c hc => ?_)
    simp only [List.mem_cons, List.mem_append, List.not_mem_nil, or_false] at hc
    rcases hc with rfl | hc | rfl
    · decide
    · exact not_isMark_of_mem_write hc
    · decide
  | list item ih => exact (ih depth).append (passes_of_all rfl)
  | tuple items ih =>
    rw [nameChars_tuple]
    refine passes_parenthesized (passes_intercalate ?_)
    exact List.forall_mem_map.2 fun t ht => ih t ht _
  | struct name fields frozen ih =>
    rw [nameChars_struct]
    refine passes_parenthesized (passes_intercalate ?_)
    exact List.forall_mem_map.2 fun f hf => ih f hf _
  | uint width =>
    refine (passes_of_all rfl).append (passes_of_not_isMark fun c hc => ?_)
    exact not_isMark_of_mem_write hc
  | ufixed width precision =>
    refine ((passes_of_all rfl).append (passes_of_not_isMark fun c hc => ?_)).append
      (passes_of_not_isMark fun c hc => ?_)
    · exact not_isMark_of_mem_write hc
    · rcases List.mem_cons.1 hc with rfl | hc
      · decide
      · exact not_isMark_of_mem_write hc
  | byte => exact passes_of_all rfl
  | bool => exact passes_of_all rfl
  | address => exact passes_of_all rfl
  | string => exact passes_of_all rfl

theorem splitCommas_intercalate {ns : List (List Char)} (hne : ns ≠ [])
    (h : ∀ n ∈ ns, Passes 0 n) : splitCommas 0 ([','].intercalate ns) = some ns := by
  induction ns with
  | nil => exact absurd rfl hne
  | cons n ns ih =>
    have hn := h n (List.mem_cons_self ..)
    cases ns with
    | nil =>
      have := hn []
      rw [List.append_nil] at this
      rw [List.intercalate_singleton, this]
      show some (prepend n [[]]) = _
      rw [prepend_cons, List.append_nil]
    | cons m ns =>
      have ih := ih (List.cons_ne_nil m ns) fun k hk => h k (List.mem_cons_of_mem n hk)
      rw [List.intercalate_cons_cons, List.append_assoc, hn, List.singleton_append, splitCommas,
        if_pos ⟨rfl, rfl⟩, ih]
      show some (prepend n ([] :: m :: ns)) = _
      rw [prepend_cons, List.append_nil]

/-- Joined parts are found again if the splitting passes over each and none is empty. -/
theorem splitTuple_intercalate {ns : List (List Char)} (hn : ∀ n ∈ ns, n ≠ [])
    (h : ∀ n ∈ ns, Passes 0 n) : splitTuple ([','].intercalate ns) = some ns := by
  unfold splitTuple
  cases ns with
  | nil => rfl
  | cons n ns =>
    have hne : [','].intercalate (n :: ns) ≠ [] := by
      cases ns with
      | nil =>
        rw [List.intercalate_singleton]
        exact hn n (List.mem_cons_self ..)
      | cons m ns => simp [List.intercalate_cons_cons]
    rw [if_neg hne]
    exact splitCommas_intercalate (List.cons_ne_nil n ns) h

/-- The names of several types, joined with commas, are found again. -/
theorem splitTuple_intercalate_names (ts : List Ty) :
    splitTuple ([','].intercalate (ts.map nameChars)) = some (ts.map nameChars) :=
  splitTuple_intercalate (List.forall_mem_map.2 fun t _ => nameChars_ne_nil t)
    (List.forall_mem_map.2 fun t _ => passes_nameChars t 0)

/-! ## Types with one name -/

/-- A text is cut at the first place where the character stands. -/
theorem splitOnce?_append {c : Char} {front : List Char} (h : c ∉ front) (rest : List Char) :
    splitOnce? c (front ++ c :: rest) = some (front, rest) := by
  have hp : ∀ d ∈ front, decide (d ≠ c) = true := by
    intro d hd
    simp only [decide_eq_true_eq]
    rintro rfl
    exact h hd
  unfold splitOnce?
  rw [List.dropWhile_append_of_pos hp, List.takeWhile_append_of_pos hp]
  simp

theorem ufixed_parts_eq {w p w' p' : Nat}
    (h : Decimal.write w ++ 'x' :: Decimal.write p = Decimal.write w' ++ 'x' :: Decimal.write p') :
    w = w' ∧ p = p' := by
  have h1 := splitOnce?_append (not_mem_write (c := 'x') (by decide) w) (Decimal.write p)
  have h2 := splitOnce?_append (not_mem_write (c := 'x') (by decide) w') (Decimal.write p')
  rw [h, h2] at h1
  simp only [Option.some.injEq, Prod.mk.injEq] at h1
  exact ⟨(Decimal.write_injective h1.1).symm, (Decimal.write_injective h1.2).symm⟩

theorem map_asTuples_eq {ss ts : List Ty}
    (ih : ∀ s ∈ ss, ∀ t : Ty, s.nameChars = t.nameChars → s.asTuples = t.asTuples)
    (h : ss.map nameChars = ts.map nameChars) : ss.map asTuples = ts.map asTuples := by
  induction ss generalizing ts with
  | nil =>
    cases ts with
    | nil => rfl
    | cons t ts => cases h
  | cons s ss ihs =>
    cases ts with
    | nil => cases h
    | cons t ts =>
      obtain ⟨hs, hss⟩ := List.cons.inj h
      rw [List.map_cons, List.map_cons, ih s (List.mem_cons_self ..) t hs,
        ihs (fun u hu => ih u (List.mem_cons_of_mem s hu)) hss]

theorem map_nameChars_eq {ss ts : List Ty}
    (h : [','].intercalate (ss.map nameChars) = [','].intercalate (ts.map nameChars)) :
    ss.map nameChars = ts.map nameChars := by
  have hs := splitTuple_intercalate_names ss
  rw [h, splitTuple_intercalate_names ts] at hs
  exact (Option.some.inj hs).symm

/-- The name of a type that is not made of others says everything about it. -/
theorem eq_of_nameForm_plain {s t : Ty} (hs : s.nameForm = .plain) (ht : t.nameForm = .plain)
    (h : s.nameChars = t.nameChars) : s = t := by
  cases s <;> cases t <;> simp only [nameForm, reduceCtorEq] at hs ht <;>
    simp [nameChars, Keyword.uint, Keyword.byte, Keyword.bool, Keyword.ufixed, Keyword.address,
      Keyword.string] at h ⊢
  · exact Decimal.write_injective h
  · exact ufixed_parts_eq h

theorem nameForm_eq_of_nameChars_eq {s t : Ty} (h : s.nameChars = t.nameChars) :
    s.nameForm = t.nameForm := by
  rw [← formOf_nameChars, h, formOf_nameChars]

/-- Tuples and structs alike are named after the list of their items. -/
theorem exists_items_of_nameForm {t : Ty} {body : List Char} (h : t.nameForm = .tuple body) :
    ∃ ts : List Ty, t.asTuples = tuple (ts.map asTuples) ∧
      body = [','].intercalate (ts.map nameChars) := by
  cases t <;> simp only [nameForm, reduceCtorEq, Form.tuple.injEq] at h
  case tuple items => exact ⟨items, asTuples_tuple items, h.symm⟩
  case struct name fields frozen =>
    refine ⟨fields.map (·.2), ?_, ?_⟩
    · rw [asTuples_struct, List.map_map]
      rfl
    · rw [← h, List.map_map]
      rfl

/-- Types with one name are equal up to structs. -/
theorem asTuples_eq_of_nameChars_eq (s t : Ty) (h : s.nameChars = t.nameChars) :
    s.asTuples = t.asTuples := by
  have hf := nameForm_eq_of_nameChars_eq h
  induction s using Ty.induction generalizing t with
  | array item size ih =>
    cases t <;> simp only [nameForm, reduceCtorEq, Form.array.injEq] at hf
    rw [asTuples, asTuples, ih _ hf.1 (nameForm_eq_of_nameChars_eq hf.1),
      Decimal.write_injective hf.2]
  | list item ih =>
    cases t <;> simp only [nameForm, reduceCtorEq, Form.list.injEq] at hf
    rw [asTuples, asTuples, ih _ hf (nameForm_eq_of_nameChars_eq hf)]
  | tuple items ih =>
    obtain ⟨ts, ht, hb⟩ := exists_items_of_nameForm hf.symm
    rw [asTuples_tuple, ht]
    exact congrArg tuple (map_asTuples_eq
      (fun s hs t h => ih s hs t h (nameForm_eq_of_nameChars_eq h)) (map_nameChars_eq hb))
  | struct name fields frozen ih =>
    obtain ⟨ts, ht, hb⟩ := exists_items_of_nameForm hf.symm
    have hm : fields.map (·.2.nameChars) = (fields.map (·.2)).map nameChars := by
      rw [List.map_map]
      rfl
    have ih : ∀ s ∈ fields.map (·.2), ∀ t : Ty,
        s.nameChars = t.nameChars → s.asTuples = t.asTuples :=
      List.forall_mem_map.2 fun f hf t h => ih f hf t h (nameForm_eq_of_nameChars_eq h)
    rw [hm] at hb
    rw [asTuples_struct, ht, ← map_asTuples_eq ih (map_nameChars_eq hb), List.map_map]
    rfl
  | _ =>
    cases t <;> simp only [nameForm, reduceCtorEq] at hf
    all_goals exact congrArg asTuples (eq_of_nameForm_plain rfl rfl h)

theorem nameChars_asTuples (t : Ty) : t.asTuples.nameChars = t.nameChars := by
  induction t using Ty.induction with
  | array item size ih => rw [asTuples, nameChars, nameChars, ih]
  | list item ih => rw [asTuples, nameChars, nameChars, ih]
  | tuple items ih =>
    rw [asTuples_tuple, nameChars_tuple, nameChars_tuple, List.map_map]
    exact congrArg (fun ns => '(' :: ([','].intercalate ns ++ [')'])) (List.map_congr_left ih)
  | struct name fields frozen ih =>
    rw [asTuples_struct, nameChars_tuple, nameChars_struct, List.map_map]
    exact congrArg (fun ns => '(' :: ([','].intercalate ns ++ [')'])) (List.map_congr_left ih)
  | _ => rfl

/-- Two types have one name exactly if they are equal up to structs. -/
theorem same_iff_asTuples {s t : Ty} : s.Same t ↔ s.asTuples = t.asTuples := by
  rw [same_iff]
  constructor
  · exact asTuples_eq_of_nameChars_eq s t
  · intro h
    rw [← nameChars_asTuples s, h, nameChars_asTuples t]

/-- Arrays of any length have one name exactly if their items have. -/
theorem same_list_iff {s t : Ty} : (Ty.list s).Same (.list t) ↔ s.Same t := by
  rw [same_iff, same_iff, nameChars, nameChars, List.append_left_inj]

/-- Types with one name take the same room in the head of their parent. -/
theorem Same.slot_eq {s t : Ty} (h : s.Same t) : s.slot = t.slot := by
  rw [← slot_asTuples s, same_iff_asTuples.1 h, slot_asTuples t]

end Abi.Ty
