/-
  The body of a tuple's name is cut at the commas that no parentheses enclose.

  What the splitting does with one pass and a count of open parentheses is said here by counting in
  fronts of the text: parentheses match (`Balanced`) if no front closes more than it opens and the
  whole text closes all of them, and a comma is enclosed if more are open in front of it than closed
  (`Encloses`). A part does both (`IsPart`). With some parentheses open before the text, all three
  are read off one character after the other (`closes_cons`, `isPart_cons`), as the splitting is.

  * `splitCommas_isSome_iff`: texts are split exactly if their parentheses match.
  * `isPart_of_splitCommas`: the splitting leaves parts behind.
  * `IsPart.splitCommas_append`: it goes through every part as a whole, so that a text can be cut
    into parts in one way only.
  * `splits_at_outer_commas`: both together, for tuples and for the names of types.
-/
import Abi.Proofs.Ty.Parse

namespace Abi.Ty

/-! ## Matching parentheses -/

/-- With `depth` parentheses open before it, no front of the text closes one that is not open, and
the text closes all. -/
structure Closes (depth : Nat) (cs : List Char) : Prop where
  enough (front : List Char) : front <+: cs → front.count ')' ≤ depth + front.count '('
  total : cs.count ')' = depth + cs.count '('

/-- The parentheses of the text match. -/
def Balanced (cs : List Char) : Prop := Closes 0 cs

/-- With `depth` parentheses open before the text, some are open at every comma. -/
def Encloses (depth : Nat) (cs : List Char) : Prop :=
  ∀ front, front ++ [','] <+: cs → front.count ')' < depth + front.count '('

/-- A part, seen from a place in it where `depth` parentheses are open: the rest of it closes them
and has no comma where none is open. -/
structure IsPart (depth : Nat) (cs : List Char) : Prop where
  closes : Closes depth cs
  encloses : Encloses depth cs

section

variable {c : Char} {cs : List Char} {depth d : Nat}

/-! ## One character -/

theorem depthAfter_eq_some_iff :
    depthAfter c depth = some d ↔ d + [c].count ')' = depth + [c].count '(' := by
  by_cases hopen : c = '('
  · subst hopen
    show some (depth + 1) = some d ↔ d = depth + 1
    rw [Option.some.injEq, eq_comm]
  by_cases hclose : c = ')'
  · subst hclose
    show (if depth = 0 then none else some (depth - 1)) = some d ↔ d + 1 = depth
    split
    · exact iff_of_false nofun (by omega)
    · rw [Option.some.injEq]
      omega
  · have hcount {a : Char} (ha : c ≠ a) : [c].count a = 0 :=
      List.count_eq_zero.2 fun hmem => ha (List.mem_singleton.1 hmem).symm
    rw [depthAfter, if_neg hopen, if_neg hclose, hcount hopen, hcount hclose, Option.some.injEq,
      eq_comm, Nat.add_zero, Nat.add_zero]

theorem exists_depthAfter (h : [c].count ')' ≤ depth + [c].count '(') :
    ∃ d, depthAfter c depth = some d :=
  ⟨depth + [c].count '(' - [c].count ')', depthAfter_eq_some_iff.2 (by omega)⟩

/-- What is open behind a character and the rest of a text is the same whether one counts from in
front of the character or from behind it. -/
theorem count_cons_eq (hd : depthAfter c depth = some d) (cs : List Char) :
    (c :: cs).count ')' + (d + cs.count '(') = cs.count ')' + (depth + (c :: cs).count '(') := by
  have hcount := depthAfter_eq_some_iff.1 hd
  have happend (a : Char) : (c :: cs).count a = [c].count a + cs.count a := by
    rw [← List.count_append, List.singleton_append]
  rw [happend, happend]
  omega

theorem closes_nil : Closes depth [] ↔ depth = 0 := by
  constructor
  · intro h
    exact h.total.symm
  · rintro rfl
    refine ⟨fun front hf => ?_, rfl⟩
    rw [List.prefix_nil.1 hf]
    exact Nat.le_refl _

theorem closes_cons : Closes depth (c :: cs) ↔ ∃ d, depthAfter c depth = some d ∧ Closes d cs := by
  constructor
  · intro h
    obtain ⟨d, hd⟩ := exists_depthAfter (h.enough [c] (List.prefix_append [c] cs))
    refine ⟨d, hd, fun front hf => ?_, ?_⟩
    · have hfront := h.enough (c :: front) (List.cons_prefix_cons.2 ⟨rfl, hf⟩)
      have hcount := count_cons_eq hd front
      omega
    · have htotal := h.total
      have hcount := count_cons_eq hd cs
      omega
  · rintro ⟨d, hd, h⟩
    refine ⟨fun front hf => ?_, ?_⟩
    -- a front is empty or goes on behind the character
    · rcases List.prefix_cons_iff.1 hf with rfl | ⟨rest, rfl, hrest⟩
      · exact Nat.zero_le _
      · have hfront := h.enough rest hrest
        have hcount := count_cons_eq hd rest
        omega
    · have htotal := h.total
      have hcount := count_cons_eq hd cs
      omega

theorem encloses_nil : Encloses depth [] := by
  intro front hf
  exact absurd (List.prefix_nil.1 hf) (List.append_ne_nil_of_right_ne_nil _ (List.cons_ne_nil _ _))

theorem encloses_cons (hd : depthAfter c depth = some d) :
    Encloses depth (c :: cs) ↔ ¬ (c = ',' ∧ depth = 0) ∧ Encloses d cs := by
  constructor
  · intro h
    refine ⟨?_, fun front hf => ?_⟩
    · rintro ⟨rfl, rfl⟩
      exact Nat.lt_irrefl 0 (h [] (List.prefix_append [','] cs))
    · have hfront := h (c :: front) (List.cons_prefix_cons.2 ⟨rfl, hf⟩)
      have hcount := count_cons_eq hd front
      omega
  · rintro ⟨hc, h⟩ front hf
    cases front with
    | nil =>
      obtain ⟨rfl, -⟩ := List.cons_prefix_cons.1 hf
      exact Nat.pos_of_ne_zero fun hzero => hc ⟨rfl, hzero⟩
    | cons e front =>
      obtain ⟨rfl, hrest⟩ := List.cons_prefix_cons.1 hf
      have hfront := h front hrest
      have hcount := count_cons_eq hd front
      omega

theorem isPart_nil : IsPart depth [] ↔ depth = 0 :=
  ⟨fun h => closes_nil.1 h.closes, fun h => ⟨closes_nil.2 h, encloses_nil⟩⟩

theorem isPart_cons : IsPart depth (c :: cs) ↔
    ¬ (c = ',' ∧ depth = 0) ∧ ∃ d, depthAfter c depth = some d ∧ IsPart d cs := by
  constructor
  · intro h
    obtain ⟨d, hd, hcloses⟩ := closes_cons.1 h.closes
    obtain ⟨hc, hencloses⟩ := (encloses_cons hd).1 h.encloses
    exact ⟨hc, d, hd, hcloses, hencloses⟩
  · rintro ⟨hc, d, hd, h⟩
    exact ⟨closes_cons.2 ⟨d, hd, h.closes⟩, (encloses_cons hd).2 ⟨hc, h.encloses⟩⟩

/-! ## Splitting one character after the other -/

theorem splitCommas_comma (cs : List Char) :
    splitCommas 0 (',' :: cs) = (splitCommas 0 cs).map ([] :: ·) := by
  rw [splitCommas, if_pos ⟨rfl, rfl⟩]

theorem splitCommas_cons (hc : ¬ (c = ',' ∧ depth = 0)) (hd : depthAfter c depth = some d)
    (cs : List Char) : splitCommas depth (c :: cs) = (splitCommas d cs).map (extendFirst c) := by
  rw [splitCommas, if_neg hc, hd]

/-- A text is split exactly if its parentheses match. -/
theorem splitCommas_isSome_iff : (splitCommas depth cs).isSome ↔ Closes depth cs := by
  induction cs generalizing depth with
  | nil =>
    rw [closes_nil, splitCommas]
    split <;> simp [*]
  | cons c cs ih =>
    rw [closes_cons]
    by_cases hc : c = ',' ∧ depth = 0
    · obtain ⟨rfl, rfl⟩ := hc
      rw [splitCommas_comma, Option.isSome_map, ih]
      simp [depthAfter]
    · cases hd : depthAfter c depth with
      | none =>
        rw [splitCommas, if_neg hc, hd]
        simp
      | some d =>
        rw [splitCommas_cons hc hd, Option.isSome_map, ih]
        simp

/-- The splitting leaves parts behind, the first of which began in front of the text. -/
theorem isPart_of_splitCommas {ps : List (List Char)} (h : splitCommas depth cs = some ps) :
    ∃ p qs, ps = p :: qs ∧ IsPart depth p ∧ ∀ q ∈ qs, IsPart 0 q := by
  induction cs generalizing depth ps with
  | nil =>
    rw [splitCommas] at h
    split at h
    -- the text ends a part, if that has closed all
    · rename_i hzero
      cases h
      exact ⟨[], [], rfl, isPart_nil.2 hzero, by simp⟩
    · cases h
  | cons c cs ih =>
    by_cases hc : c = ',' ∧ depth = 0
    -- a comma ends the part in front of it, and the next one begins behind
    · obtain ⟨rfl, rfl⟩ := hc
      rw [splitCommas_comma] at h
      obtain ⟨rest, hrest, rfl⟩ := Option.map_eq_some_iff.1 h
      obtain ⟨p, qs, rfl, hp, hqs⟩ := ih hrest
      exact ⟨[], p :: qs, rfl, isPart_nil.2 rfl, List.forall_mem_cons.2 ⟨hp, hqs⟩⟩
    · have hcloses := splitCommas_isSome_iff.1 (Option.isSome_of_eq_some h)
      obtain ⟨d, hd, -⟩ := closes_cons.1 hcloses
      rw [splitCommas_cons hc hd] at h
      obtain ⟨rest, hrest, rfl⟩ := Option.map_eq_some_iff.1 h
      obtain ⟨p, qs, rfl, hp, hqs⟩ := ih hrest
      exact ⟨c :: p, qs, rfl, isPart_cons.2 ⟨hc, d, hd, hp⟩, hqs⟩

/-- The splitting goes through a part without leaving anything behind. -/
theorem IsPart.splitCommas_append (h : IsPart depth cs) (rest : List Char) :
    splitCommas depth (cs ++ rest) = (splitCommas 0 rest).map (prepend cs) := by
  induction cs generalizing depth with
  | nil =>
    obtain rfl := isPart_nil.1 h
    exact passes_nil 0 rest
  | cons c cs ih =>
    obtain ⟨hc, d, hd, h⟩ := isPart_cons.1 h
    rw [List.cons_append, splitCommas_cons hc hd, ih h, Option.map_map]
    rfl

/-- Parts are the texts that the splitting leaves in one piece. -/
theorem isPart_iff : IsPart depth cs ↔ splitCommas depth cs = some [cs] := by
  constructor
  · intro h
    have hsplit := h.splitCommas_append []
    rw [List.append_nil] at hsplit
    rw [hsplit]
    show some (prepend cs [[]]) = _
    rw [prepend_cons, List.append_nil]
  · intro h
    obtain ⟨p, qs, hps, hp, -⟩ := isPart_of_splitCommas h
    obtain ⟨rfl, -⟩ := List.cons.inj hps
    exact hp

end

instance (depth : Nat) (cs : List Char) : Decidable (IsPart depth cs) :=
  decidable_of_iff _ isPart_iff.symm

instance (cs : List Char) : Decidable (Balanced cs) := decidable_of_iff _ splitCommas_isSome_iff

/-! ## The body of a tuple -/

theorem splitTuple_isSome_iff (body : List Char) :
    (∃ ps, splitTuple body = some ps) ↔ Balanced body := by
  rw [← Option.isSome_iff_exists, splitTuple]
  split
  · rename_i hbody
    subst hbody
    exact iff_of_true rfl (closes_nil.2 rfl)
  · exact splitCommas_isSome_iff

theorem isPart_zero_iff {p : List Char} : IsPart 0 p ↔ Balanced p ∧ Encloses 0 p :=
  ⟨fun h => ⟨h.closes, h.encloses⟩, fun h => ⟨h.1, h.2⟩⟩

/-- A body is put together from its parts, and from no other texts that are like them. -/
theorem splitTuple_eq_some_iff {body : List Char} (hbody : body ≠ []) {ps : List (List Char)} :
    splitTuple body = some ps ↔ [','].intercalate ps = body ∧ ∀ p ∈ ps, IsPart 0 p := by
  constructor
  · intro h
    refine ⟨join_of_splitTuple h, ?_⟩
    rw [splitTuple, if_neg hbody] at h
    obtain ⟨p, qs, rfl, hp, hqs⟩ := isPart_of_splitCommas h
    exact List.forall_mem_cons.2 ⟨hp, hqs⟩
  · rintro ⟨rfl, hparts⟩
    have hps : ps ≠ [] := by
      rintro rfl
      exact hbody rfl
    rw [splitTuple, if_neg hbody]
    exact splitCommas_intercalate hps fun p hp => (hparts p hp).splitCommas_append

/-- A tuple whose parentheses do not match is refused, with the complaint that they do not. -/
theorem parse_of_not_balanced {body : List Char} (h : ¬ Balanced body) :
    parse (String.ofList ('(' :: (body ++ [')']))) =
      .error (.badType (.parentheses (String.ofList body))) := by
  have hnone : splitTuple body = none := by
    rw [← Option.not_isSome_iff_eq_none, Option.isSome_iff_exists, splitTuple_isSome_iff]
    exact h
  rw [parse, String.toList_ofList, parseChars_of_tuple (formOf_tuple body), hnone]

/-- The body of a tuple is split exactly if its parentheses match, and otherwise the tuple is
refused for them. The parts are those whose own parentheses match, which have commas only between
these, and which give back the body when they are joined with commas; no other list of texts is like
that. The empty body has no parts, and the names of several types are found again. -/
theorem splits_at_outer_commas :
    (∀ body : List Char, ((∃ ps, splitTuple body = some ps) ↔ Balanced body) ∧
      (¬ Balanced body → parse (String.ofList ('(' :: (body ++ [')']))) =
        .error (.badType (.parentheses (String.ofList body))))) ∧
    (∀ (body : List Char) (ps : List (List Char)), body ≠ [] → (splitTuple body = some ps ↔
      [','].intercalate ps = body ∧ ∀ p ∈ ps, Balanced p ∧ Encloses 0 p)) ∧
    splitTuple [] = some [] ∧
    ∀ ts : List Ty,
      splitTuple ([','].intercalate (ts.map nameChars)) = some (ts.map nameChars) := by
  refine ⟨fun body => ⟨splitTuple_isSome_iff body, parse_of_not_balanced⟩, fun body ps hbody => ?_,
    rfl, splitTuple_intercalate_names⟩
  simp only [splitTuple_eq_some_iff hbody, isPart_zero_iff]

/-- Parts with commas of their own, one of them no type's name, and an empty part between them. A
text that closes as many parentheses as it opens, but one of them too early, is not split. -/
theorem splits_at_outer_commas_nested :
    let parts := ["(uint64,bool)[2]".toList, [], "é(,)".toList]
    let body := "(uint64,bool)[2],,é(,)".toList
    body ≠ [] ∧ (∀ p ∈ parts, Balanced p ∧ Encloses 0 p) ∧ splitTuple body = some parts ∧
      Balanced body ∧ ¬ Balanced "a)(b".toList ∧
      parse "(a)(b)" = .error (.badType (.parentheses "a)(b")) := by
  intro parts body
  have hbody : body ≠ [] := by decide
  have hparts : ∀ p ∈ parts, IsPart 0 p := by decide
  simp only [isPart_zero_iff] at hparts
  have hsplit := (splits_at_outer_commas.2.1 body parts hbody).2 ⟨by decide, hparts⟩
  have hearly : ¬ Balanced "a)(b".toList := by decide
  refine ⟨hbody, hparts, hsplit, (splits_at_outer_commas.1 body).1.1 ⟨parts, hsplit⟩, hearly, ?_⟩
  exact (splits_at_outer_commas.1 "a)(b".toList).2 hearly

end Abi.Ty
