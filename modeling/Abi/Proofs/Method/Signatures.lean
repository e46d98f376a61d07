/-
  A signature can be read in one way only.

  Nothing separates the name of a method from the parenthesis behind it, and nothing separates the
  parenthesis that closes the arguments from the type behind that; types have parentheses and commas
  of their own. But the name of a type closes what it opens, so that the parenthesis that closes the
  arguments is the first one that closes what no type has opened (`splitCommas_closed`).

  * `closed_unique`: the arguments and what stands behind them can be told apart.
  * `nameChars_ne_void`: no type is named as the absence of a return type is.
  * `signature_unambiguous`: methods with one signature are the same, and other methods share a
    selector only if the digests of two messages begin alike.
-/
import Abi.Method
import Abi.Proofs.Ty.Names

namespace Abi

namespace Ty

/-! ## The closing parenthesis -/

/-- Behind complete parts, a parenthesis closes one that is not open. -/
theorem splitCommas_closed {ns : List (List Char)} (h : ∀ n ∈ ns, Passes 0 n) (rest : List Char) :
    splitCommas 0 ([','].intercalate ns ++ ')' :: rest) = none := by
  have hclose : splitCommas 0 (')' :: rest) = none := by
    rw [splitCommas, if_neg (by simp)]
    rfl
  induction ns with
  | nil => exact hclose
  | cons n ns ih =>
    rw [List.forall_mem_cons] at h
    cases ns with
    | nil => rw [List.intercalate_singleton, h.1, hclose, Option.map_none]
    | cons m ns =>
      have hcomma : splitCommas 0 (',' :: ([','].intercalate (m :: ns) ++ ')' :: rest)) = none := by
        rw [splitCommas, if_pos ⟨rfl, rfl⟩, ih h.2, Option.map_none]
      rw [List.intercalate_cons_cons, List.append_assoc, List.append_assoc, h.1,
        List.singleton_append, hcomma, Option.map_none]

/-- The names of several types, joined with commas, have no such parenthesis. -/
theorem exists_splitCommas_names (ts : List Ty) :
    ∃ ps, splitCommas 0 ([','].intercalate (ts.map nameChars)) = some ps := by
  cases ts with
  | nil => exact ⟨_, rfl⟩
  | cons t ts =>
    exact ⟨_, splitCommas_intercalate (List.cons_ne_nil _ _)
      (List.forall_mem_map.2 fun t _ => passes_nameChars t 0)⟩

/-- What closes the names of some types does not stand inside the names of others. -/
theorem eq_nil_of_closed {ss ts : List Ty} {cs behind behind' : List Char}
    (h : [','].intercalate (ts.map nameChars) = [','].intercalate (ss.map nameChars) ++ cs)
    (hclose : ')' :: behind = cs ++ ')' :: behind') : cs = [] := by
  cases cs with
  | nil => rfl
  | cons c cs =>
    obtain ⟨rfl, -⟩ := List.cons.inj hclose
    obtain ⟨ps, hps⟩ := exists_splitCommas_names ts
    rw [h, splitCommas_closed (List.forall_mem_map.2 fun s _ => passes_nameChars s 0)] at hps
    cases hps

/-- The names of several types in parentheses are cut from what stands behind in one way. -/
theorem closed_unique {ss ts : List Ty} {behind behind' : List Char}
    (h : [','].intercalate (ss.map nameChars) ++ ')' :: behind =
      [','].intercalate (ts.map nameChars) ++ ')' :: behind') :
    ss.map nameChars = ts.map nameChars ∧ behind = behind' := by
  -- one list of names is a front of the other, and nothing of the other can follow it
  rcases List.append_eq_append_iff.1 h with ⟨cs, hcs, hclose⟩ | ⟨cs, hcs, hclose⟩
  · obtain rfl := eq_nil_of_closed hcs hclose
    rw [List.append_nil] at hcs
    exact ⟨map_nameChars_eq hcs.symm, (List.cons.inj hclose).2⟩
  · obtain rfl := eq_nil_of_closed hcs hclose
    rw [List.append_nil] at hcs
    exact ⟨map_nameChars_eq hcs, (List.cons.inj hclose).2.symm⟩

/-! ## Return types -/

theorem nameChars_ne_void (t : Ty) : t.nameChars ≠ "void".toList := by
  intro h
  -- the word ends in a letter, and no keyword begins as it does
  have hform : t.nameForm = .plain := by
    rw [← formOf_nameChars, h]
    rfl
  cases t <;> simp only [nameForm, reduceCtorEq] at hform
  all_goals cases h

theorem forall₂_same_iff {ss ts : List Ty} :
    List.Forall₂ Same ss ts ↔ ss.map nameChars = ts.map nameChars := by
  rw [← List.forall₂_eq_eq_eq, List.forall₂_map_left_iff, List.forall₂_map_right_iff]
  exact ⟨List.Forall₂.imp fun _ _ => same_iff.1, List.Forall₂.imp fun _ _ => same_iff.2⟩

end Ty

namespace Method

/-- What stands behind the arguments of a method. -/
def returnChars (returns : Option Ty) : List Char := (returns.map Ty.nameChars).getD "void".toList

theorem returnChars_eq_iff {r s : Option Ty} :
    returnChars r = returnChars s ↔ Option.Rel Ty.Same r s := by
  constructor
  · intro h
    cases r with
    | none =>
      cases s with
      | none => exact .none
      | some t => exact absurd h.symm t.nameChars_ne_void
    | some t =>
      cases s with
      | none => exact absurd h t.nameChars_ne_void
      | some u => exact .some (Ty.same_iff.2 h)
  · intro h
    cases h with
    | some h => exact Ty.same_iff.1 h
    | none => rfl

/-! ## Signatures -/

theorem toList_signature (name : String) (arguments : List Ty) (returns : Option Ty) :
    (signature name arguments returns).toList = name.toList ++
      '(' :: ([','].intercalate (arguments.map Ty.nameChars) ++ ')' :: returnChars returns) := by
  have hbetween : (",".intercalate (arguments.map Ty.name)).toList =
      [','].intercalate (arguments.map Ty.nameChars) := by
    rw [String.toList_intercalate, List.map_map]
    exact congrArg (List.intercalate _) (List.map_congr_left fun t _ => String.toList_ofList)
  have hbehind : ((returns.map Ty.name).getD "void").toList = returnChars returns := by
    cases returns with
    | none => rfl
    | some t => exact String.toList_ofList
  have htext : signature name arguments returns = name ++ "(" ++
      ",".intercalate (arguments.map Ty.name) ++ ")" ++ (returns.map Ty.name).getD "void" := rfl
  rw [htext, String.toList_append, String.toList_append, String.toList_append, String.toList_append,
    hbetween, hbehind]
  simp only [String.reduceToList, List.append_assoc, List.cons_append, List.nil_append]

/-- Two methods have one name and agree in every argument and in what they return, up to structs
that are tuples by another name. -/
structure Same (m n : String) (as bs : List Ty) (r s : Option Ty) : Prop where
  name : m = n
  arguments : List.Forall₂ Ty.Same as bs
  returns : Option.Rel Ty.Same r s

variable {m n : String} {as bs : List Ty} {r s : Option Ty}

theorem signature_eq_of_same (h : Same m n as bs r s) : signature m as r = signature n bs s := by
  rw [← String.toList_inj, toList_signature, toList_signature, h.name,
    Ty.forall₂_same_iff.1 h.arguments, returnChars_eq_iff.2 h.returns]

/-- A name without an opening parenthesis ends where the arguments begin. -/
theorem same_of_signature_eq (hm : '(' ∉ m.toList) (hn : '(' ∉ n.toList)
    (h : signature m as r = signature n bs s) : Same m n as bs r s := by
  rw [← String.toList_inj, toList_signature, toList_signature] at h
  have hcut := Ty.splitOnce?_append hm
    ([','].intercalate (as.map Ty.nameChars) ++ ')' :: returnChars r)
  rw [h, Ty.splitOnce?_append hn, Option.some.injEq, Prod.mk.injEq] at hcut
  obtain ⟨hname, hclosed⟩ := hcut
  obtain ⟨harguments, hreturns⟩ := Ty.closed_unique hclosed
  exact ⟨(String.toList_inj.1 hname).symm, Ty.forall₂_same_iff.2 harguments.symm,
    returnChars_eq_iff.1 hreturns.symm⟩

/-! ## Selectors -/

/-- Two different messages whose digests begin with the same bytes, as many as a selector has. -/
def Collide (x y : Bytes) : Prop :=
  x ≠ y ∧ (Digest.ofMessage x).bytes.take Limits.selectorBytes =
    (Digest.ofMessage y).bytes.take Limits.selectorBytes

/-- Methods with one signature are the same. Methods with one selector are the same too, or their
signatures are two messages whose digests begin alike. -/
theorem signature_unambiguous (m n : String) (as bs : List Ty) (r s : Option Ty)
    (hm : '(' ∉ m.toList) (hn : '(' ∉ n.toList) :
    (signature m as r = signature n bs s ↔ Same m n as bs r s) ∧
      (selector (signature m as r) = selector (signature n bs s) → Same m n as bs r s ∨
        Collide (Utf8.encode (signature m as r)) (Utf8.encode (signature n bs s))) := by
  refine ⟨⟨same_of_signature_eq hm hn, signature_eq_of_same⟩, fun hselector => ?_⟩
  by_cases h : signature m as r = signature n bs s
  · exact Or.inl (same_of_signature_eq hm hn h)
  · exact Or.inr ⟨Utf8.encode_injective.ne h, hselector⟩

/-- A method that takes a struct is the one that takes the tuple of its fields. A method that takes
no argument and returns the empty tuple is another one than a method that takes the empty tuple and
returns nothing, although the two signatures differ only behind their first parentheses. -/
theorem signature_unambiguous_nested :
    let pair : Ty := .tuple [.uint 64, .list (.tuple [])]
    let point : Ty := .struct "Point" [("x", .uint 64), ("marks", .list (.tuple []))] true
    '(' ∉ "swap".toList ∧
      Same "swap" "swap" [pair, .bool] [point, .bool] (some point) (some pair) ∧
      signature "swap" [] (some (.tuple [])) ≠ signature "swap" [.tuple []] none := by
  intro pair point
  have hname : '(' ∉ "swap".toList := by decide
  have hpair : signature "swap" [pair, .bool] (some point) =
      signature "swap" [point, .bool] (some pair) := rfl
  refine ⟨hname, (signature_unambiguous _ _ _ _ _ _ hname hname).1.1 hpair, fun h => ?_⟩
  have hsame := (signature_unambiguous _ _ _ _ _ _ hname hname).1.1 h
  cases hsame.arguments

end Method

end Abi
