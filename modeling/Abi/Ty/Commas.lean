/-
  Splitting the body of a tuple's name at its commas.

  Only commas outside of parentheses count.  `join_of_splitTuple`: the parts, joined with commas,
  are the body again.
-/

namespace Abi.Ty

/-- The number of open parentheses after a character; none if it closes one that is not open. -/
def depthAfter (c : Char) (depth : Nat) : Option Nat :=
  if c = '(' then some (depth + 1)
  else if c = ')' then (if depth = 0 then none else some (depth - 1))
  else some depth

/-- Puts a character in front of the first part. -/
def extendFirst (c : Char) : List (List Char) → List (List Char)
  | [] => [[c]]
  | p :: ps => (c :: p) :: ps

/-- Splits at each comma that no parenthesis encloses; `depth` are open before the text. Fails
if parentheses do not match. -/
def splitCommas (depth : Nat) : List Char → Option (List (List Char))
  | [] => if depth = 0 then some [[]] else none
  | c :: cs =>
    if c = ',' ∧ depth = 0 then (splitCommas 0 cs).map ([] :: ·)
    else
      match depthAfter c depth with
      | none => none
      | some depth => (splitCommas depth cs).map (extendFirst c)

/-- The parts of a tuple's body; an empty body has none. -/
def splitTuple (body : List Char) : Option (List (List Char)) :=
  if body = [] then some [] else splitCommas 0 body

/-! ## Joining the parts -/

theorem splitCommas_ne_nil {depth : Nat} {cs : List Char} {ps : List (List Char)}
    (h : splitCommas depth cs = some ps) : ps ≠ [] := by
  cases cs with
  | nil =>
    simp only [splitCommas] at h
    split at h
    · cases h; simp
    · cases h
  | cons c cs =>
    simp only [splitCommas] at h
    split at h
    · obtain ⟨qs, _, rfl⟩ := Option.map_eq_some_iff.1 h
      simp
    · split at h
      · cases h
      · obtain ⟨qs, _, rfl⟩ := Option.map_eq_some_iff.1 h
        cases qs <;> simp [extendFirst]

theorem intercalate_extendFirst (c : Char) {ps : List (List Char)} (h : ps ≠ []) :
    [','].intercalate (extendFirst c ps) = c :: [','].intercalate ps := by
  match ps, h with
  | [p], _ => simp [extendFirst, List.intercalate]
  | p :: q :: ps, _ => simp [extendFirst, List.intercalate, List.intersperse]

/-- Nothing of the text is lost. -/
theorem join_of_splitCommas {depth : Nat} {cs : List Char} {ps : List (List Char)}
    (h : splitCommas depth cs = some ps) : [','].intercalate ps = cs := by
  induction cs generalizing depth ps with
  | nil =>
    simp only [splitCommas] at h
    split at h
    · cases h; rfl
    · cases h
  | cons c cs ih =>
    simp only [splitCommas] at h
    split at h
    · rename_i hc
      obtain ⟨qs, hq, rfl⟩ := Option.map_eq_some_iff.1 h
      have hne := splitCommas_ne_nil hq
      have := ih hq
      match qs, hne with
      | q :: qs, _ =>
        rw [← this, hc.1]
        simp [List.intercalate, List.intersperse]
    · split at h
      · cases h
      · obtain ⟨qs, hq, rfl⟩ := Option.map_eq_some_iff.1 h
        rw [intercalate_extendFirst c (splitCommas_ne_nil hq), ih hq]

theorem join_of_splitTuple {body : List Char} {ps : List (List Char)}
    (h : splitTuple body = some ps) : [','].intercalate ps = body := by
  simp only [splitTuple] at h
  split at h
  · rename_i hb
    cases h
    rw [hb]
    rfl
  · exact join_of_splitCommas h

theorem length_le_of_mem_intercalate {p : List Char} {ps : List (List Char)} (h : p ∈ ps) :
    p.length ≤ ([','].intercalate ps).length := by
  induction ps with
  | nil => simp at h
  | cons q qs ih =>
    cases qs with
    | nil => simp at h; simp [h, List.intercalate]
    | cons r rs =>
      have e : [','].intercalate (q :: r :: rs) = q ++ ',' :: [','].intercalate (r :: rs) := by
        simp [List.intercalate, List.intersperse]
      rw [e, List.length_append, List.length_cons]
      rcases List.mem_cons.1 h with rfl | h
      · omega
      · have := ih h
        omega

/-- No part is longer than the body. -/
theorem length_le_of_mem_splitTuple {body p : List Char} {ps : List (List Char)}
    (h : splitTuple body = some ps) (hp : p ∈ ps) : p.length ≤ body.length := by
  rw [← join_of_splitTuple h]
  exact length_le_of_mem_intercalate hp

end Abi.Ty
