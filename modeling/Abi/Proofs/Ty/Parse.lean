/-
  A text is read as a type exactly if it is the name of that type.

  The types that are read back are those without structs and with parameters in range
  (`Readable`). One direction follows the recursion of the parser: whatever it accepts, it has
  taken apart as `nameChars` puts it together. The other follows the type: the form of its name
  (`formOf_nameChars`) sends the parser to the right case.

  * `parseChars_eq_ok_iff`: both directions, on characters.
  * `parse_inverts_name`: the same on texts, with what follows for structs and for the texts of
    one type.
-/
import Abi.Proofs.Outcome
import Abi.Proofs.Ty.Names
import Mathlib.Data.List.Basic

namespace Abi.Ty

/-! ## Types that are read back -/

/-- The parameters of the type itself are in range: widths and precisions are ones that the
format has, and a size can be told apart from larger ones. -/
def InRange : Ty → Prop
  | .uint width => IsWidth width
  | .ufixed width precision => IsWidth width ∧ IsPrecision precision
  | .array _ size => size ≤ Limits.size
  | .byte | .bool | .address | .list _ | .tuple _ | .struct _ _ _ | .string => True

instance : DecidablePred InRange
  | .uint width => inferInstanceAs (Decidable (IsWidth width))
  | .ufixed _ _ => inferInstanceAs (Decidable (_ ∧ _))
  | .array _ _ => inferInstanceAs (Decidable (_ ≤ _))
  | .byte | .bool | .address | .list _ | .tuple _ | .struct _ _ _ | .string => isTrue trivial

/-- The type itself is no struct and has parameters in range. -/
def Readable (t : Ty) : Prop := t.isStruct = false ∧ t.InRange

theorem every_readable_iff {t : Ty} :
    t.Every Readable ↔ (t.Every fun s => s.isStruct = false) ∧ t.Every InRange :=
  forall₂_and

theorem every_inRange_asTuples {t : Ty} (h : t.Every InRange) : t.asTuples.Every InRange := by
  induction t using Ty.induction with
  | array item size ih =>
    obtain ⟨hs, hi⟩ := every_array.1 h
    exact every_array.2 ⟨hs, ih hi⟩
  | list item ih => exact every_list.2 ⟨trivial, ih (every_list.1 h).2⟩
  | tuple items ih =>
    have hi := (every_tuple.1 h).2
    rw [asTuples_tuple, every_tuple]
    exact ⟨trivial, List.forall_mem_map.2 fun t ht => ih t ht (hi t ht)⟩
  | struct name fields frozen ih =>
    have hf := (every_struct.1 h).2
    rw [asTuples_struct, every_tuple]
    exact ⟨trivial, List.forall_mem_map.2 fun f hm => ih f hm (hf f hm)⟩
  | _ => exact h

/-! ## Texts by their form -/

theorem eq_of_formOf_list {s item : List Char} (h : formOf s = .list item) :
    s = item ++ ['[', ']'] := by
  rw [← List.reverse_reverse s]
  unfold formOf at h
  split at h
  · rename_i rest he
    cases h
    rw [he]
    simp
  · split at h <;> cases h
  · split at h <;> cases h
  · cases h

theorem eq_of_formOf_array {s item size : List Char} (h : formOf s = .array item size) :
    s = item ++ '[' :: (size ++ [']']) := by
  rw [← List.reverse_reverse s]
  unfold formOf at h
  split at h
  · cases h
  · rename_i body _ he
    split at h
    · cases h
    · rename_i c rest hd
      cases h
      have hc : c = '[' := by
        have hh := List.head?_dropWhile_not (fun c => decide (c ≠ '[')) body
        rw [hd] at hh
        simpa using hh
      have hb := @List.takeWhile_append_dropWhile _ (fun c => decide (c ≠ '[')) body
      rw [hd, hc] at hb
      rw [he, List.reverse_cons]
      conv => lhs; rw [← hb]
      simp
  · split at h <;> cases h
  · cases h

theorem eq_of_formOf_tuple {s body : List Char} (h : formOf s = .tuple body) :
    s = '(' :: (body ++ [')']) := by
  rw [← List.reverse_reverse s]
  unfold formOf at h
  split at h
  · cases h
  · split at h <;> cases h
  · rename_i rest he
    split at h
    · rename_i inner hr
      cases h
      rw [he, List.reverse_cons, hr]
      rfl
    · cases h
  · cases h

/-! ## The parser by the form of its text -/

theorem parseChars_of_list {s item : List Char} (h : formOf s = .list item) :
    parseChars s = (parseChars item).map list := by
  rw [parseChars]
  split
  · rename_i he
    rw [h] at he
    cases he
    exact Outcome.bind_pure_eq_map _ _
  all_goals rename_i he; rw [h] at he; cases he

theorem parseChars_of_array {s item size : List Char} (h : formOf s = .array item size) :
    parseChars s = match Decimal.readBelow? (Limits.size + 1) size with
      | none => .error (.badType (.arraySize (String.ofList s)))
      | some n => (parseChars item).map (array · n) := by
  rw [parseChars]
  split
  case h_2 he =>
    rw [h] at he
    cases he
    cases Decimal.readBelow? (Limits.size + 1) size with
    | none => rfl
    | some n => exact Outcome.bind_pure_eq_map _ _
  all_goals rename_i he; rw [h] at he; cases he

theorem parseChars_of_tuple {s body : List Char} (h : formOf s = .tuple body) :
    parseChars s = match splitTuple body with
      | none => .error (.badType (.parentheses (String.ofList body)))
      | some parts => (parts.mapM parseChars).map tuple := by
  rw [parseChars]
  split
  case h_4 he =>
    rw [h] at he
    cases he
    split
    · rename_i hp
      rw [hp]
    · rename_i parts hp
      conv => rhs; rw [hp]
      show _ = (parts.mapM parseChars).map tuple
      have ha := List.mapM_subtype (l := parts.attach) (f := fun x => parseChars x.1)
        (g := parseChars) fun _ _ => rfl
      rw [List.unattach_attach] at ha
      rw [← ha]
      exact Outcome.bind_pure_eq_map _ _
  all_goals rename_i he; rw [h] at he; cases he

theorem parseChars_of_plain {s : List Char} (h : formOf s = .plain) :
    parseChars s = parsePlain s := by
  rw [parseChars]
  split
  case h_5 => rfl
  all_goals rename_i he; rw [h] at he; cases he

theorem parseChars_of_unopened {s : List Char} (h : formOf s = .unopened) :
    parseChars s = .error (.badType (.unopened (String.ofList s))) := by
  rw [parseChars]
  split
  case h_3 => rfl
  all_goals rename_i he; rw [h] at he; cases he

/-! ## Types that are not made of others -/

theorem eq_of_splitOnce? {c : Char} {s front rest : List Char}
    (h : splitOnce? c s = some (front, rest)) : s = front ++ c :: rest := by
  unfold splitOnce? at h
  split at h
  · cases h
  · rename_i d rest' hd
    have hh := List.head?_dropWhile_not (fun d => decide (d ≠ c)) s
    rw [hd] at hh
    have hc : d = c := by simpa using hh
    have hs := @List.takeWhile_append_dropWhile _ (fun d => decide (d ≠ c)) s
    rw [hd, hc] at hs
    cases h
    exact hs.symm

theorem parseUInt_eq_ok_iff {s rest : List Char} {t : Ty} :
    parseUInt s rest = .ok t ↔
      ∃ w, rest = Decimal.write w ∧ IsWidth w ∧ t = uint w := by
  unfold parseUInt
  cases hr : Decimal.readBelow? (2 ^ 16) rest with
  | none =>
    simp only [throw, throwThe, MonadExceptOf.throw, reduceCtorEq, false_iff, not_exists, not_and]
    rintro w rfl hw
    -- a width of the format is small enough to be read
    have hlt : w < 2 ^ 16 := Nat.lt_of_le_of_lt hw.2.2 (by decide)
    rw [Decimal.readBelow?_eq_some_iff.2 ⟨hlt, rfl⟩] at hr
    cases hr
  | some w =>
    obtain ⟨_, rfl⟩ := Decimal.readBelow?_eq_some_iff.1 hr
    rw [ofWidth_eq_ok_iff]
    constructor
    · intro h
      obtain ⟨hw, rfl⟩ := h
      exact ⟨w, rfl, hw, rfl⟩
    · intro h
      obtain ⟨w', hw', h⟩ := h
      obtain rfl := Decimal.write_injective hw'
      exact h

theorem parseUFixed_eq_ok_iff {s rest : List Char} {t : Ty} :
    parseUFixed s rest = .ok t ↔
      ∃ w p, rest = Decimal.write w ++ 'x' :: Decimal.write p ∧ IsWidth w ∧ IsPrecision p ∧
        t = ufixed w p := by
  unfold parseUFixed
  constructor
  · intro h
    cases hs : splitOnce? 'x' rest with
    | none => rw [hs] at h; cases h
    | some parts =>
      obtain ⟨front, back⟩ := parts
      rw [hs] at h
      cases hw : Decimal.readBelow? (2 ^ 16) front with
      | none => simp only [hw] at h; cases h
      | some w =>
        cases hp : Decimal.readBelow? (2 ^ 8) back with
        | none => simp only [hw, hp] at h; cases h
        | some p =>
          simp only [hw, hp, ofPrecision_eq_ok_iff] at h
          obtain ⟨_, rfl⟩ := Decimal.readBelow?_eq_some_iff.1 hw
          obtain ⟨_, rfl⟩ := Decimal.readBelow?_eq_some_iff.1 hp
          exact ⟨w, p, eq_of_splitOnce? hs, h⟩
  · intro h
    obtain ⟨w, p, rfl, hw, hp, rfl⟩ := h
    have hw16 : w < 2 ^ 16 := Nat.lt_of_le_of_lt hw.2.2 (by decide)
    have hp8 : p < 2 ^ 8 := Nat.lt_of_le_of_lt hp.2 (by decide)
    simp only [splitOnce?_append (not_mem_write (c := 'x') (by decide) w),
      Decimal.readBelow?_eq_some_iff.2 ⟨hw16, rfl⟩, Decimal.readBelow?_eq_some_iff.2 ⟨hp8, rfl⟩]
    exact ofPrecision_eq_ok_iff.2 ⟨hw, hp, rfl⟩

/-- A text of no other form is read exactly if it is the name of a type not made of others. -/
theorem parsePlain_eq_ok_iff {s : List Char} {t : Ty} :
    parsePlain s = .ok t ↔ t.nameForm = .plain ∧ t.InRange ∧ t.nameChars = s := by
  constructor
  · intro h
    unfold parsePlain at h
    split at h
    · cases h
      exact ⟨rfl, trivial, by symm; assumption⟩
    split at h
    · cases h
      exact ⟨rfl, trivial, by symm; assumption⟩
    split at h
    · cases h
      exact ⟨rfl, trivial, by symm; assumption⟩
    split at h
    · cases h
      exact ⟨rfl, trivial, by symm; assumption⟩
    split at h
    · rename_i rest hr
      obtain ⟨w, p, rfl, hw, hp, rfl⟩ := parseUFixed_eq_ok_iff.1 h
      rw [← List.isPrefixOf?_eq_some_iff_append_eq.1 hr]
      exact ⟨rfl, ⟨hw, hp⟩, List.append_assoc ..⟩
    split at h
    · rename_i rest hr
      obtain ⟨w, rfl, hw, rfl⟩ := parseUInt_eq_ok_iff.1 h
      rw [← List.isPrefixOf?_eq_some_iff_append_eq.1 hr]
      exact ⟨rfl, hw, rfl⟩
    · cases h
  · intro h
    obtain ⟨hf, hr, rfl⟩ := h
    cases t <;> simp only [nameForm, reduceCtorEq] at hf
    case uint w =>
      have hs : parsePlain (uint w).nameChars =
          parseUInt (uint w).nameChars (Decimal.write w) := rfl
      rw [hs, parseUInt_eq_ok_iff]
      exact ⟨w, rfl, hr, rfl⟩
    case ufixed w p =>
      have hs : parsePlain (ufixed w p).nameChars =
          parseUFixed (ufixed w p).nameChars (Decimal.write w ++ 'x' :: Decimal.write p) := rfl
      rw [hs, parseUFixed_eq_ok_iff]
      exact ⟨w, p, rfl, hr.1, hr.2, rfl⟩
    all_goals rfl

/-! ## All types -/

theorem every_readable_of_plain {t : Ty} (hf : t.nameForm = .plain) (hr : t.InRange) :
    t.Every Readable := by
  cases t <;> simp only [nameForm, reduceCtorEq] at hf
  all_goals exact fun s hs => List.mem_singleton.1 hs ▸ ⟨rfl, hr⟩

/-- Whatever is accepted is readable and has the text for its name. -/
theorem readable_of_parseChars {s : List Char} {t : Ty} (h : parseChars s = .ok t) :
    t.Every Readable ∧ t.nameChars = s := by
  -- the parser goes on with parts of the text, which are shorter
  induction hn : s.length using Nat.strongRecOn generalizing s t with
  | ind n ih =>
    subst hn
    cases hf : formOf s with
    | list item =>
      rw [parseChars_of_list hf, Outcome.map_eq_ok_iff] at h
      obtain ⟨u, hu, rfl⟩ := h
      obtain ⟨hr, rfl⟩ := ih _ (length_of_formOf_list hf) hu rfl
      exact ⟨every_list.2 ⟨⟨rfl, trivial⟩, hr⟩, (eq_of_formOf_list hf).symm⟩
    | array item size =>
      rw [parseChars_of_array hf] at h
      cases hd : Decimal.readBelow? (Limits.size + 1) size with
      | none => rw [hd] at h; cases h
      | some k =>
        rw [hd] at h
        obtain ⟨u, hu, rfl⟩ := Outcome.map_eq_ok_iff.1 h
        obtain ⟨hk, rfl⟩ := Decimal.readBelow?_eq_some_iff.1 hd
        obtain ⟨hr, rfl⟩ := ih _ (length_of_formOf_array hf) hu rfl
        exact ⟨every_array.2 ⟨⟨rfl, Nat.le_of_lt_succ hk⟩, hr⟩, (eq_of_formOf_array hf).symm⟩
    | unopened => rw [parseChars_of_unopened hf] at h; cases h
    | tuple body =>
      rw [parseChars_of_tuple hf] at h
      cases hp : splitTuple body with
      | none => rw [hp] at h; cases h
      | some parts =>
        rw [hp] at h
        obtain ⟨ts, hts, rfl⟩ := Outcome.map_eq_ok_iff.1 h
        have hall := Outcome.mapM_eq_ok_iff.1 hts
        have hlen : ∀ p ∈ parts, p.length < s.length := fun p hm =>
          Nat.lt_of_le_of_lt (length_le_of_mem_splitTuple hp hm) (length_of_formOf_tuple hf)
        obtain ⟨hr, hnames⟩ : (∀ t ∈ ts, t.Every Readable) ∧ ts.map nameChars = parts := by
          clear hts hp h
          induction hall with
          | nil => exact ⟨by simp, rfl⟩
          | @cons p t ps ts hpt _ ihs =>
            obtain ⟨hr, hname⟩ := ih _ (hlen p (List.mem_cons_self ..)) hpt rfl
            obtain ⟨hrs, hnames⟩ := ihs fun q hq => hlen q (List.mem_cons_of_mem p hq)
            exact ⟨List.forall_mem_cons.2 ⟨hr, hrs⟩, by rw [List.map_cons, hname, hnames]⟩
        refine ⟨every_tuple.2 ⟨⟨rfl, trivial⟩, hr⟩, ?_⟩
        rw [nameChars_tuple, hnames, join_of_splitTuple hp, eq_of_formOf_tuple hf]
    | plain =>
      rw [parseChars_of_plain hf, parsePlain_eq_ok_iff] at h
      exact ⟨every_readable_of_plain h.1 h.2.1, h.2.2⟩

/-- The name of a readable type is read as that type. -/
theorem parseChars_nameChars {t : Ty} (h : t.Every Readable) : parseChars t.nameChars = .ok t := by
  have hform := formOf_nameChars t
  induction t using Ty.induction with
  | array item size ih =>
    obtain ⟨⟨_, hs⟩, hi⟩ := every_array.1 h
    have hd : Decimal.readBelow? (Limits.size + 1) (Decimal.write size) = some size :=
      Decimal.readBelow?_eq_some_iff.2 ⟨Nat.lt_succ_of_le hs, rfl⟩
    rw [parseChars_of_array hform, hd, ih hi (formOf_nameChars item)]
    rfl
  | list item ih =>
    rw [parseChars_of_list hform, ih (every_list.1 h).2 (formOf_nameChars item)]
    rfl
  | tuple items ih =>
    have hi := (every_tuple.1 h).2
    have hm : (items.map nameChars).mapM parseChars = .ok items := by
      rw [Outcome.mapM_eq_ok_iff, List.forall₂_map_left_iff, List.forall₂_same]
      exact fun t ht => ih t ht (hi t ht) (formOf_nameChars t)
    rw [parseChars_of_tuple hform, splitTuple_intercalate_names]
    show ((items.map nameChars).mapM parseChars).map tuple = _
    rw [hm]
    rfl
  | struct name fields frozen ih =>
    have hs : isStruct (struct name fields frozen) = false := h.self.1
    cases hs
  | _ =>
    rw [parseChars_of_plain hform, parsePlain_eq_ok_iff]
    exact ⟨rfl, h.self.2, rfl⟩

theorem parseChars_eq_ok_iff {s : List Char} {t : Ty} :
    parseChars s = .ok t ↔ t.Every Readable ∧ t.nameChars = s := by
  constructor
  · exact readable_of_parseChars
  · intro h
    obtain ⟨h, rfl⟩ := h
    exact parseChars_nameChars h

theorem name_eq_iff {t : Ty} {s : String} : t.name = s ↔ t.nameChars = s.toList := by
  unfold name
  constructor
  · rintro rfl
    rw [String.toList_ofList]
  · intro h
    rw [h, String.ofList_toList]

theorem parse_eq_ok_iff {s : String} {t : Ty} :
    parse s = .ok t ↔ t.Every Readable ∧ t.name = s := by
  rw [name_eq_iff]
  exact parseChars_eq_ok_iff

/-- A text is read as a type exactly if no struct occurs in the type, all parameters are in range
and the text is the type's name. So the name of a type with structs is read as the type in which
they are replaced by tuples, and no type is read from two texts. -/
theorem parse_inverts_name :
    (∀ (s : String) (t : Ty), parse s = .ok t ↔
      (t.Every fun u => u.isStruct = false) ∧ t.Every InRange ∧ t.name = s) ∧
    (∀ t : Ty, t.Every InRange → parse t.name = .ok t.asTuples) ∧
    (∀ (s s' : String) (t : Ty), parse s = .ok t → parse s' = .ok t → s = s') := by
  refine ⟨fun s t => ?_, fun t h => ?_, fun s s' t h h' => ?_⟩
  · rw [parse_eq_ok_iff, every_readable_iff, and_assoc]
  · rw [parse_eq_ok_iff, every_readable_iff, name_eq_iff, nameChars_asTuples]
    exact ⟨⟨every_not_struct_asTuples t, every_inRange_asTuples h⟩, by
      rw [name, String.toList_ofList]⟩
  · exact (parse_eq_ok_iff.1 h).2.symm.trans (parse_eq_ok_iff.1 h').2

/-- Structs in an array and in a tuple come back as tuples. -/
theorem parse_inverts_name_nested :
    (tuple [array (struct "Point" [("x", uint 64), ("on", bool)] false) 3,
        list (struct "" [] true), ufixed 512 160]).Every InRange ∧
      parse "((uint64,bool)[3],()[],ufixed512x160)" =
        .ok (tuple [array (tuple [uint 64, bool]) 3, list (tuple []), ufixed 512 160]) :=
  ⟨by decide, parse_inverts_name.2.1 (tuple [array (struct "Point" [("x", uint 64), ("on", bool)]
    false) 3, list (struct "" [] true), ufixed 512 160]) (by decide)⟩

end Abi.Ty
