/-
  What is read from a struct that was built from values.

  * `values_of_ofValues`: a struct gives back the values that it was built from, under the declared
    types and normalised.
  * `encode_values_of_ofValues`: these values build the same struct.
-/
import Abi.Proofs.Sequence.Changes
import Abi.Typed.Struct
import Mathlib.Data.List.Nodup

namespace Abi

namespace StructType

/-! ## Places of fields -/

theorem indexOf_eq_ok_iff {s : StructType} {field : String} {i : Nat} :
    s.indexOf field = .ok i ↔ s.names.findIdx? (· = field) = some i := by
  unfold indexOf
  split <;> simp [*]

theorem getElem?_names_of_indexOf {s : StructType} {field : String} {i : Nat}
    (h : s.indexOf field = .ok i) : s.names[i]? = some field := by
  obtain ⟨hlt, hfield, _⟩ := List.findIdx?_eq_some_iff_getElem.1 (indexOf_eq_ok_iff.1 h)
  rw [List.getElem?_eq_getElem hlt, of_decide_eq_true hfield]

/-- No two fields stand in one place. -/
theorem indexOf_injective {s : StructType} {f g : String} {i : Nat} (hf : s.indexOf f = .ok i)
    (hg : s.indexOf g = .ok i) : f = g := by
  have h := getElem?_names_of_indexOf hf
  rw [getElem?_names_of_indexOf hg] at h
  exact (Option.some.inj h).symm

variable {type : StructType} {field : String} {k : Nat}

theorem types_length (type : StructType) : type.types.length = type.names.length := by
  unfold types names
  rw [List.length_map, List.length_map]

/-- What was declared is a struct type as it was given, and its field names differ. -/
theorem nodup_of_declare {name : String} {fields : List (String × Ty)} {frozen : Bool}
    (h : declare name fields frozen = .ok type) : type.names.Nodup := by
  have hn := declare_isOk_iff.1 ⟨type, h⟩
  unfold declare at h
  split at h
  · cases h
  · cases h
    exact hn

/-- A name that is not declared has no place. -/
theorem indexOf_of_not_mem (h : field ∉ type.names) :
    type.indexOf field = .error (.unknownField type.name field) := by
  have hnone : type.names.findIdx? (· = field) = none := by
    rw [List.findIdx?_eq_none_iff]
    intro x hx
    exact decide_eq_false fun he => h (he ▸ hx)
  unfold indexOf
  rw [hnone]

/-- If all names differ, the place of a name is where it stands. -/
theorem indexOf_getElem (hn : type.names.Nodup) (hk : k < type.names.length) :
    type.indexOf type.names[k] = .ok k := by
  have hsome : type.names.findIdx? (· = type.names[k]) = some k := by
    rw [List.findIdx?_eq_some_iff_getElem]
    refine ⟨hk, decide_eq_true rfl, fun j hj => ?_⟩
    rw [decide_eq_true_eq]
    intro he
    have hjk := (List.Nodup.getElem_inj_iff hn).1 he
    omega
  unfold indexOf
  rw [hsome]

end StructType

namespace Struct

/-! ## Building -/

theorem encode_eq_ok_iff {type : StructType} {vs : List Value} {s : Struct} :
    encode type vs = .ok s ↔
      ∃ bs, Sequence.encode vs = .ok bs ∧ bs.length ≤ Limits.valueBytes ∧ s = ⟨type, bs⟩ :=
  @Sequence.limited_encode_eq_ok_iff vs type.ty Struct (⟨type, ·⟩) s

/-- Values with the same parts build the same struct. -/
theorem encode_congr (type : StructType) {vs ws : List Value}
    (h : vs.map Value.part = ws.map Value.part) : encode type vs = encode type ws := by
  unfold encode
  rw [Sequence.encode_congr h]

theorem expectFields_eq_ok_iff {ts : List Ty} {vs : List Value} (hl : vs.length = ts.length)
    {u : Unit} : expectFields ts vs = .ok u ↔ List.Forall₂ Value.HasTy vs ts := by
  induction ts generalizing vs with
  | nil =>
    obtain rfl := List.eq_nil_of_length_eq_zero hl
    simp [expectFields]
  | cons t ts ih =>
    obtain ⟨v, vs, rfl⟩ := List.exists_cons_of_length_eq_add_one hl
    show (v.expect t >>= fun _ => expectFields ts vs) = .ok u ↔ _
    rw [Outcome.bind_eq_ok_iff, List.forall₂_cons, ih (Nat.succ.inj hl), ← Value.expect_eq_ok_iff]
    exact ⟨fun ⟨_, hv, h⟩ => ⟨hv, h⟩, fun ⟨hv, h⟩ => ⟨(), hv, h⟩⟩

theorem ofValues_eq_ok_iff {type : StructType} {vs : List Value} {s : Struct} :
    ofValues type vs = .ok s ↔
      List.Forall₂ Value.HasTy vs type.types ∧ encode type vs = .ok s := by
  unfold ofValues
  by_cases hl : vs.length = type.types.length
  · rw [if_neg (not_not.2 hl)]
    show (expectFields type.types vs >>= fun _ => encode type vs) = .ok s ↔ _
    rw [Outcome.bind_eq_ok_iff]
    simp only [expectFields_eq_ok_iff hl, exists_const]
  · rw [if_pos hl]
    constructor
    · exact nofun
    · intro h
      exact absurd h.1.length_eq hl

theorem ofValues_eq_encode {type : StructType} {vs : List Value}
    (h : List.Forall₂ Value.HasTy vs type.types) : ofValues type vs = encode type vs := by
  unfold ofValues
  rw [if_neg (not_not.2 h.length_eq)]
  show (expectFields type.types vs >>= fun _ => encode type vs) = _
  rw [(expectFields_eq_ok_iff (u := ()) h.length_eq).2 h, Outcome.ok_bind]

/-! ## Reading -/

section

variable {type : StructType} {vs : List Value} {s : Struct}

theorem type_of_ofValues (h : ofValues type vs = .ok s) : s.type = type := by
  obtain ⟨bs, _, _, rfl⟩ := encode_eq_ok_iff.1 (ofValues_eq_ok_iff.1 h).2
  rfl

/-- A struct gives back the values that it was built from. -/
theorem values_of_ofValues (h : ofValues type vs = .ok s) :
    s.values = .ok (List.zipWith Value.asTy vs type.types) := by
  obtain ⟨ht, h⟩ := ofValues_eq_ok_iff.1 h
  obtain ⟨bs, hb, _, rfl⟩ := encode_eq_ok_iff.1 h
  exact Sequence.decode_asTys ht hb

/-- What was read builds the same struct. -/
theorem encode_values_of_ofValues (h : ofValues type vs = .ok s) :
    encode type (List.zipWith Value.asTy vs type.types) = .ok s := by
  obtain ⟨ht, h⟩ := ofValues_eq_ok_iff.1 h
  obtain ⟨bs, hb, hl, rfl⟩ := encode_eq_ok_iff.1 h
  exact encode_eq_ok_iff.2 ⟨bs, Sequence.encode_asTys ht hb, hl, rfl⟩

end

end Struct

end Abi
