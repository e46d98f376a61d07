/-
  Any run of calls does to a struct what it does to a record.

  The record is the list of the field values, in the order of the declaration. A call puts a value
  in the place of one field or fails; it fails if the name is not declared, if the value has
  another type, if the struct is frozen, or if the new values cannot be encoded. Every call reads
  all values and builds the struct anew, so that it suffices that the struct holds its values
  (`Holds`) before and after each call. All along, its bytes are those of the tuple of the values.

  * `Call.perform_eq`: a call on a struct that holds values edits them and builds the struct of
    the new ones.
  * `Call.holds_after`: the struct after the call holds the record after the call.
  * `Holds.isRecord`: what can be read from a struct that holds values, and what every call does.
  * `run_is_record`: the same after every run, from any struct that was built from values.
-/
import Abi.Proofs.Container.Kinds
import Abi.Proofs.Handle.Actions

namespace Abi

namespace Struct

/-! ## Structs that hold values -/

/-- The struct is the one that the values build, and it gives them back. -/
structure Holds (s : Struct) (vs : List Value) : Prop where
  built : ofValues s.type vs = .ok s
  values : s.values = .ok vs

theorem forall₂_hasTy_of_values {s : Struct} {vs : List Value} (h : s.values = .ok vs) :
    List.Forall₂ Value.HasTy vs s.type.types := by
  rw [← map_ty_of_values h, List.forall₂_map_right_iff, List.forall₂_same]
  exact fun v _ => Ty.Same.refl v.ty

/-- A struct holds the values that it was built from, in the form in which it gives them back. -/
theorem holds_of_ofValues {type : StructType} {vs : List Value} {s : Struct}
    (h : ofValues type vs = .ok s) : s.Holds (List.zipWith Value.asTy vs type.types) := by
  have hvalues := values_of_ofValues h
  have hencode := encode_values_of_ofValues h
  obtain rfl := type_of_ofValues h
  exact ⟨ofValues_eq_ok_iff.2 ⟨forall₂_hasTy_of_values hvalues, hencode⟩, hvalues⟩

namespace Holds

variable {s : Struct} {vs : List Value}

theorem length_eq (h : s.Holds vs) : vs.length = s.type.types.length := by
  rw [← map_ty_of_values h.values, List.length_map]

theorem restored (h : s.Holds vs) : List.zipWith Value.asTy vs s.type.types = vs :=
  Except.ok.inj ((values_of_ofValues h.built).symm.trans h.values)

/-- The fields are read by their names. -/
theorem get_getElem (h : s.Holds vs) (hn : s.type.names.Nodup) {k : Nat}
    (hk : k < s.type.names.length) : ∃ v, vs[k]? = some v ∧ s.get s.type.names[k] = .ok v := by
  have hlt : k < vs.length := by rwa [h.length_eq, StructType.types_length]
  refine ⟨vs[k], List.getElem?_eq_getElem hlt, ?_⟩
  unfold get
  rw [StructType.indexOf_getElem hn hk, Outcome.ok_bind, h.values, Outcome.ok_bind,
    Index.item_eq_ok_iff, List.getElem?_eq_getElem hlt]

/-- The bytes are those of the tuple of the values. -/
theorem toTuple (h : s.Holds vs) : Tuple.ofItems vs = .ok s.toTuple := by
  obtain ⟨bs, hb, hl, hs⟩ := encode_eq_ok_iff.1 (ofValues_eq_ok_iff.1 h.built).2
  refine (@Sequence.limited_encode_eq_ok_iff vs _ Tuple (⟨vs.map (·.ty), ·⟩) _).2 ⟨bs, hb, hl, ?_⟩
  exact congrArg₂ Tuple.mk (map_ty_of_values h.values).symm (congrArg bytes hs)

end Holds

/-- Every struct is what becomes of its tuple. -/
theorem ofTuple_toTuple (s : Struct) : ofTuple s.type s.toTuple = .ok s := by
  have hty : (View.toValue s.toTuple).expect s.type.asTuple = .ok () :=
    Value.expect_eq_ok_iff.2 (Ty.Same.refl _)
  unfold ofTuple
  rw [hty]
  rfl

/-! ## Calls -/

/-- A call that changes a struct. A handle is opened at a field and used at once. -/
inductive Call : Type 1 where
  | assign (field : String) (v : Value)
  | handle (field : String) (x : Handle.Action)

namespace Call

/-- The name of the field that the call changes. -/
def field : Call → String
  | assign f _ => f
  | handle f _ => f

/-- The struct that the call leaves. -/
def perform (s : Struct) : Call → Except Error Struct
  | assign f v => s.set f v
  | handle f x => do x.perform (← s.handle f)

/-- The struct after a call; one that fails leaves it as it is. -/
def after (s : Struct) (c : Call) : Struct :=
  match c.perform s with
  | .ok t => t
  | .error _ => s

/-! ## The same on a record -/

/-- The record with another value in a field. -/
def assigned (type : StructType) (vs : List Value) (f : String) (v : Value) :
    Except Error (List Value) := do
  let k ← type.acceptedAt vs.length f v
  return vs.set k v

/-- The record that the call asks for, with the new value as it was given. -/
def edit (type : StructType) (vs : List Value) : Call → Except Error (List Value)
  | assign f v => assigned type vs f v
  | handle f x => do
    let k ← type.indexOf f
    assigned type vs f (← x.result (← Index.item vs k))

/-- The value that the call makes of the one that the field has. -/
def value (u : Value) : Call → Except Error Value
  | assign _ v => .ok v
  | handle _ x => x.result u

/-- The record after a call: the edited one in the form in which a struct gives its values back, if
there is a struct of them, and otherwise the record as it is. -/
def recordAfter (type : StructType) (vs : List Value) (c : Call) : List Value :=
  match c.edit type vs with
  | .error _ => vs
  | .ok ws =>
    match ofValues type ws with
    | .error _ => vs
    | .ok _ => List.zipWith Value.asTy ws type.types

/-- What is put into a record: a value of the declared type, in the place of the field, and not if
it is frozen. -/
theorem assigned_eq_ok_iff {type : StructType} {vs ws : List Value} {f : String} {v : Value} :
    assigned type vs f v = .ok ws ↔
      type.frozen = false ∧ ∃ k t, type.indexOf f = .ok k ∧ k < vs.length ∧
        type.types[k]? = some t ∧ v.HasTy t ∧ ws = vs.set k v := by
  unfold assigned
  rw [Outcome.bind_eq_ok_iff]
  simp only [StructType.acceptedAt_eq_ok_iff]
  constructor
  · intro h
    obtain ⟨k, ⟨hf, hk, hlt, t, ht, hv⟩, h⟩ := h
    cases h
    exact ⟨hf, k, t, hk, hlt, ht, hv, rfl⟩
  · intro h
    obtain ⟨hf, k, t, hk, hlt, ht, hv, rfl⟩ := h
    exact ⟨k, ⟨hf, hk, hlt, t, ht, hv⟩, rfl⟩

/-- A record is edited in one place, the one of the field that the call names. -/
theorem exists_of_edit {type : StructType} {vs ws : List Value} {c : Call}
    (h : c.edit type vs = .ok ws) :
    type.frozen = false ∧ ∃ k u v t, type.indexOf c.field = .ok k ∧ vs[k]? = some u ∧
      c.value u = .ok v ∧ type.types[k]? = some t ∧ v.HasTy t ∧ ws = vs.set k v := by
  cases c with
  | assign f v =>
    obtain ⟨hf, k, t, hk, hlt, ht, hv, rfl⟩ := assigned_eq_ok_iff.1 h
    exact ⟨hf, k, vs[k], v, t, hk, List.getElem?_eq_getElem hlt, rfl, ht, hv, rfl⟩
  | handle f x =>
    obtain ⟨k, hk, h⟩ := Outcome.bind_eq_ok_iff.1 h
    obtain ⟨u, hu, h⟩ := Outcome.bind_eq_ok_iff.1 h
    obtain ⟨v, hv, h⟩ := Outcome.bind_eq_ok_iff.1 h
    obtain ⟨hf, j, t, hj, _, ht, hty, rfl⟩ := assigned_eq_ok_iff.1 h
    obtain rfl := Except.ok.inj (hk.symm.trans hj)
    exact ⟨hf, k, u, v, t, hk, Index.item_eq_ok_iff.1 hu, hv, ht, hty, rfl⟩

end Call

/-! ## One call -/

namespace Holds

variable {s : Struct} {vs : List Value}

/-- Setting a field builds the struct of the values with the new one among them. -/
theorem set (h : s.Holds vs) (f : String) (v : Value) :
    s.set f v = Call.assigned s.type vs f v >>= ofValues s.type := by
  rw [set_eq h.values]
  unfold Call.assigned
  cases hk : s.type.acceptedAt vs.length f v with
  | error e => rfl
  | ok k =>
    obtain ⟨_, _, _, t, ht, hv⟩ := StructType.acceptedAt_eq_ok_iff.1 hk
    have hty := Sequence.forall₂_hasTy_set (forall₂_hasTy_of_values h.values) ht hv
    exact (ofValues_eq_encode hty).symm

theorem handle (h : s.Holds vs) (f : String) :
    s.handle f = (do
      let k ← s.type.indexOf f
      return ⟨s, f, ← Index.item vs k⟩) := by
  show (s.get f >>= fun u => pure (⟨s, f, u⟩ : Handle Struct String)) = _
  unfold get
  rw [h.values, bind_assoc]
  rfl

end Holds

namespace Call

/-- A call edits the record and builds the struct of it. -/
theorem perform_eq {s : Struct} {vs : List Value} (h : s.Holds vs) (c : Call) :
    c.perform s = c.edit s.type vs >>= ofValues s.type := by
  cases c with
  | assign f v => exact h.set f v
  | handle f x =>
    rw [perform, edit, h.handle]
    rcases s.type.indexOf f with e | k
    · rfl
    · rw [Outcome.ok_bind, Outcome.ok_bind]
      rcases Index.item vs k with e | u
      · rfl
      · show x.perform (⟨s, f, u⟩ : Handle Struct String) = _
        rw [Handle.Action.perform_eq, Outcome.ok_bind, bind_assoc]
        exact congrArg (x.result u >>= ·) (funext fun v => h.set f v)

/-- The struct after a call holds the record after the call. -/
theorem holds_after {s : Struct} {vs : List Value} (h : s.Holds vs) (c : Call) :
    (c.after s).Holds (c.recordAfter s.type vs) ∧ (c.after s).type = s.type := by
  unfold after recordAfter
  rw [perform_eq h]
  cases c.edit s.type vs with
  | error e => exact ⟨h, rfl⟩
  | ok ws =>
    dsimp only
    rw [Outcome.ok_bind]
    cases hb : ofValues s.type ws with
    | error e => exact ⟨h, rfl⟩
    | ok t => exact ⟨holds_of_ofValues hb, type_of_ofValues hb⟩

theorem after_of_error {s : Struct} {c : Call} {e : Error} (h : c.perform s = .error e) :
    c.after s = s := by
  unfold after
  rw [h]

/-- A frozen struct refuses every call. -/
theorem fails_of_frozen {s : Struct} {vs : List Value} (h : s.Holds vs)
    (hf : s.type.frozen = true) (c : Call) : ∃ e, c.perform s = .error e := by
  refine Outcome.exists_error_of_ne_ok fun t ht => ?_
  rw [perform_eq h, Outcome.bind_eq_ok_iff] at ht
  obtain ⟨ws, hw, _⟩ := ht
  rw [(exists_of_edit hw).1] at hf
  cases hf

/-- A name that is not declared cannot be assigned to. -/
theorem fails_of_not_mem {s : Struct} {vs : List Value} (h : s.Holds vs) {c : Call}
    (hc : c.field ∉ s.type.names) : ∃ e, c.perform s = .error e := by
  refine Outcome.exists_error_of_ne_ok fun t ht => ?_
  rw [perform_eq h, Outcome.bind_eq_ok_iff] at ht
  obtain ⟨ws, hw, _⟩ := ht
  obtain ⟨_, k, _, _, _, hk, _⟩ := exists_of_edit hw
  rw [StructType.indexOf_of_not_mem hc] at hk
  cases hk

end Call

/-! ## Runs -/

/-- The struct after a run of calls. -/
def run (s : Struct) (cs : List Call) : Struct := cs.foldl (fun t c => c.after t) s

/-- The record after the same run. -/
def recordRun (type : StructType) (vs : List Value) (cs : List Call) : List Value :=
  cs.foldl (fun ws c => c.recordAfter type ws) vs

theorem holds_run {s : Struct} {vs : List Value} (h : s.Holds vs) (cs : List Call) :
    (run s cs).Holds (recordRun s.type vs cs) ∧ (run s cs).type = s.type := by
  induction cs generalizing s vs with
  | nil => exact ⟨h, rfl⟩
  | cons c cs ih =>
    obtain ⟨hc, htype⟩ := Call.holds_after h c
    have hrun := ih hc
    rw [htype] at hrun
    exact hrun

/-- Nothing happens to a frozen struct in any run. -/
theorem run_of_frozen {s : Struct} {vs : List Value} (h : s.Holds vs)
    (hf : s.type.frozen = true) (cs : List Call) : run s cs = s := by
  induction cs with
  | nil => rfl
  | cons c cs ih =>
    obtain ⟨e, he⟩ := Call.fails_of_frozen h hf c
    show run (c.after s) cs = s
    rw [Call.after_of_error he, ih]

/-- To every reader and to every further call the struct is the record: it has these values under
the declared names, it is the struct and, to the byte, the tuple that they build, and a call
changes the value of one field or nothing. -/
structure IsRecord (type : StructType) (s : Struct) (vs : List Value) : Prop where
  values : s.values = .ok vs
  length : vs.length = type.names.length
  get (k : Nat) (hk : k < type.names.length) :
    ∃ v, vs[k]? = some v ∧ s.get type.names[k] = .ok v
  built : ofValues type vs = .ok s
  tuple : Tuple.ofItems vs = .ok s.toTuple
  toTuple_bytes : s.toTuple.bytes = s.bytes
  ofTuple : ofTuple type s.toTuple = .ok s
  perform (c : Call) : c.perform s = c.edit type vs >>= ofValues type
  after_success (c : Call) (t : Struct) : c.perform s = .ok t →
    ∃ k u v ty, type.indexOf c.field = .ok k ∧ vs[k]? = some u ∧ c.value u = .ok v ∧
      type.types[k]? = some ty ∧ v.HasTy ty ∧ c.recordAfter type vs = vs.set k (v.asTy ty)
  after_failure (c : Call) (e : Error) : c.perform s = .error e →
    c.after s = s ∧ c.recordAfter type vs = vs
  get_unknown (field : String) : field ∉ type.names →
    s.get field = .error (.unknownField type.name field)
  unknown (c : Call) : c.field ∉ type.names → (∃ e, c.perform s = .error e) ∧ c.after s = s
  frozen (c : Call) : type.frozen = true → (∃ e, c.perform s = .error e) ∧ c.after s = s

theorem Holds.isRecord {s : Struct} {vs : List Value} (h : s.Holds vs)
    (hn : s.type.names.Nodup) : IsRecord s.type s vs where
  values := h.values
  length := by rw [h.length_eq, StructType.types_length]
  get k hk := h.get_getElem hn hk
  built := h.built
  tuple := h.toTuple
  toTuple_bytes := rfl
  ofTuple := s.ofTuple_toTuple
  perform := Call.perform_eq h
  after_success c t ht := by
    rw [Call.perform_eq h, Outcome.bind_eq_ok_iff] at ht
    obtain ⟨ws, hw, ht⟩ := ht
    obtain ⟨_, k, u, v, ty, hk, hu, hv, hty, hvt, rfl⟩ := Call.exists_of_edit hw
    refine ⟨k, u, v, ty, hk, hu, hv, hty, hvt, ?_⟩
    unfold Call.recordAfter
    rw [hw]
    dsimp only
    rw [ht]
    dsimp only
    rw [Sequence.zipWith_asTy_set hty, h.restored]
  after_failure c e he := by
    refine ⟨Call.after_of_error he, ?_⟩
    rw [Call.perform_eq h] at he
    unfold Call.recordAfter
    cases hw : c.edit s.type vs with
    | error d => rfl
    | ok ws =>
      rw [hw, Outcome.ok_bind] at he
      dsimp only
      rw [he]
  get_unknown field hf := by
    unfold Struct.get
    rw [StructType.indexOf_of_not_mem hf]
    rfl
  unknown c hc := by
    obtain ⟨e, he⟩ := Call.fails_of_not_mem h hc
    exact ⟨⟨e, he⟩, Call.after_of_error he⟩
  frozen c hf := by
    obtain ⟨e, he⟩ := Call.fails_of_frozen h hf c
    exact ⟨⟨e, he⟩, Call.after_of_error he⟩

/-- Whatever calls are made on a struct that was built from values, succeeding or not, it is the
record on which the same calls are made; if it is frozen, it stays the struct that was built. -/
theorem run_is_record (name : String) (fields : List (String × Ty)) (frozen : Bool)
    (type : StructType) (vs : List Value) (s : Struct)
    (hd : StructType.declare name fields frozen = .ok type) (hs : ofValues type vs = .ok s)
    (cs : List Call) :
    IsRecord type (run s cs) (recordRun type (List.zipWith Value.asTy vs type.types) cs) ∧
      (type.frozen = true → run s cs = s) := by
  have hholds := holds_of_ofValues hs
  obtain rfl := type_of_ofValues hs
  obtain ⟨hr, htype⟩ := holds_run hholds cs
  have hrecord := hr.isRecord (by rw [htype]; exact StructType.nodup_of_declare hd)
  rw [htype] at hrecord
  exact ⟨hrecord, fun hf => run_of_frozen hholds hf cs⟩

/-- A text is appended through a handle, both booleans are changed, one of them to a byte that is
not normalised; a name that is not declared and a value of another type are refused. Nothing
happens to the frozen struct. -/
theorem run_is_record_mixed :
    let fields : List (String × Ty) := [("a", .bool), ("b", .bool), ("notes", .list .string)]
    let type : StructType := ⟨"Entry", fields, false⟩
    let frozen : StructType := ⟨"Entry", fields, true⟩
    let vs : List Value := [⟨.bool, [0x80]⟩, ⟨.bool, [0x01]⟩, ⟨.list .string, [0, 0]⟩]
    let cs : List Call := [
      .handle "notes" (.modify fun a : DynamicArray =>
        (a.append ⟨.string, [0, 1, 0x78]⟩).map ((), ·)),
      .assign "b" ⟨.bool, [0x80]⟩, .assign "c" ⟨.bool, [0x80]⟩, .handle "a" (.set ⟨.byte, [1]⟩),
      .handle "a" (.update fun v => .ok ⟨v.ty, [0x7f]⟩)]
    let s : Struct := ⟨type, [0x80, 0, 3, 0, 0]⟩
    let s' : Struct := ⟨frozen, [0x80, 0, 3, 0, 0]⟩
    StructType.declare "Entry" fields false = .ok type ∧ ofValues type vs = .ok s ∧
      (run s cs).bytes = [0x40, 0, 3, 0, 1, 0, 2, 0, 1, 0x78] ∧
      IsRecord type (run s cs) (recordRun type (List.zipWith Value.asTy vs type.types) cs) ∧
      ofValues frozen vs = .ok s' ∧ run s' cs = s' := by
  intro fields type frozen vs cs s s'
  have hd : StructType.declare "Entry" fields false = .ok type := by rfl
  have hd' : StructType.declare "Entry" fields true = .ok frozen := by rfl
  have hs : ofValues type vs = .ok s := by rfl
  have hs' : ofValues frozen vs = .ok s' := by rfl
  have hrun : (run s cs).bytes = [0x40, 0, 3, 0, 1, 0, 2, 0, 1, 0x78] := by decide +kernel
  refine ⟨hd, hs, hrun, ?_, hs', ?_⟩
  · exact (run_is_record "Entry" fields false type vs s hd hs cs).1
  · exact (run_is_record "Entry" fields true frozen vs s' hd' hs' cs).2 rfl

end Struct

end Abi
