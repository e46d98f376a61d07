/-
  Any run of calls does to an array what it does to a list.

  The list is edited as the call says and is then what an array of these items gives back; a call
  fails if the edit makes no sense or if no array can hold the new list. Every call reads all items
  and builds the array anew, so that it suffices that the array holds its list (`Holds`) before and
  after each call.

  * `Call.perform_eq`: a call on an array that holds a list answers what the list says, and fails
    with the same error.
  * `Call.holds_after`: the array after the call holds the list after the call.
  * `run_simulates`: the same for every run from a new array.
-/
import Abi.Proofs.DynamicArray.Items
import Abi.Proofs.Handle.Actions

namespace Abi

namespace DynamicArray

/-! ## Calls -/

/-- A call that changes an array. A handle is opened at an index and used at once. -/
inductive Call : Type 1 where
  | append (v : Value)
  | extend (vs : List Value)
  | pop
  | set (i : Int) (v : Value)
  | handleSet (i : Int) (v : Value)
  | handleUpdate (i : Int) (f : Value → Except Error Value)
  | handleModify {T α : Type} [View T] (i : Int) (f : T → Except Error (α × T))

namespace Call

/-- What the call answers, if anything, and the array that it leaves. -/
def perform (a : DynamicArray) : Call → Except Error (Option Value × DynamicArray)
  | append v => (a.append v).map (none, ·)
  | extend vs => (a.extend vs).map (none, ·)
  | pop => a.pop.map fun (v, b) => (some v, b)
  | set i v => (a.set i v).map (none, ·)
  | handleSet i v => (a.handle i >>= (·.set v)).map (none, ·)
  | handleUpdate i f => (a.handle i >>= (·.update f)).map (none, ·)
  | handleModify i f => (a.handle i >>= (·.modify f)).map fun (_, b) => (none, b)

/-- The array after a call; one that fails leaves it as it is. -/
def after (a : DynamicArray) (c : Call) : DynamicArray :=
  match c.perform a with
  | .ok (_, b) => b
  | .error _ => a

/-! ## The same on a list -/

/-- The list with the item at an index changed by a function. -/
def replaceAt (item : Ty) (vs : List Value) (i : Int) (f : Value → Except Error Value) :
    Except Error (List Value) := do
  let k ← Index.position vs.length i
  let v ← f (← Index.item vs k)
  v.expect item
  return vs.set k v

/-- The list that the call asks for, with the new items as they were given. -/
def edit (item : Ty) (vs : List Value) : Call → Except Error (List Value)
  | append v => do
    v.expect item
    return vs ++ [v]
  | extend ws => do
    Value.expectAll ws item
    return vs ++ ws
  | pop =>
    match vs.getLast? with
    | none => throw .emptyArray
    | some _ => return vs.dropLast
  | set i v => replaceAt item vs i fun _ => .ok v
  | handleSet i v => replaceAt item vs i fun _ => .ok v
  | handleUpdate i f => replaceAt item vs i f
  | handleModify i f => replaceAt item vs i (Handle.through f)

/-- What the call answers. -/
def answer (vs : List Value) : Call → Option Value
  | pop => vs.getLast?
  | _ => none

/-- The list after a call: the edited one in the form in which an array gives its items back, if
there is an array of them, and otherwise the list as it is. -/
def listAfter (item : Ty) (vs : List Value) (c : Call) : List Value :=
  match c.edit item vs with
  | .error _ => vs
  | .ok ws =>
    match ofItems item ws with
    | .error _ => vs
    | .ok _ => ws.map (·.asTy item)

end Call

/-! ## One call -/

namespace Holds

variable {a : DynamicArray} {vs : List Value}

theorem handle (h : a.Holds vs) (i : Int) :
    a.handle i = (do
      let k ← Index.position vs.length i
      return ⟨a, k, ← Index.item vs k⟩) := by
  unfold DynamicArray.handle
  rw [h.length, Outcome.ok_bind]
  cases hk : Index.position vs.length i with
  | error e => rfl
  | ok k =>
    have hlt : k < vs.length := (Index.position_eq_ok_iff.1 hk).2
    have hd : k < Index.signedBound :=
      Nat.lt_trans (Nat.lt_of_lt_of_le hlt h.length_le) Index.word_lt_signedBound
    have hread : a.get (Index.signed k) = Index.item vs k := by
      unfold DynamicArray.get
      rw [Index.signed_of_lt hd, h.items, Outcome.ok_bind, Index.position_natCast hlt,
        Outcome.ok_bind]
    show (a.get (Index.signed k) >>= fun x => pure (⟨a, k, x⟩ : Handle DynamicArray Nat)) = _
    rw [hread]
    rfl

theorem write (h : a.Holds vs) {k : Nat} (hk : k < vs.length) (v : Value) :
    a.write k v = (do
      v.expect a.item
      ofItems a.item (vs.set k v)) := by
  unfold DynamicArray.write
  cases hv : v.expect a.item with
  | error e => rfl
  | ok u =>
    have hty := Value.forall_hasTy_set h.hasTy (Value.expect_eq_ok_iff.1 hv) k
    rw [h.items, Outcome.ok_bind, Outcome.ok_bind, Outcome.ok_bind, ofItems_eq_encode hty,
      Index.replace_eq_ok_iff.2 ⟨hk, rfl⟩, Outcome.ok_bind]

/-- Changing an item through a handle builds the array of the changed list. -/
theorem update (h : a.Holds vs) (i : Int) (f : Value → Except Error Value) :
    (a.handle i >>= (·.update f)) = Call.replaceAt a.item vs i f >>= ofItems a.item := by
  unfold Call.replaceAt
  rw [h.handle]
  cases hk : Index.position vs.length i with
  | error e => rfl
  | ok k =>
    have hlt : k < vs.length := (Index.position_eq_ok_iff.1 hk).2
    have hitem : Index.item vs k = .ok vs[k] :=
      Index.item_eq_ok_iff.2 (List.getElem?_eq_getElem hlt)
    simp only [Outcome.ok_bind, hitem]
    show (f vs[k] >>= fun v => a.write k v) = _
    cases f vs[k] with
    | error e => rfl
    | ok v =>
      rw [Outcome.ok_bind, Outcome.ok_bind, h.write hlt]
      cases v.expect a.item with
      | error e => rfl
      | ok u => rfl

/-- Writing an item is setting it through a handle. -/
theorem set (h : a.Holds vs) (i : Int) (v : Value) :
    a.set i v = Call.replaceAt a.item vs i (fun _ => .ok v) >>= ofItems a.item := by
  rw [← h.update, h.handle]
  unfold DynamicArray.set
  rw [h.length, Outcome.ok_bind]
  cases hk : Index.position vs.length i with
  | error e => rfl
  | ok k =>
    have hlt : k < vs.length := (Index.position_eq_ok_iff.1 hk).2
    simp only [Outcome.ok_bind, Index.item_eq_ok_iff.2 (List.getElem?_eq_getElem hlt)]
    rfl

theorem extend (h : a.Holds vs) (ws : List Value) :
    a.extend ws = (Call.extend ws).edit a.item vs >>= ofItems a.item := by
  show _ = (do Value.expectAll ws a.item; return vs ++ ws) >>= ofItems a.item
  unfold DynamicArray.extend
  cases hw : Value.expectAll ws a.item with
  | error e => rfl
  | ok u =>
    have hty : ∀ w ∈ vs ++ ws, w.HasTy a.item :=
      List.forall_mem_append.2 ⟨h.hasTy, Value.expectAll_eq_ok_iff.1 hw⟩
    show (a.items >>= fun us => encode a.item (us ++ ws)) = ofItems a.item (vs ++ ws)
    rw [h.items, Outcome.ok_bind, ofItems_eq_encode hty]

theorem append (h : a.Holds vs) (v : Value) :
    a.append v = (Call.append v).edit a.item vs >>= ofItems a.item := by
  have hedit : (Call.extend [v]).edit a.item vs = (Call.append v).edit a.item vs := by
    show ((v.expect a.item >>= fun _ => pure ()) >>= fun _ => pure (vs ++ [v])) =
      v.expect a.item >>= fun _ => pure (vs ++ [v])
    cases v.expect a.item <;> rfl
  rw [append_eq_extend, h.extend, hedit]

theorem pop_nil (h : a.Holds []) : a.pop = .error .emptyArray := by
  unfold DynamicArray.pop
  rw [h.items]
  rfl

theorem pop_concat {v : Value} (h : a.Holds (vs ++ [v])) :
    a.pop = (ofItems a.item vs).map (v, ·) := by
  have hty : ∀ w ∈ vs, w.HasTy a.item := fun w hw => h.hasTy w (List.mem_append_left _ hw)
  unfold DynamicArray.pop
  rw [h.items, Outcome.ok_bind, List.getLast?_concat, List.dropLast_concat, ofItems_eq_encode hty]
  exact Outcome.bind_pure_eq_map _ _

end Holds

namespace Call

/-- A call edits the list and builds the array of it. -/
theorem perform_eq {a : DynamicArray} {vs : List Value} (h : a.Holds vs) (c : Call) :
    c.perform a = (c.edit a.item vs >>= ofItems a.item).map (c.answer vs, ·) := by
  cases c with
  | append v => exact congrArg (Except.map (none, ·)) (h.append v)
  | extend ws => exact congrArg (Except.map (none, ·)) (h.extend ws)
  | pop =>
    unfold perform edit answer
    rcases List.eq_nil_or_concat vs with rfl | ⟨ws, w, rfl⟩
    · rw [h.pop_nil]
      rfl
    · rw [List.concat_eq_append] at h ⊢
      rw [h.pop_concat, List.getLast?_concat, List.dropLast_concat, Outcome.map_map]
      rfl
  | set i v => exact congrArg (Except.map (none, ·)) (h.set i v)
  | handleSet i v => exact congrArg (Except.map (none, ·)) (h.update i fun _ => .ok v)
  | handleUpdate i f => exact congrArg (Except.map (none, ·)) (h.update i f)
  | handleModify i f =>
    have hm : (a.handle i >>= (·.modify f)).map (·.2) =
        a.handle i >>= (·.update (Handle.through f)) := by
      rw [Outcome.map_bind]
      exact congrArg (a.handle i >>= ·) (funext fun g => g.modify_map_snd f)
    rw [h.update] at hm
    exact (Outcome.map_map _ Prod.snd (none, ·)).symm.trans (congrArg (Except.map (none, ·)) hm)

/-- The array after a call holds the list after the call. -/
theorem holds_after {a : DynamicArray} {vs : List Value} (h : a.Holds vs) (c : Call) :
    (c.after a).Holds (c.listAfter a.item vs) ∧ (c.after a).item = a.item := by
  unfold after listAfter
  rw [perform_eq h]
  cases c.edit a.item vs with
  | error e => exact ⟨h, rfl⟩
  | ok ws =>
    dsimp only
    rw [Outcome.ok_bind]
    cases hb : ofItems a.item ws with
    | error e => exact ⟨h, rfl⟩
    | ok b => exact ⟨holds_of_ofItems hb, item_of_ofItems hb⟩

end Call

/-! ## Runs -/

/-- The array after a run of calls. -/
def run (a : DynamicArray) (cs : List Call) : DynamicArray := cs.foldl (fun b c => c.after b) a

/-- The list after the same run. -/
def listRun (item : Ty) (vs : List Value) (cs : List Call) : List Value :=
  cs.foldl (fun ws c => c.listAfter item ws) vs

theorem holds_run {a : DynamicArray} {vs : List Value} (h : a.Holds vs) (cs : List Call) :
    (run a cs).Holds (listRun a.item vs cs) ∧ (run a cs).item = a.item := by
  induction cs generalizing a vs with
  | nil => exact ⟨h, rfl⟩
  | cons c cs ih =>
    obtain ⟨hc, hitem⟩ := Call.holds_after h c
    have hrun := ih hc
    rw [hitem] at hrun
    exact hrun

/-- An array as it is first made, with the items that it gives back. -/
inductive Starts (item : Ty) : DynamicArray → List Value → Prop where
  | empty : Starts item (empty item) []
  | ofItems {vs : List Value} {a : DynamicArray} (h : ofItems item vs = .ok a) :
    Starts item a (vs.map (·.asTy item))

/-- To every reader and to every further call the array is the list: it has the items and the
number of them, it is the array that they build, and a call edits the list and builds the array of
the new one. -/
structure Simulates (item : Ty) (a : DynamicArray) (vs : List Value) : Prop where
  items : a.items = .ok vs
  length : a.length = .ok vs.length
  built : ofItems item vs = .ok a
  length_bytes : a.bytes.length ≤ Limits.valueBytes
  perform (c : Call) : c.perform a = (c.edit item vs >>= ofItems item).map (c.answer vs, ·)
  after_failure (c : Call) (e : Error) : c.perform a = .error e → c.after a = a
  pop_nil : vs = [] → a.pop = .error .emptyArray
  pop_concat (ws : List Value) (v : Value) : vs = ws ++ [v] →
    ∃ b, a.pop = .ok (v, b) ∧ b.items = .ok ws
  append_pop (v : Value) (b : DynamicArray) : a.append v = .ok b → b.pop = .ok (v.asTy item, a)

theorem Holds.simulates {a : DynamicArray} {vs : List Value} (h : a.Holds vs) :
    Simulates a.item a vs where
  items := h.items
  length := h.length
  built := h.built
  length_bytes := h.length_bytes_le
  perform := Call.perform_eq h
  after_failure c e he := by
    unfold Call.after
    rw [he]
  pop_nil hvs := by
    subst hvs
    exact h.pop_nil
  pop_concat ws v hvs := by
    subst hvs
    obtain ⟨b, hb⟩ := h.ofItems_dropLast
    rw [List.dropLast_concat] at hb
    refine ⟨b, by rw [h.pop_concat, hb]; rfl, ?_⟩
    have hws : ws.map (·.asTy a.item) = ws := by
      have hr := h.restored
      rw [List.map_append] at hr
      exact (List.append_inj hr (List.length_map _)).1
    rw [(holds_of_ofItems hb).items, hws]
  append_pop v b hb := by
    rw [h.append] at hb
    obtain ⟨ws, hw, hb⟩ := Outcome.bind_eq_ok_iff.1 hb
    obtain ⟨_, _, hw⟩ := Outcome.bind_eq_ok_iff.1 hw
    cases hw
    have hholds := holds_of_ofItems hb
    rw [List.map_append, h.restored] at hholds
    have hp := hholds.pop_concat
    rw [item_of_ofItems hb, h.built] at hp
    exact hp

/-- Whatever calls are made on a new array, succeeding or not, it simulates the list on which the
same calls are made. -/
theorem run_simulates (item : Ty) (a : DynamicArray) (vs : List Value) (h : Starts item a vs)
    (cs : List Call) : Simulates item (run a cs) (listRun item vs cs) := by
  have hstart : a.Holds vs ∧ a.item = item := by
    cases h with
    | empty => exact ⟨holds_empty item, rfl⟩
    | ofItems h => exact ⟨holds_of_ofItems h, item_of_ofItems h⟩
  obtain ⟨hholds, hitem⟩ := hstart
  obtain ⟨hr, hri⟩ := holds_run hholds cs
  have hs := hr.simulates
  rw [hri, hitem] at hs
  exact hs

/-- Two booleans, the second of which is not normalised; a call with an index that is out of range
and one with an item of another type are among those made. -/
theorem run_simulates_bools :
    let a : DynamicArray := ⟨.bool, [0, 2, 0x80]⟩
    let vs : List Value := [⟨.bool, [0x80]⟩, ⟨.bool, [0x00]⟩]
    let cs : List Call := [.append ⟨.bool, [0x80]⟩, .set 5 ⟨.bool, [0x80]⟩,
      .handleSet (-2) ⟨.bool, [0x80]⟩, .append ⟨.byte, [0x80]⟩, .pop]
    Starts .bool a vs ∧ (run a cs).bytes = [0, 2, 0xc0] ∧
      Simulates .bool (run a cs) (listRun .bool vs cs) := by
  intro a vs cs
  have h : Starts .bool a vs := @Starts.ofItems .bool [⟨.bool, [0x80]⟩, ⟨.bool, [0x01]⟩] a rfl
  have hrun : (run a cs).bytes = [0, 2, 0xc0] := by decide +kernel
  exact ⟨h, hrun, run_simulates .bool a vs h cs⟩

end DynamicArray

end Abi
