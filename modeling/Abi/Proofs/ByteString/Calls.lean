/-
  Raw bytes are the array of their bytes.

  Each of the two has code of its own. Raw bytes are compared with their count and taken as they
  are; an array is cut into items, which are put together again after every change. Whatever the
  bytes are, well-formed or not, both read, write and change them alike. Only complaints about
  malformed bytes may name another cause.

  * `toArray_ofRaw`: both are written alike, down to the error.
  * `reads_alike`: both are read alike.
  * `Call.perform_alike`: and so is every change, whatever the bytes were before.
  * `matches_array`: the three together, for single calls and for runs of them.
-/
import Abi.Proofs.Container.Composes
import Abi.Proofs.DynamicArray.Calls
import Abi.Typed.ByteString

namespace Abi

/-! ## Results of one kind -/

/-- Two results that belong together, or two errors of one kind: the same error, or malformed bytes
for whatever causes. -/
inductive Alike {α β : Type} (r : α → β → Prop) : Except Error α → Except Error β → Prop where
  | ok {a : α} {b : β} : r a b → Alike r (.ok a) (.ok b)
  | malformed (c d : Malformed) : Alike r (.error (.malformed c)) (.error (.malformed d))
  | error (e : Error) : Alike r (.error e) (.error e)

namespace Alike

variable {α β γ δ : Type} {r : α → β → Prop} {s : γ → δ → Prop}

theorem map_right (x : Except Error α) (f : α → β) : Alike (fun a b => b = f a) x (x.map f) := by
  cases x with
  | error e => exact .error e
  | ok a => exact .ok rfl

theorem bind {x : Except Error α} {y : Except Error β} {f : α → Except Error γ}
    {g : β → Except Error δ} (h : Alike r x y) (hf : ∀ a b, r a b → Alike s (f a) (g b)) :
    Alike s (x >>= f) (y >>= g) := by
  cases h with
  | ok h => exact hf _ _ h
  | malformed c d => exact .malformed c d
  | error e => exact .error e

theorem map {x : Except Error α} {y : Except Error β} {f : α → γ} {g : β → δ} (h : Alike r x y)
    (hf : ∀ a b, r a b → s (f a) (g b)) : Alike s (x.map f) (y.map g) := by
  cases h with
  | ok h => exact .ok (hf _ _ h)
  | malformed c d => exact .malformed c d
  | error e => exact .error e

end Alike

/-! ## Malformed bytes -/

theorem Word.malformed_of_splitCounted {bs : Bytes} {e : Error} (h : splitCounted bs = .error e) :
    ∃ cause, e = .malformed cause := by
  unfold splitCounted at h
  split at h
  · cases h
  · cases h
    exact ⟨_, rfl⟩

theorem Counted.malformed_of_readBytes {encoded : Bytes} {e : Error}
    (h : readBytes encoded = .error e) : ∃ cause, e = .malformed cause := by
  rcases Outcome.bind_eq_error_iff.1 h with h | ⟨⟨count, body⟩, _, h⟩
  · exact Word.malformed_of_splitCounted h
  · have h : (if body.length = count then Except.ok body
        else .error (.malformed (.byteStringLength count body.length))) = .error e := h
    split at h
    · cases h
    · cases h
      exact ⟨_, rfl⟩

theorem DynamicArray.malformed_of_items {a : DynamicArray} {e : Error} (h : a.items = .error e) :
    ∃ cause, e = .malformed cause := by
  rcases Outcome.bind_eq_error_iff.1 h with h | ⟨⟨count, body⟩, _, h⟩
  · exact Word.malformed_of_splitCounted h
  · exact Sequence.malformed_of_decode h

namespace ByteString

/-! ## Writing -/

/-- A byte as the item of an array. -/
def item (b : UInt8) : Value := View.toValue (UInt.byte b)

theorem item_injective : Function.Injective item := fun b c h => by
  have hbytes : [b] = [c] := congrArg Value.bytes h
  exact (List.cons.inj hbytes).1

/-- The items stand one behind the other. -/
theorem encode_items (bs : Bytes) : Sequence.encode (bs.map item) = .ok bs := by
  have hparts : (bs.map item).mapM Value.part = .ok ((bs.map fun b => [b]).map .inline) := by
    rw [Outcome.mapM_eq_ok_iff, List.forall₂_map_left_iff, List.forall₂_map_right_iff,
      List.forall₂_map_right_iff, List.forall₂_same]
    exact fun b _ => rfl
  have hflat : (bs.map fun b => [b]).flatten = bs := by
    rw [← List.flatMap_def, List.flatMap_singleton']
  unfold Sequence.encode
  rw [hparts, Outcome.ok_bind, Layout.assemble_inline, hflat]

theorem toArray_ofRaw_eq_encode (bs : Bytes) :
    DynamicArray.encode .byte (bs.map item) = (ofRaw bs).map toArray := by
  unfold DynamicArray.encode ofRaw Counted.writeBytes
  rw [encode_items, Outcome.ok_bind, List.length_map, Outcome.map_bind]
  cases Word.counted bs.length bs with
  | error e => rfl
  | ok encoded =>
    show (Value.limited .bytes encoded >>= _) = (Value.limited .bytes encoded >>= _).map toArray
    rw [Outcome.map_bind]
    rfl

/-- Raw bytes are written as the array of their bytes is, or fail with the same error. -/
theorem toArray_ofRaw (bs : Bytes) :
    DynamicArray.ofItems .byte (bs.map item) = (ofRaw bs).map toArray := by
  have hty : ∀ v ∈ bs.map item, v.HasTy .byte := List.forall_mem_map.2 fun b _ => Ty.Same.refl _
  rw [DynamicArray.ofItems_eq_encode hty, toArray_ofRaw_eq_encode]

theorem ofHost_byte (b : UInt8) : Value.ofHost .byte (.int b.toNat) = .ok (item b) := by
  have hb : BigEndian.encode 1 b.toNat = [b] := by
    have h := BigEndian.encode_decode [b]
    rw [BigEndian.decode_cons] at h
    simpa using h
  refine Host.ofHost_eq_ok_iff.2
    ⟨Host.bytesAs_byte_eq_ok_iff.2 ⟨_, rfl, b.toNat_lt, hb.symm⟩, ?_, rfl⟩
  exact (by decide : 1 ≤ Limits.valueBytes)

/-- A list of integers is written as the raw bytes are. -/
theorem encode_ints (bs : Bytes) :
    Host.encode .bytes (.list (bs.map fun b => .int b.toNat)) = Host.encode .bytes (.bytes bs) := by
  have hitems : (bs.map fun b => Host.int b.toNat).mapM (Value.ofHost .byte) =
      .ok (bs.map item) := by
    rw [Outcome.mapM_eq_ok_iff, List.forall₂_map_left_iff, List.forall₂_map_right_iff,
      List.forall₂_same]
    exact fun b _ => ofHost_byte b
  have hbytes : Host.bytesAs .bytes (.list (bs.map fun b => .int b.toNat)) =
      Host.bytesAs .bytes (.bytes bs) := by
    unfold Ty.bytes
    rw [Host.bytesAs_list_list, hitems, Outcome.ok_bind, encode_items, Outcome.ok_bind,
      List.length_map]
    rfl
  unfold Host.encode Value.ofHost
  rw [hbytes]

/-! ## Reading -/

/-- Raw bytes are read exactly if the array is cut into items, and these are the bytes; if not,
both are malformed. -/
theorem reads_alike (d : ByteString) :
    (∃ bs, d.decode = .ok bs ∧ d.toArray.items = .ok (bs.map item)) ∨
      ∃ c c', d.decode = .error (.malformed c) ∧ d.toArray.items = .error (.malformed c') := by
  cases hd : d.decode with
  | ok bs =>
    have hw := Counted.readBytes_eq_ok_iff.1 hd
    exact Or.inl ⟨bs, rfl, DynamicArray.items_bytes_eq_ok_iff.2 ⟨bs, hw, rfl⟩⟩
  | error e =>
    have hfail : ∀ vs, d.toArray.items ≠ .ok vs := by
      intro vs h
      obtain ⟨bs, hw, _⟩ := DynamicArray.items_bytes_eq_ok_iff.1 h
      rw [ByteString.decode, Counted.readBytes_eq_ok_iff.2 hw] at hd
      cases hd
    obtain ⟨e', he'⟩ := Outcome.exists_error_of_ne_ok hfail
    obtain ⟨c, rfl⟩ := Counted.malformed_of_readBytes hd
    obtain ⟨c', rfl⟩ := DynamicArray.malformed_of_items he'
    exact Or.inr ⟨c, c', rfl, he'⟩

/-- The host value of the type is read from the same bytes. -/
theorem decode_eq_ok_iff_items {buffer bs : Bytes} :
    Host.decode .bytes buffer = .ok (.bytes bs) ↔
      DynamicArray.items ⟨.byte, buffer⟩ = .ok (bs.map item) := by
  show (ByteString.decode ⟨buffer⟩).map Host.bytes = _ ↔ (toArray ⟨buffer⟩).items = _
  rcases reads_alike ⟨buffer⟩ with ⟨cs, hd, hi⟩ | ⟨c, c', hd, hi⟩
  · rw [hd, hi, Except.map, Except.ok.injEq, Except.ok.injEq, Host.bytes.injEq,
      (List.map_injective_iff.2 item_injective).eq_iff]
  · rw [hd, hi]
    exact ⟨nofun, nofun⟩

/-- Otherwise both are malformed. -/
theorem malformed_of_not_decode {buffer : Bytes}
    (h : ¬ ∃ bs, Host.decode .bytes buffer = .ok (.bytes bs)) :
    ∃ c c', Host.decode .bytes buffer = .error (.malformed c) ∧
      DynamicArray.items ⟨.byte, buffer⟩ = .error (.malformed c') := by
  rcases reads_alike ⟨buffer⟩ with ⟨bs, hd, _⟩ | ⟨c, c', hd, hi⟩
  · exact absurd ⟨bs, congrArg (Except.map Host.bytes) hd⟩ h
  · exact ⟨c, c', congrArg (Except.map Host.bytes) hd, hi⟩

theorem alike_items (d : ByteString) :
    Alike (fun bs vs => vs = bs.map item) d.decode d.toArray.items := by
  rcases d.reads_alike with ⟨bs, hd, hi⟩ | ⟨c, c', hd, hi⟩
  · rw [hd, hi]
    exact .ok rfl
  · rw [hd, hi]
    exact .malformed c c'

/-! ## Calls -/

/-- A call that changes raw bytes. -/
inductive Call where
  | append (b : UInt8)
  | extend (more : Bytes)
  | pop

namespace Call

/-- What the call answers, if anything, and the byte string that it leaves. -/
def perform (d : ByteString) : Call → Except Error (Option UInt8 × ByteString)
  | append b => (d.append b).map (none, ·)
  | extend more => (d.extend more).map (none, ·)
  | pop => d.pop.map fun (b, d) => (some b, d)

/-- The byte string after a call; one that fails leaves it as it is. -/
def after (d : ByteString) (c : Call) : ByteString :=
  match c.perform d with
  | .ok (_, d) => d
  | .error _ => d

/-- The same call on an array of bytes. -/
def onItems : Call → DynamicArray.Call
  | append b => .append (item b)
  | extend more => .extend (more.map item)
  | pop => .pop

end Call

/-- What the two calls answer and leave: the same byte, as it is and as an item, and the same
bytes. -/
def SameOutcome (x : Option UInt8 × ByteString) (y : Option Value × DynamicArray) : Prop :=
  y = (x.1.map item, x.2.toArray)

theorem extend_alike (d : ByteString) (more : Bytes) :
    Alike (fun e a => a = e.toArray) (d.extend more) (d.toArray.extend (more.map item)) := by
  have hty : Value.expectAll (more.map item) .byte = .ok () :=
    Value.expectAll_eq_ok_iff.2 (List.forall_mem_map.2 fun b _ => Ty.Same.refl _)
  unfold extend DynamicArray.extend
  show Alike _ _ (Value.expectAll (more.map item) .byte >>= _)
  rw [hty, Outcome.ok_bind]
  refine d.alike_items.bind ?_
  rintro bs _ rfl
  show Alike _ (ofRaw (bs ++ more)) (DynamicArray.encode .byte (bs.map item ++ more.map item))
  rw [← List.map_append, toArray_ofRaw_eq_encode]
  exact .map_right _ _

/-- Appending is extending by one. -/
theorem append_alike (d : ByteString) (b : UInt8) :
    Alike (fun e a => a = e.toArray) (d.append b) (d.toArray.append (item b)) := by
  rw [DynamicArray.append_eq_extend]
  exact d.extend_alike [b]

theorem pop_alike (d : ByteString) :
    Alike (fun x y => y = (item x.1, x.2.toArray)) d.pop d.toArray.pop := by
  unfold pop DynamicArray.pop
  refine d.alike_items.bind ?_
  rintro bs _ rfl
  rw [List.getLast?_map, ← List.map_dropLast]
  cases bs.getLast? with
  | none => exact .error _
  | some b =>
    show Alike _ (ofRaw bs.dropLast >>= _) (DynamicArray.encode .byte (bs.dropLast.map item) >>= _)
    rw [toArray_ofRaw_eq_encode]
    refine (Alike.map_right _ toArray).bind ?_
    rintro e _ rfl
    exact .ok rfl

/-- A call on raw bytes and the same call on their array both succeed, with one answer and the same
bytes, or fail with one kind of error. -/
theorem Call.perform_alike (d : ByteString) (c : Call) :
    Alike SameOutcome (c.perform d) (c.onItems.perform d.toArray) := by
  cases c with
  | append b => exact (d.append_alike b).map fun e a h => congrArg (none, ·) h
  | extend more => exact (d.extend_alike more).map fun e a h => congrArg (none, ·) h
  | pop =>
    refine d.pop_alike.map ?_
    rintro x _ rfl
    rfl

/-- Afterwards both hold the same bytes, also if the call failed. -/
theorem Call.toArray_after (d : ByteString) (c : Call) :
    (c.after d).toArray = c.onItems.after d.toArray := by
  have h := c.perform_alike d
  unfold after DynamicArray.Call.after
  generalize c.perform d = x at h ⊢
  generalize c.onItems.perform d.toArray = y at h ⊢
  cases h with
  | ok h =>
    obtain rfl := h
    rfl
  | malformed c c' => rfl
  | error e => rfl

/-- A call that fails leaves both as they are. -/
theorem Call.after_of_error {d : ByteString} {c : Call} {e : Error} (h : c.perform d = .error e) :
    c.after d = d ∧ c.onItems.after d.toArray = d.toArray := by
  have hd : c.after d = d := by
    unfold after
    rw [h]
  rw [← toArray_after, hd]
  exact ⟨rfl, rfl⟩

/-! ## Runs of calls -/

/-- The byte string after all calls, one after the other. -/
def run (d : ByteString) (cs : List Call) : ByteString := cs.foldl (fun e c => c.after e) d

theorem toArray_run (d : ByteString) (cs : List Call) :
    (run d cs).toArray = DynamicArray.run d.toArray (cs.map Call.onItems) := by
  induction cs generalizing d with
  | nil => rfl
  | cons c cs ih =>
    show (run (c.after d) cs).toArray =
      DynamicArray.run (c.onItems.after d.toArray) (cs.map Call.onItems)
    rw [ih, c.toArray_after]

/-! ## The two together -/

/-- Raw bytes and the array of their bytes are read, written and changed alike, whatever bytes they
are made of. -/
theorem matches_array :
    (∀ buffer, (∀ bs, Host.decode .bytes buffer = .ok (.bytes bs) ↔
        DynamicArray.items ⟨.byte, buffer⟩ = .ok (bs.map item)) ∧
      ((¬ ∃ bs, Host.decode .bytes buffer = .ok (.bytes bs)) →
        ∃ c c', Host.decode .bytes buffer = .error (.malformed c) ∧
          DynamicArray.items ⟨.byte, buffer⟩ = .error (.malformed c'))) ∧
    (∀ bs : Bytes,
      Host.encode .bytes (.list (bs.map fun b => .int b.toNat)) =
        Host.encode .bytes (.bytes bs) ∧
      DynamicArray.ofItems .byte (bs.map item) = (ofRaw bs).map toArray) ∧
    ∀ d : ByteString,
      (∀ c : Call, Alike SameOutcome (c.perform d) (c.onItems.perform d.toArray) ∧
        ∀ e, c.perform d = .error e → c.after d = d ∧ c.onItems.after d.toArray = d.toArray) ∧
      ∀ cs, (run d cs).toArray = DynamicArray.run d.toArray (cs.map Call.onItems) := by
  refine ⟨fun buffer => ?_, fun bs => ?_, fun d => ⟨fun c => ?_, ?_⟩⟩
  · exact ⟨fun bs => decode_eq_ok_iff_items, malformed_of_not_decode⟩
  · exact ⟨encode_ints bs, toArray_ofRaw bs⟩
  · exact ⟨c.perform_alike d, fun e => Call.after_of_error⟩
  · exact d.toArray_run

/-- Bytes that declare one byte more than they have are malformed for both, and no byte can be taken
from them. -/
theorem matches_array_malformed :
    (¬ ∃ bs, Host.decode .bytes [0, 2, 7] = .ok (.bytes bs)) ∧
      (∃ c c', Host.decode .bytes [0, 2, 7] = .error (.malformed c) ∧
        DynamicArray.items ⟨.byte, [0, 2, 7]⟩ = .error (.malformed c')) ∧
      Call.pop.perform ⟨[0, 2, 7]⟩ = .error (.malformed (.byteStringLength 2 1)) ∧
      Call.pop.after ⟨[0, 2, 7]⟩ = ⟨[0, 2, 7]⟩ ∧
      Call.pop.onItems.after (toArray ⟨[0, 2, 7]⟩) = toArray ⟨[0, 2, 7]⟩ := by
  have hread : Counted.readBytes [0, 2, 7] = .error (.malformed (.byteStringLength 2 1)) := by
    decide +kernel
  have hdecode : ¬ ∃ bs, Host.decode .bytes [0, 2, 7] = .ok (.bytes bs) := by
    rintro ⟨bs, h⟩
    have h : (Counted.readBytes [0, 2, 7]).map Host.bytes = .ok (.bytes bs) := h
    rw [hread] at h
    cases h
  have hpop : Call.pop.perform ⟨[0, 2, 7]⟩ = .error (.malformed (.byteStringLength 2 1)) := by
    simp only [Call.perform, pop, decode, hread]
    rfl
  have hafter := (matches_array.2.2 ⟨[0, 2, 7]⟩).1 .pop
  exact ⟨hdecode, (matches_array.1 _).2 hdecode, hpop, hafter.2 _ hpop⟩

end ByteString

end Abi
