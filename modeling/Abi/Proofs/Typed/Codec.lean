/-
  The typed wrappers and the host codec write and read the same bytes.

  A host value can be written at once, or from the bottom up with the constructors of the typed
  wrappers (`build`); bytes can be read at once, or from the top down with their accessors
  (`read`). The wrappers check and measure at other places: a constructor of a leaf does not look at
  the size, raw bytes have a wrapper beside the one of arrays, and a child is opened only when it is
  reached. None of this shows in the result.

  * `Shaped`: the host values in the spelling that decoding answers (`shaped_of_decode`).
  * `build_eq_ofHost`: what is built is what is written, down to the error.
  * `read_eq_decode`: what is read through the wrappers is what is decoded, down to the error.
  * `build_and_read`: the two together.
-/
import Abi.Proofs.ByteString.Calls
import Abi.Proofs.Host.Size
import Abi.Proofs.StaticArray.Items
import Abi.Proofs.Struct.Values
import Abi.Typed.Account
import Abi.Typed.Boolean
import Abi.Typed.Text
import Abi.Typed.UFixed

namespace Abi

/-! ## Types and host values -/

/-- The parameters of the type itself are ones that the format has. -/
def Ty.IsStandard : Ty → Prop
  | .uint width => IsWidth width
  | .ufixed width precision => IsWidth width ∧ IsPrecision precision
  | .byte | .bool | .array _ _ | .address | .list _ | .tuple _ | .struct _ _ _ | .string => True

instance : DecidablePred Ty.IsStandard
  | .uint width => inferInstanceAs (Decidable (Ty.IsWidth width))
  | .ufixed _ _ => inferInstanceAs (Decidable (_ ∧ _))
  | .byte | .bool | .array _ _ | .address | .list _ | .tuple _ | .struct _ _ _ | .string =>
    isTrue trivial

/-- The host values of a type in the one spelling that decoding answers. Numbers may be too large
for their type, except for a byte, and literals need not be decimals. -/
inductive Host.Shaped : Ty → Host → Prop
  | uint (width i : Nat) : Shaped (.uint width) (.int i)
  | byte {i : Nat} : i < 256 → Shaped .byte (.int i)
  | bool (b : Bool) : Shaped .bool (.bool b)
  | ufixed (width precision : Nat) (literal : String) :
    Shaped (.ufixed width precision) (.decimal literal)
  | address (a : Address) : Shaped .address (.address a)
  | string (s : String) : Shaped .string (.text s)
  | bytes (bs : Bytes) : Shaped (.list .byte) (.bytes bs)
  | list {item : Ty} {ns : List Host} : item ≠ .byte → (∀ n ∈ ns, Shaped item n) →
    Shaped (.list item) (.list ns)
  | array {item : Ty} {size : Nat} {ns : List Host} : ns.length = size →
    (∀ n ∈ ns, Shaped item n) → Shaped (.array item size) (.list ns)
  | tuple {items : List Ty} {ns : List Host} : ns.length = items.length →
    (∀ p ∈ items.zip ns, Shaped p.1 p.2) → Shaped (.tuple items) (.tuple ns)
  | struct {name : String} {declared : List (String × Ty)} {frozen : Bool}
    {fields : List (String × Host)} : fields.map (·.1) = declared.map (·.1) →
      (∀ p ∈ (declared.map (·.2)).zip (fields.map (·.2)), Shaped p.1 p.2) →
        Shaped (.struct name declared frozen) (.struct fields)

namespace Typed

/-! ## From the bottom up and from the top down -/

mutual

/-- The value of a host value, put together with the constructors of the wrappers. -/
def build : Ty → Host → Except Error Value
  | .uint width, n =>
    match n with
    | .int i => (UInt.ofNat width i).map View.toValue
    | _ => .error (Host.mismatch (.uint width) n)
  | .byte, n =>
    match n with
    | .int i => .ok (View.toValue (UInt.byte (UInt8.ofNat i)))
    | _ => .error (Host.mismatch .byte n)
  | .bool, n =>
    match n with
    | .bool b => .ok (View.toValue (Boolean.ofBool b))
    | _ => .error (Host.mismatch .bool n)
  | .ufixed width precision, n =>
    match n with
    | .decimal literal => (UFixed.ofLiteral width precision literal).map View.toValue
    | _ => .error (Host.mismatch (.ufixed width precision) n)
  | .address, n =>
    match n with
    | .address a => .ok (View.toValue (Account.ofAddress a))
    | _ => .error (Host.mismatch .address n)
  | .string, n =>
    match n with
    | .text s => (Text.ofString s).map View.toValue
    | _ => .error (Host.mismatch .string n)
  | .list item, n =>
    match item, n with
    | .byte, .bytes bs => (ByteString.ofRaw bs).map View.toValue
    | _, .list ns => do
      let vs ← ns.mapM (build item)
      (DynamicArray.ofItems item vs).map View.toValue
    | _, _ => .error (Host.mismatch (.list item) n)
  | .array item size, n =>
    match n with
    | .list ns => do
      let vs ← ns.mapM (build item)
      (StaticArray.ofItems item size vs).map View.toValue
    | _ => .error (Host.mismatch (.array item size) n)
  | .tuple items, n =>
    match n with
    | .tuple ns => do
      let vs ← buildItems items ns
      (Tuple.ofItems vs).map View.toValue
    | _ => .error (Host.mismatch (.tuple items) n)
  | .struct name declared frozen, n =>
    match n with
    | .struct fields => do
      let vs ← buildFields declared (fields.map (·.2))
      (Struct.ofValues ⟨name, declared, frozen⟩ vs).map View.toValue
    | _ => .error (Host.mismatch (.struct name declared frozen) n)

/-- The values of host values as one type each. -/
def buildItems : List Ty → List Host → Except Error (List Value)
  | t :: ts, n :: ns => do
    let v ← build t n
    return v :: (← buildItems ts ns)
  | _, _ => .ok []

/-- The values of host values as the type of one field each. -/
def buildFields : List (String × Ty) → List Host → Except Error (List Value)
  | (_, t) :: fs, n :: ns => do
    let v ← build t n
    return v :: (← buildFields fs ns)
  | _, _ => .ok []

end

mutual

/-- The host value of a value, read with the accessors of the wrapper of its type. -/
def read : Ty → Value → Except Error Host
  | .uint _, v => do
    let u : UInt ← View.ofValue v
    u.decode.map .int
  | .byte, v => do
    let u : UInt ← View.ofValue v
    u.decode.map .int
  | .bool, v => do
    let b : Boolean ← View.ofValue v
    b.decode.map .bool
  | .ufixed _ _, v => do
    let d : UFixed ← View.ofValue v
    d.decode.map .decimal
  | .address, v => do
    let a : Account ← View.ofValue v
    a.decode.map .address
  | .string, v => do
    let t : Text ← View.ofValue v
    t.decode.map .text
  | .list item, v =>
    match item with
    | .byte => do
      let b : ByteString ← View.ofValue v
      b.decode.map .bytes
    | _ => do
      let a : DynamicArray ← View.ofValue v
      let vs ← a.items
      (vs.mapM (read item)).map .list
  | .array item _, v => do
    let a : StaticArray ← View.ofValue v
    let vs ← a.items
    (vs.mapM (read item)).map .list
  | .tuple items, v => do
    let t : Tuple ← View.ofValue v
    let vs ← t.items
    (readItems items vs).map .tuple
  | .struct _ declared _, v => do
    let s : Struct ← View.ofValue v
    let fields ← s.fields
    (readFields declared fields).map .struct

/-- The host values of the items of a tuple. -/
def readItems : List Ty → List Value → Except Error (List Host)
  | t :: ts, v :: vs => do
    let n ← read t v
    return n :: (← readItems ts vs)
  | _, _ => .ok []

/-- The host values of the fields of a struct, with their names. -/
def readFields : List (String × Ty) → List (String × Value) → Except Error (List (String × Host))
  | (_, t) :: fs, (f, v) :: vs => do
    let n ← read t v
    return (f, n) :: (← readFields fs vs)
  | _, _ => .ok []

end

/-! ## Building -/

theorem buildItems_eq_mapM (ts : List Ty) (ns : List Host) :
    buildItems ts ns = (ts.zip ns).mapM fun p => build p.1 p.2 := by
  induction ts generalizing ns with
  | nil => rfl
  | cons t ts ih =>
    cases ns with
    | nil => rfl
    | cons n ns => rw [buildItems, ih, List.zip_cons_cons, List.mapM_cons]

theorem buildFields_eq (fs : List (String × Ty)) (ns : List Host) :
    buildFields fs ns = buildItems (fs.map (·.2)) ns := by
  induction fs generalizing ns with
  | nil => rfl
  | cons f fs ih =>
    cases ns with
    | nil => rfl
    | cons n ns => rw [buildFields, ih, List.map_cons, buildItems]

/-- Children that are built as they are written make the same row of values. -/
theorem buildItems_eq_valuesAs {ts : List Ty} {ns : List Host}
    (h : ∀ p ∈ ts.zip ns, build p.1 p.2 = Value.ofHost p.1 p.2) :
    buildItems ts ns = Host.valuesAs ts ns := by
  rw [buildItems_eq_mapM, Host.valuesAs_eq_mapM]
  exact Outcome.mapM_congr h

theorem mapM_build_eq_valuesAs {item : Ty} {ns : List Host}
    (h : ∀ n ∈ ns, build item n = Value.ofHost item n) :
    ns.mapM (build item) = Host.valuesAs (List.replicate ns.length item) ns := by
  rw [Host.valuesAs_replicate]
  exact Outcome.mapM_congr h

/-! ### Leaves -/

/-- Bytes that are never too many need not be measured. -/
theorem bind_limited {x : Except Error Bytes} {t : Ty}
    (h : ∀ bs, x = .ok bs → bs.length ≤ Limits.valueBytes) :
    x >>= Value.limited t = x.map (Value.mk t) := by
  cases x with
  | error e => rfl
  | ok bs => exact if_neg (Nat.not_lt.2 (h bs rfl))

/-- A wrapper around bytes that were measured for its type stands for the value of these bytes. -/
theorem toValue_limited {T : Type} [View T] {t : Ty} {f : Bytes → T}
    (hf : ∀ bs, View.toValue (f bs) = ⟨t, bs⟩) (x : Except Error Bytes) :
    (x >>= fun bs => Value.limited t bs >>= fun v => pure (f v.bytes)).map View.toValue =
      x >>= Value.limited t := by
  rw [Outcome.map_bind]
  refine Outcome.bind_congr fun bs _ => ?_
  unfold Value.limited
  split
  · rfl
  · exact congrArg Except.ok (hf bs)

/-- The integers of a width that the format has are short. -/
theorem length_le_of_writeUInt {type : String} {width n : Nat} {bs : Bytes} (hw : Ty.IsWidth width)
    (h : Scalar.writeUInt type width n = .ok bs) : bs.length ≤ Limits.valueBytes := by
  obtain ⟨_, rfl⟩ := Scalar.writeUInt_eq_ok_iff.1 h
  have hle : width ≤ 512 := hw.2.2
  rw [BigEndian.length_encode]
  exact Nat.le_trans (Nat.div_le_div_right hle) (by decide)

theorem build_uint {width : Nat} (hw : Ty.IsWidth width) (i : Nat) :
    build (.uint width) (.int i) = Value.ofHost (.uint width) (.int i) := by
  rw [build, Value.ofHost, Host.bytesAs, bind_limited fun bs => length_le_of_writeUInt hw,
    UInt.ofNat, Ty.ofWidth_eq_ok_iff.2 ⟨hw, rfl⟩, Outcome.ok_bind, Outcome.bind_pure_eq_map,
    Outcome.map_map]
  rfl

theorem build_byte {i : Nat} (hi : i < 256) :
    build .byte (.int i) = Value.ofHost .byte (.int i) := by
  have h := ByteString.ofHost_byte (UInt8.ofNat i)
  rw [UInt8.toNat_ofNat_of_lt' hi] at h
  rw [h]
  rfl

theorem build_ufixed {width precision : Nat} (hw : Ty.IsWidth width) (hp : Ty.IsPrecision precision)
    (literal : String) :
    build (.ufixed width precision) (.decimal literal) =
      Value.ofHost (.ufixed width precision) (.decimal literal) := by
  rw [build, Value.ofHost, Host.bytesAs, UFixed.ofLiteral, Ty.ofPrecision_eq_ok_iff.2 ⟨hw, hp, rfl⟩,
    Outcome.ok_bind]
  cases FixedPoint.read precision literal with
  | error e => rfl
  | ok i =>
    rw [Outcome.ok_bind, Outcome.ok_bind, bind_limited fun bs => length_le_of_writeUInt hw,
      Outcome.bind_pure_eq_map, Outcome.map_map]
    rfl

theorem build_address (a : Address) :
    build .address (.address a) = Value.ofHost .address (.address a) := by
  have hl : a.bytes.length ≤ Limits.valueBytes := by
    rw [a.length_bytes]
    decide
  exact (if_neg (Nat.not_lt.2 hl)).symm

theorem build_string (s : String) : build .string (.text s) = Value.ofHost .string (.text s) :=
  toValue_limited (f := Text.mk) (fun _ => rfl) (Counted.writeText s)

theorem build_bytes (bs : Bytes) :
    build (.list .byte) (.bytes bs) = Value.ofHost (.list .byte) (.bytes bs) :=
  toValue_limited (f := ByteString.mk) (fun _ => rfl) (Counted.writeBytes bs)

/-! ### Containers -/

section

variable {vs : List Value}

theorem toValue_dynamicArray {item : Ty} (h : ∀ v ∈ vs, v.HasTy item) :
    (DynamicArray.ofItems item vs).map View.toValue =
      Sequence.encode vs >>= fun body =>
        Word.counted vs.length body >>= Value.limited (.list item) := by
  rw [DynamicArray.ofItems_eq_encode h, DynamicArray.encode, Outcome.map_bind]
  -- the count is put in front of the body before the whole is measured
  exact Outcome.bind_congr fun body _ =>
    toValue_limited (f := DynamicArray.mk item) (fun _ => rfl) (Word.counted vs.length body)

theorem toValue_staticArray {item : Ty} {size : Nat} (hl : vs.length = size)
    (h : ∀ v ∈ vs, v.HasTy item) :
    (StaticArray.ofItems item size vs).map View.toValue =
      Sequence.encode vs >>= Value.limited (.array item size) := by
  rw [StaticArray.ofItems_eq_encode hl h]
  exact toValue_limited (f := StaticArray.mk item size) (fun _ => rfl) (Sequence.encode vs)

theorem toValue_tuple (vs : List Value) :
    (Tuple.ofItems vs).map View.toValue =
      Sequence.encode vs >>= Value.limited (.tuple (vs.map (·.ty))) :=
  toValue_limited (f := Tuple.mk (vs.map Value.ty)) (fun _ => rfl) (Sequence.encode vs)

theorem toValue_struct {type : StructType} (h : List.Forall₂ Value.HasTy vs type.types) :
    (Struct.ofValues type vs).map View.toValue =
      Sequence.encode vs >>= Value.limited type.ty := by
  rw [Struct.ofValues_eq_encode h]
  exact toValue_limited (f := Struct.mk type) (fun _ => rfl) (Sequence.encode vs)

end

/-- A row is written by making a sequence of its values. -/
theorem ofHost_row {t : Ty} {n : Host} {ts : List Ty} {ns : List Host} (h : Host.Row t n ts ns) :
    Value.ofHost t n = Host.valuesAs ts ns >>= fun vs => Sequence.encode vs >>= fun body =>
      (if Host.isCounted t then Word.counted ns.length body else .ok body) >>= Value.limited t := by
  rw [Value.ofHost, h.bytesAs_eq, bind_assoc, bind_assoc]

/-- The values of a row of one type are as many as the row is long, and of that type. -/
theorem hasTy_of_valuesAs_replicate {item : Ty} {ns : List Host} {vs : List Value}
    (h : Host.valuesAs (List.replicate ns.length item) ns = .ok vs) :
    vs.length = ns.length ∧ ∀ v ∈ vs, v.HasTy item := by
  have hty := Host.types_of_valuesAs List.length_replicate.symm h
  refine ⟨by rw [← List.length_map (·.ty), hty, List.length_replicate], fun v hv => ?_⟩
  have hmem : v.ty ∈ List.replicate ns.length item := hty ▸ List.mem_map_of_mem hv
  show v.ty.Same item
  rw [List.eq_of_mem_replicate hmem]
  exact Ty.Same.refl item

theorem build_list {item : Ty} {ns : List Host} (hne : item ≠ .byte)
    (h : ∀ n ∈ ns, build item n = Value.ofHost item n) :
    build (.list item) (.list ns) = Value.ofHost (.list item) (.list ns) := by
  have hb : build (.list item) (.list ns) = ns.mapM (build item) >>= fun vs =>
      (DynamicArray.ofItems item vs).map View.toValue := by
    cases item with
    | byte => exact absurd rfl hne
    | _ => rfl
  rw [hb, mapM_build_eq_valuesAs h, ofHost_row (.list item ns)]
  refine Outcome.bind_congr fun vs hvs => ?_
  obtain ⟨hl, hty⟩ := hasTy_of_valuesAs_replicate hvs
  rw [toValue_dynamicArray hty, hl]
  rfl

theorem build_array {item : Ty} {size : Nat} {ns : List Host} (hl : ns.length = size)
    (h : ∀ n ∈ ns, build item n = Value.ofHost item n) :
    build (.array item size) (.list ns) = Value.ofHost (.array item size) (.list ns) := by
  subst hl
  rw [build, mapM_build_eq_valuesAs h, ofHost_row (.array item ns)]
  refine Outcome.bind_congr fun vs hvs => ?_
  obtain ⟨hl, hty⟩ := hasTy_of_valuesAs_replicate hvs
  rw [toValue_staticArray hl hty]
  rfl

theorem build_tuple {items : List Ty} {ns : List Host} (hl : ns.length = items.length)
    (h : ∀ p ∈ items.zip ns, build p.1 p.2 = Value.ofHost p.1 p.2) :
    build (.tuple items) (.tuple ns) = Value.ofHost (.tuple items) (.tuple ns) := by
  rw [build, buildItems_eq_valuesAs h, ofHost_row (.tuple hl)]
  refine Outcome.bind_congr fun vs hvs => ?_
  rw [toValue_tuple, Host.types_of_valuesAs hl hvs]
  rfl

theorem build_struct {name : String} {declared : List (String × Ty)} {frozen : Bool}
    {fields : List (String × Host)} (hn : fields.map (·.1) = declared.map (·.1))
    (h : ∀ p ∈ (declared.map (·.2)).zip (fields.map (·.2)),
      build p.1 p.2 = Value.ofHost p.1 p.2) :
    build (.struct name declared frozen) (.struct fields) =
      Value.ofHost (.struct name declared frozen) (.struct fields) := by
  have hrow : Host.Row (.struct name declared frozen) (.struct fields) _ _ := .struct hn
  rw [build, buildFields_eq, buildItems_eq_valuesAs h, ofHost_row hrow]
  refine Outcome.bind_congr fun vs hvs => ?_
  have hty := Host.types_of_valuesAs hrow.length_eq hvs
  have hall : List.Forall₂ Value.HasTy vs (StructType.mk name declared frozen).types := by
    show List.Forall₂ Value.HasTy vs (declared.map (·.2))
    rw [← hty, List.forall₂_map_right_iff, List.forall₂_same]
    exact fun v _ => Ty.Same.refl v.ty
  rw [toValue_struct hall]
  rfl

/-! ### Every value -/

/-- What is built from the bottom up is what is written at once. -/
theorem build_eq_ofHost {t : Ty} {n : Host} (ht : t.Every Ty.IsStandard) (h : Host.Shaped t n) :
    build t n = Value.ofHost t n := by
  -- on the shape: it has the host values of the children, one constructor for each wrapper
  induction h with
  | uint width i => exact build_uint ht.self i
  | byte hi => exact build_byte hi
  | bool b => cases b <;> rfl
  | ufixed width precision literal => exact build_ufixed ht.self.1 ht.self.2 literal
  | address a => exact build_address a
  | string s => exact build_string s
  | bytes bs => exact build_bytes bs
  | list hne _ ih => exact build_list hne fun n hn => ih n hn (Ty.every_list.1 ht).2
  | array hl _ ih => exact build_array hl fun n hn => ih n hn (Ty.every_array.1 ht).2
  | tuple hl _ ih =>
    exact build_tuple hl fun p hp => ih p hp ((Ty.every_tuple.1 ht).2 p.1 (List.of_mem_zip hp).1)
  | struct hn _ ih =>
    refine build_struct hn fun p hp => ih p hp ?_
    exact List.forall_mem_map.2 (Ty.every_struct.1 ht).2 p.1 (List.of_mem_zip hp).1

/-! ## Reading -/

/-- The fields are read as the items of a tuple, with their names beside them. -/
theorem readFields_zip (fs : List (String × Ty)) (vs : List Value) :
    readFields fs ((fs.map (·.1)).zip vs) =
      (readItems (fs.map (·.2)) vs).map fun ns => (fs.map (·.1)).zip ns := by
  induction fs generalizing vs with
  | nil => rfl
  | cons f fs ih =>
    cases vs with
    | nil => rfl
    | cons v vs =>
      rw [List.map_cons, List.map_cons, List.zip_cons_cons, readFields, readItems, ih,
        Outcome.map_bind]
      refine Outcome.bind_congr fun n _ => ?_
      cases readItems (fs.map (·.2)) vs <;> rfl

theorem readItems_replicate (item : Ty) (vs : List Value) :
    readItems (List.replicate vs.length item) vs = vs.mapM (read item) := by
  induction vs with
  | nil => rfl
  | cons v vs ih => rw [List.length_cons, List.replicate_succ, readItems, ih, List.mapM_cons]

/-- The induction hypothesis of a container: its children are read as they are decoded. -/
def Agrees (t : Ty) : Prop := ∀ bs, read t ⟨t, bs⟩ = Host.decode t bs

theorem readItems_zipWith {ts : List Ty} (h : ∀ t ∈ ts, Agrees t) (bss : List Bytes) :
    readItems ts (List.zipWith Value.mk ts bss) = Host.decodeItems ts bss := by
  induction ts generalizing bss with
  | nil => rfl
  | cons t ts ih =>
    rw [List.forall_mem_cons] at h
    cases bss with
    | nil => rfl
    | cons bs bss => rw [List.zipWith_cons_cons, readItems, Host.decodeItems, h.1, ih h.2]

/-- A row is decoded by cutting its body into values and reading these. -/
theorem decode_readItems {ts : List Ty} (h : ∀ t ∈ ts, Agrees t) (body : Bytes) :
    Sequence.decode ts body >>= readItems ts = Host.decodeRow ts body := by
  unfold Sequence.decode Host.decodeRow
  rw [bind_assoc]
  exact Outcome.bind_congr fun bss _ => readItems_zipWith h bss

theorem decode_mapM_read {item : Ty} (h : Agrees item) (count : Nat) (body : Bytes) :
    Sequence.decode (List.replicate count item) body >>= (fun vs => vs.mapM (read item)) =
      Host.decodeRow (List.replicate count item) body := by
  rw [← decode_readItems fun t ht => List.eq_of_mem_replicate ht ▸ h]
  refine Outcome.bind_congr fun vs hvs => ?_
  have hl : vs.length = count := by rw [Sequence.length_decode hvs, List.length_replicate]
  rw [← hl, readItems_replicate]

theorem agrees_list {item : Ty} (h : Agrees item) : Agrees (.list item) := by
  intro bs
  by_cases hne : item = .byte
  · subst hne
    rfl
  have hr : read (.list item) ⟨.list item, bs⟩ = DynamicArray.items ⟨item, bs⟩ >>= fun vs =>
      (vs.mapM (read item)).map .list := by
    cases item with
    | byte => exact absurd rfl hne
    | _ => rfl
  rw [hr, DynamicArray.items, Host.decode_list_of_ne hne, bind_assoc]
  refine Outcome.bind_congr fun x _ => ?_
  rw [← Outcome.map_bind, decode_mapM_read h, Host.decodeRow_replicate, Outcome.map_bind]
  rfl

theorem agrees_array {item : Ty} (h : Agrees item) (size : Nat) : Agrees (.array item size) := by
  intro bs
  have hr : read (.array item size) ⟨.array item size, bs⟩ =
      StaticArray.items ⟨item, size, bs⟩ >>= fun vs => (vs.mapM (read item)).map .list := rfl
  rw [hr, StaticArray.items, Host.decode, bind_assoc]
  refine Outcome.bind_congr fun ts hts => ?_
  rw [Ty.eq_replicate_of_repeated hts, ← Outcome.map_bind, decode_mapM_read h,
    Host.decodeRow_replicate, Outcome.map_bind, List.map_replicate]
  rfl

theorem agrees_tuple {items : List Ty} (h : ∀ t ∈ items, Agrees t) : Agrees (.tuple items) := by
  intro bs
  have hr : read (.tuple items) ⟨.tuple items, bs⟩ =
      Sequence.decode items bs >>= fun vs => (readItems items vs).map .tuple := rfl
  have hb : (Ty.tuple items).body? bs = some (items, bs) := rfl
  rw [hr, Host.decode_of_body hb, ← decode_readItems h, Outcome.map_bind]
  rfl

theorem agrees_struct {name : String} {declared : List (String × Ty)} {frozen : Bool}
    (h : ∀ f ∈ declared, Agrees f.2) : Agrees (.struct name declared frozen) := by
  intro bs
  have hr : read (.struct name declared frozen) ⟨.struct name declared frozen, bs⟩ =
      Sequence.decode (declared.map (·.2)) bs >>= fun vs =>
        (readFields declared ((declared.map (·.1)).zip vs)).map .struct := by
    show (Struct.mk ⟨name, declared, frozen⟩ bs).fields >>= _ = _
    rw [Struct.fields, bind_assoc]
    rfl
  have hb : (Ty.struct name declared frozen).body? bs = some (declared.map (·.2), bs) := rfl
  rw [hr, Host.decode_of_body hb, ← decode_readItems (List.forall_mem_map.2 h), Outcome.map_bind]
  refine Outcome.bind_congr fun vs _ => ?_
  rw [readFields_zip, Outcome.map_map]
  rfl

/-- What is read from the top down is what is decoded at once. -/
theorem read_eq_decode (t : Ty) (bs : Bytes) : read t ⟨t, bs⟩ = Host.decode t bs := by
  suffices h : Agrees t from h bs
  induction t using Ty.induction with
  | list item ih => exact agrees_list ih
  | array item size ih => exact agrees_array ih size
  | tuple items ih => exact agrees_tuple ih
  | struct name declared frozen ih => exact agrees_struct ih
  | ufixed width precision =>
    intro bs
    show ((Scalar.readUInt width bs >>= _).map Host.decimal : Except Error Host) = _
    rw [Outcome.map_bind]
    rfl
  | _ => exact fun bs => rfl

end Typed

/-! ## What is decoded -/

namespace Host

theorem shaped_of_decodeItems {ts : List Ty} {bss : List Bytes} {ns : List Host}
    (ht : ∀ t ∈ ts, ∀ bs n, decode t bs = .ok n → Shaped t n) (h : decodeItems ts bss = .ok ns) :
    ∀ p ∈ ts.zip ns, Shaped p.1 p.2 := by
  induction ts generalizing bss ns with
  | nil => exact fun p hp => absurd hp List.not_mem_nil
  | cons t ts ih =>
    rw [List.forall_mem_cons] at ht
    cases bss with
    | nil =>
      cases h
      exact fun p hp => absurd hp List.not_mem_nil
    | cons bs bss =>
      obtain ⟨n, ms, rfl, hn, hms⟩ := decodeItems_cons_eq_ok_iff.1 h
      exact List.forall_mem_cons.2 ⟨ht.1 bs n hn, ih ht.2 hms⟩

theorem forall_shaped_of_replicate {item : Ty} {count : Nat} {ns : List Host}
    (hl : ns.length = count) (h : ∀ p ∈ (List.replicate count item).zip ns, Shaped p.1 p.2) :
    ∀ n ∈ ns, Shaped item n := by
  subst hl
  rw [zip_replicate_length, List.forall_mem_map] at h
  exact h

theorem shaped_of_isPlain {t : Ty} (ht : t.isPlain = true) {bs : Bytes} {n : Host}
    (h : decode t bs = .ok n) : Shaped t n := by
  cases t with
  | uint width =>
    obtain ⟨_, _, rfl⟩ := decode_uint_eq_ok_iff.1 h
    exact .uint width _
  | byte =>
    obtain ⟨i, hi, rfl⟩ := exists_of_decode_byte h
    exact .byte hi
  | bool =>
    obtain ⟨_, _, rfl⟩ := decode_bool_eq_ok_iff.1 h
    exact .bool _
  | ufixed width precision =>
    obtain ⟨_, _, rfl⟩ := decode_ufixed_eq_ok_iff.1 h
    exact .ufixed width precision _
  | address =>
    obtain ⟨a, _, rfl⟩ := decode_address_eq_ok_iff.1 h
    exact .address a
  | string =>
    obtain ⟨s, _, rfl⟩ := decode_string_eq_ok_iff.1 h
    exact .string s
  | list item =>
    obtain rfl : item = .byte := of_decide_eq_true ht
    obtain ⟨cs, _, rfl⟩ := decode_bytes_eq_ok_iff.1 h
    exact .bytes cs
  | _ => cases ht

/-- Whatever is decoded is in the one spelling. -/
theorem shaped_of_decode (t : Ty) (bs : Bytes) (n : Host) (h : decode t bs = .ok n) :
    Shaped t n := by
  -- the children of a list are known from its bytes only, so the induction is over bodies
  induction t using Ty.body_induction generalizing bs n with
  | step t ih =>
    cases ht : t.isPlain with
    | true => exact shaped_of_isPlain ht h
    | false =>
      obtain ⟨ts, body, ns, hb, hrow, rfl⟩ := exists_body_of_decode ht h
      obtain ⟨bss, _, hns⟩ := Outcome.bind_eq_ok_iff.1 hrow
      have hl := length_of_decodeRow hrow
      have hall := shaped_of_decodeItems (ih bs ts body hb) hns
      cases t with
      | list item =>
        obtain ⟨hne, count, _, rfl⟩ := Ty.body?_list_eq_some_iff.1 hb
        rw [List.length_replicate] at hl
        exact .list hne (forall_shaped_of_replicate hl hall)
      | array item size =>
        obtain rfl := Ty.eq_replicate_of_repeated (Ty.body?_array_eq_some_iff.1 hb).1
        rw [List.length_replicate] at hl
        exact .array hl (forall_shaped_of_replicate hl hall)
      | tuple items =>
        cases hb
        exact .tuple hl hall
      | struct name declared frozen =>
        cases hb
        have hzip : (declared.map (·.1)).length = ns.length := by
          rw [hl, List.length_map, List.length_map]
        refine .struct (List.map_fst_zip hzip.le) ?_
        rwa [List.map_snd_zip hzip.ge]
      | _ => cases ht

end Host

namespace Typed

/-- The typed wrappers are the host codec: what they build of a host value is what is encoded of it,
and what they read from bytes is what is decoded from them. -/
theorem build_and_read (t : Ty) :
    (t.Every Ty.IsStandard → ∀ n, Host.Shaped t n →
      (build t n).map (·.bytes) = Host.encode t n ∧ ∀ v, build t n = .ok v → v.ty = t) ∧
    (∀ bs n, Host.decode t bs = .ok n → Host.Shaped t n) ∧
    ∀ bs, read t ⟨t, bs⟩ = Host.decode t bs := by
  refine ⟨fun ht n hn => ?_, Host.shaped_of_decode t, read_eq_decode t⟩
  rw [build_eq_ofHost ht hn]
  refine ⟨?_, fun v hv => (Host.ofHost_eq_ok_iff.1 hv).2.2⟩
  rw [Host.encode, Outcome.bind_pure_eq_map]

/-- A tuple of single bytes, raw bytes, a struct and an array is built and read through five kinds
of wrappers; a number that is too large for its width is refused with the same complaint. -/
theorem build_and_read_nested :
    let t : Ty := .tuple [.byte, .list .byte,
      .struct "Entry" [("on", .bool), ("note", .string)] false, .array (.uint 16) 2]
    let n (i : Nat) : Host := .tuple [.int 7, .bytes [1, 2],
      .struct [("on", .bool true), ("note", .text "a")], .list [.int 1, .int i]]
    let bs : Bytes := [7, 0, 9, 0, 13, 0, 1, 0, 2, 0, 2, 1, 2, 0x80, 0, 3, 0, 1, 97]
    t.Every Ty.IsStandard ∧ (∀ i, Host.Shaped t (n i)) ∧
      (build t (n 2)).map (·.bytes) = .ok bs ∧ read t ⟨t, bs⟩ = .ok (n 2) ∧
      (build t (n 65536)).map (·.bytes) = .error (.range "uint16" "65536") := by
  intro t n bs
  have ht : t.Every Ty.IsStandard := by decide
  have hn : ∀ i, Host.Shaped t (n i) := by
    intro i
    have hentry : Host.Shaped (.struct "Entry" [("on", .bool), ("note", .string)] false)
        (.struct [("on", .bool true), ("note", .text "a")]) :=
      .struct rfl (List.forall_mem_cons.2 ⟨.bool true, List.forall_mem_singleton.2 (.string "a")⟩)
    have hcounts : Host.Shaped (.array (.uint 16) 2) (.list [.int 1, .int i]) :=
      .array rfl (List.forall_mem_cons.2 ⟨.uint 16 1, List.forall_mem_singleton.2 (.uint 16 i)⟩)
    exact .tuple rfl (List.forall_mem_cons.2 ⟨.byte (by decide),
      List.forall_mem_cons.2 ⟨.bytes [1, 2],
        List.forall_mem_cons.2 ⟨hentry, List.forall_mem_singleton.2 hcounts⟩⟩⟩)
  refine ⟨ht, hn, ?_, ?_, ?_⟩
  · rw [((build_and_read t).1 ht _ (hn 2)).1]
    decide +kernel
  · rw [(build_and_read t).2.2]
    decide +kernel
  · rw [((build_and_read t).1 ht _ (hn 65536)).1]
    decide +kernel

end Typed

end Abi
