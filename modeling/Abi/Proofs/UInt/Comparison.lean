/-
  Integers of all widths are compared as their bytes are.

  The bytes of an integer have their most significant one in front, so that byte strings of one
  length are ordered like the numbers that they denote (`BigEndian.compare_decode`). Integers of
  different widths get there by zeros in front of their bytes, which do not change the number.

  Whether bytes can be read at all is a matter of their length alone. What is said about integers of
  the right length (`Sized`) is therefore about all that can be read, and all others are outside of
  the order (`Unordered`).

  * `ComparedByBytes`, `AtMost.trans`: the order of two integers, and that it is a total preorder.
  * `comparedWithHost`: host integers are compared like integers that hold them.
  * `compared_as_numbers`: these, and integers of a wrong length.
-/
import Abi.Proofs.Host.RoundTrip
import Abi.Proofs.Ty.Parse
import Abi.Typed.UInt

namespace Abi

namespace BigEndian

/-! ## The order of byte strings -/

/-- The digit in front decides, whatever stands behind it. -/
theorem lt_of_digit_lt {a b r s p : Nat} (h : a < b) (hr : r < p) : a * p + r < b * p + s :=
  calc a * p + r < a * p + p := Nat.add_lt_add_left hr _
    _ = (a + 1) * p := (Nat.succ_mul a p).symm
    _ ≤ b * p := Nat.mul_le_mul_right p h
    _ ≤ b * p + s := Nat.le_add_right _ s

/-- Byte strings of one length are ordered like their numbers: by the first byte that differs. -/
theorem compare_decode {xs ys : Bytes} (h : xs.length = ys.length) :
    Ord.compare (decode xs) (decode ys) = Ord.compare xs ys := by
  induction xs generalizing ys with
  | nil =>
    obtain rfl := List.length_eq_zero_iff.1 h.symm
    rfl
  | cons x xs ih =>
    cases ys with
    | nil => cases h
    | cons y ys =>
      have hlength : xs.length = ys.length := Nat.succ.inj h
      have hx := decode_lt xs
      have hy := decode_lt ys
      rw [← hlength] at hy
      rw [decode_cons, decode_cons, ← hlength, List.compare_cons_cons]
      -- the rests are less than a unit of the first bytes, and count only if these are equal
      rcases Nat.lt_trichotomy x.toNat y.toNat with hxy | hxy | hxy
      · rw [Nat.compare_eq_lt.2 (lt_of_digit_lt hxy hx),
          Std.compare_eq_lt.2 (UInt8.lt_iff_toNat_lt.2 hxy), Ordering.lt_then]
      · obtain rfl := UInt8.toNat_inj.1 hxy
        rw [Std.compare_self, Ordering.eq_then, ← ih hlength]
        simp only [Nat.compare_eq_ite_lt, Nat.add_lt_add_iff_left]
      · rw [Nat.compare_eq_gt.2 (lt_of_digit_lt hxy hy),
          Std.compare_eq_gt.2 (UInt8.lt_iff_toNat_lt.2 hxy), Ordering.gt_then]

/-- Zeros in front do not change the number. -/
theorem decode_leftpad (width : Nat) (bs : Bytes) : decode (bs.leftpad width 0) = decode bs := by
  have hzeros (n : Nat) : decode (List.replicate n 0 ++ bs) = decode bs := by
    induction n with
    | zero => rfl
    | succ n ih =>
      rw [List.replicate_succ, List.cons_append, decode_cons, ih, UInt8.toNat_zero, Nat.zero_mul,
        Nat.zero_add]
  exact hzeros _

end BigEndian

namespace UInt

/-- The type is one that the format has, and there are as many bytes as it asks for. -/
structure Sized (u : UInt) : Prop where
  inRange : u.type.ty.InRange
  length : u.bytes.length = u.width / 8

instance (u : UInt) : Decidable u.Sized :=
  decidable_of_iff (u.type.ty.InRange ∧ u.bytes.length = u.width / 8)
    ⟨fun h => ⟨h.1, h.2⟩, fun h => ⟨h.inRange, h.length⟩⟩

/-- The bytes with zeros in front of them, as many together as the widest integer has. -/
def padded (u : UInt) : Bytes := u.bytes.leftpad (Limits.width / 8) 0

/-- Both are numbers, and the first is not larger. -/
def AtMost (u v : UInt) : Prop := ∃ o, u.compare v = .ok o ∧ o.isLE = true

section

variable {u v w : UInt} {n : Nat}

/-! ## Numbers -/

theorem isWidth_of_inRange (h : u.type.ty.InRange) : Ty.IsWidth u.width := by
  obtain ⟨type, bs⟩ := u
  cases type with
  | uint width => exact h
  | byte => exact (by decide : Ty.IsWidth 8)

theorem Sized.length_le (h : u.Sized) : u.bytes.length ≤ Limits.width / 8 := by
  rw [h.length]
  exact Nat.div_le_div_right (isWidth_of_inRange h.inRange).2.2

theorem Sized.decode_eq (h : u.Sized) : u.decode = .ok (BigEndian.decode u.bytes) :=
  Scalar.readUInt_eq_ok_iff.2 ⟨h.length, h.length ▸ h.length_le, rfl⟩

theorem decode_of_length_ne (h : u.bytes.length ≠ u.width / 8) :
    u.decode = .error (.malformed (.uintLength u.width (u.width / 8) u.bytes.length)) :=
  if_neg fun hlength => h hlength.1

theorem compare_of_decode {m : Nat} (hu : u.decode = .ok m) (hv : v.decode = .ok n) :
    u.compare v = .ok (Ord.compare m n) := by
  rw [compare, hu, hv]
  rfl

theorem compare_eq_ok_iff {o : Ordering} : u.compare v = .ok o ↔
    ∃ m n, u.decode = .ok m ∧ v.decode = .ok n ∧ Ord.compare m n = o := by
  constructor
  · intro h
    obtain ⟨m, hu, h⟩ := Outcome.bind_eq_ok_iff.1 h
    obtain ⟨n, hv, h⟩ := Outcome.bind_eq_ok_iff.1 h
    exact ⟨m, n, hu, hv, Except.ok.inj h⟩
  · rintro ⟨m, n, hu, hv, rfl⟩
    exact compare_of_decode hu hv

theorem equal_eq_map : u.equal v = (u.compare v).map fun o => decide (o = .eq) :=
  Outcome.bind_pure_eq_map _ _

theorem equal_eq_true_iff : u.equal v = .ok true ↔ u.compare v = .ok .eq := by
  rw [equal_eq_map, Outcome.map_eq_ok_iff]
  simp

/-! ## A total preorder -/

theorem atMost_iff :
    u.AtMost v ↔ ∃ m n, u.decode = .ok m ∧ v.decode = .ok n ∧ m ≤ n := by
  constructor
  · rintro ⟨o, h, ho⟩
    obtain ⟨m, n, hu, hv, rfl⟩ := compare_eq_ok_iff.1 h
    exact ⟨m, n, hu, hv, Nat.isLE_compare.1 ho⟩
  · rintro ⟨m, n, hu, hv, h⟩
    exact ⟨_, compare_of_decode hu hv, Nat.isLE_compare.2 h⟩

theorem AtMost.trans (huv : u.AtMost v) (hvw : v.AtMost w) : u.AtMost w := by
  obtain ⟨k, m, hu, hv, hkm⟩ := atMost_iff.1 huv
  obtain ⟨m', n, hv', hw, hmn⟩ := atMost_iff.1 hvw
  rw [hv, Except.ok.injEq] at hv'
  exact atMost_iff.2 ⟨k, n, hu, hw, Nat.le_trans hkm (hv' ▸ hmn)⟩

/-! ## Integers of the right length -/

theorem Sized.compare_eq (hu : u.Sized) (hv : v.Sized) :
    u.compare v = .ok (Ord.compare u.padded v.padded) := by
  have hlength : u.padded.length = v.padded.length := by
    rw [padded, padded, List.length_leftpad, List.length_leftpad, Nat.max_eq_left hu.length_le,
      Nat.max_eq_left hv.length_le]
  rw [compare_of_decode hu.decode_eq hv.decode_eq, ← BigEndian.compare_decode hlength, padded,
    padded, BigEndian.decode_leftpad, BigEndian.decode_leftpad]

theorem Sized.compare_swap (hu : u.Sized) (hv : v.Sized) :
    v.compare u = (u.compare v).map Ordering.swap := by
  rw [compare_of_decode hu.decode_eq hv.decode_eq, compare_of_decode hv.decode_eq hu.decode_eq]
  exact congrArg Except.ok (Nat.compare_swap _ _).symm

theorem Sized.atMost_iff (hu : u.Sized) (hv : v.Sized) :
    u.AtMost v ↔ BigEndian.decode u.bytes ≤ BigEndian.decode v.bytes := by
  rw [UInt.atMost_iff, hu.decode_eq, hv.decode_eq]
  simp

theorem Sized.equal_iff (hu : u.Sized) (hv : v.Sized) :
    u.equal v = .ok true ↔ BigEndian.decode u.bytes = BigEndian.decode v.bytes := by
  rw [equal_eq_true_iff, compare_of_decode hu.decode_eq hv.decode_eq, Except.ok.injEq,
    Nat.compare_eq_eq]

/-- Two integers are compared by their bytes, filled up with zeros in front, and the other way round
with the opposite result. One of them is at most the other, and each at most the other exactly if
they are equal as numbers. Equal numbers of one width have equal bytes, and those of one type are
one integer. -/
structure ComparedByBytes (u v : UInt) : Prop where
  compare_eq : u.compare v = .ok (Ord.compare u.padded v.padded)
  swap : v.compare u = (u.compare v).map Ordering.swap
  total : u.AtMost v ∨ v.AtMost u
  equal_iff : ∃ b, u.equal v = .ok b ∧ (b = true ↔ u.AtMost v ∧ v.AtMost u)
  same_width : u.width = v.width → (u.equal v = .ok true ↔ u.bytes = v.bytes)
  same_type : u.type = v.type → (u.equal v = .ok true ↔ u = v)

theorem Sized.bytes_eq_iff (hu : u.Sized) (hv : v.Sized) (hwidth : u.width = v.width) :
    u.equal v = .ok true ↔ u.bytes = v.bytes := by
  rw [hu.equal_iff hv]
  constructor
  · intro h
    exact BigEndian.eq_of_decode_eq (by rw [hu.length, hv.length, hwidth]) h
  · exact congrArg BigEndian.decode

theorem Sized.comparedByBytes (hu : u.Sized) (hv : v.Sized) : ComparedByBytes u v where
  compare_eq := hu.compare_eq hv
  swap := hu.compare_swap hv
  total := by
    rw [hu.atMost_iff hv, hv.atMost_iff hu]
    exact Nat.le_total _ _
  equal_iff := by
    have hequal := hu.equal_iff hv
    rw [equal_eq_map, hu.compare_eq hv] at hequal ⊢
    refine ⟨_, rfl, ?_⟩
    rw [hu.atMost_iff hv, hv.atMost_iff hu, ← Nat.le_antisymm_iff, ← hequal]
    exact ⟨congrArg Except.ok, Except.ok.inj⟩
  same_width := hu.bytes_eq_iff hv
  same_type htype := by
    rw [hu.bytes_eq_iff hv (congrArg IntTy.width htype)]
    obtain ⟨type, bs⟩ := u
    obtain ⟨_, cs⟩ := v
    obtain rfl : type = _ := htype
    exact ⟨congrArg (UInt.mk type), congrArg UInt.bytes⟩

/-! ## Host integers -/

/-- An integer is compared with a host integer as with any integer that holds it, also if its bytes
are no number. It fits into eight bytes exactly if it is at most the largest host integer that does,
and then it is itself that comes out. -/
structure ComparedWithHost (u : UInt) : Prop where
  compareNat?_eq (n : Nat) (v : UInt) : v.decode = .ok n → u.compareNat? n = (u.compare v).toOption
  isNat_iff (n : Nat) (v : UInt) : v.decode = .ok n → (u.isNat n = true ↔ u.equal v = .ok true)
  asWord64_isOk_iff : (∃ n, u.asWord64 = .ok n) ↔
    ∃ o, u.compareNat? maxWord64 = some o ∧ o.isLE = true
  asWord64_eq (n : Nat) : u.asWord64 = .ok n → u.decode = .ok n

theorem asWord64_eq_ok_iff : u.asWord64 = .ok n ↔ u.decode = .ok n ∧ n ≤ maxWord64 := by
  rw [asWord64, Outcome.bind_eq_ok_iff]
  constructor
  · rintro ⟨m, hm, h⟩
    split at h
    · cases h
      exact ⟨hm, by assumption⟩
    · cases h
  · rintro ⟨hn, hle⟩
    exact ⟨n, hn, if_pos hle⟩

theorem compareNat?_eq_some_iff {o : Ordering} :
    u.compareNat? n = some o ↔ ∃ m, u.decode = .ok m ∧ Ord.compare m n = o := by
  unfold compareNat?
  cases u.decode <;> simp

theorem isNat_iff_decode : u.isNat n = true ↔ u.decode = .ok n := by
  unfold isNat
  cases u.decode <;> simp

theorem comparedWithHost (u : UInt) : ComparedWithHost u where
  compareNat?_eq n v hv := by
    unfold compareNat? compare
    rw [hv]
    cases u.decode <;> rfl
  isNat_iff n v hv := by
    rw [isNat_iff_decode, equal_eq_true_iff, compare_eq_ok_iff]
    constructor
    · intro hu
      exact ⟨n, n, hu, hv, Nat.compare_eq_eq.2 rfl⟩
    · rintro ⟨m, n', hu, hv', hmn⟩
      rw [hv, Except.ok.injEq] at hv'
      rw [hu, Nat.compare_eq_eq.1 hmn, hv']
  asWord64_isOk_iff := by
    simp only [asWord64_eq_ok_iff, compareNat?_eq_some_iff]
    constructor
    · rintro ⟨n, hn, hle⟩
      exact ⟨_, ⟨n, hn, rfl⟩, Nat.isLE_compare.2 hle⟩
    · rintro ⟨_, ⟨n, hn, rfl⟩, hle⟩
      exact ⟨n, hn, Nat.isLE_compare.1 hle⟩
  asWord64_eq n h := (asWord64_eq_ok_iff.1 h).1

theorem ofNat_eq_ok_iff {width : Nat} : ofNat width n = .ok v ↔
    Ty.IsWidth width ∧ n < 2 ^ width ∧ v = ⟨.uint width, BigEndian.encode (width / 8) n⟩ := by
  unfold ofNat
  simp only [Outcome.bind_eq_ok_iff, Ty.ofWidth_eq_ok_iff, Scalar.writeUInt_eq_ok_iff]
  constructor
  · rintro ⟨_, ⟨hwidth, rfl⟩, _, ⟨hn, rfl⟩, h⟩
    exact ⟨hwidth, hn, (Except.ok.inj h).symm⟩
  · rintro ⟨hwidth, hn, rfl⟩
    exact ⟨_, ⟨hwidth, rfl⟩, _, ⟨hn, rfl⟩, rfl⟩

/-- An integer that is made of a host integer has the right length and holds it. -/
theorem holds_of_ofNat {width : Nat} (h : ofNat width n = .ok v) : v.Sized ∧ v.decode = .ok n := by
  obtain ⟨hwidth, hn, rfl⟩ := ofNat_eq_ok_iff.1 h
  exact ⟨⟨hwidth, BigEndian.length_encode _ _⟩, Host.readUInt_encode hwidth hn⟩

/-! ## Integers of a wrong length -/

/-- The integer equals no host integer and is before or behind none, and whatever compares it with
another or asks for its number fails. -/
structure Unordered (u : UInt) : Prop where
  isNat_eq (n : Nat) : u.isNat n = false
  compareNat?_eq (n : Nat) : u.compareNat? n = none
  compare_left (v : UInt) : ∃ cause, u.compare v = .error (.malformed cause)
  compare_right (v : UInt) : ∃ cause, v.compare u = .error (.malformed cause)
  asWord64_eq : ∃ cause, u.asWord64 = .error (.malformed cause)

theorem malformed_of_decode {e : Error} (h : u.decode = .error e) :
    ∃ cause, e = .malformed cause := by
  unfold decode Scalar.readUInt at h
  split at h
  · cases h
  · cases h
    exact ⟨_, rfl⟩

theorem unordered_of_decode {cause : Malformed} (h : u.decode = .error (.malformed cause)) :
    Unordered u where
  isNat_eq n := by rw [isNat, h]
  compareNat?_eq n := by rw [compareNat?, h]
  compare_left v := ⟨cause, by rw [compare, h]; rfl⟩
  compare_right v := by
    cases hv : v.decode with
    | error e =>
      -- the complaint is about the other one
      obtain ⟨other, rfl⟩ := malformed_of_decode hv
      exact ⟨other, by rw [compare, hv]; rfl⟩
    | ok n => exact ⟨cause, by rw [compare, hv, h]; rfl⟩
  asWord64_eq := ⟨cause, by rw [asWord64, h]; rfl⟩

end

/-! ## All integers -/

/-- Integers of the right length are compared by their bytes, whatever their widths, and this is a
total preorder. Host integers are held by integers and compared like these. Integers of a wrong
length stand outside of all this. -/
theorem compared_as_numbers :
    (∀ u v : UInt, u.Sized → v.Sized → ComparedByBytes u v) ∧
    (∀ u v w : UInt, u.AtMost v → v.AtMost w → u.AtMost w) ∧
    (∀ n, n < 2 ^ Limits.width →
      ∃ v, ofNat Limits.width n = .ok v ∧ v.Sized ∧ v.decode = .ok n) ∧
    (∀ u, ComparedWithHost u) ∧
    ∀ u : UInt, u.bytes.length ≠ u.width / 8 → Unordered u :=
  ⟨fun _ _ hu hv => hu.comparedByBytes hv, fun _ _ _ => AtMost.trans, fun _ hn =>
    have hmade := ofNat_eq_ok_iff.2 ⟨by decide, hn, rfl⟩
    ⟨_, hmade, holds_of_ofNat hmade⟩,
    comparedWithHost, fun _ hu => unordered_of_decode (decode_of_length_ne hu)⟩

/-- 255 in a byte, 256 in two and in 64 bytes, and a power of 256 that nine bytes hold and eight do
not; one byte for a type of two is no number. -/
theorem compared_as_numbers_mixed :
    let small : UInt := ⟨.byte, [255]⟩
    let wide : UInt := ⟨.uint 16, [1, 0]⟩
    let wider : UInt := ⟨.uint 72, [1, 0, 0, 0, 0, 0, 0, 0, 0]⟩
    let short : UInt := ⟨.uint 16, [7]⟩
    small.Sized ∧ wide.Sized ∧ wider.Sized ∧ wide.compare small = .ok .gt ∧ small.AtMost wider ∧
      (256 < 2 ^ Limits.width ∧ ∃ v, ofNat Limits.width 256 = .ok v ∧ wide.equal v = .ok true) ∧
      (¬ ∃ n, wider.asWord64 = .ok n) ∧ short.bytes.length ≠ short.width / 8 ∧
      Unordered short := by
  intro small wide wider short
  obtain ⟨hbytes, htrans, hholds, hhost, hshort⟩ := compared_as_numbers
  have hsmall : small.Sized := by decide
  have hwide : wide.Sized := by decide
  have hwider : wider.Sized := by decide
  have hlength : short.bytes.length ≠ short.width / 8 := by decide
  have hbound : 256 < 2 ^ Limits.width := by decide +kernel
  obtain ⟨v, hv, _, hdecode⟩ := hholds 256 hbound
  have hsmallest : small.AtMost wide := ⟨.lt, (hbytes _ _ hsmall hwide).compare_eq, rfl⟩
  have hlargest : wide.AtMost wider := ⟨.lt, (hbytes _ _ hwide hwider).compare_eq, rfl⟩
  refine ⟨hsmall, hwide, hwider, (hbytes _ _ hwide hsmall).compare_eq,
    htrans _ _ _ hsmallest hlargest, ⟨hbound, v, hv, ?_⟩, ?_, hlength, hshort _ hlength⟩
  · exact ((hhost wide).isNat_iff 256 v hdecode).1 (by decide)
  · rw [(hhost wider).asWord64_isOk_iff]
    decide

end UInt

end Abi
