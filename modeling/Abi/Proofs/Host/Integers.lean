/-
  Integers of every width that a type can have, also of no whole bytes.

  The range of an integer type is one of bits, and what is written is as many bytes as fit into
  them. Only the parser and the checked constructors insist on whole bytes, so a type can have bits
  to spare; a number that needs them is within range, and the spare bits are dropped without a word.

  A decimal is written as its scaled integer. Both kinds are treated alike here: a host value gives
  the type an integer (`Gives`), and an integer that is read is shown as a host value (`shown`).

  * `encode_of_lt`, `encode_of_le`: what is written, and what is out of range.
  * `integers_keep_whole_bytes`: what comes back is the number modulo the power of 256, so that all
    numbers come back exactly if the width has no bits to spare.
  * `not_restored_of_spare_bits`: a number of twelve bits that does not come back.
-/
import Abi.Proofs.Host.Decode
import Abi.Proofs.Host.RoundTrip
import Abi.Proofs.Numeral.Literals

namespace Abi

namespace Host

/-- The type is one of integers of so many bits, or of decimals that are held in such an integer. -/
inductive HasWidth (width : Nat) : Ty → Prop where
  | uint : HasWidth width (.uint width)
  | ufixed (precision : Nat) : HasWidth width (.ufixed width precision)

/-- The host value gives the type an integer: itself, or the scaled integer of its literal. -/
inductive Gives : Ty → Host → Nat → Prop where
  | uint (width n : Nat) : Gives (.uint width) (.int n) n
  | ufixed (width : Nat) {precision : Nat} {l : FixedPoint.Literal} {s : String} : l.Spells s →
    l.fraction.length ≤ precision → Gives (.ufixed width precision) (.decimal s) (l.scaled precision)

/-- The host value as which an integer of the type comes back. -/
def shown : Ty → Nat → Host
  | .ufixed _ precision, n => .decimal (FixedPoint.write precision n)
  | _, n => .int n

section

variable {width n : Nat} {t : Ty} {h : Host}

theorem HasWidth.decode_eq (ht : HasWidth width t) (bs : Bytes) :
    decode t bs = (Scalar.readUInt width bs).map (shown t) := by
  cases ht with
  | uint => rw [decode]; rfl
  | ufixed precision => rw [decode]; exact Outcome.bind_pure_eq_map _ _

theorem two_pow_le_bound (hw : width ≤ Limits.width) : 2 ^ width ≤ FixedPoint.bound :=
  Nat.pow_le_pow_right (by decide) hw

/-! ## Writing -/

/-- An integer within the range of bits is written in whole bytes. -/
theorem HasWidth.encode_of_lt (ht : HasWidth width t) (hw : width ≤ Limits.width) (hg : Gives t h n)
    (hn : n < 2 ^ width) : encode t h = .ok (BigEndian.encode (width / 8) n) := by
  have hbytes : bytesAs t h = .ok (BigEndian.encode (width / 8) n) := by
    cases ht with
    | uint =>
      cases hg
      exact bytesAs_uint_eq_ok_iff.2 ⟨n, rfl, hn, rfl⟩
    | ufixed precision =>
      cases hg with
      | @ufixed _ _ l s hl hfit =>
        have hread := ((FixedPoint.readsLiterals precision s).ok_iff _).2
          ⟨l, hl, hfit, rfl, Nat.lt_of_lt_of_le hn (two_pow_le_bound hw)⟩
        exact bytesAs_ufixed_eq_ok_iff.2 ⟨s, _, rfl, hread, hn, rfl⟩
  have hlength : width / 8 ≤ Limits.valueBytes :=
    Nat.le_trans (Nat.div_le_self width 8) (Nat.le_trans hw (by decide))
  exact encode_eq_ok_iff.2 ⟨hbytes, by rwa [BigEndian.length_encode]⟩

theorem encode_of_bytesAs_error {e : Error} (he : bytesAs t h = .error e) :
    encode t h = .error e := by
  unfold encode Value.ofHost
  rw [he]
  rfl

/-- Any larger integer is out of range. -/
theorem HasWidth.encode_of_le (ht : HasWidth width t) (hg : Gives t h n) (hn : 2 ^ width ≤ n) :
    ∃ type value, encode t h = .error (.range type value) := by
  have hrange : ∀ type, Scalar.writeUInt type width n = .error (.range type (toString n)) :=
    fun type => if_neg (Nat.not_lt_of_le hn)
  cases ht with
  | uint =>
    cases hg
    exact ⟨_, _, encode_of_bytesAs_error (hrange _)⟩
  | ufixed precision =>
    cases hg with
    | @ufixed _ _ l s hl hfit =>
      -- a literal may be too large for every type already
      by_cases hb : l.scaled precision < FixedPoint.bound
      · have hread := ((FixedPoint.readsLiterals precision s).ok_iff _).2 ⟨l, hl, hfit, rfl, hb⟩
        have hbytes : bytesAs (.ufixed width precision) (.decimal s) =
            Scalar.writeUInt (Ty.ufixed width precision).name width (l.scaled precision) := by
          rw [bytesAs, hread, Outcome.ok_bind]
        exact ⟨_, _, encode_of_bytesAs_error (hbytes.trans (hrange _))⟩
      · have hread := (FixedPoint.readsLiterals precision s).range l hl hfit (Nat.le_of_not_lt hb)
        refine ⟨"ufixed", s, encode_of_bytesAs_error ?_⟩
        rw [bytesAs, hread, Outcome.error_bind]

/-! ## Reading back -/

/-- Every integer of the range is given by some host value. -/
theorem HasWidth.exists_gives (ht : HasWidth width t) (hn : n < FixedPoint.bound) :
    ∃ h, Gives t h n := by
  cases ht with
  | uint => exact ⟨_, .uint width n⟩
  | ufixed precision =>
    obtain ⟨l, hl, hfit, rfl, _⟩ :=
      ((FixedPoint.readsLiterals precision _).ok_iff n).1 (FixedPoint.read_write hn)
    exact ⟨_, .ufixed width hl hfit⟩

/-- Two integers of the range look different. -/
theorem HasWidth.shown_inj {m : Nat} (ht : HasWidth width t) (hm : m < FixedPoint.bound)
    (hn : n < FixedPoint.bound) (h : shown t m = shown t n) : m = n := by
  cases ht with
  | uint => exact Host.int.inj h
  | ufixed precision =>
    have hread : FixedPoint.read precision _ = .ok m := FixedPoint.read_write hm
    rw [Host.decimal.inj h, FixedPoint.read_write hn] at hread
    exact (Except.ok.inj hread).symm

theorem HasWidth.decode_encode (ht : HasWidth width t) (hw : width ≤ Limits.width) (n : Nat) :
    decode t (BigEndian.encode (width / 8) n) = .ok (shown t (n % 256 ^ (width / 8))) := by
  rw [ht.decode_eq, readUInt_encode_mod hw]
  rfl

/-- Integers of the type keep what whole bytes hold of them: those within the range of bits are
written, in as many bytes as are whole, and come back modulo the power of 256, the others are out of
range. One comes back as it is exactly if the bytes can hold it, and all do exactly if the width has
no bits to spare. -/
structure KeepsWholeBytes (width : Nat) (t : Ty) : Prop where
  written (h : Host) (n : Nat) : Gives t h n → n < 2 ^ width → ∃ bs, encode t h = .ok bs ∧
    bs.length = width / 8 ∧ decode t bs = .ok (shown t (n % 256 ^ (width / 8)))
  refused (h : Host) (n : Nat) : Gives t h n → 2 ^ width ≤ n →
    ∃ type value, encode t h = .error (.range type value)
  restored_iff (h : Host) (n : Nat) (bs : Bytes) : Gives t h n → encode t h = .ok bs →
    (decode t bs = .ok (shown t n) ↔ n < 256 ^ (width / 8))
  all_restored_iff : (∀ h n bs, Gives t h n → encode t h = .ok bs → decode t bs = .ok (shown t n)) ↔
    8 ∣ width

theorem HasWidth.encode_eq_ok_iff (ht : HasWidth width t) (hw : width ≤ Limits.width)
    (hg : Gives t h n) {bs : Bytes} :
    encode t h = .ok bs ↔ n < 2 ^ width ∧ bs = BigEndian.encode (width / 8) n := by
  by_cases hn : n < 2 ^ width
  · rw [ht.encode_of_lt hw hg hn]
    simp [hn, eq_comm]
  · obtain ⟨type, value, he⟩ := ht.encode_of_le hg (Nat.le_of_not_lt hn)
    rw [he]
    simp [hn]

theorem HasWidth.restored_iff (ht : HasWidth width t) (hw : width ≤ Limits.width)
    (hn : n < 2 ^ width) :
    decode t (BigEndian.encode (width / 8) n) = .ok (shown t n) ↔ n < 256 ^ (width / 8) := by
  have hpos : 0 < 256 ^ (width / 8) := Nat.pow_pos (by decide)
  have hb : n < FixedPoint.bound := Nat.lt_of_lt_of_le hn (two_pow_le_bound hw)
  rw [ht.decode_encode hw]
  constructor
  · intro h
    have hmod := ht.shown_inj (Nat.lt_of_le_of_lt (Nat.mod_le n _) hb) hb (Except.ok.inj h)
    rw [← hmod]
    exact Nat.mod_lt n hpos
  · intro h
    rw [Nat.mod_eq_of_lt h]

theorem HasWidth.keepsWholeBytes (ht : HasWidth width t) (hw : width ≤ Limits.width) :
    KeepsWholeBytes width t where
  written h n hg hn :=
    ⟨_, ht.encode_of_lt hw hg hn, BigEndian.length_encode _ _, ht.decode_encode hw n⟩
  refused h n hg hn := ht.encode_of_le hg hn
  restored_iff h n bs hg he := by
    obtain ⟨hn, rfl⟩ := (ht.encode_eq_ok_iff hw hg).1 he
    exact ht.restored_iff hw hn
  all_restored_iff := by
    constructor
    · intro hall
      by_contra hspare
      -- the least number that needs a spare bit
      have hlt : 256 ^ (width / 8) < 2 ^ width := by
        rw [show (256 : Nat) = 2 ^ 8 from rfl, ← Nat.pow_mul]
        exact Nat.pow_lt_pow_right (by decide) (by omega)
      obtain ⟨h, hg⟩ := ht.exists_gives (Nat.lt_of_lt_of_le hlt (two_pow_le_bound hw))
      have hback := hall h _ _ hg (ht.encode_of_lt hw hg hlt)
      exact Nat.lt_irrefl _ ((ht.restored_iff hw hlt).1 hback)
    · intro hwhole h n bs hg he
      obtain ⟨hn, rfl⟩ := (ht.encode_eq_ok_iff hw hg).1 he
      rw [ht.restored_iff hw hn, pow_whole_bytes (Nat.mod_eq_zero_of_dvd hwhole)]
      exact hn

end

/-- Whatever the width, integers and decimals keep what whole bytes hold of them, and lose nothing
exactly if the width is one of whole bytes. -/
theorem integers_keep_whole_bytes (width precision : Nat) (hw : width ≤ Limits.width) :
    KeepsWholeBytes width (.uint width) ∧ KeepsWholeBytes width (.ufixed width precision) :=
  ⟨HasWidth.uint.keepsWholeBytes hw, (HasWidth.ufixed precision).keepsWholeBytes hw⟩

/-- Twelve bits, of which a byte keeps eight: 255 comes back and 256 does not. -/
theorem integers_keep_whole_bytes_twelve :
    12 ≤ Limits.width ∧ Gives (.uint 12) (.int 255) 255 ∧ Gives (.uint 12) (.int 256) 256 ∧
      encode (.uint 12) (.int 255) = .ok [0xff] ∧ encode (.uint 12) (.int 256) = .ok [0x00] ∧
      decode (.uint 12) [0xff] = .ok (shown (.uint 12) 255) ∧
      decode (.uint 12) [0x00] ≠ .ok (shown (.uint 12) 256) ∧
      ∃ type value, encode (.uint 12) (.int 4096) = .error (.range type value) := by
  have hw : 12 ≤ Limits.width := by decide
  have hkeeps := (integers_keep_whole_bytes 12 1 hw).1
  have hlow : encode (.uint 12) (.int 255) = .ok [0xff] := rfl
  have hhigh : encode (.uint 12) (.int 256) = .ok [0x00] := rfl
  refine ⟨hw, .uint 12 255, .uint 12 256, hlow, hhigh, ?_, ?_, ?_⟩
  · exact (hkeeps.restored_iff _ 255 _ (.uint 12 255) hlow).2 (by decide)
  · exact fun h => absurd ((hkeeps.restored_iff _ 256 _ (.uint 12 256) hhigh).1 h) (by decide)
  · exact hkeeps.refused _ 4096 (.uint 12 4096) (by decide)

/-- Not every integer that is written comes back: of twelve bits the upper four are dropped. -/
theorem not_restored_of_spare_bits :
    encode (.uint 12) (.int 2748) = .ok [0xbc] ∧ decode (.uint 12) [0xbc] = .ok (.int 188) ∧
      ¬ ∀ (width n : Nat) (bs : Bytes), width ≤ Limits.width →
        encode (.uint width) (.int n) = .ok bs → decode (.uint width) bs = .ok (.int n) := by
  have hencode : encode (.uint 12) (.int 2748) = .ok [0xbc] := rfl
  have hdecode : decode (.uint 12) [0xbc] = .ok (.int 188) :=
    decode_uint_eq_ok_iff.2 ⟨rfl, by decide, rfl⟩
  refine ⟨hencode, hdecode, fun hall => ?_⟩
  have hback := hall 12 2748 [0xbc] (by decide) hencode
  rw [hdecode] at hback
  cases hback

end Host

end Abi
