/-
  Which texts are read as an address.

  The 36 bytes of an address and its checksum have two bits fewer than the 58 characters of its
  text, and the checksum begins in the middle of a character. Reading passes over the two bits that
  are left in the last character. So there are four texts for each address, of which one is written.
  All that is used of a checksum is its length, so this holds for any digest.

  * `ofTextBy_eq_ok_iff`: the texts that are read as an address, by the digit of the last character.
  * `ofTextBy_eq_ok_iff_respells`: the same as a condition on the text and the one that is written.
  * `ncard_textsBy`: these are four.
  * `texts_of_addresses`: the three together, and the complaint about any other text, for the
    addresses of accounts.
-/
import Abi.Address
import Abi.Proofs.Outcome
import Abi.Proofs.Text.Base32
import Mathlib.Data.Set.Card

namespace Abi

/-- A text of characters of one byte each has as many bytes as characters. -/
theorem Utf8.byteSize_eq_length {s : String} (h : ∀ c ∈ s.toList, c.utf8Size = 1) :
    s.utf8ByteSize = s.toList.length := by
  rw [← String.ofList_toList (s := s), String.toList_ofList]
  generalize s.toList = cs at h ⊢
  induction cs with
  | nil => rfl
  | cons c cs ih =>
    rw [List.forall_mem_cons] at h
    rw [String.ofList_cons, String.utf8ByteSize_append, String.utf8ByteSize_singleton, h.1, ih h.2,
      List.length_cons, Nat.add_comm]

theorem Base32.byteSize_eq_length {s : String} (h : ∀ c ∈ s.toList, c ∈ alphabet) :
    s.utf8ByteSize = s.toList.length :=
  Utf8.byteSize_eq_length fun c hc => utf8Size_of_mem_alphabet (h c hc)

namespace Address

variable {digest : Bytes → Digest} {a : Address} {s : String}

/-! ## The text that is written -/

/-- The address and its checksum. -/
def checked (digest : Bytes → Digest) (a : Address) : Bytes := a.bytes ++ a.checksumBy digest

/-- The characters of the text but the last. -/
def front (digest : Bytes → Digest) (a : Address) : List Char :=
  (Base32.encode (a.checked digest)).dropLast

theorem length_checked (a : Address) : (a.checked digest).length = 36 := by
  rw [checked, List.length_append, a.length_bytes, length_checksumBy]
  rfl

theorem length_encode_checked (a : Address) :
    (Base32.encode (a.checked digest)).length = Limits.addressChars := by
  rw [Base32.length_encode, length_checked]
  rfl

theorem length_front (digest : Bytes → Digest) (a : Address) :
    (a.front digest).length + 1 = Limits.addressChars := by
  rw [front, List.length_dropLast, length_encode_checked]
  rfl

/-- The last character of the text has a digit whose two low bits are clear. -/
theorem exists_last (digest : Bytes → Digest) (a : Address) :
    ∃ d < 32, Base32.encode (a.checked digest) =
      a.front digest ++ [Base32.char (Base32.clear 2 d)] := by
  have hne : Base32.encode (a.checked digest) ≠ [] := by
    rw [← List.length_pos_iff, length_encode_checked]
    decide
  have hsplit := List.dropLast_append_getLast hne
  have hback := Base32.decode?_encode (a.checked digest)
  rw [← hsplit] at hback
  obtain ⟨d, hd, htext⟩ := (Base32.decode?_concat_eq_some_iff (by
    rw [length_checked, ← front, length_front]
    rfl)).1 hback
  rw [length_checked] at htext
  exact ⟨d, (Base32.digit?_eq_some_iff.1 hd).1, htext⟩

/-! ## The texts that are read -/

/-- A text is read as an address exactly if it is as long as texts of addresses are and stands for
the address and its checksum. -/
theorem ofTextBy_eq_ok_iff_decode? :
    ofTextBy digest s = .ok a ↔
      s.utf8ByteSize = Limits.addressChars ∧
        Base32.decode? s.toList = some (a.checked digest) := by
  unfold ofTextBy
  by_cases hl : s.utf8ByteSize = Limits.addressChars
  swap
  · rw [if_pos hl]
    exact ⟨nofun, fun h => absurd h.1 hl⟩
  rw [if_neg (not_not.2 hl), and_iff_right hl]
  cases Base32.decode? s.toList with
  | none => exact ⟨nofun, nofun⟩
  | some bs =>
    rw [Option.some.injEq]
    constructor
    · intro h
      obtain ⟨b, hb, h⟩ := Outcome.bind_eq_ok_iff.1 h
      have hbytes := ofBytes_eq_ok_iff.1 hb
      split at h
      · rename_i hsum
        cases h
        rw [checked, hbytes, ← hsum, List.take_append_drop]
      · cases h
    · rintro rfl
      have htake : (a.checked digest).take Limits.addressBytes = a.bytes :=
        List.take_left' a.length_bytes
      have hdrop : (a.checked digest).drop Limits.addressBytes = a.checksumBy digest :=
        List.drop_left' a.length_bytes
      show (ofBytes ((a.checked digest).take Limits.addressBytes) >>= _) = .ok a
      rw [htake, ofBytes_bytes, Outcome.ok_bind, if_pos hdrop]
      rfl

theorem toList_textBy (a : Address) :
    (a.textBy digest).toList = Base32.encode (a.checked digest) := String.toList_ofList

theorem mem_alphabet_textBy (a : Address) :
    ∀ c ∈ (a.textBy digest).toList, c ∈ Base32.alphabet := by
  rw [toList_textBy]
  exact Base32.mem_alphabet_of_decode? (Base32.decode?_encode (a.checked digest))

theorem ofTextBy_textBy (a : Address) : ofTextBy digest (a.textBy digest) = .ok a := by
  refine ofTextBy_eq_ok_iff_decode?.2
    ⟨?_, toList_textBy a ▸ Base32.decode?_encode (a.checked digest)⟩
  rw [Base32.byteSize_eq_length a.mem_alphabet_textBy, toList_textBy, length_encode_checked]

/-- A text is read as an address exactly if it is the one that is written but for the two low bits
of its last character. -/
theorem ofTextBy_eq_ok_iff {d : Nat} (hd : d < 32)
    (htext : Base32.encode (a.checked digest) =
      a.front digest ++ [Base32.char (Base32.clear 2 d)]) :
    ofTextBy digest s = .ok a ↔
      ∃ e < 32, e / 4 = d / 4 ∧ s.toList = a.front digest ++ [Base32.char e] := by
  have hcount : (a.front digest).length + 1 = Base32.charCount (a.checked digest).length := by
    rw [length_front, length_checked]
    rfl
  have hspare : Base32.spare (a.checked digest).length = 2 := by
    rw [length_checked]
    rfl
  rw [ofTextBy_eq_ok_iff_decode?]
  constructor
  · rintro ⟨hsize, hdecode⟩
    have hlength := Base32.byteSize_eq_length (Base32.mem_alphabet_of_decode? hdecode)
    rcases List.eq_nil_or_concat' s.toList with hnil | ⟨cs, c, hcs⟩
    · rw [hnil, hsize] at hlength
      cases hlength
    rw [hcs, List.length_append, List.length_singleton, hsize, ← a.length_front digest] at hlength
    rw [hcs, Base32.decode?_concat_eq_some_iff (by rw [← hcount, hlength]), hspare] at hdecode
    obtain ⟨e, hdigit, hwritten⟩ := hdecode
    obtain ⟨he, rfl⟩ := Base32.digit?_eq_some_iff.1 hdigit
    rw [htext] at hwritten
    obtain ⟨rfl, hlast⟩ := List.append_inj' hwritten rfl
    have hclear := Base32.char_injective (Nat.lt_of_le_of_lt (Base32.clear_le 2 d) hd)
      (Nat.lt_of_le_of_lt (Base32.clear_le 2 e) he) (List.singleton_inj.1 hlast)
    have hquot : e / 2 ^ 2 = d / 2 ^ 2 := by
      rw [← Base32.clear_div 2 d, hclear, Base32.clear_div]
    exact ⟨e, he, hquot, hcs⟩
  · rintro ⟨e, he, hquot, hs⟩
    have hclear : Base32.clear 2 e = Base32.clear 2 d := congrArg (· * 4) hquot
    have hdecode : Base32.decode? s.toList = some (a.checked digest) := by
      rw [hs, Base32.decode?_concat_eq_some_iff hcount, hspare]
      exact ⟨e, Base32.digit?_char e he, hclear ▸ htext⟩
    refine ⟨?_, hdecode⟩
    rw [Base32.byteSize_eq_length (Base32.mem_alphabet_of_decode? hdecode), hs, List.length_append,
      List.length_singleton, length_front]

/-! ## A condition on the text -/

/-- The three high bits of a character, if it is in the alphabet. -/
def highBits? (c : Char) : Option Nat := (Base32.digit? c).map (· / 4)

theorem highBits?_char {d : Nat} (hd : d < 32) : highBits? (Base32.char d) = some (d / 4) := by
  rw [highBits?, Base32.digit?_char d hd, Option.map_some]

/-- The text has the characters of the one that is written, except that two bits of its last
character do not matter. -/
structure Respells (s written : String) : Prop where
  length : s.toList.length = Limits.addressChars
  alphabet : ∀ c ∈ s.toList, c ∈ Base32.alphabet
  front : s.toList.take (Limits.addressChars - 1) = written.toList.take (Limits.addressChars - 1)
  last : s.toList.getLast?.bind highBits? = written.toList.getLast?.bind highBits?

theorem take_concat_of_length {cs : List Char} (h : cs.length + 1 = Limits.addressChars)
    (c : Char) : (cs ++ [c]).take (Limits.addressChars - 1) = cs :=
  List.take_left' (Nat.eq_sub_of_add_eq h)

theorem ofTextBy_eq_ok_iff_respells :
    ofTextBy digest s = .ok a ↔ Respells s (a.textBy digest) := by
  obtain ⟨d, hd, htext⟩ := a.exists_last digest
  have hfront := take_concat_of_length (a.length_front digest)
  have hclear : Base32.clear 2 d / 4 = d / 4 := Base32.clear_div 2 d
  have hlast : highBits? (Base32.char (Base32.clear 2 d)) = some (d / 4) := by
    rw [highBits?_char (Nat.lt_of_le_of_lt (Base32.clear_le 2 d) hd), hclear]
  have hchars : (a.textBy digest).toList = a.front digest ++ [Base32.char (Base32.clear 2 d)] :=
    a.toList_textBy.trans htext
  rw [ofTextBy_eq_ok_iff hd htext]
  constructor
  · rintro ⟨e, he, hquot, hs⟩
    have hmem : ∀ c ∈ a.front digest, c ∈ Base32.alphabet := fun c hc =>
      a.mem_alphabet_textBy c (hchars ▸ List.mem_append_left _ hc)
    constructor
    · rw [hs, List.length_append, List.length_singleton, length_front]
    · rw [hs, List.forall_mem_append, List.forall_mem_singleton]
      exact ⟨hmem, Base32.mem_alphabet_iff.2 ⟨e, he, rfl⟩⟩
    · rw [hs, hchars, hfront, hfront]
    · rw [hs, hchars, List.getLast?_concat, List.getLast?_concat, Option.bind_some,
        Option.bind_some, highBits?_char he, hlast, hquot]
  · rintro ⟨hlength, halphabet, htake, hbits⟩
    rcases List.eq_nil_or_concat' s.toList with hnil | ⟨cs, c, hcs⟩
    · rw [hnil] at hlength
      cases hlength
    rw [hcs] at hlength halphabet htake hbits
    rw [List.length_append, List.length_singleton] at hlength
    rw [hchars, hfront, take_concat_of_length hlength] at htake
    obtain ⟨e, he, rfl⟩ := Base32.mem_alphabet_iff.1 (halphabet c (List.mem_concat_self ..))
    rw [hchars, List.getLast?_concat, List.getLast?_concat, Option.bind_some, Option.bind_some,
      highBits?_char he, hlast, Option.some.injEq] at hbits
    exact ⟨e, he, hbits, htake ▸ hcs⟩

/-- Four texts are read as each address: the two bits that do not matter have four values. -/
theorem ncard_textsBy (digest : Bytes → Digest) (a : Address) :
    {t | ofTextBy digest t = .ok a}.ncard = 4 := by
  obtain ⟨d, hd, htext⟩ := a.exists_last digest
  let variant (j : Nat) : String :=
    String.ofList (a.front digest ++ [Base32.char (d / 4 * 4 + j)])
  have hset :
      {t | ofTextBy digest t = .ok a} = ((Finset.range 4).image variant : Finset String) := by
    ext t
    rw [Set.mem_ofPred_eq, ofTextBy_eq_ok_iff hd htext, Finset.mem_coe, Finset.mem_image]
    constructor
    · rintro ⟨e, he, hquot, ht⟩
      refine ⟨e % 4, Finset.mem_range.2 (Nat.mod_lt e (by decide)), ?_⟩
      show String.ofList (a.front digest ++ [Base32.char (d / 4 * 4 + e % 4)]) = t
      rw [← hquot, Nat.div_add_mod' e 4, ← ht, String.ofList_toList]
    · rintro ⟨j, hj, rfl⟩
      rw [Finset.mem_range] at hj
      exact ⟨d / 4 * 4 + j, by omega, by omega, String.toList_ofList⟩
  have hinj : Set.InjOn variant (Finset.range 4) := by
    intro i hi j hj h
    rw [Finset.mem_coe, Finset.mem_range] at hi hj
    have hlast := List.append_cancel_left (String.ofList_inj.1 h)
    have hdigit := Base32.char_injective (by omega) (by omega) (List.singleton_inj.1 hlast)
    exact Nat.add_left_cancel hdigit
  rw [hset, Set.ncard_coe_finset, Finset.card_image_of_injOn hinj, Finset.card_range]

/-! ## Texts that are refused -/

theorem ofTextBy_of_size (h : s.utf8ByteSize ≠ Limits.addressChars) :
    ofTextBy digest s = .error (.textLength s.utf8ByteSize) := if_pos h

theorem ofTextBy_of_not_alphabet (hl : s.utf8ByteSize = Limits.addressChars)
    (h : ∃ c ∈ s.toList, c ∉ Base32.alphabet) : ofTextBy digest s = .error (.alphabet s) := by
  unfold ofTextBy
  rw [if_neg (not_not.2 hl), Base32.decode?_eq_none_iff.2 h]

/-- The bytes of a text of the right length and alphabet are an address and four bytes more, so that
only these can be wrong. -/
theorem ofTextBy_of_alphabet (hl : s.utf8ByteSize = Limits.addressChars)
    (h : ∀ c ∈ s.toList, c ∈ Base32.alphabet)
    (hnot : ∀ a : Address, ¬ Respells s (a.textBy digest)) :
    ofTextBy digest s = .error (.checksum s) := by
  obtain ⟨bs, hbs⟩ : ∃ bs, Base32.decode? s.toList = some bs := by
    rw [← Option.ne_none_iff_exists', ne_eq, Base32.decode?_eq_none_iff]
    rintro ⟨c, hc, hn⟩
    exact hn (h c hc)
  have hlength : bs.length = 36 := by
    rw [Base32.length_of_decode? hbs, ← Base32.byteSize_eq_length h, hl]
    rfl
  -- the address that the bytes begin with; only what follows it can be wrong
  have htake : (bs.take Limits.addressBytes).length = Limits.addressBytes := by
    rw [List.length_take, hlength]
    rfl
  have hsum : bs.drop Limits.addressBytes ≠ checksumBy digest ⟨_, htake⟩ := by
    intro hsum
    refine hnot ⟨_, htake⟩ (ofTextBy_eq_ok_iff_respells.1 (ofTextBy_eq_ok_iff_decode?.2 ⟨hl, ?_⟩))
    rw [hbs, checked, ← hsum, List.take_append_drop]
  unfold ofTextBy
  rw [if_neg (not_not.2 hl), hbs]
  show (ofBytes (bs.take Limits.addressBytes) >>= _) = _
  rw [ofBytes_eq_ok_iff (a := ⟨_, htake⟩) |>.2 rfl, Outcome.ok_bind, if_neg hsum]
  rfl

/-! ## Addresses of accounts -/

/-- The text spells the address of an account. -/
def Spells (s : String) (a : Address) : Prop := Respells s a.text

/-- What is written of an address has the right length and alphabet and is read as the address. Read
as the address are all texts that spell it, and these are four. Any other text is refused, for its
length in bytes, or else for a character, or else for its checksum. -/
theorem texts_of_addresses :
    (∀ a : Address, (a.text.toList.length = Limits.addressChars ∧
        ∀ c ∈ a.text.toList, c ∈ Base32.alphabet) ∧
      ofText a.text = .ok a ∧ (∀ s, ofText s = .ok a ↔ Spells s a) ∧
      {s | ofText s = .ok a}.ncard = 4) ∧
    ∀ s : String,
      (s.utf8ByteSize ≠ Limits.addressChars → ofText s = .error (.textLength s.utf8ByteSize)) ∧
      (s.utf8ByteSize = Limits.addressChars →
        ((∃ c ∈ s.toList, c ∉ Base32.alphabet) → ofText s = .error (.alphabet s)) ∧
        ((∀ c ∈ s.toList, c ∈ Base32.alphabet) → (∀ a, ¬ Spells s a) →
          ofText s = .error (.checksum s))) := by
  refine ⟨fun a => ⟨⟨?_, a.mem_alphabet_textBy⟩, ofTextBy_textBy a,
    fun s => ofTextBy_eq_ok_iff_respells, a.ncard_textsBy Digest.ofMessage⟩,
    fun s => ⟨ofTextBy_of_size, fun hl => ?_⟩⟩
  · exact (congrArg List.length a.toList_textBy).trans a.length_encode_checked
  · exact ⟨ofTextBy_of_not_alphabet hl, ofTextBy_of_alphabet hl⟩

/-- The first and the last of the four texts of the zero address end in Q and in T. A text that ends
in the next character has other bytes and with them a wrong checksum. -/
theorem texts_of_addresses_zero :
    let zero : Address := ⟨List.replicate Limits.addressBytes 0, rfl⟩
    let front := "AAAAAAAAAAAAAAAAAAAAAAAAAAAAAAAAAAAAAAAAAAAAAAAAAAAAY5HFK"
    Spells (front ++ "Q") zero ∧ Spells (front ++ "T") zero ∧
      ofText (front ++ "U") = .error (.checksum (front ++ "U")) ∧
      ofText (front ++ "1") = .error (.alphabet (front ++ "1")) ∧
      ofText front = .error (.textLength 57) := by
  intro zero front
  have hq : ofText (front ++ "Q") = .ok zero :=
    ofTextBy_eq_ok_iff_decode?.2 ⟨by decide, by decide +kernel⟩
  have ht : ofText (front ++ "T") = .ok zero :=
    ofTextBy_eq_ok_iff_decode?.2 ⟨by decide, by decide +kernel⟩
  have hu : ∀ a, ¬ Spells (front ++ "U") a := by
    intro a h
    have hread := congrArg Except.toOption (((texts_of_addresses.1 a).2.2.1 _).2 h)
    have hnone : (ofText (front ++ "U")).toOption = none := by decide +kernel
    rw [hnone] at hread
    cases hread
  have halphabet : ∀ c ∈ (front ++ "U").toList, c ∈ Base32.alphabet := by
    have hall : (front ++ "U").toList.all (· ∈ Base32.alphabet) = true := by decide +kernel
    exact fun c hc => of_decide_eq_true (List.all_eq_true.1 hall c hc)
  have hspells := (texts_of_addresses.1 zero).2.2.1
  refine ⟨(hspells _).1 hq, (hspells _).1 ht, ?_, ?_, ?_⟩
  · exact ((texts_of_addresses.2 (front ++ "U")).2 (by decide)).2 halphabet hu
  · exact ((texts_of_addresses.2 (front ++ "1")).2 (by decide)).1 ⟨'1', by decide +kernel⟩
  · exact (texts_of_addresses.2 front).1 (by decide)

end Address

end Abi
