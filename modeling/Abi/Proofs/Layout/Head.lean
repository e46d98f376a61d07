/-
  Where in the head each child stands.

  Writer and reader go through the head byte by byte and carry the state of the byte that they are
  in. Here the head is described from outside: adjacent booleans form runs, a run of `r` of them
  takes as many bytes as hold `r` bits, any other child takes the bytes of its slot, and a child
  stands behind the width of all that is in front of it (`headWidth`).

  * `headSize_eq_headWidth`: the two accounts give the same width.
  * `headWidth_append`: widths add up wherever no run is cut in two.
  * `bitAt_eq_getD_bits`: bit `7 - j % 8` of byte `j / 8` is number `j` of all bits in a row.
-/
import Abi.Proofs.Layout.RoundTrip
import Abi.Ty.Size
import Mathlib.Algebra.GroupWithZero.Nat
import Mathlib.Data.List.GetD
import Mathlib.Data.List.SplitBy
import Mathlib.Data.List.TakeWhile

namespace Abi.Layout

/-! ## Runs -/

/-- A run that cannot be made longer: all of it satisfies `p`, but neither the element in front of
it nor the one behind it does. -/
structure MaximalRun {α : Type} (p : α → Prop) (pre run post : List α) : Prop where
  all : ∀ a ∈ run, p a
  before : ∀ a ∈ pre.getLast?, ¬ p a
  after : ∀ a ∈ post.head?, ¬ p a

theorem MaximalRun.map {α β : Type} {p : α → Prop} {q : β → Prop} {f : α → β}
    (hf : ∀ a, q (f a) ↔ p a) {pre run post : List α} (h : MaximalRun p pre run post) :
    MaximalRun q (pre.map f) (run.map f) (post.map f) where
  all := List.forall_mem_map.2 fun a ha => (hf a).2 (h.all a ha)
  before := by
    rw [List.getLast?_map]
    intro b hb
    obtain ⟨a, ha, rfl⟩ := Option.map_eq_some_iff.1 hb
    exact mt (hf a).1 (h.before a ha)
  after := by
    rw [List.head?_map]
    intro b hb
    obtain ⟨a, ha, rfl⟩ := Option.map_eq_some_iff.1 hb
    exact mt (hf a).1 (h.after a ha)

/-- No run of booleans goes on from the first slots into the second ones. -/
def Apart (ss ts : List Slot) : Prop :=
  ∀ s ∈ ss.getLast?, ∀ t ∈ ts.head?, ¬ (s = .bit ∧ t = .bit)

theorem apart_of_getLast {ss : List Slot} (h : ∀ s ∈ ss.getLast?, s ≠ .bit) (ts : List Slot) :
    Apart ss ts := fun s hs _ _ he => h s hs he.1

theorem apart_of_head {ts : List Slot} (h : ∀ t ∈ ts.head?, t ≠ .bit) (ss : List Slot) :
    Apart ss ts := fun _ _ t ht he => h t ht he.2

theorem apart_cons {s : Slot} (h : s ≠ .bit) (ts : List Slot) : Apart [s] ts := by
  refine apart_of_getLast (fun t ht => ?_) ts
  obtain rfl : s = t := by simpa using ht
  exact h

/-- Slots that end in something else than a boolean, or with none behind them, end in a slot of
their own or are none. -/
theorem Apart.cases {ss ts : List Slot} (h : Apart ss ts) :
    (∀ t ∈ ts.head?, t ≠ .bit) ∨ ss = [] ∨ ∃ rs s, ss = rs ++ [s] ∧ s ≠ .bit := by
  rcases List.eq_nil_or_concat ss with rfl | ⟨rs, s, rfl⟩
  · exact Or.inr (Or.inl rfl)
  · by_cases hs : s = .bit
    · refine Or.inl fun t ht he => ?_
      exact h s (by simp) t ht ⟨hs, he⟩
    · exact Or.inr (Or.inr ⟨rs, s, by simp, hs⟩)

/-- Slots come one by one if they are no booleans, and in maximal runs if they are. -/
@[elab_as_elim]
theorem run_induction {motive : List Slot → Prop} (nil : motive [])
    (single : ∀ s ss, s ≠ .bit → motive ss → motive (s :: ss))
    (run : ∀ count ss, 0 < count → (∀ s ∈ ss.head?, s ≠ .bit) → motive ss →
      motive (List.replicate count .bit ++ ss))
    (ss : List Slot) : motive ss := by
  induction hn : ss.length using Nat.strongRecOn generalizing ss with
  | ind n ih =>
    cases ss with
    | nil => exact nil
    | cons s ss =>
      rw [List.length_cons] at hn
      by_cases hs : s = .bit
      · have hrun : ∀ t ∈ ss.takeWhile (· = .bit), t = .bit := fun t ht => by
          simpa using List.mem_takeWhile_imp ht
        have hrep := List.eq_replicate_of_mem hrun
        have hafter : ∀ t ∈ (ss.dropWhile (· = .bit)).head?, t ≠ .bit := fun t ht => by
          have := List.head?_dropWhile_not (· = Slot.bit) ss
          rw [ht] at this
          simpa using this
        have hlen := (List.dropWhile_suffix (· = Slot.bit) (l := ss)).length_le
        have hrest := ih _ (by omega) (ss.dropWhile (· = .bit)) rfl
        have h := run ((ss.takeWhile (· = .bit)).length + 1) _ (Nat.succ_pos _) hafter hrest
        rwa [List.replicate_succ, ← hrep, List.cons_append, List.takeWhile_append_dropWhile,
          ← hs] at h
      · exact single s ss hs (ih ss.length (by omega) ss rfl)

/-! ## Widths -/

/-- The bytes that a block of the head takes: adjacent booleans, or a single other slot. -/
def blockWidth : List Slot → Nat
  | [] => 0
  | .bit :: ss => packedBytes (ss.length + 1)
  | .inline size :: _ => size
  | .offset :: _ => Limits.wordBytes

/-- The bytes of a head with these slots, block by block. -/
def headWidth (ss : List Slot) : Nat :=
  ((ss.splitBy fun s t => s = .bit ∧ t = .bit).map blockWidth).sum

/-- Widths add up wherever no run is cut in two. -/
theorem headWidth_append {ss ts : List Slot} (h : Apart ss ts) :
    headWidth (ss ++ ts) = headWidth ss + headWidth ts := by
  have hsplit : ∀ s ∈ ss.getLast?, ∀ t ∈ ts.head?, decide (s = .bit ∧ t = .bit) = false :=
    fun s hs t ht => decide_eq_false (h s hs t ht)
  unfold headWidth
  rw [List.splitBy_append hsplit, List.map_append, List.sum_append]

theorem headWidth_cons {s : Slot} (h : s ≠ .bit) (ss : List Slot) :
    headWidth (s :: ss) = blockWidth [s] + headWidth ss := by
  have := headWidth_append (apart_cons h ss)
  exact this

/-- A run takes the bytes that hold as many bits. -/
theorem headWidth_run (count : Nat) :
    headWidth (List.replicate count .bit) = packedBytes count := by
  cases count with
  | zero => rfl
  | succ count =>
    have hchain : (List.replicate (count + 1) Slot.bit).IsChain
        fun s t => decide (s = .bit ∧ t = .bit) = true :=
      List.isChain_replicate_of_rel _ (by decide)
    unfold headWidth
    rw [List.splitBy_of_isChain (by simp) hchain]
    simp [List.replicate_succ, blockWidth]

/-- Booleans in a row fill the byte in front and share the next ones. -/
theorem headSize_replicate_bit {free : Nat} (hf : free < Limits.boolsPerByte) (count : Nat) :
    headSize free (List.replicate count .bit) = packedBytes (count - free) := by
  induction count generalizing free with
  | zero => simp [headSize, packedBytes, Limits.boolsPerByte]
  | succ count ih =>
    rw [List.replicate_succ]
    cases free with
    | zero =>
      rw [headSize, ih (by decide)]
      unfold packedBytes Limits.boolsPerByte
      omega
    | succ free =>
      rw [headSize, ih (by omega)]
      congr 1
      omega

theorem headSize_replicate_inline (size free count : Nat) :
    headSize free (List.replicate count (.inline size)) = size * count := by
  induction count generalizing free with
  | zero => rfl
  | succ count ih => rw [List.replicate_succ, headSize, ih, Nat.mul_succ, Nat.add_comm]

/-- Room in a byte is of no use to slots that do not begin with a boolean. -/
theorem headSize_of_head {ss : List Slot} (h : ∀ s ∈ ss.head?, s ≠ .bit) (free : Nat) :
    headSize free ss = headSize 0 ss := by
  cases ss with
  | nil => rfl
  | cons s ss =>
    cases s with
    | bit => exact absurd rfl (h .bit rfl)
    | inline size => rfl
    | offset => rfl

theorem headSize_append_of_head {ts : List Slot} (h : ∀ t ∈ ts.head?, t ≠ .bit) (free : Nat)
    (ss : List Slot) : headSize free (ss ++ ts) = headSize free ss + headSize 0 ts := by
  induction ss generalizing free with
  | nil => rw [List.nil_append, headSize_of_head h, headSize, Nat.zero_add]
  | cons s ss ih =>
    cases s with
    | bit =>
      cases free with
      | zero => rw [List.cons_append, headSize, headSize, ih, Nat.add_assoc]
      | succ free => exact ih free
    | inline size => rw [List.cons_append, headSize, headSize, ih, Nat.add_assoc]
    | offset => rw [List.cons_append, headSize, headSize, ih, Nat.add_assoc]

/-- Filling bytes one boolean after the other gives the width of the runs. -/
theorem headSize_eq_headWidth (ss : List Slot) : headSize 0 ss = headWidth ss := by
  induction ss using run_induction with
  | nil => rfl
  | single s ss hs ih =>
    rw [headWidth_cons hs, ← ih]
    cases s with
    | bit => exact absurd rfl hs
    | inline size => rfl
    | offset => rfl
  | run count ss _ hss ih =>
    rw [headSize_append_of_head hss, headWidth_append (apart_of_head hss _), ih,
      headSize_replicate_bit (by decide), headWidth_run, Nat.sub_zero]

/-! ## Bits -/

/-- All bits of a byte string in a row, the highest bit of each byte first. -/
def bits (bs : Bytes) : List Bool := bs.flatMap unpack

@[simp] theorem bits_nil : bits [] = [] := rfl

@[simp] theorem bits_cons (b : UInt8) (bs : Bytes) : bits (b :: bs) = unpack b ++ bits bs := rfl

@[simp] theorem bits_append (bs cs : Bytes) : bits (bs ++ cs) = bits bs ++ bits cs :=
  List.flatMap_append

@[simp] theorem length_bits (bs : Bytes) : (bits bs).length = 8 * bs.length := by
  induction bs with
  | nil => rfl
  | cons b bs ih =>
    rw [bits_cons, List.length_append, length_unpack, ih, List.length_cons, Limits.boolsPerByte]
    omega

/-- A byte string is known by its bits. -/
theorem bits_injective {bs cs : Bytes} (h : bits bs = bits cs) : bs = cs := by
  induction bs generalizing cs with
  | nil =>
    have hl := congrArg List.length h
    rw [length_bits, length_bits, List.length_nil] at hl
    exact (List.eq_nil_of_length_eq_zero (by omega)).symm
  | cons b bs ih =>
    cases cs with
    | nil =>
      have hl := congrArg List.length h
      rw [length_bits, length_bits, List.length_cons, List.length_nil] at hl
      omega
    | cons c cs =>
      rw [bits_cons, bits_cons] at h
      obtain ⟨hb, hbs⟩ := List.append_inj h (by rw [length_unpack, length_unpack])
      have hbc : b = c := by rw [← pack_unpack b, hb, pack_unpack]
      rw [hbc, ih hbs]

/-- Bit number `k` of byte number `i`, both counted from zero and the bits from the lowest one; a
byte that is not there has no bit set. -/
def bitAt (bs : Bytes) (i k : Nat) : Bool := (bs.getD i 0).toNat.testBit k

theorem getD_unpack (b : UInt8) {j : Nat} (hj : j < 8) :
    (unpack b).getD j false = b.toNat.testBit (7 - j) := by
  have hcases : j = 0 ∨ j = 1 ∨ j = 2 ∨ j = 3 ∨ j = 4 ∨ j = 5 ∨ j = 6 ∨ j = 7 := by omega
  rw [Nat.testBit_eq_decide_div_mod_eq]
  rcases hcases with rfl | rfl | rfl | rfl | rfl | rfl | rfl | rfl <;>
    simp [unpack, Numeral.digits, Limits.boolsPerByte, Nat.div_div_eq_div_mul]

theorem bitAt_eq_getD_bits (bs : Bytes) (j : Nat) :
    bitAt bs (j / 8) (7 - j % 8) = (bits bs).getD j false := by
  induction bs generalizing j with
  | nil => simp [bitAt]
  | cons b bs ih =>
    rw [bits_cons]
    by_cases hj : j < 8
    · rw [List.getD_append _ _ _ _ (by rw [length_unpack]; exact hj), getD_unpack b hj, bitAt,
        Nat.div_eq_of_lt hj, Nat.mod_eq_of_lt hj]
      rfl
    · obtain ⟨i, rfl⟩ : ∃ i, j = i + 8 := ⟨j - 8, by omega⟩
      rw [List.getD_append_right _ _ _ _ (by rw [length_unpack]; exact Nat.le_add_left _ _),
        length_unpack, Limits.boolsPerByte, Nat.add_sub_cancel, ← ih,
        show (i + 8) / 8 = i / 8 + 1 by omega, show (i + 8) % 8 = i % 8 by omega]
      rfl

theorem bitAt_append_left {bs : Bytes} {i : Nat} (h : i < bs.length) (cs : Bytes) (k : Nat) :
    bitAt (bs ++ cs) i k = bitAt bs i k := by
  rw [bitAt, List.getD_append _ _ _ _ h, bitAt]

theorem bitAt_drop (bs : Bytes) (p i k : Nat) : bitAt (bs.drop p) i k = bitAt bs (p + i) k := by
  unfold bitAt
  rw [List.getD_eq_getElem?_getD, List.getD_eq_getElem?_getD, List.getElem?_drop]

end Abi.Layout
