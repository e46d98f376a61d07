/-
  What a buffer holds that splits into children.

  The head is read and then points into the rest. The rest begins with bytes that nothing points
  at, the gap, and goes on with the tails, each up to the start of the next one. Only a head
  without offsets has to be followed by nothing at all.

  * `readsHead_of_readHead`, `ReadsHead.readHead_eq`: a head is read slot by slot.
  * `ReadsHead.run`: a run of booleans is read from the bits of as many bytes as hold it.
  * `ReadsHead.exists_iff`: a head can be read if the bytes are enough for it.
  * `exists_parts_of_split`: head, gap and tails of a buffer that splits.
  * `split_append`: bytes behind such a buffer belong to its last dynamic child, if the longer
    buffer splits at all.
-/
import Abi.Proofs.Layout.Head
import Abi.Proofs.Outcome

namespace Abi.Layout

/-! ## Reading the head -/

/-- A head with these slots is read off the bytes as these entries and leaves `rest`. The bits are
those of the byte in front that no boolean has taken. -/
inductive ReadsHead (rest : Bytes) : List Bool → List Slot → Bytes → List Entry → Prop
  | done (left : List Bool) : ReadsHead rest left [] rest []
  /-- A boolean that is left of the byte in front. -/
  | nextBit {b : Bool} {left : List Bool} {slots : List Slot} {bs : Bytes} {es : List Entry} :
    ReadsHead rest left slots bs es →
      ReadsHead rest (b :: left) (.bit :: slots) bs (.inline [boolByte b] :: es)
  /-- The first boolean of a new byte. -/
  | newByte {x : UInt8} {b : Bool} {left : List Bool} {slots : List Slot} {bs : Bytes}
    {es : List Entry} : unpack x = b :: left → ReadsHead rest left slots bs es →
      ReadsHead rest [] (.bit :: slots) (x :: bs) (.inline [boolByte b] :: es)
  | inline {left : List Bool} {size : Nat} {slots : List Slot} {front bs : Bytes}
    {es : List Entry} : front.length = size → ReadsHead rest [] slots bs es →
      ReadsHead rest left (.inline size :: slots) (front ++ bs) (.inline front :: es)
  | offset {left : List Bool} {slots : List Slot} {o : Nat} {bs : Bytes} {es : List Entry} :
    o ≤ Limits.word → ReadsHead rest [] slots bs es →
      ReadsHead rest left (.offset :: slots) (Word.bytes o ++ bs) (.start o :: es)

/-- The next boolean is left over from the byte in front or the first bit of a new one. -/
theorem nextBit_eq_some_iff {left left' : List Bool} {bs rest : Bytes} {b : Bool} :
    nextBit left bs = some (b, left', rest) ↔
      (left = b :: left' ∧ bs = rest) ∨
        (left = [] ∧ ∃ x, bs = x :: rest ∧ unpack x = b :: left') := by
  cases left with
  | cons c left => simp [nextBit, and_assoc]
  | nil =>
    cases bs with
    | nil => simp [nextBit]
    | cons x bs =>
      obtain ⟨c, cs, hx⟩ := List.exists_cons_of_length_eq_add_one (length_unpack x)
      simp only [nextBit, hx, Option.some.injEq, Prod.mk.injEq, reduceCtorEq, false_and, false_or,
        true_and, List.cons.injEq]
      constructor
      · intro h
        obtain ⟨rfl, rfl, rfl⟩ := h
        exact ⟨x, ⟨rfl, rfl⟩, hx⟩
      · intro h
        obtain ⟨y, ⟨rfl, rfl⟩, hy⟩ := h
        obtain ⟨rfl, rfl⟩ := List.cons.inj (hx.symm.trans hy)
        exact ⟨rfl, rfl, rfl⟩

theorem readsHead_of_readHead {left : List Bool} {slots : List Slot} {bs rest : Bytes}
    {es : List Entry} (h : readHead left slots bs = some (es, rest)) :
    ReadsHead rest left slots bs es := by
  induction slots generalizing left bs es with
  | nil =>
    cases h
    exact .done left
  | cons s slots ih =>
    cases s with
    | bit =>
      obtain ⟨⟨b, left', bs'⟩, hb, h⟩ := Option.bind_eq_some_iff.1 h
      obtain ⟨⟨more, rest'⟩, hr, h⟩ := Option.bind_eq_some_iff.1 h
      cases h
      rcases nextBit_eq_some_iff.1 hb with ⟨rfl, rfl⟩ | ⟨rfl, x, rfl, hx⟩
      · exact .nextBit (ih hr)
      · exact .newByte hx (ih hr)
    | inline size =>
      obtain ⟨⟨front, bs'⟩, hf, h⟩ := Option.bind_eq_some_iff.1 h
      obtain ⟨⟨more, rest'⟩, hr, h⟩ := Option.bind_eq_some_iff.1 h
      cases h
      obtain ⟨rfl, hl⟩ := Bytes.takeExactly?_eq_some_iff.1 hf
      exact .inline hl (ih hr)
    | offset =>
      obtain ⟨⟨word, bs'⟩, hw, h⟩ := Option.bind_eq_some_iff.1 h
      obtain ⟨⟨more, rest'⟩, hr, h⟩ := Option.bind_eq_some_iff.1 h
      cases h
      obtain ⟨rfl, hl⟩ := Bytes.takeExactly?_eq_some_iff.1 hw
      obtain ⟨hle, hword⟩ := Word.bytes_decode hl
      have hstep := @ReadsHead.offset _ left _ _ _ _ hle (ih hr)
      rwa [hword] at hstep

namespace ReadsHead

variable {left : List Bool} {slots : List Slot} {bs rest : Bytes} {es : List Entry}

/-- The head is found again in the bytes that it was read off. -/
theorem readHead_eq (h : ReadsHead rest left slots bs es) :
    readHead left slots bs = some (es, rest) := by
  induction h with
  | done left => rfl
  | nextBit _ ih =>
    rw [readHead]
    simp only [Layout.nextBit, Option.bind_eq_bind, Option.bind_some, ih]
    rfl
  | newByte hx _ ih =>
    rw [readHead]
    simp only [Layout.nextBit, hx, Option.bind_eq_bind, Option.bind_some, ih]
    rfl
  | inline hl _ ih =>
    rw [← hl, readHead, Bytes.takeExactly?_append]
    simp only [Option.bind_eq_bind, Option.bind_some, ih]
    rfl
  | @offset _ _ o bs _ ho _ ih =>
    have htake := Bytes.takeExactly?_append (Word.bytes o) bs
    rw [Word.length_bytes] at htake
    rw [readHead, Limits.wordBytes, htake]
    simp only [Option.bind_eq_bind, Option.bind_some, ih, Word.decode_bytes ho]
    rfl

/-- Whatever stands behind the head is not looked at. -/
theorem append (h : ReadsHead rest left slots bs es) (suffix : Bytes) :
    ReadsHead (rest ++ suffix) left slots (bs ++ suffix) es := by
  induction h with
  | done left => exact .done left
  | nextBit _ ih => exact .nextBit ih
  | newByte hx _ ih => exact .newByte hx ih
  | inline hl _ ih =>
    rw [List.append_assoc]
    exact .inline hl ih
  | offset ho _ ih =>
    rw [List.append_assoc]
    exact .offset ho ih

/-- What is left behind the head is the end of the bytes. -/
theorem rest_suffix (h : ReadsHead rest left slots bs es) : rest <:+ bs := by
  induction h with
  | done left => exact List.suffix_rfl
  | nextBit _ ih => exact ih
  | newByte _ _ ih => exact ih.trans (List.suffix_cons _ _)
  | inline _ _ ih => exact ih.trans (List.suffix_append _ _)
  | offset _ _ ih => exact ih.trans (List.suffix_append _ _)

/-- The head takes the bytes of its slots and leaves the others. -/
theorem headSize_add_length (h : ReadsHead rest left slots bs es) :
    headSize left.length slots + rest.length = bs.length := by
  induction h with
  | done left => exact Nat.zero_add _
  | nextBit _ ih => exact ih
  | @newByte x b left slots bs es hx _ ih =>
    have hleft := length_unpack x
    rw [hx, List.length_cons] at hleft
    rw [List.length_nil, headSize, List.length_cons, ← ih, ← hleft, Nat.add_sub_cancel]
    omega
  | inline hl _ ih =>
    rw [List.length_nil] at ih
    rw [headSize, List.length_append]
    omega
  | offset _ _ ih =>
    rw [List.length_nil] at ih
    rw [headSize, List.length_append, Word.length_bytes, Limits.wordBytes]
    omega

theorem headWidth_add_length (h : ReadsHead rest [] slots bs es) :
    headWidth slots + rest.length = bs.length := by
  rw [← headSize_eq_headWidth]
  exact h.headSize_add_length

theorem drop_headWidth (h : ReadsHead rest [] slots bs es) : bs.drop (headWidth slots) = rest := by
  rw [List.suffix_iff_eq_drop.1 h.rest_suffix]
  congr 1
  have := h.headWidth_add_length
  omega

/-- Bits that are left over are of no use to slots that do not begin with a boolean. -/
theorem of_head (hs : ∀ s ∈ slots.head?, s ≠ .bit) (h : ReadsHead rest left slots bs es) :
    ReadsHead rest [] slots bs es := by
  cases h with
  | done => exact .done []
  | nextBit => exact absurd rfl (hs .bit rfl)
  | newByte => exact absurd rfl (hs .bit rfl)
  | inline hl h => exact .inline hl h
  | offset ho h => exact .offset ho h

/-- A run of booleans is read from the bits that are left over and from those of as many bytes as
hold the rest of it. -/
theorem run {count : Nat} (hs : ∀ s ∈ slots.head?, s ≠ .bit)
    (hl : left.length < Limits.boolsPerByte)
    (h : ReadsHead rest left (List.replicate count .bit ++ slots) bs es) :
    ∃ packed behind more, bs = packed ++ behind ∧
      packed.length = packedBytes (count - left.length) ∧
      es = ((left ++ bits packed).take count).map (fun b => .inline [boolByte b]) ++ more ∧
      ReadsHead rest [] slots behind more := by
  induction count generalizing left bs es with
  | zero => exact ⟨[], bs, es, rfl, by simp [packedBytes, Limits.boolsPerByte], rfl, h.of_head hs⟩
  | succ count ih =>
    rw [List.replicate_succ, List.cons_append] at h
    cases h with
    | nextBit h =>
      rw [List.length_cons] at hl
      obtain ⟨packed, behind, more, hbs, hlen, rfl, hmore⟩ := ih (by omega) h
      refine ⟨packed, behind, more, hbs, ?_, rfl, hmore⟩
      rw [hlen, List.length_cons, Nat.add_sub_add_right]
    | @newByte x b left _ bs es hx h =>
      have hleft := length_unpack x
      rw [hx, List.length_cons] at hleft
      obtain ⟨packed, behind, more, rfl, hlen, rfl, hmore⟩ := ih (by omega) h
      refine ⟨x :: packed, behind, more, rfl, ?_, ?_, hmore⟩
      · rw [List.length_cons, hlen, List.length_nil]
        unfold packedBytes Limits.boolsPerByte at *
        omega
      · rw [bits_cons, hx]
        rfl

/-- The slots behind some others are read from what these leave. Bits of their last byte are only
left if they end in a boolean. -/
theorem exists_append {ss ts : List Slot} (h : ReadsHead rest left (ss ++ ts) bs es) :
    ∃ xs behind ys left', ReadsHead behind left ss bs xs ∧ ReadsHead rest left' ts behind ys ∧
      es = xs ++ ys ∧ (ss = [] → left' = left) ∧ ∀ s ∈ ss.getLast?, s ≠ .bit → left' = [] := by
  induction ss generalizing left bs es with
  | nil => exact ⟨[], bs, es, left, .done left, h, rfl, fun _ => rfl, by simp⟩
  | cons s ss ih =>
    -- what the last slot leaves is what the first one leaves if there is no other
    have hlast : ∀ {left' left'' : List Bool}, (s ≠ .bit → left'' = []) →
        (ss = [] → left' = left'') → (∀ t ∈ ss.getLast?, t ≠ .bit → left' = []) →
        ∀ t ∈ (s :: ss).getLast?, t ≠ .bit → left' = [] := by
      intro left' left'' hs hnil hcons t ht hbit
      cases ss with
      | nil =>
        obtain rfl : s = t := by simpa using ht
        rw [hnil rfl, hs hbit]
      | cons u ss => exact hcons t (by rwa [List.getLast?_cons_cons] at ht) hbit
    cases h with
    | nextBit h =>
      obtain ⟨xs, behind, ys, left', hx, hy, rfl, hnil, hcons⟩ := ih h
      exact ⟨_, behind, ys, left', .nextBit hx, hy, rfl, nofun, hlast (absurd rfl) hnil hcons⟩
    | newByte hb h =>
      obtain ⟨xs, behind, ys, left', hx, hy, rfl, hnil, hcons⟩ := ih h
      exact ⟨_, behind, ys, left', .newByte hb hx, hy, rfl, nofun, hlast (absurd rfl) hnil hcons⟩
    | inline hl h =>
      obtain ⟨xs, behind, ys, left', hx, hy, rfl, hnil, hcons⟩ := ih h
      exact ⟨_, behind, ys, left', .inline hl hx, hy, rfl, nofun,
        hlast (fun _ => rfl) hnil hcons⟩
    | offset ho h =>
      obtain ⟨xs, behind, ys, left', hx, hy, rfl, hnil, hcons⟩ := ih h
      exact ⟨_, behind, ys, left', .offset ho hx, hy, rfl, nofun,
        hlast (fun _ => rfl) hnil hcons⟩

/-- Slots are read from the next byte if no run goes on from the slots in front. -/
theorem of_apart {ss ts : List Slot} (ha : Apart ss ts) (h : ReadsHead rest [] (ss ++ ts) bs es) :
    ∃ xs behind ys, ReadsHead behind [] ss bs xs ∧ ReadsHead rest [] ts behind ys ∧
      es = xs ++ ys := by
  obtain ⟨xs, behind, ys, left', hx, hy, rfl, hnil, hlast⟩ := h.exists_append
  refine ⟨xs, behind, ys, hx, ?_, rfl⟩
  rcases ha.cases with ht | hs | ⟨rs, s, hs, hbit⟩
  · exact hy.of_head ht
  · rwa [hnil hs] at hy
  · rwa [hlast s (by simp [hs]) hbit] at hy

/-- A head is read exactly if the bytes are enough for it. -/
theorem exists_iff : (∃ es rest, ReadsHead rest left slots bs es) ↔
    headSize left.length slots ≤ bs.length := by
  constructor
  · intro h
    obtain ⟨es, rest, h⟩ := h
    have := h.headSize_add_length
    omega
  · intro h
    induction slots generalizing left bs with
    | nil => exact ⟨[], bs, .done left⟩
    | cons s slots ih =>
      cases s with
      | bit =>
        cases left with
        | cons b left =>
          obtain ⟨es, rest, hr⟩ := @ih left bs h
          exact ⟨_, rest, .nextBit hr⟩
        | nil =>
          rw [List.length_nil, headSize] at h
          cases bs with
          | nil => simp at h
          | cons x bs =>
            obtain ⟨b, left, hx⟩ := List.exists_cons_of_length_eq_add_one (length_unpack x)
            have hleft := length_unpack x
            rw [hx, List.length_cons] at hleft
            rw [List.length_cons, ← hleft, Nat.add_sub_cancel] at h
            obtain ⟨es, rest, hr⟩ := @ih left bs (by omega)
            exact ⟨_, rest, .newByte hx hr⟩
      | inline size =>
        rw [headSize] at h
        obtain ⟨es, rest, hr⟩ := @ih [] (bs.drop size) (by
          rw [List.length_drop, List.length_nil]
          omega)
        have hl : (bs.take size).length = size := by
          rw [List.length_take]
          omega
        have hstep := @ReadsHead.inline rest left size _ _ _ _ hl hr
        rw [List.take_append_drop] at hstep
        exact ⟨_, rest, hstep⟩
      | offset =>
        rw [headSize] at h
        obtain ⟨es, rest, hr⟩ := @ih [] (bs.drop Limits.wordBytes) (by
          rw [List.length_drop, List.length_nil]
          omega)
        have hl : (bs.take Limits.wordBytes).length = Limits.wordBytes := by
          rw [List.length_take]
          omega
        obtain ⟨hle, hword⟩ := Word.bytes_decode hl
        have hstep := @ReadsHead.offset rest left _ _ _ _ hle hr
        rw [hword, List.take_append_drop] at hstep
        exact ⟨_, rest, hstep⟩

/-! ## Entries -/

/-- The entries of a head are those of parts: with any byte strings for the tails, only the starts
have to be right. -/
theorem exists_parts (h : ReadsHead rest left slots bs es) {segs : List Bytes}
    (hl : segs.length = (starts es).length) :
    ∃ ps : List Part, ps.map Part.slot = slots ∧ ps.map Part.content = fill es segs ∧
      tails ps = segs ∧ ∀ start, startsFrom start segs = starts es → es = entries start ps := by
  induction h generalizing segs with
  | done left =>
    obtain rfl := List.eq_nil_of_length_eq_zero hl
    exact ⟨[], rfl, rfl, rfl, fun _ _ => rfl⟩
  | @nextBit b _ _ _ _ _ ih =>
    obtain ⟨ps, rfl, hc, ht, hstart⟩ := ih hl
    exact ⟨.bit b :: ps, rfl, congrArg ([boolByte b] :: ·) hc, ht,
      fun start hst => congrArg (.inline [boolByte b] :: ·) (hstart start hst)⟩
  | @newByte _ b _ _ _ _ _ _ ih =>
    obtain ⟨ps, rfl, hc, ht, hstart⟩ := ih hl
    exact ⟨.bit b :: ps, rfl, congrArg ([boolByte b] :: ·) hc, ht,
      fun start hst => congrArg (.inline [boolByte b] :: ·) (hstart start hst)⟩
  | @inline _ _ _ front _ _ hf _ ih =>
    obtain ⟨ps, rfl, hc, ht, hstart⟩ := ih hl
    rw [← hf]
    exact ⟨.inline front :: ps, rfl, congrArg (front :: ·) hc, ht,
      fun start hst => congrArg (.inline front :: ·) (hstart start hst)⟩
  | @offset _ _ o _ _ _ _ ih =>
    cases segs with
    | nil => cases hl
    | cons seg segs =>
      obtain ⟨ps, rfl, hc, rfl, hstart⟩ := ih (Nat.succ.inj hl)
      refine ⟨.tail seg :: ps, rfl, congrArg (seg :: ·) hc, rfl, fun start hst => ?_⟩
      obtain ⟨rfl, hmore⟩ := List.cons.inj hst
      exact congrArg (.start start :: ·) (hstart _ hmore)

/-- What a word holds is never too large for a word. -/
theorem start_le_word (h : ReadsHead rest left slots bs es) : ∀ o ∈ starts es, o ≤ Limits.word := by
  induction h with
  | done left => exact fun o ho => absurd ho List.not_mem_nil
  | nextBit _ ih => exact ih
  | newByte _ _ ih => exact ih
  | inline _ _ ih => exact ih
  | offset ho _ ih => exact List.forall_mem_cons.2 ⟨ho, ih⟩

/-- Without a slot for an offset no start is read. -/
theorem starts_eq_nil (hs : .offset ∉ slots) (h : ReadsHead rest left slots bs es) :
    starts es = [] := by
  induction h with
  | done left => rfl
  | nextBit _ ih => exact ih (List.not_mem_of_not_mem_cons hs)
  | newByte _ _ ih => exact ih (List.not_mem_of_not_mem_cons hs)
  | inline _ _ ih => exact ih (List.not_mem_of_not_mem_cons hs)
  | offset _ _ _ => exact absurd (List.mem_cons_self ..) hs

end ReadsHead

/-! ## Segments -/

theorem length_segments (start : Nat) (more : List Nat) (body : Bytes) :
    (segments start more body).length = more.length + 1 := by
  induction more generalizing start body with
  | nil => rfl
  | cons next more ih => rw [segments, List.length_cons, ih, List.length_cons]

theorem le_total_of_checkStarts {total low first : Nat} {more : List Nat}
    (h : checkStarts total low (first :: more) = .ok ()) : low ≤ first ∧ first ≤ total := by
  rw [checkStarts] at h
  split at h
  · cases h
  · omega

theorem checkStarts_tail {total low first : Nat} {more : List Nat}
    (h : checkStarts total low (first :: more) = .ok ()) :
    checkStarts total first more = .ok () := by
  rw [checkStarts] at h
  split at h
  · cases h
  · exact h

/-- Starts that pass the check cut the rest of the buffer without a gap. -/
theorem segments_tile {total low first : Nat} {more : List Nat} {body : Bytes}
    (h : checkStarts total low (first :: more) = .ok ()) (hb : first + body.length = total) :
    startsFrom first (segments first more body) = first :: more ∧
      (segments first more body).flatten = body := by
  induction more generalizing low first body with
  | nil => exact ⟨rfl, List.flatten_singleton⟩
  | cons next more ih =>
    have hrest := checkStarts_tail h
    obtain ⟨hle, hnext⟩ := le_total_of_checkStarts hrest
    have htake : (body.take (next - first)).length = next - first := by
      rw [List.length_take]
      omega
    have hdrop : next + (body.drop (next - first)).length = total := by
      rw [List.length_drop]
      omega
    obtain ⟨hstarts, hflat⟩ := ih hrest hdrop
    constructor
    · rw [segments, startsFrom, htake, show first + (next - first) = next by omega, hstarts]
    · rw [segments, List.flatten_cons, hflat, List.take_append_drop]

/-! ## Head, gap and tails -/

/-- A buffer splits only if its head can be read. -/
theorem exists_readHead_of_split {slots : List Slot} {buffer : Bytes} {children : List Bytes}
    (h : split slots buffer = .ok children) :
    ∃ es rest, ReadsHead rest [] slots buffer es := by
  unfold split at h
  split at h
  · cases h
  · rename_i hr
    exact ⟨_, _, readsHead_of_readHead hr⟩

/-- Behind a head without offsets nothing may be left over; offsets have to pass the check and
then cut the rest. -/
theorem split_eq_ok_iff {slots : List Slot} {buffer rest : Bytes} {es : List Entry}
    {children : List Bytes} (hr : ReadsHead rest [] slots buffer es) :
    split slots buffer = .ok children ↔
      (starts es = [] ∧ rest = [] ∧ children = fill es []) ∨
        ∃ first more, starts es = first :: more ∧
          checkStarts buffer.length (headWidth slots) (first :: more) = .ok () ∧
          children = fill es (segments first more (rest.drop (first - headWidth slots))) := by
  have hlen := hr.headWidth_add_length
  have hhead : buffer.length - rest.length = headWidth slots := by omega
  have hread := hr.readHead_eq
  cases hstarts : starts es with
  | nil =>
    simp only [split, hread, hstarts, reduceCtorEq, false_and, exists_const, or_false, true_and]
    cases rest with
    | nil => simp [eq_comm]
    | cons x rest => simp
  | cons first more =>
    simp only [split, hread, hstarts, hhead, reduceCtorEq, false_and, false_or]
    rw [Outcome.bind_eq_ok_iff]
    constructor
    · intro h
      obtain ⟨_, hcheck, h⟩ := h
      cases h
      exact ⟨first, more, rfl, hcheck, rfl⟩
    · intro h
      obtain ⟨first', more', he, hcheck, rfl⟩ := h
      obtain ⟨rfl, rfl⟩ := List.cons.inj he
      exact ⟨(), hcheck, rfl⟩

/-- A buffer that splits holds the head of parts, a gap, and their tails; the contents of the parts
are the children. Only behind a head without offsets there is no gap. -/
theorem exists_parts_of_split {slots : List Slot} {buffer : Bytes} {children : List Bytes}
    (h : split slots buffer = .ok children) :
    ∃ (ps : List Part) (gap : Bytes), ps.map Part.slot = slots ∧
      ps.map Part.content = children ∧ (tails ps = [] → gap = []) ∧
      ReadsHead (gap ++ (tails ps).flatten) [] slots buffer
        (entries (headWidth slots + gap.length) ps) := by
  obtain ⟨es, rest, hr⟩ := exists_readHead_of_split h
  have hlen := hr.headWidth_add_length
  rcases (split_eq_ok_iff hr).1 h with ⟨hstarts, rfl, rfl⟩ | ⟨first, more, hstarts, hcheck, rfl⟩
  · have hcount : ([] : List Bytes).length = (starts es).length := by rw [hstarts]; rfl
    obtain ⟨ps, hps, hc, ht, hstart⟩ := hr.exists_parts hcount
    refine ⟨ps, [], hps, hc, fun _ => rfl, ?_⟩
    rw [ht, ← hstart _ hstarts.symm]
    exact hr
  · obtain ⟨hlow, hhigh⟩ := le_total_of_checkStarts hcheck
    have hbody : first + (rest.drop (first - headWidth slots)).length = buffer.length := by
      rw [List.length_drop]
      omega
    have hgap : (rest.take (first - headWidth slots)).length = first - headWidth slots := by
      rw [List.length_take]
      omega
    have hfirst : headWidth slots + (first - headWidth slots) = first := by omega
    obtain ⟨htile, hflat⟩ := segments_tile hcheck hbody
    have hcount := length_segments first more (rest.drop (first - headWidth slots))
    rw [← List.length_cons, ← hstarts] at hcount
    obtain ⟨ps, hps, hc, ht, hstart⟩ := hr.exists_parts hcount
    refine ⟨ps, rest.take (first - headWidth slots), hps, hc, fun hnil => ?_, ?_⟩
    · rw [← ht, hnil, hstarts] at hcount
      cases hcount
    · rw [ht, hflat, List.take_append_drop, hgap, hfirst, ← hstart first (by rw [htile, hstarts])]
      exact hr

/-! ## Bytes at the end -/

/-- Bytes at the end lengthen the last segment. -/
theorem segments_append {total low first : Nat} {more : List Nat} {body : Bytes}
    (h : checkStarts total low (first :: more) = .ok ()) (hb : first + body.length = total)
    (suffix : Bytes) :
    ∃ front last, segments first more body = front ++ [last] ∧
      segments first more (body ++ suffix) = front ++ [last ++ suffix] := by
  induction more generalizing low first body with
  | nil => exact ⟨[], body, rfl, rfl⟩
  | cons next more ih =>
    have hrest := checkStarts_tail h
    obtain ⟨hle, hnext⟩ := le_total_of_checkStarts hrest
    have hdrop : next + (body.drop (next - first)).length = total := by
      rw [List.length_drop]
      omega
    obtain ⟨front, last, hsegs, hsuffix⟩ := ih hrest hdrop
    refine ⟨body.take (next - first) :: front, last, ?_, ?_⟩
    · rw [segments, hsegs, List.cons_append]
    · rw [segments, List.take_append_of_le_length (by omega),
        List.drop_append_of_le_length (by omega), hsuffix, List.cons_append]

/-- The last segment fills one place, whatever it is. -/
theorem fill_concat {es : List Entry} {front : List Bytes}
    (h : front.length + 1 = (starts es).length) :
    ∃ pre post, ∀ last, fill es (front ++ [last]) = pre ++ last :: post := by
  induction es generalizing front with
  | nil => cases h
  | cons e es ih =>
    cases e with
    | inline bs =>
      obtain ⟨pre, post, hfill⟩ := ih h
      refine ⟨bs :: pre, post, fun last => ?_⟩
      rw [fill, hfill, List.cons_append]
    | start o =>
      cases front with
      | nil => exact ⟨[], fill es [], fun last => rfl⟩
      | cons seg front =>
        obtain ⟨pre, post, hfill⟩ := ih (Nat.succ.inj h)
        refine ⟨seg :: pre, post, fun last => ?_⟩
        rw [List.cons_append, fill, hfill, List.cons_append]

/-- If a buffer splits and a longer one does too, then what is added belongs to the last dynamic
child. -/
theorem split_append {slots : List Slot} {buffer suffix : Bytes} {children children' : List Bytes}
    (hs : suffix ≠ []) (h : split slots buffer = .ok children)
    (h' : split slots (buffer ++ suffix) = .ok children') :
    ∃ pre last post, children = pre ++ last :: post ∧
      children' = pre ++ (last ++ suffix) :: post := by
  obtain ⟨es, rest, hr⟩ := exists_readHead_of_split h
  have hlen := hr.headWidth_add_length
  rcases (split_eq_ok_iff hr).1 h with ⟨hstarts, rfl, rfl⟩ | ⟨first, more, hstarts, hcheck, rfl⟩
  · rcases (split_eq_ok_iff (hr.append suffix)).1 h' with ⟨_, hnil, _⟩ | ⟨_, _, hcons, _⟩
    · exact absurd (List.append_eq_nil_iff.1 hnil).2 hs
    · rw [hstarts] at hcons
      cases hcons
  · obtain ⟨hlow, hhigh⟩ := le_total_of_checkStarts hcheck
    have hbody : first + (rest.drop (first - headWidth slots)).length = buffer.length := by
      rw [List.length_drop]
      omega
    obtain ⟨front, last, hsegs, hsuffix⟩ := segments_append hcheck hbody suffix
    have hfront : front.length + 1 = (starts es).length := by
      have hcount := length_segments first more (rest.drop (first - headWidth slots))
      rw [hsegs, List.length_append, List.length_singleton] at hcount
      rw [hstarts, List.length_cons, hcount]
    obtain ⟨pre, post, hfill⟩ := fill_concat hfront
    refine ⟨pre, last, post, by rw [hsegs, hfill], ?_⟩
    rcases (split_eq_ok_iff (hr.append suffix)).1 h' with
      ⟨hnil, _⟩ | ⟨first', more', hcons, _, rfl⟩
    · rw [hstarts] at hnil
      cases hnil
    · rw [hstarts] at hcons
      obtain ⟨rfl, rfl⟩ := List.cons.inj hcons
      rw [List.drop_append_of_le_length (by omega), hsuffix, hfill]

end Abi.Layout
