/-
  Types with one name cannot be told apart: they are laid out, read and written alike.

  Two types have one name exactly if they are equal once every struct is a tuple
  (`Ty.same_iff_asTuples`), so one of the two can be taken to have no structs. A reader then gives
  the same host value up to structs, or the same error: complaints speak of names and lengths only.
  What was read as the one type is written as the other, again with the same bytes or the same
  error; this goes row by row, each row as the values of its items (`Row.bytesAs_eq`).

  * `decode_asTuples`: reading as the type without structs.
  * `exists_row_of_same`: the host value of a row, without structs, is a row of the other type.
  * `bytesAs_of_same`: by induction over bodies.
  * `name_decides_layout`: the results put together.
-/
import Abi.Proofs.Host.Accepts
import Abi.Proofs.Host.Decode
import Abi.Proofs.Sequence.Changes
import Abi.Proofs.Sequence.Cuts
import Abi.Proofs.Ty.Names

namespace Abi

namespace Host

/-! ## Without structs -/

mutual

/-- The host value with every struct replaced by the tuple of its values. -/
def asTuples : Host → Host
  | .list items => .list (asTuplesOfItems items)
  | .tuple items => .tuple (asTuplesOfItems items)
  | .struct fields => .tuple (asTuplesOfFields fields)
  | .int n => .int n
  | .bool b => .bool b
  | .decimal literal => .decimal literal
  | .address a => .address a
  | .bytes bs => .bytes bs
  | .text s => .text s

/-- The host values without their structs. -/
def asTuplesOfItems : List Host → List Host
  | [] => []
  | n :: ns => n.asTuples :: asTuplesOfItems ns

/-- The values of the fields without their structs. -/
def asTuplesOfFields : List (String × Host) → List Host
  | [] => []
  | (_, n) :: fs => n.asTuples :: asTuplesOfFields fs

end

theorem asTuplesOfItems_eq (ns : List Host) : asTuplesOfItems ns = ns.map asTuples := by
  induction ns with
  | nil => rfl
  | cons n ns ih => rw [asTuplesOfItems, ih, List.map_cons]

theorem asTuplesOfFields_eq (fs : List (String × Host)) :
    asTuplesOfFields fs = (fs.map (·.2)).map asTuples := by
  induction fs with
  | nil => rfl
  | cons f fs ih => rw [asTuplesOfFields, ih, List.map_cons, List.map_cons]

theorem asTuples_list (ns : List Host) : (list ns).asTuples = list (ns.map asTuples) := by
  rw [asTuples, asTuplesOfItems_eq]

theorem asTuples_tuple (ns : List Host) : (tuple ns).asTuples = tuple (ns.map asTuples) := by
  rw [asTuples, asTuplesOfItems_eq]

theorem asTuples_struct (fs : List (String × Host)) :
    (struct fs).asTuples = tuple ((fs.map (·.2)).map asTuples) := by
  rw [asTuples, asTuplesOfFields_eq]

end Host

/-! ## Types -/

namespace Ty

theorem asTuples_eq_byte_iff {t : Ty} : t.asTuples = .byte ↔ t = .byte := by
  cases t <;> simp [asTuples]

/-- Whether an array is too large does not depend on what is a struct. -/
theorem repeated_asTuples (item : Ty) (size : Nat) :
    repeated item.asTuples size = (repeated item size).map (List.map asTuples) := by
  have hname : item.asTuples.name = item.name := congrArg String.ofList (nameChars_asTuples item)
  have hsize : (array item.asTuples size).fixedSize = (array item size).fixedSize :=
    fixedSize_asTuples (array item size)
  unfold repeated
  rw [hname, hsize]
  split
  · rfl
  · rw [Except.map, List.map_replicate]

/-- A type that is read as a whole has its name to itself. -/
theorem Same.eq_of_isPlain {s t : Ty} (h : s.Same t) (ht : t.isPlain = true) : s = t := by
  rw [same_iff_asTuples] at h
  cases t with
  | list item =>
    obtain rfl : item = .byte := of_decide_eq_true ht
    cases s with
    | list item =>
      rw [asTuples, asTuples, list.injEq] at h
      cases item with
      | byte => rfl
      | _ => cases h
    | _ => cases h
  | array item size => cases ht
  | tuple items => cases ht
  | struct name fields frozen => cases ht
  | _ =>
    cases s <;> cases h
    all_goals rfl

/-- The body of a value does not depend on what is a struct. -/
theorem body?_asTuples (t : Ty) (bs : Bytes) :
    t.asTuples.body? bs = (t.body? bs).map fun p => (p.1.map asTuples, p.2) := by
  cases t with
  | list item =>
    by_cases hb : item = .byte
    · subst hb
      rfl
    · have hb' : item.asTuples ≠ .byte := mt asTuples_eq_byte_iff.1 hb
      rw [asTuples, body?, body?, if_neg hb, if_neg hb']
      rcases Word.splitCounted bs with e | ⟨count, body⟩
      · rfl
      · simp
  | array item size =>
    rw [asTuples, body?, body?, repeated_asTuples]
    cases repeated item size <;> rfl
  | tuple items =>
    rw [asTuples_tuple]
    rfl
  | struct name fields frozen =>
    rw [asTuples_struct, body?, body?, Option.map_some, List.map_map]
    rfl
  | _ => rfl

end Ty

namespace Host

/-! ## Reading -/

/-- The items of a row are read without structs if each item is. -/
theorem decodeRow_asTuples {ts : List Ty} (body : Bytes)
    (ih : ∀ t ∈ ts, ∀ bs, decode t.asTuples bs = (decode t bs).map asTuples) :
    decodeRow (ts.map Ty.asTuples) body = (decodeRow ts body).map (List.map asTuples) := by
  have hslots : (ts.map Ty.asTuples).map Ty.slot = ts.map Ty.slot := by
    rw [List.map_map]
    exact List.map_congr_left fun t _ => Ty.slot_asTuples t
  unfold decodeRow
  rw [hslots, Outcome.map_bind]
  refine congrArg _ (funext fun children => ?_)
  clear hslots
  induction ts generalizing children with
  | nil => rfl
  | cons t ts ihs =>
    rw [List.forall_mem_cons] at ih
    cases children with
    | nil => rfl
    | cons bs bss =>
      rw [List.map_cons, decodeItems, decodeItems, ih.1, ihs ih.2]
      cases decode t bs with
      | error e => rfl
      | ok n => cases decodeItems ts bss <;> rfl

theorem ofItems_asTuples {t : Ty} {bs body : Bytes} {ts : List Ty} {ns : List Host}
    (hb : t.body? bs = some (ts, body)) (hl : ns.length = ts.length) :
    (ofItems t ns).asTuples = ofItems t.asTuples (ns.map asTuples) := by
  cases t with
  | struct name fields frozen =>
    cases hb
    have hitems : ((fields.map (·.1)).zip ns).map (·.2) = ns :=
      List.map_snd_zip (Nat.le_of_eq (by rw [hl, List.length_map, List.length_map]))
    rw [ofItems, asTuples_struct, hitems, Ty.asTuples_struct, ofItems]
  | tuple items => rw [ofItems, asTuples_tuple, Ty.asTuples_tuple, ofItems]
  | list item => exact asTuples_list ns
  | array item size => exact asTuples_list ns
  | _ => cases hb

/-- Without a body there is nothing to be a struct. -/
theorem decode_asTuples_of_no_body {t : Ty} {bs : Bytes} (hb : t.body? bs = none) :
    decode t.asTuples bs = (decode t bs).map asTuples := by
  cases t with
  | list item =>
    by_cases hne : item = .byte
    · subst hne
      show decode (.list .byte) bs = _
      rw [decode, Outcome.map_map]
      rfl
    · rw [Ty.body?, if_neg hne] at hb
      rw [Ty.asTuples, decode_list_of_ne hne, decode_list_of_ne (mt Ty.asTuples_eq_byte_iff.1 hne)]
      cases hs : Word.splitCounted bs with
      | error e => rfl
      | ok p =>
        rw [hs] at hb
        cases hb
  | array item size =>
    rw [Ty.body?] at hb
    rw [Ty.asTuples, decode, decode, Ty.repeated_asTuples]
    cases hr : Ty.repeated item size with
    | error e => rfl
    | ok ts =>
      rw [hr] at hb
      cases hb
  | tuple items => cases hb
  | struct name fields frozen => cases hb
  | ufixed width precision =>
    rw [Ty.asTuples, decode, Outcome.bind_pure_eq_map, Outcome.map_map]
    rfl
  | _ =>
    rw [Ty.asTuples, decode, Outcome.map_map]
    rfl

/-- A type without its structs reads the same host values without their structs, and fails with
the same errors. -/
theorem decode_asTuples (t : Ty) (bs : Bytes) :
    decode t.asTuples bs = (decode t bs).map asTuples := by
  induction t using Ty.body_induction generalizing bs with
  | step t ih =>
    cases hb : t.body? bs with
    | none => exact decode_asTuples_of_no_body hb
    | some p =>
      obtain ⟨ts, body⟩ := p
      have hb' : t.asTuples.body? bs = some (ts.map Ty.asTuples, body) := by
        rw [Ty.body?_asTuples, hb, Option.map_some]
      rw [decode_of_body hb, decode_of_body hb', decodeRow_asTuples body (ih bs ts body hb)]
      cases hns : decodeRow ts body with
      | error e => rfl
      | ok ns => exact congrArg Except.ok (ofItems_asTuples hb (length_of_decodeRow hns)).symm

/-- Types with one name read the same, up to structs. -/
theorem map_decode_of_same {s t : Ty} (h : s.Same t) (bs : Bytes) :
    (decode s bs).map asTuples = (decode t bs).map asTuples := by
  rw [← decode_asTuples, Ty.same_iff_asTuples.1 h, decode_asTuples]

/-! ## Rows -/

/-- The host value of a body is a row. -/
theorem row_ofItems {t : Ty} {bs body : Bytes} {ts : List Ty} {ns : List Host}
    (hb : t.body? bs = some (ts, body)) (hl : ns.length = ts.length) :
    Row t (ofItems t ns) ts ns := by
  cases t with
  | list item =>
    obtain ⟨_, count, _, rfl⟩ := Ty.body?_list_eq_some_iff.1 hb
    obtain rfl := hl.trans List.length_replicate
    exact .list item ns
  | array item size =>
    obtain rfl := Ty.eq_replicate_of_repeated (Ty.body?_array_eq_some_iff.1 hb).1
    obtain rfl := hl.trans List.length_replicate
    exact .array item ns
  | tuple items =>
    cases hb
    exact .tuple hl
  | struct name fields frozen =>
    cases hb
    rw [List.length_map] at hl
    have hnames : ((fields.map (·.1)).zip ns).map (·.1) = fields.map (·.1) :=
      List.map_fst_zip (Nat.le_of_eq (by rw [List.length_map, hl]))
    have hitems : ((fields.map (·.1)).zip ns).map (·.2) = ns :=
      List.map_snd_zip (Nat.le_of_eq (by rw [List.length_map, hl]))
    have hrow := @Row.struct name fields frozen _ hnames
    rwa [hitems] at hrow
  | _ => cases hb

/-- And so is the one that has a tuple in the place of a struct. -/
theorem row_ofItems_asTuples {t : Ty} {bs body : Bytes} {ts : List Ty} {ns : List Host}
    (hb : t.body? bs = some (ts, body)) (hl : ns.length = ts.length) :
    Row t (ofItems t.asTuples ns) ts ns := by
  cases t with
  | struct name fields frozen =>
    cases hb
    rw [Ty.asTuples_struct]
    exact .structAsTuple (hl.trans (List.length_map _))
  | tuple items =>
    rw [Ty.asTuples_tuple]
    exact row_ofItems hb hl
  | list item => exact row_ofItems hb hl
  | array item size => exact row_ofItems hb hl
  | _ => cases hb

theorem isCounted_asTuples (t : Ty) : isCounted t.asTuples = isCounted t := by
  cases t <;> rfl

/-- What a type makes of a row is, without structs, a row of every type of the same name. -/
theorem exists_row_of_same {s t : Ty} (h : s.Same t) {bs body : Bytes} {ts : List Ty}
    {ns : List Host} (hb : t.body? bs = some (ts, body)) (hl : ns.length = ts.length) :
    ∃ ss, Row s (ofItems t ns).asTuples ss (ns.map asTuples) ∧ List.Forall₂ Ty.Same ss ts ∧
      isCounted s = isCounted t := by
  have hst := Ty.same_iff_asTuples.1 h
  have hbodies := Ty.body?_asTuples s bs
  rw [hst, Ty.body?_asTuples, hb, Option.map_some] at hbodies
  obtain ⟨⟨ss, body'⟩, hsb, hmap⟩ := Option.map_eq_some_iff.1 hbodies.symm
  obtain ⟨hss, rfl⟩ := Prod.mk.inj hmap
  have hlen : ss.length = ts.length := by simpa using congrArg List.length hss
  refine ⟨ss, ?_, ?_, ?_⟩
  · rw [ofItems_asTuples hb hl, ← hst]
    exact row_ofItems_asTuples hsb (by rw [List.length_map, hl, hlen])
  · rw [← List.forall₂_eq_eq_eq, List.forall₂_map_left_iff, List.forall₂_map_right_iff] at hss
    exact hss.imp fun _ _ => Ty.same_iff_asTuples.2
  · rw [← isCounted_asTuples s, hst, isCounted_asTuples]

/-! ## Writing -/

/-- A value takes part in a sequence under its name only. -/
theorem part_of_same {s t : Ty} (h : s.Same t) (bs : Bytes) :
    (⟨s, bs⟩ : Value).part = (⟨t, bs⟩ : Value).part := by
  unfold Value.part
  rw [h.slot_eq, show s.name = t.name from h]

/-- Values of the same bytes are limited alike, and nothing that does not look at more than the
name tells them apart. -/
theorem map_ofHost_of_same {α : Type} {f : Value → α} {s t : Ty} (h : s.Same t) {m n : Host}
    (hb : bytesAs s m = bytesAs t n) (hf : ∀ bs, f ⟨s, bs⟩ = f ⟨t, bs⟩) :
    (Value.ofHost s m).map f = (Value.ofHost t n).map f := by
  unfold Value.ofHost
  rw [hb]
  cases bytesAs t n with
  | error e => rfl
  | ok bs =>
    rw [Outcome.ok_bind, Outcome.ok_bind]
    unfold Value.limited
    split
    · rw [show s.name = t.name from h]
    · exact congrArg Except.ok (hf bs)

/-- A row that was read is written in the same parts by types of the same names, if each of its
items has the same bytes. -/
theorem map_part_valuesAs {ss : List Ty} {vs : List Value} {ns : List Host}
    (hs : List.Forall₂ (fun s v => s.Same v.ty) ss vs)
    (hd : List.Forall₂ (fun v n => v.decode = .ok n) vs ns)
    (ih : ∀ v ∈ vs, ∀ s n, s.Same v.ty → v.decode = .ok n →
      bytesAs s n.asTuples = bytesAs v.ty n) :
    (valuesAs ss (ns.map asTuples)).map (List.map Value.part) =
      (valuesAs (vs.map (·.ty)) ns).map (List.map Value.part) := by
  rw [valuesAs_eq_mapM, valuesAs_eq_mapM, Outcome.map_mapM, Outcome.map_mapM]
  induction hd generalizing ss with
  | nil =>
    cases hs
    rfl
  | @cons v n vs ns hv _ ihs =>
    obtain ⟨s, ss, hsame, hss, rfl⟩ := List.forall₂_cons_right_iff.1 hs
    rw [List.forall_mem_cons] at ih
    have hhead := map_ofHost_of_same hsame (ih.1 s n hsame hv) (part_of_same hsame)
    have htail := ihs hss ih.2
    rw [List.map_cons, List.map_cons, List.zip_cons_cons, List.zip_cons_cons, List.mapM_cons,
      List.mapM_cons, hhead, htail]

/-- What is read as a whole is no struct. -/
theorem asTuples_of_isPlain {t : Ty} {bs : Bytes} {n : Host} (ht : t.isPlain = true)
    (h : decode t bs = .ok n) : n.asTuples = n := by
  have hsame : t.asTuples.Same t := Ty.same_iff.2 (Ty.nameChars_asTuples t)
  have hread := decode_asTuples t bs
  rw [hsame.eq_of_isPlain ht, h] at hread
  exact (Except.ok.inj hread).symm

/-- What was read as a type is written by every type of the same name, without structs, in the
same bytes or with the same error. -/
theorem bytesAs_of_same {s t : Ty} (h : s.Same t) {bs : Bytes} {n : Host}
    (hd : decode t bs = .ok n) : bytesAs s n.asTuples = bytesAs t n := by
  induction t using Ty.body_induction generalizing s bs n with
  | step t ih =>
    cases ht : t.isPlain with
    | true => rw [h.eq_of_isPlain ht, asTuples_of_isPlain ht hd]
    | false =>
      obtain ⟨ts, body, ns, hb, hns, rfl⟩ := exists_body_of_decode ht hd
      have hl := length_of_decodeRow hns
      obtain ⟨ss, hrow, hss, hcounted⟩ := exists_row_of_same h hb hl
      rw [hrow.bytesAs_eq, (row_ofItems hb hl).bytesAs_eq, hcounted, List.length_map]
      rw [decodeRow_eq] at hns
      obtain ⟨vs, hvs, hread⟩ := Outcome.bind_eq_ok_iff.1 hns
      obtain ⟨rfl, _⟩ := Sequence.exists_parts_of_decode hvs
      have hparts := map_part_valuesAs (List.forall₂_map_right_iff.1 hss)
        (Outcome.mapM_eq_ok_iff.1 hread) fun v hv s n hs hn =>
          ih bs _ body hb v.ty (List.mem_map_of_mem hv) hs hn
      rw [Outcome.bind_congr_of_map (fun _ _ => Sequence.encode_congr) hparts]

theorem encode_of_same {s t : Ty} (h : s.Same t) {bs : Bytes} {n : Host}
    (hd : decode t bs = .ok n) : encode s n.asTuples = encode t n := by
  unfold encode
  rw [Outcome.bind_pure_eq_map, Outcome.bind_pure_eq_map]
  exact map_ofHost_of_same h (bytesAs_of_same h hd) fun _ => rfl

/-! ## Names -/

/-- Two types of one name agree on whether they are dynamic, on whether they are the booleans, and
in size. Every buffer is refused by both with the same error, or read by both as the same value up
to structs; and what the one has read, without structs, the other encodes with the same result. -/
theorem name_decides_layout (a b : Ty) (h : a.Same b) :
    a.isDynamic = b.isDynamic ∧ a.isBool = b.isBool ∧ a.fixedSize = b.fixedSize ∧
      ∀ bs, (∃ e, decode a bs = .error e ∧ decode b bs = .error e) ∨
        ∃ v w, decode a bs = .ok v ∧ decode b bs = .ok w ∧ v.asTuples = w.asTuples ∧
          encode b v.asTuples = encode a v := by
  have hab := Ty.same_iff_asTuples.1 h
  refine ⟨?_, ?_, ?_, fun bs => ?_⟩
  · rw [← Ty.isDynamic_asTuples a, hab, Ty.isDynamic_asTuples]
  · rw [← Ty.isBool_asTuples a, hab, Ty.isBool_asTuples]
  · rw [← Ty.fixedSize_asTuples a, hab, Ty.fixedSize_asTuples]
  · have hmap := map_decode_of_same h bs
    cases ha : decode a bs with
    | error e =>
      rw [ha] at hmap
      cases hb : decode b bs with
      | error d =>
        rw [hb] at hmap
        exact Or.inl ⟨e, rfl, hmap.symm⟩
      | ok w =>
        rw [hb] at hmap
        cases hmap
    | ok v =>
      rw [ha] at hmap
      obtain ⟨w, hw, hvw⟩ := Outcome.map_eq_ok_iff.1 hmap.symm
      exact Or.inr ⟨v, w, rfl, hw, hvw.symm, encode_of_same h.symm ha⟩

/-- The one type has a struct outside and a tuple inside, the other one a tuple outside and a
struct inside; the second buffer ends within the head. -/
theorem name_decides_layout_nested :
    let a : Ty := .struct "Order" [("sides", .tuple [.bool, .bool]),
      ("lines", .list (.struct "Line" [("price", .ufixed 16 2), ("note", .string)] true))] false
    let b : Ty := .tuple [.struct "Sides" [("bid", .bool), ("ask", .bool)] false,
      .list (.tuple [.ufixed 16 2, .string])]
    let bs : Bytes := [0x40, 0, 3, 0, 1, 0, 2, 0, 125, 0, 4, 0, 1, 97]
    a.Same b ∧ a ≠ b ∧ a.isDynamic = b.isDynamic ∧ a.fixedSize = b.fixedSize ∧
      (∃ v w, decode a bs = .ok v ∧ decode b bs = .ok w ∧ v ≠ w ∧ v.asTuples = w.asTuples ∧
        encode b v.asTuples = encode a v) ∧
      ∃ e, decode a [0x40, 0] = .error e ∧ decode b [0x40, 0] = .error e := by
  intro a b bs
  have h : a.Same b := by decide +kernel
  have ha : decode a bs = .ok (.struct [("sides", .tuple [.bool false, .bool true]),
      ("lines", .list [.struct [("price", .decimal "1.25"), ("note", .text "a")]])]) := by
    decide +kernel
  have hb : decode b bs = .ok (.tuple [.struct [("bid", .bool false), ("ask", .bool true)],
      .list [.tuple [.decimal "1.25", .text "a"]]]) := by
    decide +kernel
  have hshort : decode a [0x40, 0] = .error (.malformed .truncated) := by decide +kernel
  obtain ⟨hdynamic, _, hsize, hread⟩ := name_decides_layout a b h
  refine ⟨h, by decide, hdynamic, hsize, ?_, ?_⟩
  · rcases hread bs with ⟨e, he, _⟩ | ⟨v, w, hv, hw, hvw, henc⟩
    · rw [ha] at he
      cases he
    · refine ⟨v, w, hv, hw, ?_, hvw, henc⟩
      rw [ha, Except.ok.injEq] at hv
      rw [hb, Except.ok.injEq] at hw
      rw [← hv, ← hw]
      decide
  · rcases hread [0x40, 0] with he | ⟨v, w, hv, _⟩
    · exact he
    · rw [hshort] at hv
      cases hv

end Host

end Abi
