/-
  No accepted encoding is the beginning of another one.

  Bytes behind a plain value are refused for their number, or for the count in front of a text.
  Behind a composite value they are seen only if nothing is dynamic; otherwise they are handed on
  to the last dynamic item (`Layout.split_append`). That item refuses them in turn, whether it is
  in the row by itself or deep inside it.

  * `prefixFree`: by induction on the type.
  * `decode_prefix_free`: neither a longer buffer is accepted nor a shorter one.
-/
import Abi.Proofs.Host.Decode

namespace Abi.Host

/-- Bytes behind an accepted encoding are never accepted with it. -/
def PrefixFree (t : Ty) : Prop :=
  ∀ bs suffix m n, decode t bs = .ok m → decode t (bs ++ suffix) = .ok n → suffix = []

/-! ## Plain types -/

/-- Encodings of one length are prefix-free. -/
theorem prefixFree_of_length {t : Ty} (size : Nat)
    (h : ∀ bs n, decode t bs = .ok n → bs.length = size) : PrefixFree t := by
  intro bs suffix m n hm hn
  have hbs := h bs m hm
  have hlong := h (bs ++ suffix) n hn
  rw [List.length_append, hbs] at hlong
  exact List.eq_nil_of_length_eq_zero (by omega)

/-- Encodings behind their count are prefix-free: the count does not change. -/
theorem prefixFree_of_counted {t : Ty}
    (h : ∀ bs n, decode t bs = .ok n → ∃ body, Word.splitCounted bs = .ok (body.length, body)) :
    PrefixFree t := by
  intro bs suffix m n hm hn
  obtain ⟨body, hs⟩ := h bs m hm
  obtain ⟨body', hs'⟩ := h (bs ++ suffix) n hn
  rw [Word.splitCounted_append hs] at hs'
  obtain ⟨hcount, rfl⟩ := Prod.mk.inj (Except.ok.inj hs')
  rw [List.length_append] at hcount
  exact List.eq_nil_of_length_eq_zero (by omega)

theorem prefixFree_of_isPlain {t : Ty} (ht : t.isPlain = true) : PrefixFree t := by
  cases t with
  | uint width => exact prefixFree_of_length _ fun bs n h => (decode_uint_eq_ok_iff.1 h).1
  | byte =>
    refine prefixFree_of_length 1 fun bs n h => ?_
    rw [decode_byte_eq] at h
    exact (decode_uint_eq_ok_iff.1 h).1
  | bool =>
    refine prefixFree_of_length 1 fun bs n h => ?_
    obtain ⟨b, rfl, _⟩ := decode_bool_eq_ok_iff.1 h
    exact List.length_singleton
  | ufixed width precision =>
    exact prefixFree_of_length _ fun bs n h => (decode_ufixed_eq_ok_iff.1 h).1
  | address =>
    refine prefixFree_of_length Limits.addressBytes fun bs n h => ?_
    obtain ⟨a, rfl, _⟩ := decode_address_eq_ok_iff.1 h
    exact a.length_bytes
  | string =>
    refine prefixFree_of_counted fun bs n h => ?_
    obtain ⟨s, hs, _⟩ := decode_string_eq_ok_iff.1 h
    exact ⟨_, Word.splitCounted_eq_ok_iff.2 hs⟩
  | list item =>
    obtain rfl : item = .byte := of_decide_eq_true ht
    refine prefixFree_of_counted fun bs n h => ?_
    obtain ⟨cs, hc, _⟩ := decode_bytes_eq_ok_iff.1 h
    exact ⟨cs, Word.splitCounted_eq_ok_iff.2 hc⟩
  | array item size => cases ht
  | tuple items => cases ht
  | struct name fields frozen => cases ht

/-! ## Rows -/

/-- A row is prefix-free if every item is: one of them would have to accept the bytes behind it. -/
theorem eq_nil_of_decodeRow {ts : List Ty} {body suffix : Bytes} {ms ns : List Host}
    (ht : ∀ t ∈ ts, PrefixFree t) (h : decodeRow ts body = .ok ms)
    (h' : decodeRow ts (body ++ suffix) = .ok ns) : suffix = [] := by
  by_contra hs
  obtain ⟨children, hc, hm⟩ := Outcome.bind_eq_ok_iff.1 h
  obtain ⟨children', hc', hn⟩ := Outcome.bind_eq_ok_iff.1 h'
  obtain ⟨pre, last, post, rfl, rfl⟩ := Layout.split_append hs hc hc'
  have hlen := Layout.length_split hc
  rw [List.length_map, List.length_append, List.length_cons] at hlen
  -- the type of the item that the bytes were handed on to
  have hpos : 0 < (ts.drop pre.length).length := by
    rw [List.length_drop]
    omega
  obtain ⟨t, rest, hrest⟩ := List.exists_cons_of_length_pos hpos
  have hts : ts = ts.take pre.length ++ t :: rest := by rw [← hrest, List.take_append_drop]
  have hpre : (ts.take pre.length).length = pre.length := by
    rw [List.length_take]
    omega
  rw [hts] at hm hn
  obtain ⟨m, hm⟩ := exists_decode_of_decodeItems hpre hm
  obtain ⟨n, hn⟩ := exists_decode_of_decodeItems hpre hn
  have hmem : t ∈ ts := List.mem_of_mem_drop (hrest ▸ List.mem_cons_self ..)
  exact hs (ht t hmem last suffix m n hm hn)

/-! ## All types -/

theorem prefixFree (t : Ty) : PrefixFree t := by
  induction t using Ty.body_induction with
  | step t ih =>
    cases ht : t.isPlain with
    | true => exact prefixFree_of_isPlain ht
    | false =>
      intro bs suffix m n hm hn
      obtain ⟨ts, body, ms, hb, hms, _⟩ := exists_body_of_decode ht hm
      rw [decode_of_body (Ty.body?_append hb suffix)] at hn
      obtain ⟨ns, hns, _⟩ := Outcome.map_eq_ok_iff.1 hn
      exact eq_nil_of_decodeRow (ih bs ts body hb) hms hns

/-- Whoever appends bytes to an accepted encoding gets an error, and whoever cuts bytes off its end
does too. -/
theorem decode_prefix_free (t : Ty) (bs : Bytes) (n : Host) (h : decode t bs = .ok n) :
    (∀ suffix, suffix ≠ [] → ∃ e, decode t (bs ++ suffix) = .error e) ∧
      ∀ count < bs.length, ∃ e, decode t (bs.take count) = .error e := by
  constructor
  · intro suffix hs
    exact Outcome.exists_error_of_ne_ok fun m hm => hs (prefixFree t bs suffix n m h hm)
  · intro count hc
    refine Outcome.exists_error_of_ne_ok fun m hm => ?_
    rw [← List.take_append_drop count bs] at h
    have hdrop := prefixFree t (bs.take count) (bs.drop count) m n hm h
    rw [List.drop_eq_nil_iff] at hdrop
    omega

/-- An array without items of a dynamic type stands at the end, behind a boolean and a list of
texts. -/
theorem decode_prefix_free_nested :
    let t : Ty := .tuple [.bool, .list .string, .array (.tuple [.string]) 0]
    let bs : Bytes := [0x80, 0, 5, 0, 15, 0, 2, 0, 4, 0, 6, 0, 0, 0, 0]
    ∃ n, decode t bs = .ok n ∧
      (∀ suffix, suffix ≠ [] → ∃ e, decode t (bs ++ suffix) = .error e) ∧
      ∀ count < bs.length, ∃ e, decode t (bs.take count) = .error e := by
  intro t bs
  have h : decode t bs = .ok (.tuple [.bool true, .list [.text "", .text ""], .list []]) := by
    decide +kernel
  exact ⟨_, h, decode_prefix_free t bs _ h⟩

end Abi.Host
