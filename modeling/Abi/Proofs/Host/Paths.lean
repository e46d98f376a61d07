/-
  The components of a host value, at every depth.

  A component stands at the end of a path of positions, each counted among the children of one
  level: the items of a list or tuple, the values of fields, the single bytes of raw bytes. A caller
  says where a component is by indices, which may count from the end, and by field names; in a host
  value these are positions (`resolve?`).

  * `at?_replace?`: what was put at a path is found there.
  * `at?_replace?_other`: all that is neither above the path nor below it is as it was.
  * `Replaced`: the two together.
-/
import Abi.Host.Basic
import Abi.Typed.Index

namespace Abi.Host

/-- What a caller calls a child: its index or the name of its field. -/
inductive Key where
  | index (i : Int)
  | field (name : String)
deriving DecidableEq

/-! ## Children -/

/-- The host values that a host value is made of; raw bytes are made of integers. -/
def children : Host → List Host
  | .list ns | .tuple ns => ns
  | .struct fields => fields.map (·.2)
  | .bytes bs => bs.map fun b => .int b.toNat
  | .int _ | .bool _ | .decimal _ | .address _ | .text _ => []

/-- The host value with another child at a position; a child of raw bytes has to be a byte. -/
def withChild? : Host → Nat → Host → Option Host
  | .list ns, i, n => some (.list (ns.set i n))
  | .tuple ns, i, n => some (.tuple (ns.set i n))
  | .struct fields, i, n =>
    some (.struct ((fields.map (·.1)).zip ((fields.map (·.2)).set i n)))
  | .bytes bs, i, .int b => if b < 256 then some (.bytes (bs.set i (UInt8.ofNat b))) else none
  | _, _, _ => none

/-- The position of the child that a caller speaks of. -/
def position? : Host → Key → Option Nat
  | .list ns, .index i => (Index.position ns.length i).toOption
  | .bytes bs, .index i => (Index.position bs.length i).toOption
  | .struct fields, .field name => fields.findIdx? (·.1 = name)
  | _, _ => none

theorem children_of_withChild? {n m n' : Host} {i : Nat} (h : n.withChild? i m = some n') :
    n'.children = n.children.set i m := by
  cases n with
  | list ns =>
    cases h
    rfl
  | tuple ns =>
    cases h
    rfl
  | struct fields =>
    cases h
    refine List.map_snd_zip (Nat.le_of_eq ?_)
    rw [List.length_set, List.length_map, List.length_map]
  | bytes bs =>
    cases m with
    | int b =>
      rw [withChild?] at h
      split at h
      · rename_i hb
        cases h
        have hbyte : (UInt8.ofNat b).toNat = b := UInt8.toNat_ofNat_of_lt' hb
        show (bs.set i (UInt8.ofNat b)).map _ = (bs.map _).set i (int b)
        rw [List.map_set, hbyte]
      · cases h
    | _ => cases h
  | _ => cases h

/-! ## Paths -/

/-- The component at the end of a path. -/
def at? : Host → List Nat → Option Host
  | n, [] => some n
  | n, i :: path => do (← n.children[i]?).at? path

/-- The host value with another component at the end of a path. -/
def replace? : Host → List Nat → Host → Option Host
  | _, [], m => some m
  | n, i :: path, m => do
    let c ← n.children[i]?
    n.withChild? i (← c.replace? path m)

/-- The path of positions that a caller speaks of. -/
def resolve? : Host → List Key → Option (List Nat)
  | _, [] => some []
  | n, k :: keys => do
    let i ← n.position? k
    let c ← n.children[i]?
    return i :: (← c.resolve? keys)

section

variable {n m n' : Host} {i : Nat} {path : List Nat}

theorem at?_cons {c : Host} (hc : n.children[i]? = some c) : n.at? (i :: path) = c.at? path := by
  show n.children[i]?.bind (·.at? path) = c.at? path
  rw [hc]
  rfl

theorem resolve?_cons {c : Host} {key : Key} {keys : List Key} (hi : n.position? key = some i)
    (hc : n.children[i]? = some c) (hp : c.resolve? keys = some path) :
    n.resolve? (key :: keys) = some (i :: path) := by
  show ((n.position? key).bind fun i => n.children[i]?.bind fun c =>
    (c.resolve? keys).bind fun path => some (i :: path)) = _
  simp only [hi, hc, hp, Option.bind_some]

theorem replace?_cons_eq_some_iff :
    n.replace? (i :: path) m = some n' ↔
      ∃ c c', n.children[i]? = some c ∧ c.replace? path m = some c' ∧
        n.withChild? i c' = some n' := by
  show (n.children[i]?.bind fun c => (c.replace? path m).bind (n.withChild? i ·)) = some n' ↔ _
  simp only [Option.bind_eq_some_iff]
  constructor
  · intro h
    obtain ⟨c, hc, c', hc', h⟩ := h
    exact ⟨c, c', hc, hc', h⟩
  · intro h
    obtain ⟨c, c', hc, hc', h⟩ := h
    exact ⟨c, hc, c', hc', h⟩

/-- What was put at a path is found there. -/
theorem at?_replace? (h : n.replace? path m = some n') : n'.at? path = some m := by
  induction path generalizing n n' with
  | nil => exact h.symm
  | cons i path ih =>
    obtain ⟨c, c', hc, hc', h⟩ := replace?_cons_eq_some_iff.1 h
    have hlt : i < n.children.length := (List.getElem?_eq_some_iff.1 hc).1
    show n'.children[i]?.bind (·.at? path) = some m
    rw [children_of_withChild? h, List.getElem?_set_self hlt]
    exact ih hc'

/-- All that is neither above the path nor below it is as it was. -/
theorem at?_replace?_other (h : n.replace? path m = some n') {other : List Nat}
    (hbelow : ¬ path <+: other) (habove : ¬ other <+: path) : n'.at? other = n.at? other := by
  induction path generalizing n n' other with
  | nil => exact absurd List.nil_prefix hbelow
  | cons i path ih =>
    obtain ⟨c, c', hc, hc', h⟩ := replace?_cons_eq_some_iff.1 h
    cases other with
    | nil => exact absurd List.nil_prefix habove
    | cons j other =>
      show n'.children[j]?.bind (·.at? other) = n.children[j]?.bind (·.at? other)
      rw [children_of_withChild? h]
      by_cases hij : i = j
      · subst hij
        rw [List.prefix_cons_inj] at hbelow habove
        have hlt : i < n.children.length := (List.getElem?_eq_some_iff.1 hc).1
        rw [List.getElem?_set_self hlt, hc]
        exact ih hc' hbelow habove
      · rw [List.getElem?_set_ne hij]

/-- The host value has become another one by a change of the component at one path alone. -/
structure Replaced (n : Host) (path : List Nat) (m n' : Host) : Prop where
  replace : n.replace? path m = some n'
  there : n'.at? path = some m
  elsewhere {other : List Nat} : ¬ path <+: other → ¬ other <+: path → n'.at? other = n.at? other

theorem replaced_of_replace? (h : n.replace? path m = some n') : n.Replaced path m n' :=
  ⟨h, at?_replace? h, at?_replace?_other h⟩

end

end Abi.Host
