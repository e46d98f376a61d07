/-
  Writing a child of a child: handles opened inside each other.

  A closure that changes a child through a view of it may open a handle in that child again, and so
  on, down a route of keys. At every level the container that was opened is built anew and written
  into the one above, and any of them can refuse; then the closures above fail as well, so that no
  write reaches the root. If all of them accept, the host value of the root has changed at the end
  of the route and nowhere else.

  A struct and the tuple of its fields have the same name, and a child of either is accepted in
  the place of the other. It comes back under the type that is declared there, so the host value
  that the root shows can differ from the one that was written in the form of tuples and structs
  (`Host.asTuples`), and in nothing else.

  * `Route.changed_of_perform`: what a nested write that succeeds has done.
  * `Route.perform_eq_error_iff`: what stops a nested write.
  * `nested_write_changes_path`: one path is changed, or nothing.
  * `not_nested_write_shows_written`: the host value need not be the one that was written.
-/
import Abi.Proofs.Container.Holders
import Abi.Proofs.Handle.Actions

namespace Abi

/-! ## Routes -/

/-- The way to a child of some container. Inside a container the closure may go on after the nested
write, and fail (`check`). -/
inductive Route : Holder → Type where
  | child {h : Holder} (key : h.Key) : Route h
  | inside {h : Holder} (key : h.Key) (inner : Holder) (rest : Route inner)
    (check : inner.Carrier → Except Error Unit) : Route h

namespace Route

/-- The keys on the way. -/
def keys : {h : Holder} → Route h → List Host.Key
  | h, child key => [h.hostKey key]
  | h, inside key _ rest _ => h.hostKey key :: rest.keys

/-- The child at the end of the route, as its handle reads it. -/
def reach : {h : Holder} → Route h → h.Carrier → Except Error Value
  | h, child key, c => do
    return (← h.handle c key).value
  | h, inside key inner rest _, c => do
    let g ← h.handle c key
    let d : inner.Carrier ← View.ofValue g.value
    rest.reach d

/-- The container after an action at the end of the route. -/
def perform (x : Handle.Action) : {h : Holder} → Route h → h.Carrier → Except Error h.Carrier
  | h, child key, c => do
    x.perform (← h.handle c key)
  | h, inside key inner rest check, c => do
    let g ← h.handle c key
    let nested := fun d : inner.Carrier => do
      let d ← rest.perform x d
      return (← check d, d)
    (g.modify nested).map (·.2)

variable {h inner : Holder} {x : Handle.Action} {c d : h.Carrier} {key : h.Key}
  {rest : Route inner} {check : inner.Carrier → Except Error Unit} {N : Host} {e : Error}

/-- The container that the caller is left with: the old one, if the write fails. -/
def after (x : Handle.Action) (r : Route h) (c : h.Carrier) : h.Carrier :=
  match r.perform x c with
  | .ok d => d
  | .error _ => c

theorem perform_child :
    (child key).perform x c = h.handle c key >>= fun g => x.result g.value >>= g.set := by
  unfold perform
  cases h.handle c key with
  | error e => rfl
  | ok g => exact x.perform_eq g

theorem perform_inside :
    (inside key inner rest check).perform x c =
      h.handle c key >>= fun g => View.ofValue g.value >>= fun d =>
        rest.perform x d >>= fun d' => check d' >>= fun _ => g.set (View.toValue d') := by
  rw [perform]
  cases h.handle c key with
  | error e => rfl
  | ok g =>
    refine (g.modify_map_snd _).trans ?_
    show Handle.through _ g.value >>= g.set = View.ofValue g.value >>= fun d => _
    unfold Handle.through
    rcases View.ofValue (T := inner.Carrier) g.value with e | d
    · rfl
    · simp only [Outcome.ok_bind]
      rcases rest.perform x d with e | d'
      · rfl
      · simp only [Outcome.ok_bind]
        cases check d' <;> rfl

/-! ## Writes that succeed -/

/-- What a nested write that succeeds has done: at the end of the route stood `u`, the action has
made `v` of it, and the positions that the keys mean are `ps`. -/
structure Changed (x : Handle.Action) (r : Route h) (c d : h.Carrier) (N : Host) (u v : Value)
    (ps : List Nat) : Prop where
  reach : r.reach c = .ok u
  result : x.result u = .ok v
  hasTy : v.HasTy u.ty
  resolve : N.resolve? r.keys = some ps
  before : ∃ n, N.at? ps = some n ∧ u.decode = .ok n
  ty : (View.toValue d).ty = (View.toValue c).ty
  length_le : (View.toValue d).bytes.length ≤ Limits.valueBytes
  native : ∀ m, Host.decode u.ty v.bytes = .ok m →
    ∃ N', N.replace? ps m = some N' ∧ h.native d = .ok N'

theorem changed_child {g : Handle h.Carrier h.Place} {v : Value} (hN : h.native c = .ok N)
    (hg : h.handle c key = .ok g) (hv : x.result g.value = .ok v) (hd : g.set v = .ok d) :
    ∃ ps, (child key).Changed x c d N g.value v ps := by
  obtain ⟨i, hw⟩ := Holder.native_of_set hN hg hd
  obtain ⟨n, hn, hu⟩ := hw.before
  refine ⟨[i], ?_, hv, hw.hasTy, ?_, ⟨n, ?_, hu⟩, hw.ty, hw.length_le, fun m hm => ?_⟩
  · exact congrArg (· >>= _) hg
  · exact Host.resolve?_cons hw.position hn rfl
  · exact Host.at?_cons hn
  · obtain ⟨N', hN', hd'⟩ := hw.native m hm
    exact ⟨N', Host.replace?_cons_eq_some_iff.2 ⟨n, m, hn, rfl, hN'⟩, hd'⟩

/-- A change in an inner container is a change in the one that it is written into. -/
theorem changed_inside {g : Handle h.Carrier h.Place} {b b' : inner.Carrier} {u v : Value}
    {i : Nat} {M : Host} {ps : List Nat} (hg : h.handle c key = .ok g)
    (hb : View.ofValue g.value = .ok b)
    (hw : Holder.Rewritten c d key N g.value (View.toValue b') i)
    (hM : N.children[i]? = some M) (hr : rest.Changed x b b' M u v ps) :
    (inside key inner rest check).Changed x c d N u v (i :: ps) := by
  have hty : (View.toValue b').ty = g.value.ty := by
    rw [hr.ty, Holder.toValue_of_ofValue hb]
  refine ⟨?_, hr.result, hr.hasTy, ?_, ?_, hw.ty, hw.length_le, fun m hm => ?_⟩
  · unfold reach
    rw [hg, Outcome.ok_bind, hb, Outcome.ok_bind, hr.reach]
  · exact Host.resolve?_cons hw.position hM hr.resolve
  · rw [Host.at?_cons hM]
    exact hr.before
  · obtain ⟨M', hM', hb'⟩ := hr.native m hm
    rw [Holder.native_eq_decode] at hb'
    obtain ⟨N', hN', hd'⟩ := hw.native M' (hty ▸ hb')
    exact ⟨N', Host.replace?_cons_eq_some_iff.2 ⟨M, M', hM, hM', hN'⟩, hd'⟩

theorem changed_of_perform (r : Route h) (hN : h.native c = .ok N)
    (hd : r.perform x c = .ok d) : ∃ u v ps, r.Changed x c d N u v ps := by
  induction r generalizing N with
  | child key =>
    rw [perform_child] at hd
    obtain ⟨g, hg, hd⟩ := Outcome.bind_eq_ok_iff.1 hd
    obtain ⟨v, hv, hd⟩ := Outcome.bind_eq_ok_iff.1 hd
    exact ⟨g.value, v, changed_child hN hg hv hd⟩
  | inside key inner rest check ih =>
    rw [perform_inside] at hd
    obtain ⟨g, hg, hd⟩ := Outcome.bind_eq_ok_iff.1 hd
    obtain ⟨b, hb, hd⟩ := Outcome.bind_eq_ok_iff.1 hd
    obtain ⟨b', hb', hd⟩ := Outcome.bind_eq_ok_iff.1 hd
    obtain ⟨_, _, hd⟩ := Outcome.bind_eq_ok_iff.1 hd
    obtain ⟨i, hw⟩ := Holder.native_of_set hN hg hd
    obtain ⟨M, hM, hu⟩ := hw.before
    -- the inner container has the host value of the child, so the induction reaches it
    have hbM : inner.native b = .ok M := by
      rw [Holder.native_eq_decode, Holder.toValue_of_ofValue hb]
      exact hu
    obtain ⟨u, v, ps, hr⟩ := ih hbM hb'
    exact ⟨u, v, i :: ps, changed_inside hg hb hw hM hr⟩

/-! ## Writes that fail -/

/-- What stops a nested write, at whichever level. -/
inductive Blocked (x : Handle.Action) (e : Error) : {h : Holder} → Route h → h.Carrier → Prop where
  /-- There is no such child, or the children cannot be read. -/
  | child_absent {h : Holder} {key : h.Key} {c : h.Carrier} : h.handle c key = .error e →
    Blocked x e (child key) c
  | action {h : Holder} {key : h.Key} {c : h.Carrier} {g : Handle h.Carrier h.Place} :
    h.handle c key = .ok g → x.result g.value = .error e → Blocked x e (child key) c
  | child_refused {h : Holder} {key : h.Key} {c : h.Carrier} {g : Handle h.Carrier h.Place}
    {v : Value} : h.handle c key = .ok g → x.result g.value = .ok v → Holder.Refuses c g v e →
    Blocked x e (child key) c
  | inner_absent {h inner : Holder} {key : h.Key} {c : h.Carrier} {rest : Route inner}
    {check : inner.Carrier → Except Error Unit} : h.handle c key = .error e →
    Blocked x e (inside key inner rest check) c
  /-- The child is not a container of the kind that the closure takes. -/
  | kind {h inner : Holder} {key : h.Key} {c : h.Carrier} {rest : Route inner}
    {check : inner.Carrier → Except Error Unit} {g : Handle h.Carrier h.Place} :
    h.handle c key = .ok g → View.ofValue (T := inner.Carrier) g.value = .error e →
    Blocked x e (inside key inner rest check) c
  | inner {h inner : Holder} {key : h.Key} {c : h.Carrier} {rest : Route inner}
    {check : inner.Carrier → Except Error Unit} {g : Handle h.Carrier h.Place}
    {b : inner.Carrier} : h.handle c key = .ok g → View.ofValue g.value = .ok b →
    Blocked x e rest b → Blocked x e (inside key inner rest check) c
  /-- The closure fails after the nested write. -/
  | check {h inner : Holder} {key : h.Key} {c : h.Carrier} {rest : Route inner}
    {check : inner.Carrier → Except Error Unit} {g : Handle h.Carrier h.Place}
    {b b' : inner.Carrier} : h.handle c key = .ok g → View.ofValue g.value = .ok b →
    rest.perform x b = .ok b' → check b' = .error e → Blocked x e (inside key inner rest check) c
  | inner_refused {h inner : Holder} {key : h.Key} {c : h.Carrier} {rest : Route inner}
    {check : inner.Carrier → Except Error Unit} {g : Handle h.Carrier h.Place}
    {b b' : inner.Carrier} : h.handle c key = .ok g → View.ofValue g.value = .ok b →
    rest.perform x b = .ok b' → check b' = .ok () → Holder.Refuses c g (View.toValue b') e →
    Blocked x e (inside key inner rest check) c

theorem perform_eq_error_iff (r : Route h) : r.perform x c = .error e ↔ r.Blocked x e c := by
  induction r with
  | child key =>
    rw [perform_child]
    simp only [Outcome.bind_eq_error_iff]
    constructor
    · rintro (he | ⟨g, hg, he | ⟨v, hv, he⟩⟩)
      · exact .child_absent he
      · exact .action hg he
      · exact .child_refused hg hv ((Holder.set_eq_error_iff hg).1 he)
    · intro hb
      cases hb with
      | child_absent he => exact .inl he
      | action hg he => exact .inr ⟨_, hg, .inl he⟩
      | child_refused hg hv he =>
        have hs := (Holder.set_eq_error_iff hg).2 he
        exact .inr ⟨_, hg, .inr ⟨_, hv, hs⟩⟩
  | inside key inner rest check ih =>
    rw [perform_inside]
    simp only [Outcome.bind_eq_error_iff, ih]
    constructor
    · rintro (he | ⟨g, hg, he | ⟨b, hb, he | ⟨b', hb', he | ⟨_, hc, he⟩⟩⟩⟩)
      · exact .inner_absent he
      · exact .kind hg he
      · exact .inner hg hb he
      · exact .check hg hb hb' he
      · exact .inner_refused hg hb hb' hc ((Holder.set_eq_error_iff hg).1 he)
    · intro hb
      cases hb with
      | inner_absent he => exact .inl he
      | kind hg he => exact .inr ⟨_, hg, .inl he⟩
      | inner hg hb he => exact .inr ⟨_, hg, .inr ⟨_, hb, .inl he⟩⟩
      | check hg hb hb' he => exact .inr ⟨_, hg, .inr ⟨_, hb, .inr ⟨_, hb', .inl he⟩⟩⟩
      | inner_refused hg hb hb' hc he =>
        have hs := (Holder.set_eq_error_iff hg).2 he
        exact .inr ⟨_, hg, .inr ⟨_, hb, .inr ⟨_, hb', .inr ⟨_, hc, hs⟩⟩⟩⟩

/-- One of the containers on the way is a frozen struct. -/
def MeetsFrozen : {h : Holder} → Route h → h.Carrier → Prop
  | h, child _, c => h.Frozen c
  | h, inside key inner rest _, c => h.Frozen c ∨ ∃ (g : Handle h.Carrier h.Place)
    (b : inner.Carrier), h.handle c key = .ok g ∧ View.ofValue g.value = .ok b ∧ rest.MeetsFrozen b

theorem not_meetsFrozen_of_perform (r : Route h) (hd : r.perform x c = .ok d) :
    ¬ r.MeetsFrozen c := by
  induction r with
  | child key =>
    rw [perform_child] at hd
    obtain ⟨g, hg, hd⟩ := Outcome.bind_eq_ok_iff.1 hd
    obtain ⟨v, _, hd⟩ := Outcome.bind_eq_ok_iff.1 hd
    exact Holder.not_frozen_of_set hg hd
  | inside key inner rest check ih =>
    rw [perform_inside] at hd
    obtain ⟨g, hg, hd⟩ := Outcome.bind_eq_ok_iff.1 hd
    obtain ⟨b, hb, hd⟩ := Outcome.bind_eq_ok_iff.1 hd
    obtain ⟨b', hb', hd⟩ := Outcome.bind_eq_ok_iff.1 hd
    obtain ⟨_, _, hd⟩ := Outcome.bind_eq_ok_iff.1 hd
    rintro (hc | ⟨g', a, hg', ha, hm⟩)
    · exact Holder.not_frozen_of_set hg hd hc
    · obtain rfl := Except.ok.inj (hg.symm.trans hg')
      obtain rfl := Except.ok.inj (hb.symm.trans ha)
      exact ih hb' hm

/-! ## One path or nothing -/

/-- A nested write changes one path of the host value of the root, or it changes nothing. -/
structure OnePathOrNothing (x : Handle.Action) (r : Route h) (c : h.Carrier) (N : Host) : Prop where
  success {d : h.Carrier} : r.perform x c = .ok d → r.after x c = d ∧
    ∃ u v ps, r.Changed x c d N u v ps ∧
      ∀ n, v.decode = .ok n → ∃ m N', Host.decode u.ty v.bytes = .ok m ∧
        m.asTuples = n.asTuples ∧ (v.ty = u.ty → m = n) ∧
        N.Replaced ps m N' ∧ h.native d = .ok N'
  failure {e : Error} : r.perform x c = .error e → r.after x c = c
  blocked {e : Error} : r.perform x c = .error e ↔ r.Blocked x e c
  frozen : r.MeetsFrozen c → ∃ e, r.perform x c = .error e

end Route

/-- A write through handles opened inside each other changes one path of the host value of the
root, or nothing. What stands there afterwards is the value that was written, read as the type that
is declared in its place. -/
theorem nested_write_changes_path {h : Holder} (r : Route h) (x : Handle.Action) {c : h.Carrier}
    {N : Host} (hN : h.native c = .ok N) : r.OnePathOrNothing x c N where
  success {d} hd := by
    refine ⟨by rw [Route.after, hd], ?_⟩
    obtain ⟨u, v, ps, hr⟩ := r.changed_of_perform hN hd
    refine ⟨u, v, ps, hr, fun n hn => ?_⟩
    have hmap := Host.map_decode_of_same hr.hasTy v.bytes
    rw [show Host.decode v.ty v.bytes = .ok n from hn] at hmap
    obtain ⟨m, hm, hmn⟩ := Outcome.map_eq_ok_iff.1 hmap.symm
    obtain ⟨N', hN', hd'⟩ := hr.native m hm
    refine ⟨m, N', hm, hmn, fun ht => ?_, Host.replaced_of_replace? hN', hd'⟩
    rw [← ht] at hm
    exact Except.ok.inj (hm.symm.trans hn)
  failure he := by rw [Route.after, he]
  blocked := r.perform_eq_error_iff
  frozen hm := Outcome.exists_error_of_ne_ok fun _ hd => r.not_meetsFrozen_of_perform hd hm

/-- A byte is put behind the first row of a log, so that the second row moves. -/
theorem nested_write_changes_path_moved :
    let type : StructType := ⟨"Log", [("id", .byte), ("rows", .list (.list .byte))], false⟩
    let c : Struct := ⟨type, [5, 0, 3, 0, 2, 0, 4, 0, 7, 0, 1, 0xaa, 0, 2, 0xbb, 0xcc]⟩
    let d : Struct := ⟨type, [5, 0, 3, 0, 2, 0, 4, 0, 8, 0, 2, 0xaa, 0xdd, 0, 2, 0xbb, 0xcc]⟩
    let row : Route .dynamicArray := .child (-2 : Int)
    let r : Route .struct := .inside "rows" .dynamicArray row fun _ => .ok ()
    let x : Handle.Action := .modify fun a : DynamicArray => do
      return ((), ← a.append ⟨.byte, [0xdd]⟩)
    let N : Host := .struct
      [("id", .int 5), ("rows", .list [.bytes [0xaa], .bytes [0xbb, 0xcc]])]
    let N' : Host := .struct
      [("id", .int 5), ("rows", .list [.bytes [0xaa, 0xdd], .bytes [0xbb, 0xcc]])]
    Holder.native .struct c = .ok N ∧ r.perform x c = .ok d ∧ r.after x c = d ∧
      N.Replaced [1, 0] (.bytes [0xaa, 0xdd]) N' ∧ Holder.native .struct d = .ok N' := by
  intro type c d row r x N N'
  have hN : Holder.native .struct c = .ok N := by decide +kernel
  have hN' : Holder.native .struct d = .ok N' := by decide +kernel
  have hmap : (r.perform x c).map (fun s => (Struct.type s, Struct.bytes s)) =
      .ok (d.type, d.bytes) := by decide +kernel
  have hd : r.perform x c = .ok d := by
    obtain ⟨⟨_, _⟩, hs, he⟩ := Outcome.map_eq_ok_iff.1 hmap
    cases he
    exact hs
  have hwritten : (r.reach c >>= fun u => x.result u >>= Value.decode) =
      .ok (.bytes [0xaa, 0xdd]) := by decide +kernel
  obtain ⟨hafter, u, v, ps, hr, hshown⟩ := (nested_write_changes_path r x hN).success hd
  rw [hr.reach, Outcome.ok_bind, hr.result, Outcome.ok_bind] at hwritten
  obtain ⟨m, M, _, _, _, hrep, hM⟩ := hshown _ hwritten
  obtain rfl := Except.ok.inj (hN'.symm.trans hM)
  have hps : N.resolve? r.keys = some [1, 0] := by decide +kernel
  obtain rfl := Option.some.inj (hps.symm.trans hr.resolve)
  have hm : N'.at? [1, 0] = some (.bytes [0xaa, 0xdd]) := by decide +kernel
  obtain rfl := Option.some.inj (hm.symm.trans hrep.there)
  exact ⟨hN, hd, hafter, hrep, hN'⟩

/-- The root shows a struct where a tuple was written. -/
theorem not_nested_write_shows_written :
    ¬ ∀ (h : Holder) (r : Route h) (x : Handle.Action) (c d : h.Carrier) (N n : Host) (u v : Value),
      h.native c = .ok N → r.perform x c = .ok d → r.reach c = .ok u → x.result u = .ok v →
        v.decode = .ok n → ∃ ps N', N.resolve? r.keys = some ps ∧ N.replace? ps n = some N' ∧
          h.native d = .ok N' := by
  intro hall
  let point : Ty := .struct "Point" [("x", .byte)] false
  let c : DynamicArray := ⟨point, [0, 1, 7]⟩
  let d : DynamicArray := ⟨point, [0, 1, 9]⟩
  let r : Route .dynamicArray := .child (0 : Int)
  let x : Handle.Action := .set ⟨.tuple [.byte], [9]⟩
  let N : Host := .list [.struct [("x", .int 7)]]
  have hN : Holder.native .dynamicArray c = .ok N := by decide +kernel
  have hmap : (r.perform x c).map (fun a => (DynamicArray.item a, DynamicArray.bytes a)) =
      .ok (d.item, d.bytes) := by decide +kernel
  have hd : r.perform x c = .ok d := by
    obtain ⟨⟨_, _⟩, hs, he⟩ := Outcome.map_eq_ok_iff.1 hmap
    cases he
    exact hs
  have hread : (r.reach c).map (·.bytes) = .ok [7] := by decide +kernel
  obtain ⟨u, hu, _⟩ := Outcome.map_eq_ok_iff.1 hread
  have hn : Value.decode ⟨.tuple [.byte], [9]⟩ = .ok (.tuple [.int 9]) := by decide +kernel
  obtain ⟨ps, N', hps, hN', hshown⟩ := hall .dynamicArray r x c d N _ u _ hN hd hu rfl hn
  have hresolve : N.resolve? r.keys = some [0] := by decide +kernel
  obtain rfl := Option.some.inj (hresolve.symm.trans hps)
  obtain rfl : Host.list [.tuple [.int 9]] = N' := Option.some.inj hN'
  exact absurd hshown (by decide +kernel)

end Abi
