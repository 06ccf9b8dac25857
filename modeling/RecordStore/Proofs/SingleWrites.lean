import RecordStore.Proofs.Lookups
import RecordStore.Proofs.UpsertMatches

/-! An update of one operator at one field path, and what the other paths of a record lead to after
it. A path that parts from it leads to what it led to, unless the way that the two have in common
goes through something that is no object: setting and adding put an object in its place, and
removing stops short of it. -/
namespace RecordStore

namespace Record

theorem get?_erase_self {k : Name} {r : Record} (h : (r.map Prod.fst).Nodup) :
    (r.erase k).get? k = none := by
  induction r with
  | nil => rfl
  | cons m r ih =>
    obtain ⟨n, v⟩ := m
    obtain ⟨hnot, hr⟩ := List.nodup_cons.mp h
    by_cases hn : n = k
    · subst hn
      rw [erase, if_pos rfl]
      refine get?_eq_none fun m hm hname => hnot ?_
      have hmem : m.1 ∈ r.map Prod.fst := List.mem_map_of_mem hm
      rwa [hname] at hmem
    · rw [erase, if_neg hn, get?_cons_of_ne hn]
      exact ih hr

theorem get_unsetAt_self {p : Path} {r : Record} (hr : (Value.object r).isWellFormed)
    (hp : p ≠ []) : Value.get (.object (r.unsetAt p)) p =
      if r.displaces p p then Value.get (.object r) p else .ok .missing := by
  induction p generalizing r with
  | nil => exact absurd rfl hp
  | cons a p ih =>
    rw [Value.isWellFormed, Bool.and_eq_true, decide_eq_true_iff, Value.membersWellFormed_iff] at hr
    cases p with
    | nil =>
      rw [unsetAt, get_singleton, get?_erase_self hr.1]
      rfl
    | cons next p =>
      rw [displaces, decide_eq_true rfl, Bool.true_and]
      have hstay (h : ∀ ms : Record, r.get? a ≠ some (.object ms)) :
          r.unsetAt (a :: next :: p) = r := by
        obtain ⟨ms, hms, -⟩ | hunset := unsetAt_cons a next p r
        · exact absurd hms (h ms)
        · exact hunset
      cases hmember : r.get? a with
      | none =>
        have hopen : r.blocks a = false := by rw [blocks, hmember, Option.any_none]
        have hbelow : r.below a = [] := by rw [below, hmember]; rfl
        rw [hstay (by simp [hmember]), hopen, hbelow, displaces_nil]
        exact get_of_none hmember
      | some w =>
        cases hobject : w.isObject with
        | true =>
          obtain ⟨ms, rfl⟩ := Value.isObject_iff.mp hobject
          have hunset : r.unsetAt (a :: next :: p) =
              r.put a (.object (Record.unsetAt (next :: p) ms)) := by
            simp [unsetAt, hmember]
          have hopen : r.blocks a = false := by rw [blocks, hmember]; rfl
          have hbelow : r.below a = ms := by rw [below, hmember]; rfl
          have hrest := ih (hr.2 _ (mem_of_get? hmember)) (List.cons_ne_nil next p)
          rw [hunset, get_of_object (get?_put_self _ _), hrest, hopen, hbelow, Bool.false_or,
            get_of_object hmember]
        | false =>
          have hblocked : r.blocks a := by simp [blocks, hmember, hobject]
          rw [hstay, hblocked, Bool.true_or, if_pos rfl]
          intro ms hms
          rw [hmember] at hms
          cases hms
          cases hobject

theorem exists_of_displaces {p q : Path} {r : Record} (h : r.displaces p q) :
    ∃ name next p' next' q', p = name :: next :: p' ∧ q = name :: next' :: q' ∧
      (r.blocks name ∨ (r.below name).displaces (next :: p') (next' :: q')) := by
  rw [displaces.eq_def] at h
  split at h
  · rw [Bool.and_eq_true, decide_eq_true_iff, Bool.or_eq_true] at h
    obtain ⟨rfl, h⟩ := h
    exact ⟨_, _, _, _, _, rfl, rfl, h⟩
  · cases h

/-- What a write takes away was found by position, or in a document, on the way that it shares. -/
theorem passed_of_displaced {p q : Path} {r : Record} {v : Value} (h : r.displaces p q)
    (hget : Value.get (.object r) q = .ok v) (hv : v ≠ .missing) :
    ∃ front w, front ≠ [] ∧ front <+: p ∧ front <+: q ∧ Value.get (.object r) front = .ok w ∧
      (w.isPositional ∨ ∃ data, w = .document data) := by
  induction p generalizing q r with
  | nil => simp [displaces] at h
  | cons a p ih =>
    obtain ⟨name, next, p', next', q', hpath, rfl, hway⟩ := exists_of_displaces h
    obtain ⟨rfl, rfl⟩ := List.cons.inj hpath
    cases hblocks : r.blocks a with
    | true =>
      obtain ⟨w, hw, hobject⟩ := (Option.any_eq_true _ _).mp hblocks
      have hfront : Value.get (.object r) [a] = .ok w := by
        rw [get_singleton, hw, Option.getD_some]
      refine ⟨[a], w, by simp, by simp, by simp, hfront, ?_⟩
      -- Other values have no parts, and there would be nothing to take away.
      cases w with
      | list | tuple | byteArray => exact .inl rfl
      | document data => exact .inr ⟨data, rfl⟩
      | object => cases hobject
      | _ =>
        simp [Value.get, Value.unwrap, Value.follow, Value.child, hw, ok_bind, pure,
          Except.pure] at hget
        exact absurd hget.symm hv
    | false =>
      have hbelow : (r.below a).displaces (next :: p') (next' :: q') :=
        hway.resolve_left (by simp [hblocks])
      rw [get_of_open hblocks (by simp)] at hget
      obtain ⟨front, w, hne, hp, hq, hfront, hw⟩ := ih hbelow hget
      refine ⟨a :: front, w, by simp, List.cons_prefix_cons.mpr ⟨rfl, hp⟩,
        List.cons_prefix_cons.mpr ⟨rfl, hq⟩, ?_, hw⟩
      rw [get_of_open hblocks hne, hfront]

end Record

namespace Update

/-- An expression of one operator at one path, which removes what is there or writes to it. -/
inductive OneAt (path : String) : Bool → Value → Prop
  | set (v : Value) : OneAt path false (.object [(.text setName, .object [(.text path, v)])])
  | increment (amount : Value) :
      OneAt path false (.object [(.text incrementName, .object [(.text path, amount)])])
  | unset (paths : Value) (single : paths.elements = .ok [.str path]) :
      OneAt path true (.object [(.text unsetName, paths)])

variable {path : String} {removes : Bool} {given : Value}

theorem any_isOperator {name : String} (hop : isOperator name) (v : Value) :
    (Record.keys [(.text name, v)]).any isOperator := by
  rw [show Record.keys [(.text name, v)] = [name] from rfl, List.any_cons, hop, Bool.true_or]

theorem paths_of_operator (name : String) (hop : isOperator name) (v : Value)
    (fullReplace : Bool) :
    let ms : Record := [(.text name, v)]
    written (.object ms) = (namesIn (operand ms setName) ++
        namesIn (operand ms incrementName)).map Path.ofText ∧
      touched fullReplace (.object ms) =
        written (.object ms) ++ pathsIn (operand ms unsetName) := by
  intro ms
  have hany : (Record.keys ms).any isOperator := any_isOperator hop v
  constructor
  · rw [written, if_pos hany]
  · rw [touched, hany, Bool.not_true, Bool.and_false, if_neg Bool.false_ne_true, removed,
      if_pos hany]

theorem OneAt.paths (h : OneAt path removes given) (fullReplace : Bool) :
    written given = (if removes then [] else [Path.ofText path]) ∧
      touched fullReplace given = [Path.ofText path] := by
  cases h with
  | set v =>
    obtain ⟨hwritten, htouched⟩ := paths_of_operator setName (by decide)
      (.object [(.text path, v)]) fullReplace
    exact ⟨hwritten, htouched.trans (by rw [hwritten]; rfl)⟩
  | increment amount =>
    obtain ⟨hwritten, htouched⟩ := paths_of_operator incrementName (by decide)
      (.object [(.text path, amount)]) fullReplace
    exact ⟨hwritten, htouched.trans (by rw [hwritten]; rfl)⟩
  | unset paths single =>
    obtain ⟨hwritten, htouched⟩ := paths_of_operator unsetName (by decide)
      paths fullReplace
    refine ⟨hwritten, htouched.trans ?_⟩
    have hpaths : pathsIn paths = [Path.ofText path] := by
      rw [pathsIn, single]
      rfl
    rw [hwritten]
    exact hpaths

theorem OneAt.applied_unset {keyField : Name} {fullReplace : Bool} {r : Record} {new : Value}
    (h : OneAt path true given) (happlied : Applied keyField fullReplace given (.object r) new) :
    new = .object (r.unsetAt (.ofText path)) := by
  cases h with
  | unset paths single =>
    obtain ⟨_, ⟨⟩, happlied⟩ := happlied
    rw [if_pos (any_isOperator (by decide) paths)] at happlied
    obtain ⟨-, r', s, hset, hunset, hincrement⟩ := happlied
    cases hset
    have hunset : Update.unset paths (.object r) = .ok s := hunset
    rw [Update.unset, single] at hunset
    cases hunset
    cases hincrement
    rfl

end Update

/-- What an update at one path leaves of a record. A path that parts from it leads to what it led
to, unless a write displaced that, which takes something on the common way that is gone through by
position or is a document. What is taken away is gone unless something stands in the way. -/
structure Record.Touched (removes : Bool) (p : Path) (old new : Record) : Prop where
  apart : ∀ q, Path.Apart p q → Value.get (.object new) q =
    if !removes && old.displaces p q then .ok .missing else Value.get (.object old) q
  passed : ∀ q v, Path.Apart p q → Value.get (.object old) q = .ok v →
    Value.get (.object new) q ≠ .ok v → removes = false ∧ ∃ front w, front ≠ [] ∧ front <+: p ∧
      front <+: q ∧ Value.get (.object old) front = .ok w ∧
      (w.isPositional ∨ ∃ data, w = .document data)
  gone : removes → Value.get (.object new) p =
    if old.displaces p p then Value.get (.object old) p else .ok .missing

theorem Update.OneAt.applied_touched {path : String} {removes fullReplace : Bool}
    {given new : Value}
    {keyField : Name} {old : Record} (h : OneAt path removes given)
    (hold : (Value.object old).isWellFormed)
    (happlied : Applied keyField fullReplace given (.object old) new) :
    ∃ r : Record, new = .object r ∧ Record.Touched removes (.ofText path) old r := by
  obtain ⟨hwritten, htouched⟩ := h.paths fullReplace
  have hobject : new.isObject := happlied.isObject rfl
  obtain ⟨r, rfl⟩ := Value.isObject_iff.mp hobject
  have hapart (q) (hq : Path.Apart (.ofText path) q) : Value.get (.object r) q =
      if !removes && old.displaces (.ofText path) q then .ok .missing
      else Value.get (.object old) q := by
    obtain ⟨s, hs, hget⟩ := Update.applied_touched (q := q) happlied (by
      rw [htouched]
      exact List.forall_mem_singleton.mpr hq)
    cases hs
    rw [hget.get, hwritten]
    cases removes <;> simp
  refine ⟨r, rfl, hapart, fun q v hq hold hnew => ?_, fun hremoves => ?_⟩
  · rw [hapart q hq] at hnew
    split at hnew
    · rename_i hdisplaced
      rw [Bool.and_eq_true, Bool.not_eq_true'] at hdisplaced
      obtain ⟨hwrites, hdisplaced⟩ := hdisplaced
      refine ⟨hwrites, Record.passed_of_displaced hdisplaced hold fun hv => ?_⟩
      rw [hv] at hnew
      exact hnew rfl
    · exact absurd hold hnew
  · subst hremoves
    cases h.applied_unset happlied
    exact Record.get_unsetAt_self hold (Path.ofText_ne_nil path)

namespace Collection
variable {c : Collection} {store : Store} {path : String} {removes : Bool} {given : Value}

/-- An update of one operator at one path fails and changes nothing, or touches the records that the
query asks for at that path and what stands in its way, and no other records. -/
theorem update_touches_path (hc : c.backend = .memory store)
    (hw : ∀ r ∈ store.records, r.isObject ∧ r.isWellFormed)
    (hgiven : Update.OneAt path removes given) (query : Query) (choice : Value) :
    match (update query given choice).run.run c with
    | (.error _, after) => after = c
    | (.ok _, after) => ∃ records, after = { c with backend := .memory { store with records } } ∧
        List.Forall₂ (fun old new => if query.selects old then
          ∃ r s : Record, old = .object r ∧ new = .object s ∧
            Record.Touched removes (.ofText path) r s
          else new = old) store.records records := by
  have h := update_applied hc (fun r hr => (hw r hr).1) query given choice
  generalize (update query given choice).run.run c = result at h ⊢
  obtain ⟨outcome, after⟩ := result
  cases outcome with
  | error e => exact h
  | ok n =>
    obtain ⟨-, records, hafter, hmade⟩ := h
    refine ⟨records, hafter, ?_⟩
    refine ((List.forall₂_and_left _ _).mpr ⟨hw, hmade⟩).imp fun old new h => ?_
    obtain ⟨⟨hobject, hwf⟩, hmade⟩ := h
    split at hmade
    · rw [if_pos ‹_›]
      obtain ⟨r, rfl⟩ := Value.isObject_iff.mp hobject
      obtain ⟨s, rfl, htouched⟩ := hgiven.applied_touched hwf hmade
      exact ⟨r, s, rfl, rfl, htouched⟩
    · rwa [if_neg ‹_›]

/-- A number of a position is taken away, and the other one stays. -/
theorem update_touches_path_of_position :
    let old : Record := [("id", .str "a"), ("pos", .object [("x", .int 1), ("y", .int 2)])]
    let new : Record := [("id", .str "a"), ("pos", .object [("y", .int 2)])]
    let store : Store := { records := [.object old] }
    let c : Collection := { name := .str "users", backend := .memory store }
    let given : Value := .object [("$unset", .object [("pos.x", .bool true)])]
    (∀ r ∈ store.records, r.isObject ∧ r.isWellFormed) ∧ Update.OneAt "pos.x" true given ∧
      (update .null given .null).run.run c =
        (.ok (.int 1), { c with backend := .memory { store with records := [.object new] } }) ∧
      Record.Touched true ["pos", "x"] old new := by
  intro old new store c given
  have hw : ∀ r ∈ store.records, r.isObject ∧ r.isWellFormed :=
    List.forall_mem_singleton.mpr ⟨rfl, by decide⟩
  have hgiven : Update.OneAt "pos.x" true given := .unset _ rfl
  have hrun : (update .null given .null).run.run c =
      (.ok (.int 1), { c with backend := .memory { store with records := [.object new] } }) := rfl
  have h := update_touches_path (c := c) rfl hw hgiven .null .null
  rw [hrun] at h
  obtain ⟨records, hrecords, hmade⟩ := h
  have hrecords : [Value.object new] = records := by
    injection hrecords with _ _ _ hbackend
    injection hbackend with hstore
    injection hstore
  subst hrecords
  obtain ⟨⟨_, _, ⟨⟩, ⟨⟩, htouched⟩, -⟩ := List.forall₂_cons.mp hmade
  exact ⟨hw, hgiven, hrun, htouched⟩

/-- Setting one element of a list loses the other, and removing one does nothing. -/
theorem list_elements_unreached :
    let old : Record := [("id", .int 1), ("a", .list [.int 1, .int 2])]
    let new : Record := [("id", .int 1), ("a", .object [("0", .int 5)])]
    let store : Store := { records := [.object old] }
    let c : Collection := { name := .str "users", backend := .memory store }
    let set : Value := .object [("$set", .object [("a.0", .int 5)])]
    let unset : Value := .object [("$unset", .object [("a.0", .bool true)])]
    (update .null set .null).run.run c =
        (.ok (.int 1), { c with backend := .memory { store with records := [.object new] } }) ∧
      (update .null unset .null).run.run c = (.ok (.int 1), c) ∧
      Path.Apart (.ofText "a.0") (.ofText "a.1") ∧
      Value.get (.object old) (.ofText "a.1") = .ok (.int 2) ∧
      Value.get (.object new) (.ofText "a.1") = .ok .missing ∧
      Value.get (.object old) (.ofText "a.0") = .ok (.int 1) := by
  intro old new store c set unset
  exact ⟨rfl, rfl, ⟨by decide, by decide⟩, rfl, rfl, rfl⟩

end Collection

end RecordStore
