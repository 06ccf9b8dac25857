import Mathlib.Algebra.Order.BigOperators.Group.List
import Mathlib.Algebra.Order.Group.Nat
import RecordStore.Proofs.Lookups
import RecordStore.Proofs.PathWrites

/-! Copying parts of a value. What a value holds at some paths is written at the same paths, one
after the other, and what the result holds there is compared with the value. A copy of a whole is
torn where a later one, of a part of it, goes on through something that is no object. -/
namespace RecordStore

abbrev Copy := Path × Value

namespace Value

def placed : Copy → Option Value → Value
  | ([], v), _ => v
  | (name :: path, v), old =>
    object (Record.setAt (name :: path) v ((old.bind members?).getD []))

def placedAll (cs : List Copy) (old : Option Value) : Option Value :=
  cs.foldl (fun v c => some (placed c v)) old

end Value

def Copy.under (k : Name) (cs : List Copy) : List Copy :=
  cs.filterMap fun
    | ([], _) => none
    | (name :: path, v) => if Name.text name = k then some (path, v) else none

inductive Copy.Parts : List Copy → Prop
  | nil : Parts []
  | cons (name : String) (path : Path) (v : Value) {cs : List Copy} (rest : Parts cs) :
      Parts ((name :: path, v) :: cs)

def Record.setAll (cs : List Copy) (r : Record) : Record :=
  cs.foldl (fun r c => r.setAt c.1 c.2) r

namespace Copy
variable {k : Name} {name : String} {path : Path} {v : Value} {cs : List Copy}

theorem parts_iff : Parts cs ↔ ∀ c ∈ cs, c.1 ≠ [] := by
  constructor
  · intro h
    induction h with
    | nil => exact fun _ hc => absurd hc List.not_mem_nil
    | cons name path v _ ih => exact List.forall_mem_cons.mpr ⟨List.cons_ne_nil _ _, ih⟩
  · intro h
    induction cs with
    | nil => exact .nil
    | cons c cs ih =>
      obtain ⟨hc, hrest⟩ := List.forall_mem_cons.mp h
      obtain ⟨_ | ⟨name, path⟩, v⟩ := c
      · exact absurd rfl hc
      · exact .cons name path v (ih hrest)

theorem Parts.behind {before : List Copy} {c : Copy} (h : Parts (before ++ c :: cs)) : Parts cs :=
  parts_iff.mpr fun d hd =>
    parts_iff.mp h d (List.mem_append_right _ (List.mem_cons_of_mem _ hd))

theorem exists_parts (cs : List Copy) :
    Parts cs ∨ ∃ before v after, cs = before ++ ([], v) :: after ∧ Parts after := by
  induction cs with
  | nil => exact .inl .nil
  | cons c cs ih =>
    obtain hparts | ⟨before, v, after, rfl, hafter⟩ := ih
    · obtain ⟨_ | ⟨name, path⟩, v⟩ := c
      · exact .inr ⟨[], v, cs, rfl, hparts⟩
      · exact .inl (.cons name path v hparts)
    · exact .inr ⟨c :: before, v, after, rfl, hafter⟩

theorem mem_under : (path, v) ∈ under k cs ↔ ∃ name, .text name = k ∧ (name :: path, v) ∈ cs := by
  rw [under, List.mem_filterMap]
  constructor
  · intro h
    obtain ⟨⟨p, w⟩, hmem, hc⟩ := h
    cases p with
    | nil => cases hc
    | cons name p =>
      dsimp only at hc
      split at hc
      · cases hc
        exact ⟨name, ‹_›, hmem⟩
      · cases hc
  · intro h
    obtain ⟨name, hname, hmem⟩ := h
    exact ⟨_, hmem, if_pos hname⟩

theorem under_cons_of_eq (h : Name.text name = k) (path : Path) (v : Value) (cs : List Copy) :
    under k ((name :: path, v) :: cs) = (path, v) :: under k cs :=
  List.filterMap_cons_some (if_pos h)

theorem under_cons_of_ne (h : Name.text name ≠ k) (path : Path) (v : Value) (cs : List Copy) :
    under k ((name :: path, v) :: cs) = under k cs :=
  List.filterMap_cons_none (if_neg h)

/-- A place in the writes under a name is one in all of them. -/
theorem split_under {before after : List Copy} (h : under k cs = before ++ (path, v) :: after) :
    ∃ first name last, cs = first ++ (name :: path, v) :: last ∧ .text name = k ∧
      under k first = before ∧ under k last = after := by
  rw [under, List.filterMap_eq_append_iff] at h
  obtain ⟨first, rest, rfl, rfl, hrest⟩ := h
  rw [List.filterMap_eq_cons_iff] at hrest
  obtain ⟨skipped, ⟨p, w⟩, last, rfl, hskipped, hc, rfl⟩ := hrest
  cases p with
  | nil => cases hc
  | cons name p =>
    dsimp only at hc
    split at hc
    · cases hc
      refine ⟨first ++ skipped, name, last, (List.append_assoc ..).symm, ‹_›, ?_, rfl⟩
      rw [under, List.filterMap_append, List.filterMap_eq_nil_iff.mpr hskipped, List.append_nil]
    · cases hc

end Copy

namespace Record

/-! ### Members after writes -/

theorem setAt_placed (name : String) (path : Path) (v : Value) (r : Record) :
    r.setAt (name :: path) v = r.put name (Value.placed (path, v) (r.get? name)) := by
  cases path <;> rfl

theorem get?_setAll {cs : List Copy} (hcs : Copy.Parts cs) (k : Name) (r : Record) :
    (r.setAll cs).get? k = Value.placedAll (Copy.under k cs) (r.get? k) := by
  induction hcs generalizing r with
  | nil => rfl
  | cons name path v _ ih =>
    refine (ih _).trans ?_
    dsimp only
    rw [setAt_placed]
    by_cases hname : Name.text name = k
    · subst hname
      rw [get?_put_self, Copy.under_cons_of_eq rfl]
      rfl
    · rw [get?_put_of_ne hname, Copy.under_cons_of_ne hname]

theorem exists_putAll {cs : List Copy} (hcs : Copy.Parts cs) (r : Record) :
    ∃ ms, r.setAll cs = r.putAll ms := by
  induction hcs generalizing r with
  | nil => exact ⟨[], rfl⟩
  | cons name path v _ ih =>
    obtain ⟨ms, hms⟩ := ih (r.setAt (name :: path) v)
    refine ⟨(.text name, Value.placed (path, v) (r.get? name)) :: ms, hms.trans ?_⟩
    rw [setAt_placed]
    rfl

theorem putAll_cons (k : Name) (v : Value) (r ms : Record) : ∃ w,
    Record.putAll ((k, v) :: r) ms = (k, w) :: r.putAll (ms.filter fun m => m.1 ≠ k) := by
  induction ms generalizing v r with
  | nil => exact ⟨v, rfl⟩
  | cons m ms ih =>
    obtain ⟨l, u⟩ := m
    change ∃ w, Record.putAll (Record.put l u ((k, v) :: r)) ms = _
    rw [put]
    by_cases hl : k = l
    · rw [if_pos hl, List.filter_cons_of_neg (by simp [hl])]
      exact ih u r
    · rw [if_neg hl, List.filter_cons_of_pos (by simpa using Ne.symm hl)]
      exact ih v (r.put l u)

theorem putAll_eq_self {r ms : Record} (h : ∀ k, (r.putAll ms).get? k = r.get? k) :
    r.putAll ms = r := by
  induction r generalizing ms with
  | nil =>
    cases hms : Record.putAll [] ms with
    | nil => rfl
    | cons m rest =>
      have hfound := h m.1
      rw [hms, get?_cons_self] at hfound
      cases hfound
  | cons m r ih =>
    obtain ⟨k, v⟩ := m
    obtain ⟨w, hput⟩ := putAll_cons k v r ms
    have hw := h k
    rw [hput, get?_cons_self, get?_cons_self, Option.some_inj] at hw
    rw [hput, hw, ih fun l => ?_]
    by_cases hl : k = l
    · subst hl
      exact get?_putAll_of_not_mem (by simp) r
    · have hrest := h l
      rwa [hput, get?_cons_of_ne hl, get?_cons_of_ne hl] at hrest

theorem setAll_eq_self {cs : List Copy} {r : Record} (hcs : Copy.Parts cs) (h : ∀ k,
    Copy.under k cs ≠ [] → Value.placedAll (Copy.under k cs) (r.get? k) = r.get? k) :
    r.setAll cs = r := by
  obtain ⟨ms, hms⟩ := exists_putAll hcs r
  rw [hms]
  refine putAll_eq_self fun k => ?_
  rw [← hms, get?_setAll hcs]
  by_cases hk : Copy.under k cs = []
  · rw [hk]
    rfl
  · exact h k hk

end Record

namespace Value
variable {cs : List Copy} {k : Name} {v w : Value}

theorem placedAll_object (hcs : Copy.Parts cs) (r : Record) :
    placedAll cs (some (object r)) = some (object (r.setAll cs)) := by
  induction hcs generalizing r with
  | nil => rfl
  | cons name path v _ ih => exact ih (r.setAt (name :: path) v)

theorem exists_placedAll (hcs : Copy.Parts cs) (hsome : cs ≠ []) (old : Option Value) :
    ∃ r : Record, placedAll cs old = some (object (r.setAll cs)) := by
  cases hcs with
  | nil => exact absurd rfl hsome
  | cons name path v hrest =>
    exact ⟨(old.bind members?).getD [], placedAll_object hrest _⟩

theorem placedAll_whole (before after : List Copy) (v : Value) (old : Option Value) :
    placedAll (before ++ ([], v) :: after) old = placedAll after (some v) := by
  rw [placedAll, List.foldl_append]
  rfl

/-! ### What is torn -/

def Holds (v : Value) (c : Copy) : Prop := follow c.1 v = .ok c.2 ∧ c.2 ≠ missing

/-- The value at a path is no object, one of its parts is written, and nothing after that writes the
value again. -/
structure Tears (v : Value) (path : Path) (part : Copy) (after : List Copy) : Prop where
  stands : ∃ w, follow path v = .ok w ∧ ¬ w.isObject
  part : path <+: part.1 ∧ path ≠ part.1
  last : ∀ c ∈ after, ¬ c.1 <+: path

def Torn (v : Value) (cs : List Copy) (path : Path) : Prop :=
  ∃ before part after, cs = before ++ part :: after ∧ (∃ c ∈ before, c.1 <+: path) ∧
    v.Tears path part after

theorem child_of_holds {name : String} {path : Path} (h : v.Holds (name :: path, w)) :
    ∃ u, v.unwrap.child name = .ok u ∧ u ≠ missing ∧ u.Holds (path, w) := by
  obtain ⟨hfollow, hw⟩ := h
  obtain ⟨u, hu, hrest⟩ := bind_eq_ok.mp hfollow
  refine ⟨u, hu, fun hmissing => ?_, ?_, hw⟩
  · subst hmissing
    cases hrest
    exact hw rfl
  · rwa [follow_cons hu] at hfollow
    rintro rfl
    cases hrest
    exact hw rfl

theorem get?_of_child {ms : Record} {name : String} {u : Value}
    (hu : (object ms).unwrap.child name = .ok u) (hmissing : u ≠ missing) :
    ms.get? name = some u := by
  have hu : (ms.get? name).getD missing = u := Except.ok.inj hu
  cases hms : ms.get? name with
  | none =>
    rw [hms] at hu
    exact absurd hu.symm hmissing
  | some _ =>
    rw [hms] at hu
    exact congrArg some hu

theorem exists_child (hcs : ∀ c ∈ cs, v.Holds c) (hk : Copy.under k cs ≠ []) :
    ∃ (name : String) (u : Value), k = .text name ∧ v.unwrap.child name = .ok u ∧ u ≠ missing := by
  obtain ⟨⟨path, w⟩, hunder⟩ := List.exists_mem_of_ne_nil _ hk
  obtain ⟨name, rfl, hmem⟩ := Copy.mem_under.mp hunder
  obtain ⟨u, hu, hmissing, -⟩ := child_of_holds (hcs _ hmem)
  exact ⟨name, u, rfl, hu, hmissing⟩

theorem holds_under {u : Value} {name : String} (hu : v.unwrap.child name = .ok u)
    (h : ∀ c ∈ cs, v.Holds c) : ∀ c ∈ Copy.under name cs, u.Holds c := by
  intro c hc
  obtain ⟨name', hname, hmem⟩ := Copy.mem_under.mp hc
  cases hname
  obtain ⟨u', hu', -, hholds⟩ := child_of_holds (h _ hmem)
  rw [hu] at hu'
  cases hu'
  exact hholds

theorem Tears.under {u : Value} {name : String} {path p : Path} {after : List Copy}
    (hu : v.unwrap.child name = .ok u) (hmissing : u ≠ missing) (hafter : Copy.Parts after)
    (h : u.Tears path (p, w) (Copy.under name after)) :
    v.Tears (name :: path) (name :: p, w) after := by
  refine ⟨?_, ?_, fun c hc hprefix => ?_⟩
  · rw [follow_cons hu hmissing]
    exact h.stands
  · exact ⟨List.cons_prefix_cons.mpr ⟨rfl, h.part.1⟩, fun heq => h.part.2 (List.cons.inj heq).2⟩
  · obtain ⟨_ | ⟨name', q⟩, x⟩ := c
    · exact Copy.parts_iff.mp hafter _ hc rfl
    · dsimp only at hprefix
      obtain ⟨rfl, htail⟩ := List.cons_prefix_cons.mp hprefix
      exact h.last (q, x) (Copy.mem_under.mpr ⟨_, rfl, hc⟩) htail

def Whole (v : Value) (cs : List Copy) : Prop :=
  ∀ before part after path, cs = before ++ part :: after → ¬ v.Tears path part after

theorem Whole.under {u : Value} {name : String} (h : v.Whole cs) (hcs : Copy.Parts cs)
    (hu : v.unwrap.child name = .ok u) (hmissing : u ≠ missing) :
    u.Whole (Copy.under name cs) := by
  intro before part after path hsplit htears
  obtain ⟨p, w⟩ := part
  obtain ⟨first, name', last, rfl, hname, rfl, rfl⟩ := Copy.split_under hsplit
  cases hname
  exact h _ _ _ _ rfl (htears.under hu hmissing hcs.behind)

theorem placedAll_parts (hparts : Copy.Parts cs) (hcs : ∀ c ∈ cs, v.Holds c) (hwhole : v.Whole cs)
    (hmembers : ∀ (name : String) u, v.unwrap.child name = .ok u → u ≠ missing →
      placedAll (Copy.under name cs) (some u) = some u) :
    placedAll cs (some v) = some v := by
  cases hparts with
  | nil => rfl
  | @cons name path w after hafter =>
    have hobject : v.isObject := by
      by_contra hv
      refine hwhole [] (name :: path, w) after [] rfl
        ⟨⟨v, rfl, hv⟩, ⟨List.nil_prefix, (List.cons_ne_nil _ _).symm⟩, fun c hc hnil => ?_⟩
      exact Copy.parts_iff.mp hafter c hc (List.prefix_nil.mp hnil)
    obtain ⟨ms, rfl⟩ := isObject_iff.mp hobject
    have hparts : Copy.Parts ((name :: path, w) :: after) := .cons name path w hafter
    rw [placedAll_object hparts, Record.setAll_eq_self hparts fun k hk => ?_]
    obtain ⟨name', u, rfl, hu, hmissing⟩ := exists_child hcs hk
    rw [get?_of_child hu hmissing]
    exact hmembers name' u hu hmissing

theorem placedAll_eq_self (n : Nat) (hlength : ∀ c ∈ cs, c.1.length < n) (hcs : ∀ c ∈ cs, v.Holds c)
    (hwhole : v.Whole cs) : placedAll cs (some v) = some v := by
  induction n generalizing cs v with
  | zero =>
    have hnone : cs = [] := List.eq_nil_iff_forall_not_mem.mpr fun c hc =>
      Nat.not_lt_zero _ (hlength c hc)
    rw [hnone]
    rfl
  | succ n ih =>
    -- Under a name the paths are shorter by one, and a copy of the whole may be among them again.
    have hstep {cs : List Copy} (hparts : Copy.Parts cs) (hlength : ∀ c ∈ cs, c.1.length < n + 1)
        (hcs : ∀ c ∈ cs, v.Holds c) (hwhole : v.Whole cs) :
        placedAll cs (some v) = some v := by
      refine placedAll_parts hparts hcs hwhole fun name u hu hmissing => ?_
      refine ih (fun c hc => ?_) (holds_under hu hcs) (hwhole.under hparts hu hmissing)
      obtain ⟨name', -, hmem⟩ := Copy.mem_under.mp hc
      exact Nat.lt_of_succ_lt_succ (hlength _ hmem)
    obtain hparts | ⟨before, w, after, rfl, hafter⟩ := Copy.exists_parts cs
    · exact hstep hparts hlength hcs hwhole
    · have hw : v = w := Except.ok.inj (hcs ([], w) (by simp)).1
      rw [placedAll_whole, ← hw]
      refine hstep hafter (fun c hc => hlength c (by simp [hc])) (fun c hc => hcs c (by simp [hc]))
        fun first part last path hsplit => ?_
      exact hwhole (before ++ ([], w) :: first) part last path (by simp [hsplit])

theorem placedAll_of_start (hcs : ∀ c ∈ cs, v.Holds c) (htorn : ∀ path, ¬ v.Torn cs path)
    (hmem : ([], w) ∈ cs) (old : Option Value) : placedAll cs old = some v := by
  have hw : v = w := Except.ok.inj (hcs ([], w) hmem).1
  subst hw
  obtain ⟨before, after, rfl⟩ := List.append_of_mem hmem
  rw [placedAll_whole]
  have hlength : ∀ c ∈ after, c.1.length < (after.map fun c => c.1.length).sum + 1 := fun c hc =>
    Nat.lt_succ_of_le (List.le_sum_of_mem (List.mem_map_of_mem hc))
  refine placedAll_eq_self _ hlength (fun c hc => hcs c (by simp [hc])) ?_
  intro first part last path hsplit htears
  exact htorn path ⟨before ++ ([], v) :: first, part, last, by simp [hsplit],
    ⟨([], v), by simp, List.nil_prefix⟩, htears⟩

theorem Torn.under {u : Value} {name : String} {path : Path} (hcs : Copy.Parts cs)
    (hu : v.unwrap.child name = .ok u) (hmissing : u ≠ missing)
    (h : u.Torn (Copy.under name cs) path) : v.Torn cs (name :: path) := by
  obtain ⟨before, ⟨p, w⟩, after, hsplit, ⟨⟨q, x⟩, hmem, hprefix⟩, htears⟩ := h
  obtain ⟨first, name', last, rfl, hname, rfl, rfl⟩ := Copy.split_under hsplit
  cases hname
  obtain ⟨name'', hname, hmem⟩ := Copy.mem_under.mp hmem
  cases hname
  exact ⟨first, (name :: p, w), last, rfl,
    ⟨(name :: q, x), hmem, List.cons_prefix_cons.mpr ⟨rfl, hprefix⟩⟩,
    htears.under hu hmissing hcs.behind⟩

/-- Each path leads to what was copied there, unless something stays torn. -/
theorem follow_placedAll {path : Path} (hcs : ∀ c ∈ cs, v.Holds c)
    (htorn : ∀ path, ¬ v.Torn cs path) (hmem : (path, w) ∈ cs) (old : Option Value) :
    ∃ u, placedAll cs old = some u ∧ follow path u = .ok w := by
  induction path generalizing cs v old with
  | nil => exact ⟨v, placedAll_of_start hcs htorn hmem old, (hcs _ hmem).1⟩
  | cons name path ih =>
    obtain hparts | ⟨before, x, after, hsplit, -⟩ := Copy.exists_parts cs
    · obtain ⟨r, hr⟩ := exists_placedAll hparts (List.ne_nil_of_mem hmem) old
      obtain ⟨u, hu, hmissing, hholds⟩ := child_of_holds (hcs _ hmem)
      obtain ⟨u', hplaced, hfollow⟩ := ih (holds_under hu hcs)
        (fun path h => htorn _ (h.under hparts hu hmissing)) (Copy.mem_under.mpr ⟨name, rfl, hmem⟩)
        (r.get? name)
      refine ⟨_, hr, ?_⟩
      have hchild : (object (r.setAll cs)).unwrap.child name = .ok u' := by
        change Except.ok ((Record.get? name (r.setAll cs)).getD missing) = .ok u'
        rw [Record.get?_setAll hparts, hplaced]
        rfl
      rwa [follow_cons hchild]
      rintro rfl
      rw [follow_missing] at hfollow
      exact hholds.2 (Except.ok.inj hfollow).symm
    · have hstart : ([], x) ∈ cs := by
        rw [hsplit]
        simp
      exact ⟨v, placedAll_of_start hcs htorn hstart old, (hcs _ hmem).1⟩

end Value

/-! ### Objects on the way of writes -/

def Record.ObjectAt : Path → Record → Prop
  | [], _ => True
  | name :: path, r => ∃ ms, r.get? name = some (.object ms) ∧ ObjectAt path ms

namespace Record
variable {p q : Path} {r : Record} {v : Value}

theorem follow_of_objectAt (h : r.ObjectAt p) :
    ∃ ms, Value.follow p (.object r) = .ok (.object ms) := by
  induction p generalizing r with
  | nil => exact ⟨r, rfl⟩
  | cons name p ih =>
    obtain ⟨ms, hms, hp⟩ := h
    obtain ⟨os, hos⟩ := ih hp
    exact ⟨os, (get_of_object hms).trans hos⟩

theorem objectAt_setAt_below (h : p <+: q) (hne : p ≠ q) (v : Value) (r : Record) :
    (r.setAt q v).ObjectAt p := by
  induction p generalizing q r with
  | nil => trivial
  | cons name p ih =>
    obtain ⟨rest, rfl⟩ := h
    cases hrest : p ++ rest with
    | nil =>
      rw [List.cons_append, hrest, (List.append_eq_nil_iff.mp hrest).1] at hne
      exact absurd rfl hne
    | cons next q =>
      rw [List.cons_append, hrest, setAt_cons]
      refine ⟨_, get?_put_self _ _, ih ⟨rest, hrest⟩ (fun hp => hne ?_) _⟩
      rw [List.cons_append, hrest, hp]

/-- An object goes only when something is written in its place or above it. -/
theorem objectAt_setAt (h : r.ObjectAt p) (hq : ¬ q <+: p) (v : Value) :
    (r.setAt q v).ObjectAt p := by
  induction p generalizing q r with
  | nil => trivial
  | cons name p ih =>
    obtain ⟨ms, hms, hp⟩ := h
    match q with
    | [] => exact absurd List.nil_prefix hq
    | name' :: q =>
      by_cases hname : name' = name
      · subst hname
        match q with
        | [] => exact absurd (List.cons_prefix_cons.mpr ⟨rfl, List.nil_prefix⟩) hq
        | next :: q =>
          have hbelow : r.below name' = ms := by
            rw [below, hms]
            rfl
          rw [setAt_cons, hbelow]
          exact ⟨_, get?_put_self _ _, ih hp fun h => hq (List.cons_prefix_cons.mpr ⟨rfl, h⟩)⟩
      · exact ⟨ms, (get?_setAt_of_ne hname q v r).trans hms, hp⟩

theorem objectAt_setAll {cs : List Copy} (h : r.ObjectAt p) (hcs : ∀ c ∈ cs, ¬ c.1 <+: p) :
    (r.setAll cs).ObjectAt p := by
  induction cs generalizing r with
  | nil => exact h
  | cons c cs ih =>
    obtain ⟨hc, hrest⟩ := List.forall_mem_cons.mp hcs
    exact ih (objectAt_setAt h hc c.2) hrest

end Record

namespace Value
variable {v : Value} {cs : List Copy}

theorem objectAt_of_torn {path : Path} (h : v.Torn cs path) (r : Record) :
    (r.setAll cs).ObjectAt path := by
  obtain ⟨before, part, after, rfl, -, htears⟩ := h
  have hpart := Record.objectAt_setAt_below htears.part.1 htears.part.2 part.2 (r.setAll before)
  have hall : r.setAll (before ++ part :: after) =
      ((r.setAll before).setAt part.1 part.2).setAll after := List.foldl_append
  rw [hall]
  exact Record.objectAt_setAll hpart htears.last

/-- Copies of what a value holds all stand in the end just when none stays torn. -/
theorem holds_setAll_iff (hparts : Copy.Parts cs) (hcs : ∀ c ∈ cs, v.Holds c) :
    (∀ c ∈ cs, follow c.1 (object (Record.setAll cs [])) = .ok c.2) ↔ ∀ path, ¬ v.Torn cs path := by
  constructor
  · intro hall path htorn
    obtain ⟨ms, hms⟩ := Record.follow_of_objectAt (objectAt_of_torn htorn [])
    obtain ⟨before, part, after, hsplit, ⟨c, hc, ⟨rest, rfl⟩⟩, htears⟩ := htorn
    obtain ⟨w, hw, hobject⟩ := htears.stands
    have hmem : c ∈ cs := hsplit ▸ List.mem_append_left _ hc
    rw [follow_append, hall c hmem, ← (hcs c hmem).1, ← follow_append, hw] at hms
    cases hms
    exact hobject rfl
  · intro htorn c hc
    obtain ⟨u, hu, hfollow⟩ := follow_placedAll hcs htorn hc (some (object []))
    rw [placedAll_object hparts] at hu
    cases hu
    exact hfollow

end Value
end RecordStore
