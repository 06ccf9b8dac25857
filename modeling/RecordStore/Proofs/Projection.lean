import RecordStore.Collection.Store
import RecordStore.Proofs.Copies

/-! The part of a record at field paths. It holds nothing but what the paths lead to, and it is
given unless a lookup breaks off. What each path leads to is found in it again, unless something
that was copied whole is torn by the copy of a part of it. -/
namespace RecordStore

def Value.copies (r : Value) (paths : List String) : List Copy :=
  paths.filterMap fun path => match r.get (.ofText path) with
    | .error _ | .ok .missing => none
    | .ok v => some (.ofText path, v)

namespace Value
variable {r : Value} {path : String} {paths : List String} {p : Path} {v : Value}

theorem lookUp_str (r : Value) (path : String) :
    r.lookUp (.str path) = (r.get (.ofText path)).mapError fun _ => .unreadablePosition := rfl

theorem copies_cons_of_missing (h : r.get (.ofText path) = .ok .missing) (paths : List String) :
    r.copies (path :: paths) = r.copies paths := by
  refine List.filterMap_cons_none ?_
  rw [h]

theorem copies_cons (h : r.get (.ofText path) = .ok v) (hv : v ≠ .missing) (paths : List String) :
    r.copies (path :: paths) = (.ofText path, v) :: r.copies paths := by
  refine List.filterMap_cons_some ?_
  rw [h]
  cases v with
  | missing => exact absurd rfl hv
  | _ => rfl

theorem forall_mem_copies {P : Copy → Prop} : (∀ c ∈ r.copies paths, P c) ↔
    ∀ path ∈ paths, ∀ v, r.get (.ofText path) = .ok v → v ≠ .missing → P (.ofText path, v) := by
  induction paths with
  | nil => exact iff_of_true (List.forall_mem_nil _) (List.forall_mem_nil _)
  | cons path paths ih =>
    rw [List.forall_mem_cons, ← ih]
    cases hget : r.get (.ofText path) with
    | error f =>
      rw [copies, List.filterMap_cons_none (by rw [hget])]
      exact (and_iff_right fun v h => nomatch h).symm
    | ok v =>
      by_cases hv : v = .missing
      · subst hv
        rw [copies_cons_of_missing hget]
        exact (and_iff_right fun v h hv => absurd (Except.ok.inj h).symm hv).symm
      · rw [copies_cons hget hv, List.forall_mem_cons]
        refine and_congr_left fun _ => ⟨fun h w hw _ => ?_, fun h => h v rfl hv⟩
        cases hw
        exact h

theorem copies_holds : ∀ c ∈ r.copies paths, r.unwrap.Holds c :=
  forall_mem_copies.mpr fun _ _ _ hget hv => ⟨hget, hv⟩

theorem copies_parts : Copy.Parts (r.copies paths) :=
  Copy.parts_iff.mpr (forall_mem_copies.mpr fun path _ _ _ _ => Path.ofText_ne_nil path)

end Value

theorem Record.get_setAll_of_apart {cs : List Copy} {q : Path} {r : Record}
    (h : ∀ c ∈ cs, Path.Apart c.1 q) (hr : Value.get (.object r) q = .ok .missing) :
    Value.get (.object (r.setAll cs)) q = .ok .missing := by
  induction cs generalizing r with
  | nil => exact hr
  | cons c cs ih =>
    obtain ⟨hc, hrest⟩ := List.forall_mem_cons.mp h
    refine ih hrest ?_
    rw [get_setAt hc, hr, ite_self]

namespace Store
variable {paths : List String} {r part : Value}

def projectStep (r part path : Value) : Except Failure Value := do
  match ← r.lookUp path with
  | .missing => return part
  | v => part.setAt path v

section
variable {path : String}

theorem projectStep_of_error {f : Path.Fault} (h : r.get (.ofText path) = .error f)
    (part : Value) : projectStep r part (.str path) = .error .unreadablePosition := by
  rw [projectStep, Value.lookUp_str, h]
  rfl

theorem projectStep_of_missing (h : r.get (.ofText path) = .ok .missing) (part : Value) :
    projectStep r part (.str path) = .ok part := by
  rw [projectStep, Value.lookUp_str, h]
  rfl

theorem projectStep_of_found {v : Value} (h : r.get (.ofText path) = .ok v) (hv : v ≠ .missing)
    (s : Record) :
    projectStep r (.object s) (.str path) = .ok (.object (s.setAt (.ofText path) v)) := by
  rw [projectStep, Value.lookUp_str, h]
  cases v with
  | missing => exact absurd rfl hv
  | _ => rfl

end

theorem foldlM_projectStep (paths : List String) (s : Record) :
    (paths.map .str).foldlM (projectStep r) (.object s) = .ok part ↔
      (∀ path ∈ paths, ∃ v, r.get (.ofText path) = .ok v) ∧
        part = .object (s.setAll (r.copies paths)) := by
  induction paths generalizing s with
  | nil => exact pure_eq_ok.trans (eq_comm.trans (and_iff_right (by simp)).symm)
  | cons path paths ih =>
    rw [List.map_cons, List.foldlM_cons, List.forall_mem_cons]
    cases hget : r.get (.ofText path) with
    | error f =>
      rw [projectStep_of_error hget]
      exact iff_of_false (fun h => nomatch h) fun h => nomatch h.1.1
    | ok v =>
      have hfound : ∃ w, (Except.ok v : Except Path.Fault Value) = .ok w := ⟨v, rfl⟩
      rw [and_iff_right hfound]
      by_cases hv : v = .missing
      · subst hv
        rw [projectStep_of_missing hget, ok_bind, ih, Value.copies_cons_of_missing hget]
      · rw [projectStep_of_found hget hv, ok_bind, ih, Value.copies_cons hget hv]
        rfl

theorem project_eq_ok (hpaths : paths ≠ []) :
    project (.list (paths.map .str)) r = .ok part ↔
      (∀ path ∈ paths, ∃ v, r.get (.ofText path) = .ok v) ∧
        part = .object (Record.setAll (r.copies paths) []) := by
  have hproject : project (.list (paths.map .str)) r =
      (paths.map .str).foldlM (projectStep r) (.object []) := by
    cases paths with
    | nil => exact absurd rfl hpaths
    | cons path paths => rfl
  rw [hproject, foldlM_projectStep]

/-- A projection is given unless a lookup breaks off. It holds nothing at paths apart from those
that lead to something; and these lead to the same in it, all of them, just when nothing stays
torn. -/
theorem project_faithful_iff (hpaths : paths ≠ []) (r : Value) :
    ((∃ part, project (.list (paths.map .str)) r = .ok part) ↔
      ∀ path ∈ paths, ¬ r.Stuck (.ofText path)) ∧
    ∀ part, project (.list (paths.map .str)) r = .ok part →
      ((∀ path ∈ paths, ∀ v, r.get (.ofText path) = .ok v → v ≠ .missing →
          part.get (.ofText path) = .ok v) ↔
        ∀ p, ¬ r.unwrap.Torn (r.copies paths) p) ∧
      ∀ q : String, (∀ path ∈ paths, ∀ v, r.get (.ofText path) = .ok v → v ≠ .missing →
          Path.Apart (.ofText path) (.ofText q)) →
        part.get (.ofText q) = .ok .missing := by
  have hfound {path : String} : (∃ v, r.get (.ofText path) = .ok v) ↔ ¬ r.Stuck (.ofText path) := by
    have hbad : ∀ f : Path.Fault, (fun _ => True) f := fun _ => trivial
    rw [← Value.get_fails hbad]
    cases r.get (.ofText path) with
    | error f => exact iff_of_false (fun h => nomatch h) (not_not_intro (fails_error.mpr trivial))
    | ok v => exact iff_of_true ⟨v, rfl⟩ fails_ok
  refine ⟨?_, fun part hpart => ?_⟩
  · simp only [project_eq_ok hpaths, hfound, exists_and_left, exists_eq, and_true]
  · obtain ⟨-, rfl⟩ := (project_eq_ok hpaths).mp hpart
    refine ⟨?_, fun q hq => ?_⟩
    · rw [← Value.holds_setAll_iff Value.copies_parts Value.copies_holds, Value.forall_mem_copies]
      rfl
    · exact Record.get_setAll_of_apart (Value.forall_mem_copies.mpr hq)
        (Record.get_nil _ (Path.ofText_ne_nil q))

/-- An element and then the whole list: the list is not torn. -/
theorem project_faithful_of_list_last :
    let r : Value := .object [("id", .int 1), ("a", .list [.int 1, .int 2])]
    let part : Value := .object [("a", .list [.int 1, .int 2])]
    ["a.0", "a"] ≠ [] ∧ project (.list [.str "a.0", .str "a"]) r = .ok part ∧
      (∀ p, ¬ r.unwrap.Torn (r.copies ["a.0", "a"]) p) ∧
      part.get (.ofText "id") = .ok .missing := by
  intro r part
  have hpaths : ["a.0", "a"] ≠ [] := List.cons_ne_nil _ _
  have hproject : project (.list [.str "a.0", .str "a"]) r = .ok part := rfl
  obtain ⟨hfaithful, hnothing⟩ := (project_faithful_iff hpaths r).2 part hproject
  refine ⟨hpaths, hproject, hfaithful.mp ?_, hnothing "id" ?_⟩
  · intro path hpath v hv _
    rcases List.mem_pair.mp hpath with rfl | rfl <;> exact hv
  · intro path hpath _ _ _
    rcases List.mem_pair.mp hpath with rfl | rfl <;> exact ⟨by decide, by decide⟩

/-- A list and then an element of it: the element stays, in an object. A digit without a value
breaks the lookup off. -/
theorem list_torn_by_element :
    let r : Value := .object [("id", .int 1), ("a", .list [.int 1, .int 2])]
    let part : Value := .object [("a", .object [("0", .int 1)])]
    project (.list [.str "a", .str "a.0"]) r = .ok part ∧
      r.get (.ofText "a") = .ok (.list [.int 1, .int 2]) ∧
      part.get (.ofText "a") = .ok (.object [("0", .int 1)]) ∧
      project (.list [.str "a.²"]) r = .error .unreadablePosition :=
  ⟨rfl, rfl, rfl, rfl⟩

end Store
end RecordStore
