import RecordStore.Proofs.KeyWrites

/-! What a write at one field path does to lookups at another. Where neither path goes on from the
other, a lookup finds what it found before, unless the write had to make an object of something else
on the way that the two have in common. -/
namespace RecordStore

namespace Path

def Apart (p q : Path) : Prop := ¬ p <+: q ∧ ¬ q <+: p

theorem Apart.symm {p q : Path} (h : Apart p q) : Apart q p := And.symm h

theorem not_apart_nil (q : Path) : ¬ Apart [] q := fun h => h.1 List.nil_prefix

theorem apart_cons {a b : String} {p q : Path} : Apart (a :: p) (b :: q) ↔ a ≠ b ∨ Apart p q := by
  simp only [Apart, List.cons_prefix_cons]
  by_cases h : a = b
  · simp [h]
  · simp [h, Ne.symm h]

theorem ofText_ne_nil (s : String) : ofText s ≠ [] := by
  rw [ofText, ne_eq, List.map_eq_nil_iff]
  exact Text.split_ne_nil _ _

theorem ofText_append (s t : String) : ofText (s ++ "." ++ t) = ofText s ++ ofText t := by
  have hlist : (s ++ "." ++ t).toList = s.toList ++ '.' :: t.toList := by simp
  rw [ofText, hlist, Text.split_append, List.map_append]
  rfl

theorem ofText_of_undotted {s : String} (h : '.' ∉ s.toList) : ofText s = [s] := by
  rw [ofText, Text.split_of_not_mem h, List.map_singleton, String.ofList_toList]

theorem undotted_of_mem {s name : String} (h : name ∈ ofText s) : '.' ∉ name.toList := by
  obtain ⟨piece, hpiece, rfl⟩ := List.mem_map.mp h
  rw [String.toList_ofList]
  exact Text.not_mem_of_mem_split hpiece

theorem ofText_of_dotted {s : String} (h : '.' ∈ s.toList) :
    ∃ name next rest, ofText s = name :: next :: rest := by
  obtain ⟨cs, ds, hs⟩ := List.append_of_mem h
  have hsplit := Text.split_append '.' cs ds
  rw [← hs] at hsplit
  cases hfirst : Text.split '.' cs with
  | nil => exact absurd hfirst (Text.split_ne_nil _ _)
  | cons first pieces =>
    cases hlast : Text.split '.' ds with
    | nil => exact absurd hlast (Text.split_ne_nil _ _)
    | cons last rest =>
      rw [ofText, hsplit, hfirst, hlast]
      cases pieces <;> exact ⟨_, _, _, rfl⟩

end Path

namespace Record

/-! ### Lookups in a record -/

theorem get_of_none {name : String} {rest : Path} {r : Record} (h : r.get? name = none) :
    Value.get (.object r) (name :: rest) = .ok .missing := by
  simp [Value.get, Value.unwrap, Value.follow, Value.child, h, ok_bind, pure, Except.pure]

theorem get_of_object {name : String} {rest : Path} {r ms : Record}
    (h : r.get? name = some (.object ms)) :
    Value.get (.object r) (name :: rest) = Value.get (.object ms) rest := by
  simp [Value.get, Value.unwrap, Value.follow, Value.child, h, ok_bind]

theorem get_of_num {name next : String} {rest : Path} {r : Record} {n : Num}
    (h : r.get? name = some (.num n)) :
    Value.get (.object r) (name :: next :: rest) = .ok .missing := by
  simp [Value.get, Value.unwrap, Value.follow, Value.child, h, ok_bind, pure, Except.pure]

theorem get_singleton (name : String) (r : Record) :
    Value.get (.object r) [name] = .ok ((r.get? name).getD .missing) := by
  cases hr : r.get? name with
  | none => exact get_of_none hr
  | some v =>
    cases v <;> simp [Value.get, Value.unwrap, Value.follow, Value.child, hr, ok_bind, pure,
      Except.pure]

theorem get_congr {name : String} {rest : Path} {r s : Record} (h : r.get? name = s.get? name) :
    Value.get (.object r) (name :: rest) = Value.get (.object s) (name :: rest) := by
  simp only [Value.get, Value.unwrap, Value.follow, Value.child, h]

theorem get_nil (path : Path) (h : path ≠ []) : Value.get (.object []) path = .ok .missing := by
  match path with
  | name :: rest => exact get_of_none rfl

/-! ### Writes on another path -/

def below (name : String) (r : Record) : Record := ((r.get? name).bind Value.members?).getD []

def blocks (name : String) (r : Record) : Bool := (r.get? name).any fun w => !w.isObject

/-- On the way that two paths have in common a record has something that is no object, so that a
write at the one takes away what the other leads to. -/
def displaces : Path → Path → Record → Bool
  | name :: next :: p, name' :: next' :: q, r =>
    name = name' && (r.blocks name || displaces (next :: p) (next' :: q) (r.below name))
  | _, _, _ => false

section
variable {a b : String} {p q : Path} {r : Record}

theorem displaces_of_ne (h : a ≠ b) (p q : Path) (r : Record) :
    displaces (a :: p) (b :: q) r = false := by
  cases p <;> cases q <;> simp [displaces, h]

theorem displaces_nil (p q : Path) : displaces p q [] = false := by
  induction p generalizing q with
  | nil => simp [displaces]
  | cons a p ih =>
    match p, q with
    | [], _ => simp [displaces]
    | _ :: _, [] | _ :: _, [_] => simp [displaces]
    | next :: p, b :: next' :: q =>
      have hbelow : below a [] = [] := rfl
      rw [displaces, hbelow, ih]
      simp [blocks, get?]

theorem get_of_open (h : r.blocks a = false) (hq : q ≠ []) :
    Value.get (.object r) (a :: q) = Value.get (.object (r.below a)) q := by
  rw [blocks] at h
  rw [below]
  cases hr : r.get? a with
  | none => exact (get_of_none hr).trans (get_nil q hq).symm
  | some w =>
    rw [hr] at h
    obtain ⟨ms, rfl⟩ := Value.isObject_iff.mp (by simpa using h)
    exact get_of_object hr

theorem below_of_blocks (h : r.blocks a) : r.below a = [] := by
  rw [blocks] at h
  rw [below]
  cases hr : r.get? a with
  | none => rfl
  | some w =>
    rw [hr] at h
    cases w <;> simp_all [Value.isObject, Value.members?]

theorem setAt_cons (a next : String) (p : Path) (v : Value) (r : Record) :
    r.setAt (a :: next :: p) v = r.put a (.object ((r.below a).setAt (next :: p) v)) := rfl

theorem blocks_put_object (ms : Record) : (r.put a (.object ms)).blocks a = false := by
  simp [blocks, get?_put_self, Value.isObject]

theorem below_put_object (ms : Record) : (r.put a (.object ms)).below a = ms := by
  simp [below, get?_put_self, Value.members?]

theorem get?_setAt_of_ne (h : a ≠ b) (p : Path) (v : Value) (r : Record) :
    (r.setAt (a :: p) v).get? b = r.get? b := by
  have hne : Name.text a ≠ Name.text b := fun h' => h (Name.text.inj h')
  cases p <;> exact get?_put_of_ne hne _ _

theorem get_setAt (h : Path.Apart p q) (v : Value) (r : Record) :
    Value.get (.object (r.setAt p v)) q =
      if r.displaces p q then .ok .missing else Value.get (.object r) q := by
  induction p generalizing q r with
  | nil => exact absurd h (Path.not_apart_nil q)
  | cons a p ih =>
    match q with
    | [] => exact absurd h.symm (Path.not_apart_nil _)
    | b :: q =>
      by_cases hab : a = b
      · subst hab
        have h : Path.Apart p q := (Path.apart_cons.mp h).resolve_left (by simp)
        match p, q with
        | [], _ => exact absurd h (Path.not_apart_nil _)
        | _ :: _, [] => exact absurd h.symm (Path.not_apart_nil _)
        | next :: p, next' :: q =>
          rw [setAt_cons, get_of_open (blocks_put_object _) (by simp), below_put_object, ih h,
            displaces]
          cases hblocks : r.blocks a with
          | true => simp [below_of_blocks hblocks, displaces_nil, get_nil]
          | false => simp [get_of_open hblocks]
      · rw [displaces_of_ne hab]
        exact get_congr (get?_setAt_of_ne hab p v r)

theorem displaces_setAt (h : Path.Apart p q) (v : Value) (hr : r.displaces p q = false)
    (p' : Path) : (r.setAt p v).displaces p' q = r.displaces p' q := by
  induction p generalizing q r p' with
  | nil => exact absurd h (Path.not_apart_nil q)
  | cons a p ih =>
    match p', q with
    | [], _ | [_], _ => simp [displaces]
    | _ :: _ :: _, [] | _ :: _ :: _, [_] => simp [displaces]
    | c :: next' :: p', b :: next :: q =>
      by_cases hab : a = b
      · subst hab
        have h : Path.Apart p (next :: q) := (Path.apart_cons.mp h).resolve_left (by simp)
        match p with
        | [] => exact absurd h (Path.not_apart_nil _)
        | n :: p =>
          simp only [displaces, decide_true, Bool.true_and, Bool.or_eq_false_iff] at hr
          by_cases hca : c = a
          · subst hca
            rw [setAt_cons, displaces, displaces, blocks_put_object, below_put_object, ih h hr.2,
              hr.1]
          · rw [displaces_of_ne hca, displaces_of_ne hca]
      · by_cases hcb : c = b
        · subst hcb
          simp only [displaces, blocks, below, get?_setAt_of_ne hab]
        · rw [displaces_of_ne hcb, displaces_of_ne hcb]

/-! Taking something away makes no object, and displaces nothing. -/

theorem unsetAt_cons (a next : String) (p : Path) (r : Record) :
    (∃ ms, r.get? a = some (.object ms) ∧
      r.unsetAt (a :: next :: p) = r.put a (.object (Record.unsetAt (next :: p) ms))) ∨
    r.unsetAt (a :: next :: p) = r := by
  rw [unsetAt]
  · split
    · exact .inl ⟨_, ‹_›, rfl⟩
    · exact .inr rfl
  · simp

theorem get?_unsetAt_of_ne (h : a ≠ b) (p : Path) (r : Record) :
    (r.unsetAt (a :: p)).get? b = r.get? b := by
  have hne : Name.text a ≠ Name.text b := fun h' => h (Name.text.inj h')
  match p with
  | [] => exact get?_erase_of_ne hne r
  | next :: p =>
    obtain ⟨ms, -, hunset⟩ | hunset := unsetAt_cons a next p r
    · rw [hunset]
      exact get?_put_of_ne hne _ _
    · rw [hunset]

theorem get_unsetAt (h : Path.Apart p q) (r : Record) :
    Value.get (.object (r.unsetAt p)) q = Value.get (.object r) q := by
  induction p generalizing q r with
  | nil => exact absurd h (Path.not_apart_nil q)
  | cons a p ih =>
    match q with
    | [] => exact absurd h.symm (Path.not_apart_nil _)
    | b :: q =>
      by_cases hab : a = b
      · subst hab
        have h : Path.Apart p q := (Path.apart_cons.mp h).resolve_left (by simp)
        match p with
        | [] => exact absurd h (Path.not_apart_nil _)
        | next :: p =>
          obtain ⟨ms, hms, hunset⟩ | hunset := unsetAt_cons a next p r
          · rw [hunset, get_of_object (get?_put_self _ _), ih h, get_of_object hms]
          · rw [hunset]
      · exact get_congr (get?_unsetAt_of_ne hab p r)

theorem displaces_unsetAt (h : Path.Apart p q) (r : Record) (p' : Path) :
    (r.unsetAt p).displaces p' q = r.displaces p' q := by
  induction p generalizing q r p' with
  | nil => exact absurd h (Path.not_apart_nil q)
  | cons a p ih =>
    match p', q with
    | [], _ | [_], _ => simp [displaces]
    | _ :: _ :: _, [] | _ :: _ :: _, [_] => simp [displaces]
    | c :: next' :: p', b :: next :: q =>
      by_cases hcb : c = b
      · subst hcb
        by_cases hac : a = c
        · subst hac
          have h : Path.Apart p (next :: q) := (Path.apart_cons.mp h).resolve_left (by simp)
          match p with
          | [] => exact absurd h (Path.not_apart_nil _)
          | n :: p =>
            obtain ⟨ms, hms, hunset⟩ | hunset := unsetAt_cons a n p r
            · rw [hunset, displaces, displaces, blocks_put_object, below_put_object, ih h]
              simp [blocks, below, hms, Value.isObject, Value.members?]
            · rw [hunset]
        · simp only [displaces, blocks, below, get?_unsetAt_of_ne hac]
      · rw [displaces_of_ne hcb, displaces_of_ne hcb]

end

end Record

/-! ### Writes one after the other -/

/-- Writes at some paths have made one record of another: what another path leads to is what it led
to, or is not there any more if one of the writes displaces it. -/
structure Record.Written (paths : List Path) (q : Path) (r s : Record) : Prop where
  get : Value.get (.object s) q =
    if paths.any fun p => r.displaces p q then .ok .missing else Value.get (.object r) q
  displaces : (∀ p ∈ paths, r.displaces p q = false) →
    ∀ p', s.displaces p' q = r.displaces p' q

namespace Record.Written
variable {p q : Path} {paths paths' : List Path} {r s t : Record}

theorem refl (q : Path) (r : Record) : Written [] q r r := ⟨rfl, fun _ _ => rfl⟩

theorem trans (h : Written paths q r s) (ht : Written paths' q s t) :
    Written (paths ++ paths') q r t := by
  cases hany : paths.any fun p => r.displaces p q with
  | true =>
    have hgone : Value.get (.object s) q = .ok .missing := by rw [h.get, if_pos hany]
    refine ⟨?_, fun hnone => ?_⟩
    · rw [ht.get, hgone, ite_self, List.any_append, hany, Bool.true_or, if_pos rfl]
    · obtain ⟨p, hp, hd⟩ := List.any_eq_true.mp hany
      rw [hnone p (List.mem_append_left _ hp)] at hd
      cases hd
  | false =>
    have hstay : Value.get (.object s) q = Value.get (.object r) q := by
      rw [h.get, hany, if_neg (by simp)]
    have hsame := h.displaces (by simpa using hany)
    refine ⟨?_, fun hnone p' => ?_⟩
    · rw [ht.get, hstay, List.any_append, hany, Bool.false_or]
      simp only [hsame]
    · rw [ht.displaces, hsame]
      intro p hp
      rw [hsame]
      exact hnone p (List.mem_append_right _ hp)

theorem setAt (h : Path.Apart p q) (v : Value) (r : Record) : Written [p] q r (r.setAt p v) := by
  refine ⟨?_, fun hnone p' => ?_⟩
  · rw [get_setAt h]
    simp
  · exact displaces_setAt h v (hnone p (List.mem_singleton_self p)) p'

theorem unsetAt (h : Path.Apart p q) (r : Record) : Written [] q r (r.unsetAt p) :=
  ⟨get_unsetAt h r, fun _ => displaces_unsetAt h r⟩

end Record.Written

namespace Update
variable {q : Path} {r : Record} {new : Value}

/-! ### Whole expressions -/

theorem foldlM_written {ε α : Type} {f : Value → α → Except ε Value} {paths : α → List Path}
    {xs : List α} (step : ∀ x ∈ xs, ∀ {r : Record} {u : Value}, f (.object r) x = .ok u →
      ∃ s : Record, u = .object s ∧ Record.Written (paths x) q r s)
    (h : xs.foldlM f (.object r) = .ok new) :
    ∃ s : Record, new = .object s ∧ Record.Written (xs.flatMap paths) q r s := by
  induction xs generalizing r with
  | nil =>
    cases h
    exact ⟨r, rfl, .refl q r⟩
  | cons x xs ih =>
    rw [List.foldlM_cons, bind_eq_ok] at h
    obtain ⟨u, hu, h⟩ := h
    obtain ⟨s, rfl, hs⟩ := step x List.mem_cons_self hu
    obtain ⟨t, ht, hrest⟩ := ih (fun y hy => step y (List.mem_cons_of_mem _ hy)) h
    exact ⟨t, ht, hs.trans hrest⟩

def namesIn : Value → List String
  | .object ms => Record.keys ms
  | _ => []

def pathsIn (paths : Value) : List Path :=
  match paths.elements with
  | .ok xs => xs.filterMap fun
    | .str path => some (Path.ofText path)
    | _ => none
  | .error _ => []

theorem set_written {members : Value} (h : set members (.object r) = .ok new)
    (hq : ∀ name ∈ namesIn members, Path.Apart (.ofText name) q) :
    ∃ s : Record, new = .object s ∧
      Record.Written ((namesIn members).map Path.ofText) q r s := by
  rw [set, bind_eq_ok] at h
  obtain ⟨ms, hms, h⟩ := h
  rw [mapError_eq_ok, Value.members_eq_ok] at hms
  subst hms
  have hpaths : (namesIn (.object ms)).map Path.ofText =
      (Record.entries ms).flatMap fun m => [Path.ofText m.1] := by
    rw [← List.map_eq_flatMap]
    simp [namesIn, Record.keys, Record.entries]
  rw [hpaths]
  refine foldlM_written (fun m hm {r u} hu => ?_) h
  have hu : u = .object (Record.setAt (Path.ofText m.1) m.2 r) := by
    cases mapError_eq_ok.mp hu
    rfl
  have hname : m.1 ∈ namesIn (.object ms) := by
    obtain ⟨m', hm', rfl⟩ := List.mem_map.mp hm
    exact List.mem_map_of_mem hm'
  exact ⟨_, hu, .setAt (hq m.1 hname) m.2 r⟩

theorem unset_written {paths : Value} (h : unset paths (.object r) = .ok new)
    (hq : ∀ p ∈ pathsIn paths, Path.Apart p q) :
    ∃ s : Record, new = .object s ∧ Record.Written [] q r s := by
  rw [unset, bind_eq_ok] at h
  obtain ⟨xs, hxs, h⟩ := h
  rw [mapError_eq_ok] at hxs
  have hnone : xs.flatMap (fun _ => ([] : List Path)) = [] := by simp
  rw [← hnone]
  refine foldlM_written (fun x hx {r u} hu => ?_) h
  rw [mapError_eq_ok] at hu
  obtain ⟨path, rfl⟩ := isStr_of_unsetAt hu
  have hu : u = .object (Record.unsetAt (Path.ofText path) r) := by
    cases hu
    rfl
  have hpath : Path.ofText path ∈ pathsIn paths := by
    rw [pathsIn, hxs]
    exact List.mem_filterMap.mpr ⟨_, hx, rfl⟩
  exact ⟨_, hu, .unsetAt (hq _ hpath) r⟩

theorem increment_written {amounts : Value} (h : increment amounts (.object r) = .ok new)
    (hq : ∀ name ∈ namesIn amounts, Path.Apart (.ofText name) q) :
    ∃ s : Record, new = .object s ∧
      Record.Written ((namesIn amounts).map Path.ofText) q r s := by
  rw [increment, bind_eq_ok] at h
  obtain ⟨ms, hms, h⟩ := h
  rw [mapError_eq_ok, Value.members_eq_ok] at hms
  subst hms
  have hpaths : (namesIn (.object ms)).map Path.ofText =
      (Record.entries ms).flatMap fun m => [Path.ofText m.1] := by
    rw [← List.map_eq_flatMap]
    simp [namesIn, Record.keys, Record.entries]
  rw [hpaths]
  refine foldlM_written (fun m hm {r u} hu => ?_) h
  obtain ⟨-, -, -, sum, -, -, -, -, hu⟩ := incrementAt_eq_ok.mp hu
  have hu : u = .object (Record.setAt (Path.ofText m.1) (.num sum) r) := by
    cases hu
    rfl
  have hname : m.1 ∈ namesIn (.object ms) := by
    obtain ⟨m', hm', rfl⟩ := List.mem_map.mp hm
    exact List.mem_map_of_mem hm'
  exact ⟨_, hu, .setAt (hq m.1 hname) _ r⟩

def written : Value → List Path
  | .object ms =>
    if (Record.keys ms).any isOperator then
      (namesIn (operand ms setName) ++ namesIn (operand ms incrementName)).map Path.ofText
    else (Record.keys ms).map Path.ofText
  | _ => []

def removed : Value → List Path
  | .object ms =>
    if (Record.keys ms).any isOperator then pathsIn (operand ms unsetName) else []
  | _ => []

/-- An update changes nothing at a path that is apart from all of its own, unless it displaces what
the path leads to. -/
theorem applied_written {keyField : Name} {given : Value}
    (h : Applied keyField false given (.object r) new)
    (hq : ∀ p ∈ written given ++ removed given, Path.Apart p q) :
    ∃ s : Record, new = .object s ∧ Record.Written (written given) q r s := by
  obtain ⟨ms, rfl, h⟩ := h
  by_cases hop : (Record.keys ms).any isOperator
  · rw [if_pos hop] at h
    obtain ⟨-, r', s', hset, hunset, hinc⟩ := h
    simp only [written, removed, if_pos hop, List.map_append] at hq ⊢
    simp only [List.forall_mem_append, List.forall_mem_map] at hq
    obtain ⟨⟨hsets, hincs⟩, hunsets⟩ := hq
    obtain ⟨s, rfl, hs⟩ := set_written hset hsets
    obtain ⟨t, rfl, ht⟩ := unset_written hunset hunsets
    obtain ⟨u, rfl, hu⟩ := increment_written hinc hincs
    exact ⟨u, rfl, hs.trans (ht.trans hu)⟩
  · rw [if_neg hop, if_neg (by simp)] at h
    simp only [written, removed, if_neg hop, List.append_nil] at hq ⊢
    exact set_written h (by simpa [namesIn] using hq)

end Update

end RecordStore
