import RecordStore.Proofs.ArrivalOrder
import RecordStore.Proofs.FieldFaults

/-! The order of the clauses of a request says in which order the parts of a key stand, and nothing
else: the same records fall into the same groups, which come in the same order. -/
namespace RecordStore
namespace Aggregate

/-! ### Lists by their places -/

/-- The second list has at every place what the first has at the place that a permutation gives. -/
def Permuted {α : Type} {n : Nat} (σ : Equiv.Perm (Fin n)) (xs ys : List α) : Prop :=
  ∃ f : Fin n → α, xs = List.ofFn f ∧ ys = List.ofFn (f ∘ σ)

section
variable {α β : Type} {n : Nat} {σ : Equiv.Perm (Fin n)}

theorem forall₂_ofFn_iff {R : α → β → Prop} {f : Fin n → α} {ys : List β} :
    List.Forall₂ R (List.ofFn f) ys ↔ ∃ g, ys = List.ofFn g ∧ ∀ i, R (f i) (g i) := by
  induction n generalizing ys with
  | zero =>
    simp only [List.ofFn_zero, List.forall₂_nil_left_iff]
    exact ⟨fun h => ⟨Fin.elim0, h, fun i => i.elim0⟩, fun ⟨_, h, _⟩ => h⟩
  | succ n ih =>
    rw [List.ofFn_succ, List.forall₂_cons_left_iff]
    constructor
    · rintro ⟨y, rest, hy, hrest, rfl⟩
      obtain ⟨g, rfl, hg⟩ := ih.mp hrest
      exact ⟨Fin.cons y g, by simp [List.ofFn_succ], Fin.cases hy hg⟩
    · rintro ⟨g, rfl, hg⟩
      exact ⟨g 0, _, hg 0, ih.mpr ⟨_, rfl, fun i => hg i.succ⟩, List.ofFn_succ⟩

theorem forall₂_ofFn_comp {R : α → β → Prop} {f : Fin n → α} {g : Fin n → β} :
    List.Forall₂ R (List.ofFn (f ∘ σ)) (List.ofFn (g ∘ σ)) ↔
      List.Forall₂ R (List.ofFn f) (List.ofFn g) := by
  simp only [forall₂_ofFn_iff, List.ofFn_inj, exists_eq_left', Function.comp_apply]
  exact σ.forall_congr_right (q := fun i => R (f i) (g i))

end

/-! ### Keys -/

def Gives [Present] (record : Value) (c : Clause) (part : Value) : Prop :=
  ∃ v, record.get (Path.ofText c.field) = .ok v ∧ c.resolve (.int 0) v = .ok (some part)

section
variable {n : Nat} {σ : Equiv.Perm (Fin n)} {f : Fin n → Clause} {record : Value}

theorem keyOf_eq_some_iff [Present] {clauses : List Clause} {index : Int} {key : List Value} :
    Run.keyOf record index clauses = .ok (some key) ↔
      List.Forall₂ (Gives record) clauses key := by
  constructor
  · intro h
    refine (forall₂_keyOf h).imp ?_
    rintro c part ⟨index, v, hv, hpart⟩
    exact ⟨v, hv, Clause.resolve_index _ hpart⟩
  · intro h
    induction h generalizing index with
    | nil => rfl
    | cons hpart _ ih =>
      obtain ⟨v, hv, hpart⟩ := hpart
      simp only [Run.keyOf, hv, Clause.resolve_index (.int index) hpart, ok_bind, ih]
      rfl

theorem keyOf_permuted [Present] {key : List Value}
    (h : Run.keyOf record 0 (List.ofFn f) = .ok (some key)) :
    ∃ key', Run.keyOf record 0 (List.ofFn (f ∘ σ)) = .ok (some key') ∧ Permuted σ key key' := by
  obtain ⟨parts, rfl, hparts⟩ := forall₂_ofFn_iff.mp (keyOf_eq_some_iff.mp h)
  exact ⟨_, keyOf_eq_some_iff.mpr (forall₂_ofFn_iff.mpr ⟨_, rfl, fun i => hparts (σ i)⟩),
    parts, rfl, rfl⟩

theorem keyOf_rel [Present] {key key' : Option (List Value)}
    (h : Run.keyOf record 0 (List.ofFn f) = .ok key)
    (h' : Run.keyOf record 0 (List.ofFn (f ∘ σ)) = .ok key') :
    Option.Rel (Permuted σ) key key' := by
  cases key with
  | some key =>
    obtain ⟨permuted, hkey, hperm⟩ := keyOf_permuted (σ := σ) h
    rw [hkey] at h'
    cases h'
    exact .some hperm
  | none =>
    cases key' with
    | none => exact .none
    | some key' =>
      have hback : (f ∘ σ) ∘ σ.symm = f := by
        rw [Function.comp_assoc, σ.self_comp_symm, Function.comp_id]
      obtain ⟨key, hkey, -⟩ := keyOf_permuted (σ := σ.symm) h'
      rw [hback, h] at hkey
      cases hkey

theorem sameKeys_permuted {key key' other other' : List Value} (h : Permuted σ key key')
    (ho : Permuted σ other other') :
    Value.sameKeys key other = Value.sameKeys key' other' := by
  obtain ⟨parts, rfl, rfl⟩ := h
  obtain ⟨others, rfl, rfl⟩ := ho
  rw [Bool.eq_iff_iff, Value.sameKeys_iff, Value.sameKeys_iff]
  exact forall₂_ofFn_comp.symm

end

/-! ### Classes -/

def KeyPermuted {n : Nat} (σ : Equiv.Perm (Fin n)) (p q : List Value × Value) : Prop :=
  Permuted σ p.1 q.1 ∧ p.2 = q.2

structure Class.Permuted {n : Nat} (σ : Equiv.Perm (Fin n)) (c d : Class) : Prop where
  key : Aggregate.Permuted σ c.key d.key
  members : c.members = d.members

section
variable {n : Nat} {σ : Equiv.Perm (Fin n)} {f : Fin n → Clause} {records : List Value}
  {ks ks' : List (List Value × Value)}

theorem keyed_permuted [Present] (h : keyed (List.ofFn f) records = .ok ks)
    (h' : keyed (List.ofFn (f ∘ σ)) records = .ok ks') : List.Forall₂ (KeyPermuted σ) ks ks' := by
  induction records generalizing ks ks' with
  | nil =>
    cases h
    cases h'
    exact .nil
  | cons r rest ih =>
    simp only [keyed, bind_eq_ok, pure_eq_ok] at h h'
    obtain ⟨key, hkey, ks, hks, rfl⟩ := h
    obtain ⟨key', hkey', ks', hks', rfl⟩ := h'
    cases keyOf_rel hkey hkey' with
    | none => exact ih hks hks'
    | some hperm => exact .cons ⟨hperm, rfl⟩ (ih hks hks')

theorem keyed_eq_ok_iff [Present] {clauses : List Clause} : (∃ ks, keyed clauses records = .ok ks) ↔
    ∀ r ∈ records, ∃ key, Run.keyOf r 0 clauses = .ok key := by
  induction records with
  | nil => simp [keyed]
  | cons r rest ih =>
    rw [List.forall_mem_cons, ← ih]
    simp only [keyed, bind_eq_ok, pure_eq_ok]
    constructor
    · rintro ⟨_, key, hkey, ks, hks, rfl⟩
      exact ⟨⟨key, hkey⟩, ks, hks⟩
    · rintro ⟨⟨key, hkey⟩, ks, hks⟩
      exact ⟨_, key, hkey, ks, hks, rfl⟩

theorem forall₂_filter {α β : Type} {R : α → β → Prop} {p : α → Bool} {q : β → Bool}
    {xs : List α} {ys : List β} (h : List.Forall₂ R xs ys) (hpq : ∀ x y, R x y → p x = q y) :
    List.Forall₂ R (xs.filter p) (ys.filter q) := by
  induction h with
  | nil => exact .nil
  | cons hxy _ ih =>
    rw [List.filter_cons, List.filter_cons, hpq _ _ hxy]
    split
    · exact .cons hxy ih
    · exact ih

/-- What is left for the later classes is again the same under either order, and so they are. -/
theorem classes_permuted (h : List.Forall₂ (KeyPermuted σ) ks ks') :
    List.Forall₂ (Class.Permuted σ) (classes ks) (classes ks') := by
  induction ks using classes.induct generalizing ks' with
  | case1 =>
    cases h
    simp [classes]
  | case2 key r rest ih =>
    obtain ⟨⟨key', r'⟩, rest', hfirst, hrest, rfl⟩ := List.forall₂_cons_left_iff.mp h
    obtain ⟨hkey, rfl⟩ := hfirst
    have hsame (p q : List Value × Value) (hpq : KeyPermuted σ p q) :
        Value.sameKeys key p.1 = Value.sameKeys key' q.1 := sameKeys_permuted hkey hpq.1
    have hshared : List.Forall₂ (KeyPermuted σ) (sharing key rest) (sharing key' rest') :=
      forall₂_filter hrest hsame
    have hothers : List.Forall₂ (KeyPermuted σ) (others key rest) (others key' rest') :=
      forall₂_filter hrest fun p q hpq => congrArg not (hsame p q hpq)
    have hmembers : (sharing key rest).map Prod.snd = (sharing key' rest').map Prod.snd := by
      rw [← List.forall₂_eq_eq_eq, List.forall₂_map_left_iff, List.forall₂_map_right_iff]
      exact hshared.imp fun _ _ hpq => hpq.2
    rw [classes, classes]
    exact .cons ⟨hkey, congrArg (r :: ·) hmembers⟩ (ih hothers)

end

/-! ### Results -/

/-- Entries that differ in the order of the parts of their keys alone. -/
structure Entry.Permuted {n : Nat} (σ : Equiv.Perm (Fin n)) (e f : Entry) : Prop where
  key : Aggregate.Permuted σ e.key f.key
  total : e.total = f.total
  stats : e.stats = f.stats

theorem Entry.Sums.permuted {n : Nat} {σ : Equiv.Perm (Fin n)} {spec : Spec} {c d : Class}
    {e : Entry} (h : Entry.Sums spec c e) (hcd : Class.Permuted σ c d)
    (clauses : Option (List Clause)) :
    ∃ f, Entry.Sums { spec with clauses } d f ∧ Entry.Permuted σ e f := by
  obtain ⟨hkey, hmembers⟩ := hcd
  refine ⟨{ e with key := d.key }, ⟨rfl, ?_, ?_⟩, h.key ▸ hkey, rfl, rfl⟩
  · rw [← hmembers]
    exact h.total
  · rw [← hmembers]
    exact h.stats

/-- With its clauses in another order a request comes through unless one of them, which may come
earlier now, refuses a record. If it does, the entries are what they were and where they were, with
the parts of their keys permuted as the clauses are. -/
theorem clause_order_permutes_keys [Present] {n : Nat} (σ : Equiv.Perm (Fin n)) {spec : Spec}
    {f : Fin n → Clause} (hc : spec.clauses = some (List.ofFn f))
    (hx : extensionStats? spec.stats = none) {o : AggregateOptions} (hs : o.sort = [])
    (hl : o.limit = none) {records : List Value} {result : Result}
    (h : (ofRecords (begin (.ok spec) (.ok (.read o))) records).result = .ok result) :
    let clauses' := List.ofFn (f ∘ σ)
    let spec' : Spec := { spec with clauses := some clauses' }
    let out' := (ofRecords (begin (.ok spec') (.ok (.read o))) records).result
    ((∃ result', out' = .ok result') ↔
        ∀ r ∈ records, ∃ key, Run.keyOf r 0 clauses' = .ok key) ∧
      ∀ result', out' = .ok result' → ∃ entries entries', result = .groups entries ∧
        result' = .groups entries' ∧ List.Forall₂ (Entry.Permuted σ) entries entries' := by
  intro clauses' spec' out'
  have hc' : spec'.clauses = some clauses' := rfl
  obtain ⟨ks, entries, hkeyed, hentries, rfl⟩ := (groups_aggregate hc hx hs hl).mp h
  have hout (ks' : List (List Value × Value)) (hkeyed' : keyed clauses' records = .ok ks') :
      ∃ entries', out' = .ok (.groups entries') ∧
        List.Forall₂ (Entry.Permuted σ) entries entries' := by
    have hclasses := classes_permuted (keyed_permuted hkeyed hkeyed')
    have hboth := forall₂_comp.mp ⟨_, hclasses.flip, hentries⟩
    obtain ⟨entries', hsums, hpermuted⟩ := forall₂_comp.mpr (hboth.imp fun d e hde => by
      obtain ⟨c, hcd, he⟩ := hde
      exact he.permuted hcd (some clauses'))
    exact ⟨entries', (groups_aggregate hc' hx hs hl).mpr ⟨ks', entries', hkeyed', hsums, rfl⟩,
      hpermuted.flip⟩
  rw [← keyed_eq_ok_iff]
  refine ⟨⟨fun hok => ?_, fun hok => ?_⟩, fun result' hresult => ?_⟩
  · obtain ⟨result', hresult⟩ := hok
    obtain ⟨ks', -, hkeyed', -⟩ := (groups_aggregate hc' hx hs hl).mp hresult
    exact ⟨ks', hkeyed'⟩
  · obtain ⟨ks', hkeyed'⟩ := hok
    obtain ⟨entries', hresult, -⟩ := hout ks' hkeyed'
    exact ⟨_, hresult⟩
  · obtain ⟨ks', -, hkeyed', -⟩ := (groups_aggregate hc' hx hs hl).mp hresult
    obtain ⟨entries', hresult', hpermuted⟩ := hout ks' hkeyed'
    rw [hresult'] at hresult
    cases hresult
    exact ⟨entries, entries', rfl, rfl, hpermuted⟩

/-- Two records by kind and age, and by age and kind. -/
theorem clause_order_permutes_keys_of_two :
    let clauses : Fin 2 → Clause := ![⟨"kind", .discrete⟩, ⟨"age", .discrete⟩]
    let r (kind : String) (age : Int) : Value := .object [("kind", .str kind), ("age", .int age)]
    let σ : Equiv.Perm (Fin 2) := Equiv.swap 0 1
    let run (clauses : List Clause) :=
      (ofRecords (begin (.ok ⟨some clauses, [], true, []⟩) (.ok (.read {})))
        [r "dog" 3, r "cat" 3]).result
    ∃ entries entries', run (List.ofFn clauses) = .ok (.groups entries) ∧
      run (List.ofFn (clauses ∘ σ)) = .ok (.groups entries') ∧
      List.Forall₂ (Entry.Permuted σ) entries entries' ∧ entries.length = 2 := by
  intro clauses r σ run
  let spec : Spec := ⟨some (List.ofFn clauses), [], true, []⟩
  let key (kind : String) (age : Int) : List Value := [.str kind, .int age]
  let ks := [(key "dog" 3, r "dog" 3), (key "cat" 3, r "cat" 3)]
  have hclasses : classes ks = [⟨key "dog" 3, [r "dog" 3]⟩, ⟨key "cat" 3, [r "cat" 3]⟩] := by
    simp [ks, key, classes, sharing, others, Value.sameKeys, Value.sameKey]
  have hentries : List.Forall₂ (Entry.Sums spec) (classes ks)
      [⟨key "dog" 3, none, some 1⟩, ⟨key "cat" 3, none, some 1⟩] := by
    rw [hclasses]
    exact .cons ⟨rfl, rfl, rfl⟩ (.cons ⟨rfl, rfl, rfl⟩ .nil)
  have hc : spec.clauses = some (List.ofFn clauses) := rfl
  have hfirst : List.ofFn clauses = [⟨"kind", .discrete⟩, ⟨"age", .discrete⟩] := rfl
  have hkeyed : keyed (List.ofFn clauses) [r "dog" 3, r "cat" 3] = .ok ks := by
    rw [hfirst]
    rfl
  have hrun : run (List.ofFn clauses) = _ :=
    (groups_aggregate (o := {}) hc rfl rfl rfl).mpr ⟨ks, _, hkeyed, hentries, rfl⟩
  obtain ⟨hok, hpermuted⟩ :=
    clause_order_permutes_keys σ (o := {}) hc rfl rfl rfl hrun
  have hsecond : List.ofFn (clauses ∘ σ) = [⟨"age", .discrete⟩, ⟨"kind", .discrete⟩] := rfl
  obtain ⟨result', hresult'⟩ := hok.mpr (by
    rw [hsecond, List.forall_mem_cons, List.forall_mem_singleton]
    exact ⟨⟨_, rfl⟩, _, rfl⟩)
  obtain ⟨entries, entries', hentries, rfl, hforall⟩ := hpermuted result' hresult'
  cases hentries
  exact ⟨_, entries', hrun, hresult', hforall, rfl⟩

end Aggregate
end RecordStore
