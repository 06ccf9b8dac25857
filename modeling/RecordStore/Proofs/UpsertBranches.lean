import RecordStore.Proofs.FieldUpdates
import RecordStore.Proofs.UpsertMatches

/-! When an upsert that finds nothing does what an update would do to a record of its query: its
data must ask for nothing but members to be put, since the one branch reads no more of them than
that. -/
namespace RecordStore

/-! ### How either branch fails -/

/-- Failures of one kind: faults of one kind in an operation, or one and the same. -/
def Failure.Alike (f g : Failure) : Prop :=
  f = g ∨ ∃ d e, f = .domain d ∧ g = .domain e ∧ d.fault.kind = e.fault.kind

theorem Failure.Alike.isPlain {f g : Failure} (h : f.Alike g) : f.isPlain = g.isPlain := by
  obtain rfl | ⟨d, e, rfl, rfl, -⟩ := h <;> rfl

def Failure.IsPairing (f : Failure) : Prop := f.isPlain ∧ f ≠ .lacksOperation

namespace Value

theorem elements_pairing (v : Value) : FailsOnly Failure.IsPairing v.elements := by
  intro f hf
  rw [elements_fails v f hf]
  exact ⟨rfl, by simp⟩

theorem pair_fails (v : Value) : FailsOnly Failure.IsPairing v.pair := by
  refine v.elements_pairing.bind fun xs => ?_
  split
  · split
    · exact .ok _
    · exact .error ⟨rfl, by simp⟩
  · exact .error ⟨rfl, by simp⟩

end Value

theorem Record.putHeld_fails (r : Record) (v : Value) :
    FailsOnly Failure.IsPairing (r.putHeld v) := by
  rw [putHeld.eq_def]
  split
  · exact .ok _
  · exact v.elements_pairing.bind fun xs => (FailsOnly.mapM Value.pair_fails xs).bind fun _ => .ok _

/-! ### The branch that updates -/

namespace Store
variable {store : Store} {filter : Filter} {rs : List Value} {r : Record}

theorem swapIn_last (rs : List Value) (r s : Record) :
    swapIn (rs.map (·, false) ++ [(.object r, true)]) [.object s] =
      (rs ++ [.object s], .ok ()) := by
  induction rs with
  | nil => rfl
  | cons v rs ih =>
    change ((v :: (swapIn (rs.map (·, false) ++ [(.object r, true)]) [.object s]).1),
      (swapIn (rs.map (·, false) ++ [(.object r, true)]) [.object s]).2) = _
    rw [ih]
    rfl

theorem update_last (hq : store.Answers (.object filter) filter)
    (hrecords : store.records = rs ++ [.object r])
    (hrs : ∀ v ∈ rs, Query.selects (.object filter) v = false)
    (hr : Query.selects (.object filter) (.object r)) (data : Record) :
    store.update false (.object filter) (.object data) =
      match Update.outcome store.keyField data (.object r) with
      | .error e => (.error e, store)
      | .ok new => (.ok 1, { store with records := rs ++ [new] }) := by
  have hmarks : store.records.map (fun v => (v, Query.selects (.object filter) v)) =
      rs.map (·, false) ++ [(.object r, true)] := by
    rw [hrecords, List.map_append, List.map_singleton, hr]
    exact congrArg (· ++ _) (List.map_congr_left fun v hv => by rw [hrs v hv])
  have hfound : (rs.map (·, false) ++ [(Value.object r, true)]).filter (·.2) =
      [(.object r, true)] := by
    simp [List.filter_append, List.filter_map, Function.comp_def]
  have hplan : store.planUpdate false (.object filter) (.object data) = (do
      let new ← Update.outcome store.keyField data (.object r)
      return (rs.map (·, false) ++ [(.object r, true)], [new])) := by
    simp only [planUpdate, Update.outcome, hq.filterOf, hq.marked, hmarks, ok_bind, hfound,
      List.mapM_cons, List.mapM_nil]
    cases Update.read false (.object data) with
    | error e => rfl
    | ok change =>
      simp only [ok_bind]
      cases change.apply store.keyField (.object r) <;> rfl
  rw [Store.update, hplan]
  cases h : Update.outcome store.keyField data (.object r) with
  | error e => rfl
  | ok new =>
    obtain ⟨s, rfl⟩ := Value.isObject_iff.mp (Update.outcome_isObject rfl h)
    simp only [ok_bind, pure, Except.pure, swapIn_last, Except.mapError, Except.map, hfound]
    rfl

end Store

/-! ### The record that either branch leaves -/

def Record.Same (r s : Record) : Prop := ∀ k, r.get? k = s.get? k

/-- What an expression takes away and adds leaves a record as it is. -/
def Update.Idle (data r : Record) : Prop :=
  ∃ v, ∃ s : Record, unset (operand data unsetName) (.object r) = .ok v ∧
    increment (operand data incrementName) v = .ok (.object s) ∧ s.Same r

/-- When the branches agree for a record of a query. If its key is known, the expression has to
bring one that is known as well, and that has a text if the other has. Otherwise it has to be one
that an update takes, that puts members by simple names and does nothing else, and that brings
neither null nor a known key. -/
def Store.Merges (store : Store) (filter data : Record) : Prop :=
  if store.refuses filter then
    ∃ r, Record.putHeld filter (Update.assigned data) = .ok r ∧ store.refuses r ∧
      (store.keyOf r).isWritable = (store.keyOf filter).isWritable
  else Update.Taken data ∧ ∃ sets : Record, Update.assigned data = .object sets ∧
    (∀ m ∈ sets, m.1.isSimple) ∧ Update.Idle data ((store.kept filter).1.putAll sets) ∧
    ¬ store.refuses (filter.putAll sets) ∧
    (store.keyField ∈ sets.map Prod.fst → store.keyOf (filter.putAll sets) ≠ .null)

namespace Store
variable {store : Store} {filter sets : Record}

theorem keyOf_putAll (h : store.keyField ∉ sets.map Prod.fst) :
    store.keyOf (filter.putAll sets) = store.keyOf filter := by
  rw [keyOf, keyOf, Record.get?_putAll_of_not_mem h]

theorem kept_putAll_same
    (hkey : store.keyField ∈ sets.map Prod.fst → store.keyOf (filter.putAll sets) ≠ .null) :
    Record.Same (store.kept (filter.putAll sets)).1 ((store.kept filter).1.putAll sets) := by
  intro k
  by_cases hnull : store.keyOf filter = .null
  · have hother (hne : store.keyField ≠ k) : (filter.putAll sets).get? k =
        ((filter.put store.keyField store.freshKey).putAll sets).get? k :=
      (Record.get?_putAll_congr (Record.get?_put_of_ne hne _ _) sets).symm
    rw [kept_of_null hnull]
    change _ = ((filter.put store.keyField store.freshKey).putAll sets).get? k
    by_cases hmem : store.keyField ∈ sets.map Prod.fst
    · rw [kept_of_key (hkey hmem)]
      by_cases hne : store.keyField = k
      · exact Record.get?_putAll_of_mem (hne ▸ hmem) _ _
      · exact hother hne
    · rw [kept_of_null ((keyOf_putAll hmem).trans hnull)]
      change ((filter.putAll sets).put store.keyField store.freshKey).get? k = _
      by_cases hne : store.keyField = k
      · rw [← hne, Record.get?_put_self, Record.get?_putAll_of_not_mem hmem, Record.get?_put_self]
      · rw [Record.get?_put_of_ne hne, hother hne]
  · have hpresent : store.keyOf (filter.putAll sets) ≠ .null := by
      by_cases hmem : store.keyField ∈ sets.map Prod.fst
      · exact hkey hmem
      · rwa [keyOf_putAll hmem]
    rw [kept_of_key hnull, kept_of_key hpresent]

end Store

/-! ### Records whose keys are known -/

namespace Store
variable {store : Store} {name : Value} {r s : Record}

def duplicate (store : Store) (name : Value) (r : Record) : Failure :=
  DomainError.failure
    { fault := .duplicateKey store.keyField.reading (store.keyOf r)
      operation := .str "insert"
      collection := name }

theorem isPlain_duplicate : (store.duplicate name r).isPlain = false := by
  unfold duplicate DomainError.failure
  split <;> rfl

theorem kind_of_duplicate {e : DomainError} (h : store.duplicate name r = .domain e) :
    e.fault.kind = .duplicate := by
  unfold duplicate DomainError.failure at h
  split at h <;> cases h
  rfl

theorem duplicate_alike_iff : (store.duplicate name r).Alike (store.duplicate name s) ↔
    (store.keyOf r).isWritable = (store.keyOf s).isWritable := by
  simp only [duplicate, DomainError.failure, Fault.isWritable, Fault.quoted,
    List.all_cons, List.all_nil, Bool.and_true]
  cases (store.keyOf r).isWritable <;> cases (store.keyOf s).isWritable <;>
    simp [Failure.Alike, Fault.kind]

end Store

/-! ### Both branches -/

namespace Collection
variable {c : Collection} {store : Store} {filter : Filter} {data : Record}

/-- A record is inserted, and the query that it is made of is updated. -/
def insertThenUpdate (filter data : Record) : Action Unit := do
  insert (.object filter)
  let _ ← update (.object filter) (.object data) .null

def Adds (store : Store) (r : Record) (run : Except Failure Unit × Collection) : Prop :=
  run.1 = .ok () ∧ ∃ left : Store, run.2.backend = .memory left ∧
    left.records = store.records ++ [.object r]

/-- Two runs add records with the same members, or fail in one way. -/
def SameOutcome (store : Store) (one other : Except Failure Unit × Collection) : Prop :=
  (∃ r s, Adds store r one ∧ Adds store s other ∧ r.Same s) ∨
    ∃ f g, one.1 = .error f ∧ other.1 = .error g ∧ f.Alike g

section
variable (hc : c.backend = .memory store) (ho : store.HoldsObjects)
include hc ho

theorem insert_refused_run {r : Record} (h : store.refuses r) :
    (insert (.object r)).run.run c = (.error (store.duplicate c.name r), c) := by
  rw [insert_run hc, Store.insert_eq ho, if_pos h]
  rfl

theorem insert_kept_run {r : Record} (h : ¬ store.refuses r) :
    (insert (.object r)).run.run c = (.ok (), { c with
      backend := .memory { (store.kept r).2 with
        records := store.records ++ [.object (store.kept r).1] } }) := by
  rw [insert_run hc, Store.insert_eq ho, if_neg h]

theorem insertThenUpdate_run (data : Record) (hf : filter.Equalities)
    (hdot : filter.isDotted = false) (hnone : store.count (.object filter) = .ok 0)
    (hoff : c.options.allowFullReplace = false) (h : ¬ store.refuses filter) :
    let run := (insertThenUpdate filter data).run.run c
    match Update.outcome store.keyField data (.object (store.kept filter).1) with
    | .error e => run.1 = .error (e.toFailure (.str "update") c.name)
    | .ok new => run.1 = .ok () ∧ ∃ left : Store, run.2.backend = .memory left ∧
        left.records = store.records ++ [new] := by
  let left : Store := { (store.kept filter).2 with
    records := store.records ++ [.object (store.kept filter).1] }
  have hq := Store.Answers.of_count hnone
  have hnew : Filter.holds (.object (store.kept filter).1) filter = .ok true := by
    have hapart : ∀ m ∈ filter, ∀ n ∈ ([] : Record),
        Path.Apart (.ofText n.1.reading) (.ofText m.1.reading) := by simp
    have hholds :=
      hf.holds_inserted (fun m hm => (hq.paths m hm).imp fun _ h => h.1) hapart store
    rwa [hdot] at hholds
  have hrs : ∀ v ∈ store.records, Query.selects (.object filter) v = false := by
    rw [hq.count, Except.ok.injEq, List.length_eq_zero_iff, List.filter_eq_nil_iff] at hnone
    exact fun v hv => Bool.eq_false_iff.mpr (hnone v hv)
  have hql : left.Answers (.object filter) filter := by
    refine ⟨rfl, hq.paths, fun v hv => ?_⟩
    obtain hv | hv := List.mem_append.mp hv
    · exact hq.read v hv
    · rw [List.mem_singleton.mp hv]
      exact ⟨true, hnew⟩
  have hfield : left.keyField = store.keyField := store.kept_keyField filter
  have hupdate := Store.update_last hql rfl hrs (Query.selects_of_holds hnew) data
  rw [← hoff, hfield] at hupdate
  let filled : Collection := { c with backend := .memory left }
  unfold insertThenUpdate
  rw [run_bind_ok (insert_kept_run hc ho h)]
  intro run
  cases houtcome : Update.outcome store.keyField data (.object (store.kept filter).1) with
  | error e =>
    rw [houtcome] at hupdate
    replace hupdate : left.update (filled.fullReplace .null) _ _ = _ := hupdate
    have hrun : run = (.error (e.toFailure (.str "update") c.name), _) := run_bind_error
      (update_run (show filled.backend = .memory left from rfl) hupdate)
    rw [hrun]
  | ok new =>
    rw [houtcome] at hupdate
    replace hupdate : left.update (filled.fullReplace .null) _ _ = _ := hupdate
    have hrun : run = (.ok (), _) := run_bind_ok
      (update_run (show filled.backend = .memory left from rfl) hupdate)
    rw [hrun]
    exact ⟨rfl, _, rfl, rfl⟩

end

theorem upsert_none_run (hc : c.backend = .memory store)
    (hnone : store.count (.object filter) = .ok 0) :
    (upsert (.object filter) (.object data)).run.run c =
      match Record.putHeld filter (Update.assigned data) with
      | .error f => (.error f, c)
      | .ok r => (insert (.object r)).run.run c := by
  rw [upsert_run hc, hnone, upsertRecord_of_answers (Store.Answers.of_count hnone)]
  rfl

theorem Adds.eq {r : Record} {run : Except Failure Unit × Collection} {left : Store} {v : Value}
    (h : Adds store r run) (hleft : run.2.backend = .memory left)
    (hrecords : left.records = store.records ++ [v]) : v = .object r := by
  obtain ⟨-, left', hleft', hrecords'⟩ := h
  cases hleft.symm.trans hleft'
  simpa using List.append_cancel_left (hrecords.symm.trans hrecords')

section
variable (hc : c.backend = .memory store) (ho : store.HoldsObjects)
  (hnone : store.count (.object filter) = .ok 0)
include hc ho hnone

theorem upsert_none_error {f : Failure}
    (h : ((upsert (.object filter) (.object data)).run.run c).1 = .error f) :
    Record.putHeld filter (Update.assigned data) = .error f ∧ f.IsPairing ∨
      ∃ r, Record.putHeld filter (Update.assigned data) = .ok r ∧ store.refuses r ∧
        f = store.duplicate c.name r := by
  rw [upsert_none_run hc hnone] at h
  cases hr : Record.putHeld filter (Update.assigned data) with
  | error g =>
    rw [hr] at h
    cases h
    exact .inl ⟨rfl, Record.putHeld_fails _ _ _ hr⟩
  | ok r =>
    rw [hr] at h
    dsimp only at h
    by_cases hrefuses : store.refuses r
    · rw [insert_refused_run hc ho hrefuses] at h
      cases h
      exact .inr ⟨r, rfl, hrefuses, rfl⟩
    · rw [insert_kept_run hc ho hrefuses] at h
      cases h

theorem upsert_none_ok
    (h : ((upsert (.object filter) (.object data)).run.run c).1 = .ok ()) :
    ∃ r, Record.putHeld filter (Update.assigned data) = .ok r ∧ ¬ store.refuses r := by
  rw [upsert_none_run hc hnone] at h
  cases hr : Record.putHeld filter (Update.assigned data) with
  | error g =>
    rw [hr] at h
    cases h
  | ok r =>
    refine ⟨r, rfl, fun hrefuses => ?_⟩
    rw [hr] at h
    dsimp only at h
    rw [insert_refused_run hc ho hrefuses] at h
    cases h

theorem upsert_none_adds {r : Record}
    (hr : Record.putHeld filter (Update.assigned data) = .ok r) (hnew : ¬ store.refuses r) :
    Adds store (store.kept r).1 ((upsert (.object filter) (.object data)).run.run c) := by
  rw [upsert_none_run hc hnone, hr]
  dsimp only
  rw [insert_kept_run hc ho hnew]
  exact ⟨rfl, _, rfl, rfl⟩

/-- The key of the query is known: the insertion is refused, and the update is not come to. -/
theorem refused_agree_iff (data : Record) (h : store.refuses filter) :
    SameOutcome store ((upsert (.object filter) (.object data)).run.run c)
        ((insertThenUpdate filter data).run.run c) ↔
      ∃ r, Record.putHeld filter (Update.assigned data) = .ok r ∧ store.refuses r ∧
        (store.keyOf r).isWritable = (store.keyOf filter).isWritable := by
  have hother : (insertThenUpdate filter data).run.run c =
      (.error (store.duplicate c.name filter), c) :=
    run_bind_error (insert_refused_run hc ho h)
  rw [hother]
  constructor
  · intro hsame
    obtain ⟨_, _, -, hadds, -⟩ | ⟨f, g, hone, hg, halike⟩ := hsame
    · cases hadds.1
    · cases hg
      obtain ⟨-, hpairing⟩ | ⟨r, hr, hrefuses, rfl⟩ := upsert_none_error hc ho hnone hone
      · have hplain := halike.isPlain
        rw [hpairing.1, Store.isPlain_duplicate] at hplain
        cases hplain
      · exact ⟨r, hr, hrefuses, Store.duplicate_alike_iff.mp halike⟩
  · intro hr
    obtain ⟨r, hr, hrefuses, hwritable⟩ := hr
    refine .inr ⟨store.duplicate c.name r, _, ?_, rfl, Store.duplicate_alike_iff.mpr hwritable⟩
    rw [upsert_none_run hc hnone, hr]
    exact congrArg Prod.fst (insert_refused_run hc ho hrefuses)

end

namespace Merging
variable {sets : Record}

theorem simple_of_undotted (hq : store.Answers (.object filter) filter)
    (hdot : filter.isDotted = false) : ∀ m ∈ filter, m.1.isSimple := by
  intro m hm
  obtain ⟨path, hpath, -⟩ := hq.paths m hm
  have hpoint := List.any_eq_false.mp hdot m hm
  rw [hpath] at hpoint ⊢
  exact decide_eq_true fun h => hpoint (decide_eq_true h)

/-- A member under another name than a simple one is no part of what an update makes of a record
that has none. -/
theorem simple_of_same (hnames : ∀ m ∈ filter, m.1.isSimple) (hfield : store.keyField.isSimple)
    {s : Record} (hchanged : Update.changed data (.object (store.kept filter).1) = .ok (.object s))
    (hsame : Record.Same (store.kept (filter.putAll sets)).1 s) :
    ∀ m ∈ sets, m.1.isSimple := by
  intro m hm
  by_contra hk
  have hne : store.keyField ≠ m.1 := fun hname => hk (hname ▸ hfield)
  have hnone : (store.kept filter).1.get? m.1 = none := by
    rw [Store.get?_kept (.inr hne)]
    exact Record.get?_eq_none fun n hn hname => hk (hname ▸ hnames n hn)
  have honly : Record.only m.1 s = Record.only m.1 (store.kept filter).1 :=
    Value.object.inj (Update.changed_only (Bool.not_eq_true _ ▸ hk) hchanged)
  have hnew : s.get? m.1 = none := by
    rw [← Record.get?_only, honly, Record.get?_only, hnone]
  obtain ⟨v, hv⟩ := Record.exists_get?_putAll (List.mem_map_of_mem hm) filter
  have hsame := hsame m.1
  rw [Store.get?_kept (.inr hne), hv, hnew] at hsame
  cases hsame

/-- Where an upsert makes up a key for null that is set, an update never comes to the same. -/
theorem key_of_same {s v : Value} {r : Record} (hnodup : (filter.map Prod.fst).Nodup)
    (hset : s = .object ((store.kept filter).1.putAll sets))
    (hunset : Update.unset (Update.operand data Update.unsetName) s = .ok v)
    (hinc : Update.increment (Update.operand data Update.incrementName) v = .ok (.object r))
    (hsame : Record.Same (store.kept (filter.putAll sets)).1 r) :
    store.keyField ∈ sets.map Prod.fst → store.keyOf (filter.putAll sets) ≠ .null := by
  intro hmem hnull
  subst hset
  have hkept : ((store.kept filter).1.map Prod.fst).Nodup := by
    by_cases hkey : store.keyOf filter = .null
    · rw [Store.kept_of_null hkey]
      exact Record.nodup_put hnodup
    · rwa [Store.kept_of_key hkey]
  have hget : ((store.kept filter).1.putAll sets).get? store.keyField = some .null := by
    rw [Record.get?_putAll_of_mem hmem _ filter]
    obtain ⟨w, hw⟩ := Record.exists_get?_putAll hmem filter
    rw [Store.keyOf, hw, Option.getD_some] at hnull
    rw [hw, hnull]
  have hnotext : Update.HasNoText store.keyField (.object ((store.kept filter).1.putAll sets)) := by
    refine ⟨_, rfl, fun m hm hname => ?_⟩
    have hm := Record.get?_of_mem (Record.nodup_putAll hkept) hm
    rw [hname, hget, Option.some.injEq] at hm
    simp [← hm, Value.isStr]
  have hfresh : (store.kept (filter.putAll sets)).1.get? store.keyField = some store.freshKey := by
    rw [Store.kept_of_null hnull]
    exact Record.get?_put_self _ _
  exact Update.hasNoText_of_changed hnotext hunset hinc _ ((hsame _).symm.trans hfresh)

theorem of_same (hq : store.Answers (.object filter) filter) (hf : filter.Equalities)
    (hdot : filter.isDotted = false) (hfield : store.keyField.isSimple)
    (hfree : ¬ store.refuses filter) {r s : Record}
    (hput : Record.putHeld filter (Update.assigned data) = .ok r) (hnew : ¬ store.refuses r)
    (houtcome : Update.outcome store.keyField data (.object (store.kept filter).1) =
      .ok (.object s))
    (hsame : Record.Same (store.kept r).1 s) : store.Merges filter data := by
  rw [Store.Merges, if_neg hfree]
  have htaken : Update.Taken data := by
    by_contra h
    obtain ⟨f, hfault, -⟩ :=
      Update.outcome_of_not_taken h store.keyField (.object (store.kept filter).1)
    rw [hfault] at houtcome
    cases houtcome
  rw [Update.outcome_of_taken htaken] at houtcome
  have hchanged := houtcome
  rw [Update.changed, bind_eq_ok] at houtcome
  obtain ⟨v, hset, houtcome⟩ := houtcome
  obtain ⟨w, hunset, hinc⟩ := bind_eq_ok.mp houtcome
  obtain ⟨sets, hsets, -⟩ := bind_eq_ok.mp hset
  rw [mapError_eq_ok, Value.members_eq_ok] at hsets
  rw [hsets] at hput hset
  cases hput
  have hsimple := simple_of_same (simple_of_undotted hq hdot) hfield hchanged hsame
  rw [Update.set_simple hsimple, Except.ok.injEq] at hset
  have hkey := key_of_same hf.nodup hset.symm hunset hinc hsame
  subst hset
  refine ⟨htaken, sets, hsets, hsimple, ⟨w, s, hunset, hinc, fun k => ?_⟩, hnew, hkey⟩
  rw [← hsame k, Store.kept_putAll_same hkey k]

theorem outcome_of_merges (h : store.Merges filter data) (hfree : ¬ store.refuses filter) :
    ∃ r s : Record, Record.putHeld filter (Update.assigned data) = .ok r ∧ ¬ store.refuses r ∧
      Update.outcome store.keyField data (.object (store.kept filter).1) = .ok (.object s) ∧
      Record.Same (store.kept r).1 s := by
  rw [Store.Merges, if_neg hfree] at h
  obtain ⟨htaken, sets, hsets, hsimple, ⟨v, s, hunset, hinc, hidle⟩, hnew, hkey⟩ := h
  refine ⟨filter.putAll sets, s, by rw [hsets, Record.putHeld], hnew, ?_, fun k => ?_⟩
  · rw [Update.outcome_of_taken htaken, Update.changed, hsets, Update.set_simple hsimple, ok_bind,
      hunset, ok_bind, hinc]
  · rw [Store.kept_putAll_same hkey k, hidle k]

theorem failure_of_putHeld {f : Failure} {e : StoreError} {r : Value}
    (hput : Record.putHeld filter (Update.assigned data) = .error f)
    (he : Update.outcome store.keyField data r = .error e) :
    (∃ fault, e = .fault fault) ∨ e = .failure .lacksOperation := by
  by_cases htaken : Update.Taken data
  · rw [Update.outcome_of_taken htaken, Update.changed, Update.set] at he
    cases hassigned : Update.assigned data with
    | object sets =>
      rw [hassigned, Record.putHeld] at hput
      cases hput
    | _ =>
      rw [hassigned] at he
      cases he
      exact .inr rfl
  · obtain ⟨fault, hfault, -⟩ := Update.outcome_of_not_taken htaken store.keyField r
    rw [hfault] at he
    cases he
    exact .inl ⟨fault, rfl⟩

/-- Where both branches fail, once the record of the query is inserted, they fail in two ways. -/
theorem not_alike {f : Failure} {e : StoreError} {r operation name : Value}
    (hone : Record.putHeld filter (Update.assigned data) = .error f ∧ f.IsPairing ∨
      ∃ s, f = store.duplicate name s)
    (he : Update.outcome store.keyField data r = .error e) :
    ¬ f.Alike (e.toFailure operation name) := by
  have hupdating := Update.outcome_fails _ _ _ e he
  intro halike
  cases e with
  | fault fault =>
    rw [StoreError.toFailure, DomainError.failure_of_writable hupdating.2] at halike
    obtain ⟨-, hplain, -⟩ | ⟨s, rfl⟩ := hone
    · have hdomain := halike.isPlain
      rw [hplain] at hdomain
      cases hdomain
    · obtain heq | ⟨d, _, heq, ⟨⟩, hkinds⟩ := halike
      · cases (Store.kind_of_duplicate heq).symm.trans hupdating.1
      · cases (Store.kind_of_duplicate heq).symm.trans (hkinds.trans hupdating.1)
  | failure g =>
    obtain ⟨hput, hplain, hpairing⟩ | ⟨s, rfl⟩ := hone
    · obtain ⟨fault, hfault⟩ | hlacks := failure_of_putHeld hput he
      · cases hfault
      · cases hlacks
        obtain heq | ⟨_, -, rfl, -⟩ := halike
        · exact hpairing heq
        · cases hplain
    · have hduplicate := halike.isPlain
      rw [Store.isPlain_duplicate, show StoreError.toFailure _ _ _ = g from rfl,
        show g.isPlain = true from hupdating] at hduplicate
      cases hduplicate

end Merging

/-- An upsert whose query of undotted paths finds nothing has the outcome of an insertion of the
query and an update of what was inserted, if its data merge with the query, and only then. It is
never refused for its data, as the update is if it does not take them. -/
theorem upsert_branches_agree (hc : c.backend = .memory store) (ho : store.HoldsObjects)
    (hf : filter.Equalities) (hdot : filter.isDotted = false)
    (hnone : store.count (.object filter) = .ok 0) (hoff : c.options.allowFullReplace = false)
    (data : Record) :
    let one := (upsert (.object filter) (.object data)).run.run c
    let other := (insertThenUpdate filter data).run.run c
    (store.Merges filter data → SameOutcome store one other) ∧
    (store.keyField.isSimple → SameOutcome store one other → store.Merges filter data) ∧
    (∀ e, one.1 = .error (.domain e) → e.fault.kind ≠ .query) ∧
    (¬ store.refuses filter → ¬ Update.Taken data →
      ∃ e, other.1 = .error (.domain e) ∧ e.fault.kind = .query) := by
  intro one other
  have hq := Store.Answers.of_count hnone
  have hquery : ∀ e, one.1 = .error (.domain e) → e.fault.kind ≠ .query := by
    intro e he
    obtain ⟨-, hpairing⟩ | ⟨r, -, -, hd⟩ := upsert_none_error hc ho hnone he
    · cases hpairing.1
    · simp [Store.kind_of_duplicate hd.symm]
  by_cases hrefuses : store.refuses filter
  · have hiff := refused_agree_iff hc ho hnone data hrefuses
    rw [Store.Merges, if_pos hrefuses]
    exact ⟨hiff.mpr, fun _ => hiff.mp, hquery, fun h => absurd hrefuses h⟩
  · have hother := insertThenUpdate_run hc ho data hf hdot hnone hoff hrefuses
    refine ⟨fun hmerges => ?_, fun hfield hsame => ?_, hquery, fun _ htaken => ?_⟩
    · obtain ⟨r, s, hput, hnew, houtcome, hsame⟩ := Merging.outcome_of_merges hmerges hrefuses
      rw [houtcome] at hother
      exact .inl ⟨_, s, upsert_none_adds hc ho hnone hput hnew, hother, hsame⟩
    · cases houtcome : Update.outcome store.keyField data (.object (store.kept filter).1) with
      | ok new =>
        rw [houtcome] at hother
        obtain ⟨hdone, left, hleft, hrecords⟩ := hother
        obtain ⟨r, s, hone, hadds, hsame⟩ | ⟨f, g, -, hg, -⟩ := hsame
        · obtain ⟨put, hput, hnew⟩ := upsert_none_ok hc ho hnone hone.1
          obtain ⟨-, left', hleft', hrecords'⟩ := upsert_none_adds hc ho hnone hput hnew
          obtain rfl := hadds.eq hleft hrecords
          cases hone.eq hleft' hrecords'
          exact Merging.of_same hq hf hdot hfield hrefuses hput hnew houtcome hsame
        · rw [hdone] at hg
          cases hg
      | error e =>
        rw [houtcome] at hother
        have hfailed : other.1 = .error (e.toFailure (.str "update") c.name) := hother
        obtain ⟨_, s, -, hadds, -⟩ | ⟨f, g, hone, hg, halike⟩ := hsame
        · rw [hadds.1] at hfailed
          cases hfailed
        · rw [hfailed] at hg
          cases hg
          have hfails := (upsert_none_error hc ho hnone hone).imp_right fun h =>
            h.imp fun _ h => h.2.2
          exact absurd halike (Merging.not_alike hfails houtcome)
    · obtain ⟨f, houtcome, hkind, hwritable⟩ := Update.outcome_of_not_taken htaken store.keyField
        (.object (store.kept filter).1)
      rw [houtcome] at hother
      exact ⟨_, hother.trans (congrArg _ (DomainError.failure_of_writable hwritable)), hkind⟩

/-- An age that is set is set on either way. -/
theorem upsert_branches_agree_of_set :
    let c : Collection := { name := .str "animals", backend := .memory {} }
    let filter : Filter := [("kind", .str "dog")]
    let data : Record := [("$set", .object [("age", .int 3)])]
    filter.Equalities ∧ filter.isDotted = false ∧ Store.count {} (.object filter) = .ok 0 ∧
      Store.Merges {} filter data ∧
      SameOutcome {} ((upsert (.object filter) (.object data)).run.run c)
        ((insertThenUpdate filter data).run.run c) := by
  intro c filter data
  have ho : Store.HoldsObjects {} := fun r hr => by cases hr
  have hf : filter.Equalities := by
    refine ⟨?_, List.pairwise_singleton _ _⟩
    simp [filter, Value.isAbsent, Value.isPlain, Value.isWellFormed]
  have hdot : filter.isDotted = false := by cbv
  have hnone : Store.count {} (.object filter) = .ok 0 := rfl
  have hmerges : Store.Merges {} filter data := by
    have hfree : Store.refuses {} filter = false := rfl
    have hnew : Store.refuses {} (Record.putAll filter [("age", .int 3)]) = false := rfl
    have htaken : Update.Taken data := fun _ => by
      simp [data, Record.keys, Name.reading, Update.supported, Update.setName]
    rw [Store.Merges, if_neg (by simp [hfree])]
    refine ⟨htaken, [("age", .int 3)], rfl, ?_, ⟨_, _, rfl, rfl, fun k => rfl⟩, by simp [hnew],
      by simp⟩
    exact List.forall_mem_singleton.mpr (by decide)
  obtain ⟨hsame, -⟩ := upsert_branches_agree (c := c) rfl ho hf hdot hnone rfl data
  exact ⟨hf, hdot, hnone, hmerges, hsame hmerges⟩

/-- An age that is to be added to is left out where a record is inserted. -/
theorem upsert_leaves_out_increment :
    let c : Collection := { name := .str "animals", backend := .memory {} }
    let filter : Filter := [("kind", .str "dog")]
    let data : Record := [("$inc", .object [("age", .int 1)])]
    let dog : Record := [("kind", .str "dog"), ("id", .str "gen-1")]
    let aged : Record := [("kind", .str "dog"), ("id", .str "gen-1"), ("age", .int 1)]
    filter.Equalities ∧ filter.isDotted = false ∧ Store.count {} (.object filter) = .ok 0 ∧
      Adds {} dog ((upsert (.object filter) (.object data)).run.run c) ∧
      Adds {} aged ((insertThenUpdate filter data).run.run c) ∧
      ¬ SameOutcome {} ((upsert (.object filter) (.object data)).run.run c)
        ((insertThenUpdate filter data).run.run c) := by
  intro c filter data dog aged
  have ho : Store.HoldsObjects {} := fun r hr => by cases hr
  have hf : filter.Equalities := by
    refine ⟨?_, List.pairwise_singleton _ _⟩
    simp [filter, Value.isAbsent, Value.isPlain, Value.isWellFormed]
  have hdot : filter.isDotted = false := by cbv
  have hnone : Store.count {} (.object filter) = .ok 0 := rfl
  have hfree : Store.refuses {} filter = false := rfl
  have hput : Record.putHeld filter (Update.assigned data) = .ok filter := rfl
  have hdog : (Store.kept {} filter).1 = dog := rfl
  have hone : Adds {} dog ((upsert (.object filter) (.object data)).run.run c) :=
    hdog ▸ upsert_none_adds (c := c) rfl ho hnone hput (by simp [hfree])
  have hother : Adds {} aged ((insertThenUpdate filter data).run.run c) := by
    have hrun := insertThenUpdate_run (show c.backend = .memory {} from rfl) ho data hf hdot hnone
      rfl (by simp [hfree])
    have houtcome : Update.outcome "id" data (.object dog) = .ok (.object aged) := rfl
    rw [hdog, houtcome] at hrun
    exact hrun
  refine ⟨hf, hdot, hnone, hone, hother, fun hsame => ?_⟩
  obtain ⟨-, left, hleft, hrecords⟩ := hone
  obtain ⟨hdone, left', hleft', hrecords'⟩ := hother
  obtain ⟨r, s, hr, hs, hsame⟩ | ⟨_, g, -, hg, -⟩ := hsame
  · cases hr.eq hleft hrecords
    cases hs.eq hleft' hrecords'
    cases hsame "age"
  · rw [hdone] at hg
    cases hg

end Collection

end RecordStore
