import Mathlib.Data.List.Pairwise
import RecordStore.Proofs.PathWrites
import RecordStore.Proofs.Upserts

/-! What the query of an upsert finds after it. A record that is updated is still found, unless a
write takes away what a path of the query leads to. One that is inserted has the paths for its
names, and is found if none of them goes on behind a point. -/
namespace RecordStore

namespace Filter

/-- A query of equalities: it asks for values that are there and equal to themselves, and none of
its paths goes on from another. -/
structure Equalities (filter : Filter) : Prop where
  values : ∀ m ∈ filter, ¬ m.2.isAbsent ∧ m.2.isPlain ∧ m.2.isWellFormed
  apart : filter.Pairwise fun m n => Path.Apart (.ofText m.1.reading) (.ofText n.1.reading)

def isDotted (filter : Filter) : Bool := filter.any fun m => '.' ∈ m.1.reading.toList

/-- Writes take away from a record what some path of a filter leads to. -/
def isDisplaced (filter : Filter) (paths : List Path) (r : Value) : Bool :=
  filter.any fun m => paths.any fun p => (r.members?.getD []).displaces p (.ofText m.1.reading)

variable {filter : Filter}

theorem meets_self {v : Value} (h : ¬ v.isAbsent ∧ v.isPlain ∧ v.isWellFormed) : meets v v := by
  obtain ⟨hpresent, hplain, hwf⟩ := h
  have heq := Value.eq_refl hwf hplain
  cases v <;> simp_all [meets, Value.isAbsent, Value.isMissing]

theorem not_meets_missing {v : Value} (h : ¬ v.isAbsent) : meets v .missing = false := by
  cases v <;> simp_all [meets, Value.isAbsent, Value.isMissing]

theorem Equalities.nodup (h : filter.Equalities) : (filter.map Prod.fst).Nodup := by
  refine List.pairwise_map.mpr (h.apart.imp fun {m n} hap hname => ?_)
  rw [hname] at hap
  exact hap.1 (List.prefix_refl _)

theorem Equalities.apart_of_ne (h : filter.Equalities) {m n : Name × Value} (hm : m ∈ filter)
    (hn : n ∈ filter) (hne : m ≠ n) : Path.Apart (.ofText m.1.reading) (.ofText n.1.reading) := by
  have hsymm : Std.Symm fun m n : Name × Value =>
      Path.Apart (.ofText m.1.reading) (.ofText n.1.reading) := ⟨fun _ _ h => h.symm⟩
  exact h.apart.forall hm hn hne

theorem holds_of_gone {r : Value} (gone : Name × Value → Bool)
    (h : ∀ m ∈ filter, ¬ m.2.isAbsent ∧ ∃ v, meets m.2 v ∧
      r.get (.ofText m.1.reading) = .ok (if gone m then .missing else v)) :
    holds r filter = .ok (!filter.any gone) := by
  induction filter with
  | nil => rfl
  | cons m filter ih =>
    obtain ⟨⟨hpresent, v, hv, hget⟩, hrest⟩ := List.forall_mem_cons.mp h
    obtain ⟨path, expected⟩ := m
    rw [holds, hget, ok_bind, List.any_cons]
    cases hgone : gone (path, expected) with
    | true => simp [not_meets_missing hpresent, pure, Except.pure]
    | false => simpa [hv] using ih hrest

end Filter

namespace Update
variable {fullReplace : Bool}

/-- An expression that a store takes, with an object for what it sets. -/
def IsValid (fullReplace : Bool) (data : Value) : Prop :=
  ∃ ms : Record, data = .object ms ∧ (operand ms setName).isObject ∧
    ∃ change, read fullReplace data = .ok change

/-- The paths at which an expression changes something; a replacement changes all of a record. -/
def touched (fullReplace : Bool) (data : Value) : List Path :=
  match data with
  | .object ms =>
    if fullReplace && !(Record.keys ms).any isOperator then [[]] else written data ++ removed data
  | _ => []

theorem applied_touched {keyField : Name} {given new : Value} {r : Record} {q : Path}
    (h : Applied keyField fullReplace given (.object r) new)
    (hq : ∀ p ∈ touched fullReplace given, Path.Apart p q) :
    ∃ s : Record, new = .object s ∧ Record.Written (written given) q r s := by
  obtain ⟨ms, rfl, h⟩ := h
  rw [touched] at hq
  by_cases hop : (Record.keys ms).any isOperator
  · simp only [hop, Bool.not_true, Bool.and_false, Bool.false_eq_true, if_false] at hq
    rw [if_pos hop] at h
    have happlied : Applied keyField false (.object ms) (.object r) new :=
      ⟨ms, rfl, by rwa [if_pos hop]⟩
    exact applied_written happlied hq
  · cases fullReplace with
    | true =>
      simp only [hop, Bool.not_false, Bool.and_true, if_true] at hq
      exact absurd (hq [] (by simp)) (Path.not_apart_nil q)
    | false =>
      simp only [Bool.false_and, Bool.false_eq_true, if_false] at hq
      have happlied : Applied keyField false (.object ms) (.object r) new := ⟨ms, rfl, h⟩
      exact applied_written happlied hq

theorem IsValid.assigned {data : Value} (h : IsValid fullReplace data) :
    ∃ ms sets : Record, data = .object ms ∧ assigned ms = .object sets := by
  obtain ⟨ms, rfl, hset, -⟩ := h
  by_cases hop : (Record.keys ms).any isOperator
  · obtain ⟨sets, hsets⟩ := Value.isObject_iff.mp hset
    exact ⟨ms, sets, rfl, by rw [Update.assigned, if_pos hop, hsets]⟩
  · exact ⟨ms, ms, rfl, if_neg hop⟩

theorem apart_of_assigned {ms sets : Record} {q : Path} (h : assigned ms = .object sets)
    (hq : ∀ p ∈ touched fullReplace (.object ms), Path.Apart p q) :
    ∀ n ∈ sets, Path.Apart (.ofText n.1.reading) q := by
  intro n hn
  have hname : n.1.reading ∈ Record.keys sets := List.mem_map_of_mem hn
  rw [touched] at hq
  rw [Update.assigned] at h
  split at hq
  · exact absurd (hq [] (by simp)) (Path.not_apart_nil q)
  · refine hq _ (List.mem_append_left _ ?_)
    rw [written]
    split at h
    · rename_i hop
      rw [if_pos hop, h]
      exact List.mem_map_of_mem (List.mem_append_left _ hname)
    · rename_i hop
      cases h
      rw [if_neg hop]
      exact List.mem_map_of_mem hname

end Update

/-! ### One record -/

namespace Filter
variable {filter : Filter} {fullReplace : Bool} {data old new : Value}

theorem Equalities.holds_updated {keyField : Name} (hf : filter.Equalities) (ho : old.isObject)
    (hmet : filter.Satisfied old)
    (hapart : ∀ m ∈ filter, ∀ p ∈ Update.touched fullReplace data,
      Path.Apart p (.ofText m.1.reading))
    (hmade : Update.Applied keyField fullReplace data old new) :
    holds new filter = .ok (!filter.isDisplaced (Update.written data) old) := by
  obtain ⟨r, rfl⟩ := Value.isObject_iff.mp ho
  refine holds_of_gone _ fun m hm => ⟨(hf.values m hm).1, ?_⟩
  obtain ⟨v, hget, hmeets⟩ := hmet m hm
  obtain ⟨s, rfl, hwritten⟩ := Update.applied_touched hmade (hapart m hm)
  refine ⟨v, hmeets, ?_⟩
  rw [hwritten.get, hget]
  exact (apply_ite Except.ok _ _ _).symm

theorem get_dotted {store : Store} {r : Record} {name next : String} {rest : Path}
    (h : r.get? name = none) :
    Value.get (.object (store.kept r).1) (name :: next :: rest) = .ok .missing := by
  by_cases hkey : store.keyOf r ≠ .null ∨ store.keyField ≠ name
  · exact Record.get_of_none ((Store.get?_kept hkey).trans h)
  · simp only [not_or, ne_eq, not_not] at hkey
    obtain ⟨hnull, hname⟩ := hkey
    have hfresh : (store.kept r).1.get? name = some store.freshKey := by
      rw [Store.kept_of_null hnull, ← hname]
      exact Record.get?_put_self _ _
    simp [Value.get, Value.unwrap, Value.follow, Value.child, hfresh, Store.freshKey, ok_bind,
      pure, Except.pure]

theorem Equalities.holds_inserted {sets : Record} (hf : filter.Equalities)
    (hpaths : ∀ m ∈ filter, ∃ path, m.1 = .text path)
    (hapart : ∀ m ∈ filter, ∀ n ∈ sets, Path.Apart (.ofText n.1.reading) (.ofText m.1.reading))
    (store : Store) :
    holds (.object (store.kept (filter.putAll sets)).1) filter = .ok (!filter.isDotted) := by
  refine holds_of_gone _ fun m hm => ⟨(hf.values m hm).1, m.2, meets_self (hf.values m hm), ?_⟩
  obtain ⟨name, expected⟩ := m
  obtain ⟨path, rfl⟩ := hpaths _ hm
  have hapart := hapart _ hm
  change Value.get _ (Path.ofText path) = _
  by_cases hdot : '.' ∈ path.toList
  · obtain ⟨first, next, rest, hpath⟩ := Path.ofText_of_dotted hdot
    have hfirst : Path.ofText first = [first] :=
      Path.ofText_of_undotted (Path.undotted_of_mem (hpath ▸ List.mem_cons_self))
    have hprefix : Path.ofText first <+: Path.ofText path := by
      rw [hfirst, hpath]
      exact List.prefix_append [first] (next :: rest)
    have hnone : (filter.putAll sets).get? first = none := by
      refine Record.get?_eq_none fun n hn hname => ?_
      rcases Record.name_of_mem_putAll hn with hn | hn
      · have hne : n ≠ (.text path, expected) := by
          rintro rfl
          cases hname
          exact Path.undotted_of_mem (hpath ▸ List.mem_cons_self) hdot
        have hap := hf.apart_of_ne hn hm hne
        rw [hname] at hap
        exact hap.1 hprefix
      · obtain ⟨n', hn', hsame⟩ := List.mem_map.mp hn
        have hname : n'.1 = .text first := hsame.trans hname
        have hap := hapart n' hn'
        rw [hname] at hap
        exact hap.1 hprefix
    rw [hpath, get_dotted hnone]
    simp [Name.reading, hdot]
  · have hpath : Path.ofText path = [path] := Path.ofText_of_undotted hdot
    have hasked : (filter.putAll sets).get? path = some expected := by
      rw [Record.get?_putAll_of_not_mem]
      · exact Record.get?_of_mem hf.nodup hm
      · intro hmem
        obtain ⟨n, hn, hname⟩ := List.mem_map.mp hmem
        have hap := hapart n hn
        rw [hname] at hap
        exact hap.1 (List.prefix_refl _)
    have hkey : store.keyOf (filter.putAll sets) ≠ .null ∨ store.keyField ≠ path := by
      refine or_iff_not_imp_right.mpr fun hname hnull => (hf.values _ hm).1 ?_
      rw [Store.keyOf, not_ne_iff.mp hname, hasked] at hnull
      rw [Option.getD_some] at hnull
      rw [hnull]
      rfl
    rw [hpath, Record.get_singleton, Store.get?_kept hkey, hasked]
    simp [Name.reading, hdot]

end Filter

/-! ### A whole store -/

namespace Store.Answers
variable {store : Store} {filter : Filter} {fullReplace : Bool} {data : Value}
  {records : List Value}

/-- The records after an update: a filter holds of those of which it held, if they are not
displaced. -/
theorem holds_updated (hq : store.Answers (.object filter) filter) (ho : store.HoldsObjects)
    (hf : filter.Equalities)
    (hapart : ∀ m ∈ filter, ∀ p ∈ Update.touched fullReplace data,
      Path.Apart p (.ofText m.1.reading))
    (hmade : List.Forall₂ (fun old new => if Query.selects (.object filter) old then
        Update.Applied store.keyField fullReplace data old new else new = old)
      store.records records) :
    List.Forall₂ (fun old new => Filter.holds new filter =
        .ok (Query.selects (.object filter) old &&
          !filter.isDisplaced (Update.written data) old))
      store.records records := by
  have hmem := (List.forall₂_and_left _ _).mpr ⟨fun r hr => hr, hmade⟩
  refine hmem.imp fun old new h => ?_
  obtain ⟨hold, hnew⟩ := h
  by_cases hs : Query.selects (.object filter) old
  · rw [if_pos hs] at hnew
    rw [hf.holds_updated (ho old hold) ((hq.selects_iff hold).mp hs) hapart hnew, hs,
      Bool.true_and]
  · rw [if_neg hs] at hnew
    obtain ⟨b, hb⟩ := hq.read old hold
    have hb' := Query.selects_of_holds hb
    simp only [hnew, hb, hb', Bool.not_eq_true] at hs ⊢
    rw [hs, Bool.false_and]

theorem of_holds {asks : Value → Bool} (hq : store.Answers (.object filter) filter)
    (h : List.Forall₂ (fun old new => Filter.holds new filter = .ok (asks old))
      store.records records) :
    Answers { store with records } (.object filter) filter := by
  refine ⟨rfl, hq.paths, fun r hr => ?_⟩
  obtain ⟨old, -, hold⟩ := exists_of_forall₂ h.flip hr
  exact ⟨_, hold⟩

theorem countP_of_holds {asks : Value → Bool} {rs : List Value}
    (h : List.Forall₂ (fun old new => Filter.holds new filter = .ok (asks old)) rs records) :
    records.countP (Query.selects (.object filter)) = rs.countP asks := by
  induction h with
  | nil => rfl
  | cons hnew _ ih => rw [List.countP_cons, List.countP_cons, ih, Query.selects_of_holds hnew]

end Store.Answers

/-! ### A whole collection -/

namespace Collection
variable {c after : Collection} {store : Store} {filter : Filter} {data : Value}

theorem size_run (hc : c.backend = .memory store) :
    size.run.run c = (.ok store.records.length, c) := by
  unfold size
  rw [run_get, hc]
  rfl

theorem upsert_eq_ok {query : Query} (hc : c.backend = .memory store) (ho : store.HoldsObjects)
    (h : (upsert query data).run.run c = (.ok (), after)) : ∃ n, store.count query = .ok n ∧
      if 0 < n then ∃ m, (update query data .null).run.run c = (.ok m, after)
      else ∃ r, upsertRecord query data = .ok r ∧ after = { c with
        backend := .memory { (store.kept r).2 with
          records := store.records ++ [.object (store.kept r).1] } } := by
  rw [upsert_run hc] at h
  cases hn : store.count query with
  | error e =>
    rw [hn] at h
    cases h
  | ok n =>
    rw [hn] at h
    dsimp only at h
    refine ⟨n, rfl, ?_⟩
    by_cases hpos : 0 < n
    · rw [if_pos hpos] at h ⊢
      cases hu : (update query data .null).run.run c with
      | mk result later =>
        rw [hu] at h
        cases result with
        | error f => cases h
        | ok m =>
          cases h
          exact ⟨m, rfl⟩
    · rw [if_neg hpos] at h ⊢
      cases hr : upsertRecord query data with
      | error f =>
        rw [hr] at h
        cases h
      | ok r =>
        rw [hr] at h
        dsimp only at h
        rw [insert_run hc, Store.insert_eq ho] at h
        refine ⟨r, rfl, ?_⟩
        split at h
        · cases h
        · rename_i left hleft
          split at hleft
          · cases hleft
          · cases hleft
            cases h
            rfl

/-- An upsert that is made adds a record if its query finds none; the number of records changes in
no other way. -/
theorem upsert_size {query : Query} {n : Nat} {result : Except Failure Unit}
    (hc : c.backend = .memory store) (ho : store.HoldsObjects) (hn : store.count query = .ok n)
    (h : (upsert query data).run.run c = (result, after)) :
    ∃ left, after.backend = .memory left ∧ left.HoldsObjects ∧
      left.records.length = store.records.length + if n = 0 ∧ result.isOk then 1 else 0 := by
  rw [upsert_run hc, hn] at h
  dsimp only at h
  by_cases hpos : 0 < n
  · have hne : n ≠ 0 := by omega
    cases hu : store.update (c.fullReplace .null) query data with
    | mk outcome left =>
      have hobjects := store.update_holdsObjects ho (c.fullReplace .null) query data
      have hspec := store.update_spec ho (c.fullReplace .null) query data
      rw [hu] at hobjects hspec
      rw [if_pos hpos, update_run hc hu] at h
      cases h
      refine ⟨left, rfl, hobjects, ?_⟩
      simp only [hne, false_and, if_false, Nat.add_zero]
      cases outcome with
      | error e => rw [hspec]
      | ok m =>
        obtain ⟨-, records, rfl, hmade⟩ := hspec
        exact hmade.length_eq.symm
  · have hzero : n = 0 := by omega
    rw [if_neg hpos] at h
    cases hr : upsertRecord query data with
    | error f =>
      rw [hr] at h
      cases h
      exact ⟨store, hc, ho, by simp [Except.isOk, Except.toBool]⟩
    | ok r =>
      rw [hr] at h
      dsimp only at h
      rw [insert_run hc, Store.insert_eq ho] at h
      by_cases hrefuses : store.refuses r
      · simp only [hrefuses, if_true] at h
        cases h
        exact ⟨store, hc, ho, by simp [Except.isOk, Except.toBool]⟩
      · simp only [hrefuses, Bool.false_eq_true, if_false] at h
        cases h
        refine ⟨_, rfl, ho.append (store.kept r).1, ?_⟩
        simp [hzero, Except.isOk, Except.toBool]

section
variable (hc : c.backend = .memory store) (ho : store.HoldsObjects) (hf : filter.Equalities)
  (hapart : ∀ m ∈ filter, ∀ p ∈ Update.touched c.options.allowFullReplace data,
    Path.Apart p (.ofText m.1.reading))
  (hq : store.Answers (.object filter) filter)
include hc ho hf hapart hq

theorem found_of_update {n : Value}
    (h : (update (.object filter) data .null).run.run c = (.ok n, after)) :
    ∃ left, after.backend = .memory left ∧ left.Answers (.object filter) filter ∧
      left.records.countP (Query.selects (.object filter)) =
        (store.records.filter (Query.selects (.object filter))).countP fun r =>
          !filter.isDisplaced (Update.written data) r := by
  have hspec := update_applied hc ho (.object filter) data .null
  rw [h] at hspec
  obtain ⟨-, records, rfl, hmade⟩ := hspec
  have hholds := hq.holds_updated ho hf hapart hmade
  refine ⟨_, rfl, hq.of_holds hholds, ?_⟩
  rw [Store.Answers.countP_of_holds hholds, List.countP_filter]
  exact List.countP_congr fun r _ => by rw [Bool.and_comm]

omit hc ho in
theorem found_of_insert (hd : Update.IsValid c.options.allowFullReplace data)
    (hnone : store.records.filter (Query.selects (.object filter)) = []) {r : Record}
    (hr : upsertRecord (.object filter) data = .ok r) (left : Store)
    (hleft : left.records = store.records ++ [.object (store.kept r).1]) :
    left.Answers (.object filter) filter ∧ left.records.countP (Query.selects (.object filter)) =
      if filter.isDotted then 0 else 1 := by
  obtain ⟨ms, sets, rfl, hsets⟩ := hd.assigned
  have hpaths : ∀ m ∈ filter, ∃ path, m.1 = .text path := fun m hm =>
    (hq.paths m hm).imp fun _ h => h.1
  rw [upsertRecord_of_answers hq, hsets] at hr
  cases hr
  have hnew := hf.holds_inserted hpaths
    (fun m hm => Update.apart_of_assigned hsets (hapart m hm)) store
  refine ⟨⟨rfl, hq.paths, fun v hv => ?_⟩, ?_⟩
  · rw [hleft, List.mem_append, List.mem_singleton] at hv
    obtain hv | rfl := hv
    · exact hq.read v hv
    · exact ⟨_, hnew⟩
  · rw [hleft, List.countP_append, List.countP_eq_length_filter, hnone, List.countP_singleton,
      Query.selects_of_holds hnew]
    cases filter.isDotted <;> rfl

end

/-- After an upsert with a query of equalities, of which the data touch no path, the query finds the
records that it found before and that are not displaced; or, if it found none, the one that is
inserted, unless one of its paths has a point. As long as it finds something the same upsert adds
nothing, and otherwise it adds a record each time that it is made. -/
theorem upsert_leaves_match (hc : c.backend = .memory store) (ho : store.HoldsObjects)
    (hf : filter.Equalities) (hd : Update.IsValid c.options.allowFullReplace data)
    (hapart : ∀ m ∈ filter, ∀ p ∈ Update.touched c.options.allowFullReplace data,
      Path.Apart p (.ofText m.1.reading))
    (hrun : (upsert (.object filter) data).run.run c = (.ok (), after)) :
    let matched := store.records.filter (Query.selects (.object filter))
    let found := if matched.isEmpty then if filter.isDotted then 0 else 1
      else matched.countP fun r => !filter.isDisplaced (Update.written data) r
    (count (.object filter)).run.run after = (.ok (.int found), after) ∧
    ∃ n, size.run.run after = (.ok n, after) ∧
      ∀ result later, (upsert (.object filter) data).run.run after = (result, later) →
        size.run.run later = (.ok (if found = 0 ∧ result.isOk then n + 1 else n), later) := by
  intro matched found
  obtain ⟨n, hn, hbranch⟩ := upsert_eq_ok hc ho hrun
  have hq := Store.Answers.of_count hn
  have hlength : n = matched.length := by
    rw [hq.count, Except.ok.injEq] at hn
    exact hn.symm
  have hfound : ∃ left, after.backend = .memory left ∧
      left.Answers (.object filter) filter ∧
      left.records.countP (Query.selects (.object filter)) = found := by
    by_cases hpos : 0 < n
    · have hsome : matched.isEmpty = false := by
        rw [List.isEmpty_eq_false_iff_exists_mem]
        exact List.exists_mem_of_length_pos (hlength ▸ hpos)
      rw [if_pos hpos] at hbranch
      obtain ⟨m, hupdate⟩ := hbranch
      simp only [found, hsome, Bool.false_eq_true, if_false]
      exact found_of_update hc ho hf hapart hq hupdate
    · have hnone : matched = [] := List.eq_nil_of_length_eq_zero (by omega)
      rw [if_neg hpos] at hbranch
      obtain ⟨r, hr, rfl⟩ := hbranch
      simp only [found, hnone, List.isEmpty_nil, if_true]
      exact ⟨_, rfl, found_of_insert hf hapart hq hd hnone hr _ rfl⟩
  obtain ⟨left, hleft, hql, hcount⟩ := hfound
  obtain ⟨left', hleft', hol, -⟩ := upsert_size hc ho hn hrun
  cases hleft.symm.trans hleft'
  rw [List.countP_eq_length_filter] at hcount
  have hcountl := count_run hleft hql
  rw [hcount] at hcountl
  refine ⟨hcountl, _, size_run hleft, fun result later hlater => ?_⟩
  have hstore := hql.count
  rw [hcount] at hstore
  obtain ⟨last, hlast, -, hsize⟩ := upsert_size hleft hol hstore hlater
  rw [size_run hlast, hsize]
  split <;> rfl

/-- A dog that is not there yet gets an age, and is found by its kind. -/
theorem upsert_leaves_match_of_dog :
    let c : Collection := { name := .str "animals", backend := .memory {} }
    let filter : Filter := [("kind", .str "dog")]
    let data : Value := .object [("$set", .object [("age", .int 3)])]
    let added : Record := [("kind", .str "dog"), ("age", .int 3), ("id", .str "gen-1")]
    let after : Collection :=
      { c with backend := .memory { records := [.object added], generated := 1 } }
    filter.Equalities ∧ Update.IsValid false data ∧
      (∀ m ∈ filter, ∀ p ∈ Update.touched false data, Path.Apart p (.ofText m.1.reading)) ∧
      (upsert (.object filter) data).run.run c = (.ok (), after) ∧
      (count (.object filter)).run.run after = (.ok (.int 1), after) := by
  intro c filter data added after
  have ho : Store.HoldsObjects {} := fun r hr => by cases hr
  have hf : filter.Equalities := by
    refine ⟨?_, List.pairwise_singleton _ _⟩
    simp [filter, Value.isAbsent, Value.isPlain, Value.isWellFormed]
  have hd : Update.IsValid false data := ⟨_, rfl, rfl, _, rfl⟩
  have hapart : ∀ m ∈ filter, ∀ p ∈ Update.touched false data,
      Path.Apart p (.ofText m.1.reading) := by
    have htouched : Update.touched false data = [["age"]] := by cbv
    have hpath : Path.ofText "kind" = ["kind"] := by cbv
    simp [filter, htouched, Name.reading, hpath, Path.Apart]
  have hnone : Store.count {} (.object filter) = .ok 0 := rfl
  have hrun : (upsert (.object filter) data).run.run c = (.ok (), after) := by
    rw [upsert_run rfl, hnone]
    rfl
  obtain ⟨hcount, -⟩ := upsert_leaves_match rfl ho hf hd hapart hrun
  exact ⟨hf, hd, hapart, hrun, hcount⟩

/-- A record that is asked for below a point gets the path for a name. It is not found, and the same
upsert adds another. -/
theorem dotted_upsert_leaves_none :
    let c : Collection := { name := .str "animals", backend := .memory {} }
    let filter : Filter := [("kind.name", .str "dog")]
    let data : Value := .object [("$set", .object [("age", .int 3)])]
    let dog (key : String) : Value :=
      .object [("kind.name", .str "dog"), ("age", .int 3), ("id", .str key)]
    let one : Store := { records := [dog "gen-1"], generated := 1 }
    let two : Store := { records := [dog "gen-1", dog "gen-2"], generated := 2 }
    let after : Collection := { c with backend := .memory one }
    filter.Equalities ∧ Update.IsValid false data ∧
      (∀ m ∈ filter, ∀ p ∈ Update.touched false data, Path.Apart p (.ofText m.1.reading)) ∧
      (upsert (.object filter) data).run.run c = (.ok (), after) ∧
      (count (.object filter)).run.run after = (.ok (.int 0), after) ∧
      (upsert (.object filter) data).run.run after =
        (.ok (), { c with backend := .memory two }) := by
  intro c filter data dog one two after
  have htouched : Update.touched false data = [["age"]] := by cbv
  have hpath : Path.ofText "kind.name" = ["kind", "name"] := by cbv
  have hbefore : Store.count {} (.object filter) = .ok 0 := rfl
  have hafter : one.count (.object filter) = .ok 0 := rfl
  refine ⟨⟨?_, List.pairwise_singleton _ _⟩, ⟨_, rfl, rfl, _, rfl⟩, ?_, ?_, ?_, ?_⟩
  · simp [filter, Value.isAbsent, Value.isPlain, Value.isWellFormed]
  · simp [filter, htouched, Name.reading, hpath, Path.Apart]
  · rw [upsert_run rfl, hbefore]
    rfl
  · rw [count_of_memory rfl, hafter]
    rfl
  · rw [upsert_run rfl, hafter]
    change (insert (.object [("kind.name", .str "dog"), ("age", .int 3)])).run.run after = _
    have hinsert : one.insert [("kind.name", .str "dog"), ("age", .int 3)] = .ok two := by cbv
    rw [insert_run rfl, hinsert]

end Collection

end RecordStore
