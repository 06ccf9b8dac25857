import RecordStore.Collection.Aggregate
import RecordStore.Proofs.Actions
import RecordStore.Proofs.Release
import RecordStore.Proofs.UpdateAtomicity
import RecordStore.Proofs.ValueEquality

/-! All operations of a collection in memory agree on the records that a query asks for: those in
which every path leads to what the query has for it. -/
namespace RecordStore

namespace Filter

def Satisfied (filter : Filter) (r : Value) : Prop :=
  ∀ m ∈ filter, ∃ v, r.get (Path.ofText m.1.reading) = .ok v ∧ meets m.2 v

theorem holds_eq_true {filter : Filter} {r : Value} :
    holds r filter = .ok true ↔ filter.Satisfied r := by
  induction filter with
  | nil => simp [holds, Satisfied]
  | cons m filter ih =>
    obtain ⟨path, expected⟩ := m
    have hcons : Satisfied ((path, expected) :: filter) r ↔
        (∃ v, r.get (Path.ofText path.reading) = .ok v ∧ meets expected v) ∧
          Satisfied filter r := List.forall_mem_cons
    rw [hcons, ← ih, holds]
    cases hv : r.get (Path.ofText path.reading) with
    | error f => simp [bind, Except.bind]
    | ok v =>
      by_cases hm : meets expected v <;> simp [ok_bind, hm, pure, Except.pure]

end Filter

namespace Store

/-- A query that the records of a store can be asked: its names are paths, and reading them does
not fail. -/
structure Answers (store : Store) (query : Query) (filter : Filter) : Prop where
  asked : query.filter? = some filter
  paths : ∀ m ∈ filter, ∃ path, m.1 = .text path ∧ isOperator path = false
  read : ∀ r ∈ store.records, ∃ b, Filter.holds r filter = .ok b

theorem unmarked_eq (asks : Value → Bool) (rs : List Value) :
    (rs.map fun r => (r, asks r)).filterMap (fun (r, holds) => if holds then none else some r) =
      rs.filter fun r => !asks r := by
  rw [List.filterMap_map, ← List.filterMap_eq_filter]
  refine List.filterMap_congr fun r _ => ?_
  cases hr : asks r <;> simp [Option.guard, hr]

namespace Answers
variable {store : Store} {query : Query} {filter : Filter}

theorem selects_iff (h : store.Answers query filter) {r : Value} (hr : r ∈ store.records) :
    query.selects r ↔ filter.Satisfied r := by
  obtain ⟨b, hb⟩ := h.read r hr
  have hselects : query.selects r = b := by simp [Query.selects, h.asked, hb]
  rw [hselects, ← Filter.holds_eq_true, hb, Except.ok.injEq]

theorem refuseOperators (h : store.Answers query filter) : refuseOperators filter = .ok () := by
  rw [Store.refuseOperators, forM_eq_ok]
  intro m hm
  obtain ⟨path, hpath, hop⟩ := h.paths m hm
  simp [hpath, hop]

theorem filterOf (h : store.Answers query filter) : store.filterOf query = .ok filter := by
  rw [Store.filterOf, h.asked]

theorem marked (h : store.Answers query filter) :
    store.marked filter = .ok (store.records.map fun r => (r, query.selects r)) := by
  rw [Store.marked, h.refuseOperators, ok_bind, mapM_eq_ok, List.forall₂_map_right_iff,
    List.forall₂_same]
  intro r hr
  obtain ⟨b, hb⟩ := h.read r hr
  simp [hb, Query.selects, h.asked]

theorem select (h : store.Answers query filter) :
    store.select filter = .ok (store.records.filter query.selects) := by
  rw [Store.select, h.marked, ok_bind, pure_eq_ok, List.filterMap_map, ← List.filterMap_eq_filter]
  refine List.filterMap_congr fun r _ => ?_
  simp [Option.guard]

theorem count (h : store.Answers query filter) :
    store.count query = .ok (store.records.filter query.selects).length := by
  rw [Store.count, h.filterOf, ok_bind, h.select, ok_bind]
  rfl

theorem remove (h : store.Answers query filter) :
    store.remove query = .ok ((store.records.filter query.selects).length,
      { store with records := store.records.filter fun r => !query.selects r }) := by
  have hnumber : ((store.records.map fun r => (r, query.selects r)).filter (·.2)).length =
      (store.records.filter query.selects).length := by
    rw [List.filter_map, List.length_map]
    rfl
  rw [Store.remove, h.filterOf, ok_bind, h.marked, ok_bind, pure_eq_ok, hnumber, unmarked_eq]

end Answers

end Store

/-! ### Streams of what is in memory -/

namespace Feed

def Holds (c : Collection) (total : Nat) (s : Stream (Feed × Collection)) : Prop :=
  s.inner.2 = c ∧ ∃ rest, s.inner.1 = .items rest total

section
variable {c : Collection} {total : Nat}

theorem Holds.next {s : Stream (Feed × Collection)} (h : Holds c total s) :
    Holds c total (s.next source).2 := by
  obtain ⟨name, ⟨feed, c'⟩, closed, exhausted, releases⟩ := s
  obtain ⟨hc, rest, hfeed⟩ := h
  cases hc
  cases hfeed
  cases closed with
  | true => exact ⟨rfl, rest, rfl⟩
  | false =>
    cases rest with
    | nil => exact ⟨rfl, [], rfl⟩
    | cons v vs => exact ⟨rfl, vs, rfl⟩

theorem Holds.close {s : Stream (Feed × Collection)} (h : Holds c total s) :
    Holds c total (s.close source) := by
  obtain ⟨name, ⟨feed, c'⟩, closed, exhausted, releases⟩ := s
  obtain ⟨hc, rest, hfeed⟩ := h
  cases hc
  cases hfeed
  cases closed <;> exact ⟨rfl, rest, rfl⟩

theorem delivers_items (c : Collection) (total : Nat) (name : Value) (documents : List Value) :
    (Stream.source source).Delivers ⟨name, (.items documents total, c), false, false, 0⟩
      documents none ⟨name, (.items [] total, c), true, true, 1⟩ := by
  induction documents with
  | nil => exact .finished rfl
  | cons v vs ih => exact .record rfl ih

end

end Feed

namespace Aggregate

theorem get_document (r : Record) (path : Path) :
    Value.get (.document (.object r)) path = Value.get (.object r) path := rfl

theorem Accumulators.ingest_document (r : Record) (as : Accumulators) :
    as.ingest (.document (.object r)) = as.ingest (.object r) := by
  induction as with
  | nil => rfl
  | cons a rest ih => simp only [ingest, get_document, ih]

theorem Run.keyOf_document [Present] (r : Record) (index : Int) (clauses : List Clause) :
    keyOf (.document (.object r)) index clauses = keyOf (.object r) index clauses := by
  induction clauses generalizing index with
  | nil => rfl
  | cons c rest ih => simp only [keyOf, get_document, ih]

theorem Run.addTo_document (r : Record) (fresh : Accumulators) (key : List Value)
    (groups : List Group) :
    addTo fresh key (.document (.object r)) groups = addTo fresh key (.object r) groups := by
  induction groups with
  | nil => simp only [addTo, Group.add, Accumulators.ingest_document]
  | cons g rest ih => simp only [addTo, Group.add, Accumulators.ingest_document, ih]

/-- A document counts for its data. -/
theorem Run.feed_document [Present] (r : Record) (run : Run) :
    run.feed (.document (.object r)) = run.feed (.object r) := by
  simp only [feed, Accumulators.ingest_document, Run.keyOf_document, Run.addTo_document]

theorem Run.feedAll_documents [Present] {records : List Value} (ho : ∀ r ∈ records, r.isObject)
    (run : Run) : run.feedAll (records.map .document) = run.feedAll records := by
  rw [feedAll, feedAll, List.foldlM_map]
  induction records generalizing run with
  | nil => rfl
  | cons r records ih =>
    obtain ⟨hr, hrest⟩ := List.forall_mem_cons.mp ho
    obtain ⟨ms, rfl⟩ := Value.isObject_iff.mp hr
    rw [List.foldlM_cons, List.foldlM_cons, feed_document]
    exact bind_congr fun next => ih hrest next

theorem ofSource_documents [Present] {σ : Type} {src : Source σ} {s t : σ} {records : List Value}
    (start : Except Failure Run) (ho : ∀ r ∈ records, r.isObject)
    (h : src.Delivers s (records.map .document) none t) :
    (ofSource src start s).1 = ofRecords start records := by
  cases start with
  | error f => rfl
  | ok run =>
    rw [ofRecords, ofSource_of_delivers run h,
      ofSource_of_delivers run (Source.delivers_ofList records), Run.feedAll_documents ho]

/-- Records that are all there never make a partial result. -/
theorem ofRecords_partialOf [Present] (start : Except Failure Run) (records : List Value) :
    (ofRecords start records).partialOf = none := by
  cases start with
  | error f => rfl
  | ok run =>
    rw [ofRecords, ofSource_of_delivers run (Source.delivers_ofList records)]
    cases run.feedAll records <;> rfl

end Aggregate

theorem Paging.skip_int (n : Nat) : Paging.skip (.int n) = .ok (.int n) := by
  rw [Paging.skip, Paging.atLeast, Value.lt_int, decide_eq_false (by omega)]

namespace Collection
variable {c : Collection}

def shown (data : Value) : Value := .document (if data matches .null then .object [] else data)

theorem document_run (hh : c.hooks = []) (data : Value) :
    (document data).run.run c = (.ok (shown data), c) := by
  obtain ⟨name, options, hooks, backend, trace⟩ := c
  cases hh
  rfl

theorem documents_run (hh : c.hooks = []) (records : List Value) :
    (records.mapM fun r => do document (← ofExcept (Store.project .null r)) :
      Action (List Value)).run.run c = (.ok (records.map shown), c) := by
  induction records with
  | nil => rfl
  | cons r records ih =>
    have hfirst : (do document (← ofExcept (Store.project .null r)) :
        Action Value).run.run c = (.ok (shown r), c) := document_run hh r
    rw [List.mapM_cons, run_bind_ok hfirst, run_bind_ok ih]
    rfl

theorem map_shown {records : List Value} (ho : ∀ r ∈ records, r.isObject) :
    records.map shown = records.map .document := by
  refine List.map_congr_left fun r hr => ?_
  obtain ⟨ms, rfl⟩ := Value.isObject_iff.mp (ho r hr)
  rfl

theorem page_all (records : List Value) :
    Paging.page (.int 0) .null records = .ok records := by
  have hlast : records.length - 0 = records.length := by omega
  change Except.ok ((records.drop 0).take (records.length - 0)) = _
  rw [List.drop_zero, hlast, List.take_length]

def streamed (c : Collection) (found : List Value) : Stream Feed :=
  { name := c.name, inner := .items (found.map .document) found.length }

theorem toList_items (documents : List Value) (total : Nat) (c : Collection) :
    (toList { name := c.name, inner := .items documents total } :
      Action (Except Failure (List Value) × Stream Feed)).run.run c =
      (.ok (.ok documents, ⟨c.name, .items [] total, true, true, 1⟩), c) := by
  have hlist := Source.toList_of_delivers (Feed.delivers_items c total c.name documents)
  have hrun : (toList { name := c.name, inner := .items documents total }).run c =
      ((.ok documents, ⟨c.name, .items [] total, true, true, 1⟩), c) := by
    change withStream _ (Source.toList (Stream.source Feed.source)) c = _
    simp only [withStream, Stream.map, hlist]
    rfl
  change (Except.ok ((toList { name := c.name, inner := .items documents total }).run c).1,
    ((toList { name := c.name, inner := .items documents total }).run c).2) = _
  rw [hrun]

theorem readStream_run [Present] (found : List Value) (start : Except Failure Aggregate.Run)
    (c : Collection) : (readStream start (c.streamed found)).run.run c =
      (.ok (Aggregate.ofSource (Stream.source Feed.source) start ((c.streamed found).map (·, c))).1,
        c) := by
  have hholds : Feed.Holds c found.length ((c.streamed found).map (·, c)) := ⟨rfl, _, rfl⟩
  have hlast : (Aggregate.ofSource (Stream.source Feed.source) start
      ((c.streamed found).map (·, c))).2.inner.2 = c := by
    cases start with
    | error f => exact hholds.close.1
    | ok run =>
      have hread := (Stream.source Feed.source).fold_keeps Aggregate.Run.step
        (fun _ => Feed.Holds.next) run hholds
      exact hread.close.1
  have hrun : (readStream start (c.streamed found)).run.run c =
      (.ok (Aggregate.runAwaiting start (Stream.handle Feed.source)
          ((c.streamed found).map (·, c))).1,
        (Aggregate.runAwaiting start (Stream.handle Feed.source)
          ((c.streamed found).map (·, c))).2.inner.2) := rfl
  rw [hrun, Aggregate.runAwaiting_stream, hlast]

section
variable {store : Store} {query : Query} {filter : Filter}

theorem count_of_memory (hc : c.backend = .memory store) (query : Query) :
    (count query).run.run c = (((store.count query).map fun n => .int n).mapError fun e =>
      e.toFailure (.str "count") c.name, c) := by
  unfold count
  rw [run_get, hc]
  dsimp only
  cases store.count query with
  | error e => rw [run_ofStore_error rfl]; rfl
  | ok n => rw [run_ofStore rfl]; rfl

theorem count_run (hc : c.backend = .memory store) (hq : store.Answers query filter) :
    (count query).run.run c = (.ok (.int (store.records.filter query.selects).length), c) := by
  rw [count_of_memory hc, hq.count]
  rfl

theorem openStream_of_memory (hc : c.backend = .memory store) (query : Query)
    (options : FindOptions) :
    (openStream query options).run.run c = (matching store query options >>= fun found =>
      pure { name := c.name, inner := .items found.1 found.2 }).run.run c := by
  unfold openStream
  rw [run_get]
  dsimp only
  rw [run_get, hc]

theorem find_of_matching (hc : c.backend = .memory store) {options : FindOptions}
    {documents : List Value} {n : Nat}
    (h : (matching store query options).run.run c = (.ok (documents, n), c)) (total : Value) :
    (find query options total).run.run c =
      (.ok ⟨documents, if total.truthy then .int n else .null⟩, c) := by
  have hopen : (openStream query options).run.run c =
      (.ok { name := c.name, inner := .items documents n }, c) := by
    rw [openStream_of_memory hc, run_bind_ok h]
    rfl
  unfold find
  rw [run_get, hc]
  dsimp only
  rw [run_bind_ok hopen, run_bind_ok (toList_items documents n c)]
  cases ht : total.truthy <;> rfl

theorem remove_of_memory (hc : c.backend = .memory store) (query : Query) :
    (remove query).run.run c = match store.remove query with
      | .error e => (.error (e.toFailure (.str "remove") c.name), c)
      | .ok (n, after) => (.ok (.int n), { c with backend := .memory after }) := by
  unfold remove
  rw [run_get, hc]
  dsimp only
  cases store.remove query with
  | error e => rw [run_ofStore_error rfl]
  | ok removed =>
    rw [run_ofStore rfl]
    rfl

theorem remove_run (hc : c.backend = .memory store) (hq : store.Answers query filter) :
    (remove query).run.run c = (.ok (.int (store.records.filter query.selects).length),
      { c with backend := .memory { store with
        records := store.records.filter fun r => !query.selects r } }) := by
  rw [remove_of_memory hc, hq.remove]

/-- Without an order, a page or a projection a search makes documents of all that it finds. -/
theorem matching_eq (hq : store.Answers query filter) : (matching store query {}).run.run c =
    (((store.records.filter query.selects).mapM fun r => do
        document (← ofExcept (Store.project .null r)) : Action (List Value)) >>= fun documents =>
      pure (documents, (store.records.filter query.selects).length)).run.run c := by
  have hskip : Paging.skip (.int 0) = .ok (.int 0) := Paging.skip_int 0
  have hlimit : Paging.limit (.int c.options.maxQueryLimit) .null = .ok .null := rfl
  have hfound : store.filterOf query >>= store.select =
      .ok (store.records.filter query.selects) := by
    rw [hq.filterOf, ok_bind, hq.select]
  have hsorted : Store.sorted .null (store.records.filter query.selects) =
      .ok (store.records.filter query.selects) := by simp [Store.sorted, Value.truthy]
  unfold matching
  rw [run_get]
  dsimp only
  rw [run_ofExcept hskip, run_ofExcept hlimit, run_ofStore hfound, run_ofStore hsorted,
    run_ofExcept (page_all _)]

variable (hc : c.backend = .memory store) (hh : c.hooks = []) (ho : store.HoldsObjects)
  (hq : store.Answers query filter)
include hh ho hq

theorem matching_run : (matching store query {}).run.run c =
    (.ok ((store.records.filter query.selects).map .document,
      (store.records.filter query.selects).length), c) := by
  have hobjects : ∀ r ∈ store.records.filter query.selects, r.isObject :=
    fun r hr => ho r (List.mem_of_mem_filter hr)
  rw [matching_eq hq, run_bind_ok (documents_run hh _), map_shown hobjects]
  rfl

include hc

theorem openStream_run : (openStream query {}).run.run c =
    (.ok (c.streamed (store.records.filter query.selects)), c) := by
  rw [openStream_of_memory hc, run_bind_ok (matching_run hh ho hq)]
  rfl

theorem find_run (total : Value) : (find query {} total).run.run c =
    (.ok ⟨(store.records.filter query.selects).map .document, if total.truthy then
      .int (store.records.filter query.selects).length else .null⟩, c) :=
  find_of_matching hc (matching_run hh ho hq) total

theorem aggregate_run [Present] (request options : Value) :
    (aggregate query request options).run.run c =
      ((Aggregate.ofRecords (Aggregate.begin
        ((Aggregate.Request.given request).spec c.options.aggregate) (Aggregate.optionsOf options))
        (store.records.filter query.selects)).result, c) := by
  have hobjects : ∀ r ∈ store.records.filter query.selects, r.isObject :=
    fun r hr => ho r (List.mem_of_mem_filter hr)
  have hspec := readSpec_run request c
  unfold aggregate
  rw [run_get, hc]
  dsimp only
  cases hs : (Aggregate.Request.given request).spec c.options.aggregate with
  | error f =>
    rw [hs] at hspec
    rw [run_bind_error hspec]
    rfl
  | ok spec =>
    have houtcome : (Aggregate.ofSource (Stream.source Feed.source)
        (Aggregate.begin (.ok spec) (Aggregate.optionsOf options))
        ((c.streamed (store.records.filter query.selects)).map (·, c))).1 = _ :=
      Aggregate.ofSource_documents _ hobjects (Feed.delivers_items c _ c.name _)
    rw [hs] at hspec
    rw [run_bind_ok hspec, run_bind_ok (openStream_run hc hh ho hq),
      run_bind_ok (readStream_run _ _ c), houtcome, Aggregate.ofRecords_partialOf]
    exact ofExcept_run _

end

/-- A search, a count, a removal, an update and an aggregate of a collection in memory all work on
the same records: those, in their order, in which the query finds at every path what it asks for.
None is left after their removal. -/
theorem operations_agree [Present] {store : Store} {query : Query} {filter : Filter}
    (hc : c.backend = .memory store) (hh : c.hooks = []) (ho : store.HoldsObjects)
    (hq : store.Answers query filter) :
    let found := store.records.filter query.selects
    let left := { store with records := store.records.filter fun r => !query.selects r }
    let after := { c with backend := .memory left }
    (∀ r ∈ store.records, query.selects r ↔ filter.Satisfied r) ∧
    (∀ total, (find query {} total).run.run c =
      (.ok ⟨found.map .document, if total.truthy then .int found.length else .null⟩, c)) ∧
    (count query).run.run c = (.ok (.int found.length), c) ∧
    (∀ given choice n updated, (update query given choice).run.run c = (.ok n, updated) →
      n = .int found.length) ∧
    (remove query).run.run c = (.ok (.int found.length), after) ∧
    (count query).run.run after = (.ok (.int 0), after) ∧
    ∀ request options, (aggregate query request options).run.run c =
      ((Aggregate.ofRecords (Aggregate.begin
        ((Aggregate.Request.given request).spec c.options.aggregate) (Aggregate.optionsOf options))
        found).result, c) := by
  intro found left after
  have hleft : left.Answers query filter := {
    asked := hq.asked
    paths := hq.paths
    read := fun r hr => hq.read r (List.mem_of_mem_filter hr) }
  have hnone : left.records.filter query.selects = [] := by
    simp [left, List.filter_filter]
  refine ⟨fun r hr => hq.selects_iff hr, find_run hc hh ho hq, count_run hc hq, ?_,
    remove_run hc hq, ?_, aggregate_run hc hh ho hq⟩
  · intro given choice n updated hrun
    have hspec := store.update_spec ho (c.fullReplace choice) query given
    cases hu : store.update (c.fullReplace choice) query given with
    | mk outcome updated' =>
      rw [update_run hc hu] at hrun
      rw [hu] at hspec
      cases outcome with
      | error e => cases hrun
      | ok m =>
        obtain ⟨hm, -⟩ := hspec
        cases hrun
        rw [hm, List.countP_eq_length_filter]
  · have hcount := count_run (c := after) rfl hleft
    rw [hnone] at hcount
    exact hcount

/-- Of three animals two are dogs without an owner. -/
theorem operations_agree_of_three :
    let dog (name : String) : Value :=
      .object [("id", .str name), ("kind", .object [("name", .str "dog")])]
    let cat : Value := .object [("id", .str "c"), ("kind", .object [("name", .str "cat")])]
    let store : Store := { records := [dog "a", cat, dog "b"] }
    let c : Collection := { name := .str "animals", backend := .memory store }
    let filter : Filter := [("kind.name", .str "dog"), ("owner", .null)]
    let left : Collection := { c with backend := .memory { store with records := [cat] } }
    store.Answers (.object filter) filter ∧
      (find (.object filter) {} (.bool true)).run.run c =
        (.ok ⟨[.document (dog "a"), .document (dog "b")], .int 2⟩, c) ∧
      (remove (.object filter)).run.run c = (.ok (.int 2), left) ∧
      (aggregate (.object filter) (.object [("total", .bool true)]) .null).run.run c =
        (.ok (.totals [("total", .int 2)]), c) := by
  intro dog cat store c filter left
  have ho : store.HoldsObjects := by
    simp [Store.HoldsObjects, store, dog, cat, Value.isObject]
  have hq : store.Answers (.object filter) filter := by
    refine ⟨rfl, ?_, ?_⟩
    · simp only [filter, List.forall_mem_cons]
      exact ⟨⟨_, rfl, by decide⟩, ⟨_, rfl, by decide⟩, by simp⟩
    · simp only [store, List.forall_mem_cons]
      exact ⟨⟨true, by cbv⟩, ⟨false, by cbv⟩, ⟨true, by cbv⟩, by simp⟩
  have hfound : store.records.filter (Query.selects (.object filter)) = [dog "a", dog "b"] := by
    cbv
  have hleft : (store.records.filter fun r => !Query.selects (.object filter) r) = [cat] := by cbv
  obtain ⟨-, hfind, -, -, hremove, -, haggregate⟩ :=
    operations_agree (c := c) rfl rfl ho hq
  rw [hfound] at hfind hremove haggregate
  rw [hleft] at hremove
  refine ⟨hq, hfind _, hremove, ?_⟩
  rw [haggregate]
  rfl

end Collection

end RecordStore
