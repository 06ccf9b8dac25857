import RecordStore.Proofs.DiscreteKeys
import RecordStore.Proofs.Grouping
import RecordStore.Proofs.Rearrangement
import RecordStore.Proofs.RecordFaults

/-! From a group of an aggregate to its records: how many the query of its key finds in the
collection that the aggregate has read. Each entry of the result stands for a class of the records,
also behind an order and a limit, and the query counts a class by another equality. -/
namespace RecordStore

namespace Aggregate

/-! ### Results of groups -/

theorem exists_group_of_render {run : Run} {clauses : List Clause} {entries : List Entry}
    (hc : run.spec.clauses = some clauses) (h : run.render = .ok (.groups entries)) :
    ∀ e ∈ entries, ∃ g ∈ run.groups, run.entryOf g = .ok e := by
  intro e he
  simp only [Run.render, hc, bind_eq_ok] at h
  obtain ⟨es, hes, h⟩ := h
  split at h
  · rename_i o _
    obtain ⟨sorted, hsorted, h⟩ := bind_eq_ok.mp h
    cases h
    have hperm := sortByKeys_perm (sortEntries_eq_ok.mp hsorted)
    have hmem : e ∈ sorted := by
      cases hl : o.limit with
      | none => simpa [Run.limited, hl] using he
      | some n =>
        simp only [Run.limited, hl] at he
        exact List.mem_of_mem_take he
    obtain ⟨g, hg, hge⟩ := exists_of_forall₂ (mapM_eq_ok.mp hes).flip (hperm.mem_iff.mp hmem)
    exact ⟨g, hg, hge⟩
  · cases h

theorem exists_class_of_entry [Present] {spec : Spec} {clauses : List Clause}
    {options : Except Failure RunOptions} {records : List Value} {entries : List Entry}
    (hc : spec.clauses = some clauses)
    (h : (ofRecords (begin (.ok spec) options) records).result = .ok (.groups entries)) :
    ∃ ks, keyed clauses records = .ok ks ∧ ∀ e ∈ entries, ∃ cl ∈ classes ks,
      e.key = cl.key ∧ e.total = if spec.total then some cl.members.length else none := by
  obtain ⟨run, last, hbegin, hfeed, hrender⟩ := ofRecords_eq_ok.mp h
  obtain ⟨_, o, ⟨⟩, -, -, -, rfl⟩ := begin_eq_ok.mp hbegin
  obtain ⟨ks, groups, hks, hgroups, rfl⟩ := (Run.feedAll_groups hc).mp hfeed
  refine ⟨ks, hks, fun e he => ?_⟩
  obtain ⟨g, hg, hge⟩ := exists_group_of_render hc hrender e he
  obtain ⟨hkey, htotal, -⟩ := entryOf_eq_ok.mp hge
  obtain ⟨cl, hcl, hadd⟩ := exists_of_forall₂ (Run.addAll_nil.mp hgroups).flip hg
  obtain ⟨stats, -, rfl⟩ := Run.Group.addAll_eq_ok.mp hadd
  exact ⟨cl, hcl, hkey, by simpa using htotal⟩

/-- Each entry of a group aggregate by values as they are has the key of a record for its own, and
counts the records that have the same. -/
theorem sharing_of_entry [Present] {fields : List String} {records : List Value} {f : Value → Value}
    (hw : ∀ r ∈ records, r.isWellFormed)
    (hp : ∀ r ∈ records, ∀ field ∈ fields, ∀ v, r.get (Path.ofText field) = .ok v → v.isPlain)
    (hf : ∀ r ∈ records, ∀ field ∈ fields,
      (f r).get (Path.ofText field) = r.get (Path.ofText field))
    {spec : Spec} {options : Except Failure RunOptions} {entries : List Entry}
    (hc : spec.clauses = some (discrete fields))
    (h : (ofRecords (begin (.ok spec) options) (records.map f)).result = .ok (.groups entries)) :
    ∃ ks, keyed (discrete fields) records = .ok ks ∧ ∀ e ∈ entries,
      (∃ p ∈ ks, p.1 = e.key) ∧
        e.total = if spec.total then some (sharing e.key ks).length else none := by
  obtain ⟨ks', hks', hentries⟩ := exists_class_of_entry hc h
  rw [keyed_map fun r hr => keyOf_discrete_congr (hf r hr), map_eq_ok] at hks'
  obtain ⟨ks, hks, rfl⟩ := hks'
  refine ⟨ks, hks, fun e he => ?_⟩
  obtain ⟨cl, hcl, hkey, htotal⟩ := hentries e he
  obtain ⟨_, hp', hpkey⟩ := exists_of_mem_classes hcl
  obtain ⟨p, hmem, rfl⟩ := List.mem_map.mp hp'
  have hparts : ∀ v ∈ cl.key, ¬ v.isAbsent ∧ v.Groupable :=
    hpkey ▸ (parts_of_keyed hw hp hks hmem).2
  have hself : Value.sameKeys cl.key cl.key :=
    Value.sameKeys_refl (fun v hv => (hparts v hv).2.wellFormed)
      fun v hv => (hparts v hv).2.plain
  have hwk : KeysWellFormed (ks.map fun p => (p.1, f p.2)) :=
    List.forall_mem_map.mpr fun p hp => keyed_wellFormed hw hks p hp
  have hlength : cl.members.length = (sharing cl.key ks).length := by
    rw [(classes_classified hwk).whole cl hcl hself, List.length_map, length_sharing_map]
  exact ⟨⟨p, hmem, hpkey.trans hkey.symm⟩, by rw [htotal, hkey, ← hlength]⟩

theorem ofSource_eq_ofRecords [Present] {σ : Type} {src : Source σ} {s t : σ} {records : List Value}
    (start : Except Failure Run) (h : src.Delivers s records none t) :
    (ofSource src start s).1 = ofRecords start records := by
  cases start with
  | error f => rfl
  | ok run =>
    rw [ofRecords, ofSource_of_delivers run h,
      ofSource_of_delivers run (Source.delivers_ofList records)]

end Aggregate

namespace Collection

/-! ### Aggregates under listeners -/

/-- The data of a record as the listeners of the birth of its document leave them. -/
def told (c : Collection) (r : Value) : Value := (c.hooks.triggerNow Hooks.postInit r).subject

variable {c d : Collection} {store : Store} {query : Query} {filter : Filter}

theorem documents_eq_ok {records documents : List Value} (ho : ∀ r ∈ records, r.isObject)
    (h : (records.mapM fun r => do document (← ofExcept (Store.project .null r)) :
      Action (List Value)).run.run c = (.ok documents, d)) :
    documents = (records.map c.told).map .document ∧ ∃ trace, d = { c with trace } := by
  induction records generalizing c documents with
  | nil =>
    cases h
    exact ⟨rfl, _, rfl⟩
  | cons r records ih =>
    obtain ⟨hr, hrest⟩ := List.forall_mem_cons.mp ho
    obtain ⟨ms, rfl⟩ := Value.isObject_iff.mp hr
    rw [List.mapM_cons, run_bind_eq_ok] at h
    obtain ⟨v, u, hv, h⟩ := h
    obtain ⟨vs, w, hvs, h⟩ := run_bind_eq_ok.mp h
    cases h
    have hfirst : (document (.object ms)).run.run c = (.ok v, u) := hv
    rw [document_told, Prod.mk.injEq, map_eq_ok] at hfirst
    obtain ⟨⟨_, -, rfl⟩, rfl⟩ := hfirst
    obtain ⟨rfl, trace, rfl⟩ := ih hrest hvs
    exact ⟨rfl, trace, rfl⟩

section
variable (hc : c.backend = .memory store) (ho : store.HoldsObjects)
  (hq : store.Answers query filter)
include hc ho hq

theorem openStream_eq_ok {s : Stream Feed} (h : (openStream query {}).run.run c = (.ok s, d)) :
    s = d.streamed ((store.records.filter query.selects).map c.told) ∧
      ∃ trace, d = { c with trace } := by
  rw [openStream_of_memory hc] at h
  obtain ⟨⟨documents, total⟩, u, hmatching, h⟩ := run_bind_eq_ok.mp h
  cases h
  rw [matching_eq hq] at hmatching
  obtain ⟨documents, u, hdocuments, hmatching⟩ := run_bind_eq_ok.mp hmatching
  cases hmatching
  have hobjects : ∀ r ∈ store.records.filter query.selects, r.isObject :=
    fun r hr => ho r (List.mem_of_mem_filter hr)
  obtain ⟨rfl, trace, rfl⟩ := documents_eq_ok hobjects hdocuments
  refine ⟨?_, trace, rfl⟩
  rw [streamed, List.length_map]

/-- An aggregate in memory reads the documents of the records that its query asks for, and leaves
the collection as it was but for what its listeners heard. -/
theorem aggregate_eq_ok [Present] {request options : Value} {result : Aggregate.Result}
    (h : (aggregate query request options).run.run c = (.ok result, d)) :
    (∃ trace, d = { c with trace }) ∧
      (Aggregate.ofRecords (Aggregate.begin
        ((Aggregate.Request.given request).spec c.options.aggregate) (Aggregate.optionsOf options))
        (((store.records.filter query.selects).map c.told).map .document)).result =
          .ok result := by
  unfold aggregate at h
  rw [run_get, hc] at h
  dsimp only at h
  obtain ⟨spec, u, hspec, h⟩ := run_bind_eq_ok.mp h
  rw [readSpec_run] at hspec
  obtain ⟨hready, rfl⟩ := Prod.mk.inj hspec
  obtain ⟨s, after, hs, h⟩ := run_bind_eq_ok.mp h
  obtain ⟨rfl, htrace⟩ := openStream_eq_ok hc ho hq hs
  have hread := Feed.delivers_items after
    ((store.records.filter query.selects).map c.told).length after.name
    (((store.records.filter query.selects).map c.told).map .document)
  have houtcome := Aggregate.ofSource_eq_ofRecords
    (Aggregate.begin (.ok spec) (Aggregate.optionsOf options)) hread
  rw [run_bind_ok (readStream_run _ _ after)] at h
  dsimp only [streamed, Stream.map] at h houtcome
  rw [houtcome, Aggregate.ofRecords_partialOf] at h
  dsimp only at h
  obtain ⟨hresult, rfl⟩ := ofExcept_eq_ok.mp h
  rw [hready]
  exact ⟨htrace, hresult⟩

end

/-! ### From groups to records -/

/-- A collection in memory whose documents have, at some fields, what its records have there, and
values that are equal to themselves. -/
structure Shows (c : Collection) (store : Store) (fields : List String) : Prop where
  memory : c.backend = .memory store
  objects : store.HoldsObjects
  wellFormed : ∀ r ∈ store.records, r.isWellFormed
  plain : ∀ r ∈ store.records, ∀ field ∈ fields, ∀ v,
    r.get (Path.ofText field) = .ok v → v.isPlain
  kept : ∀ r ∈ store.records, ∀ field ∈ fields,
    Value.get (.document (c.told r)) (Path.ofText field) = r.get (Path.ofText field)

theorem Shows.after {fields : List String} (hs : c.Shows store fields) (trace : List Event) :
    Shows { c with trace } store fields :=
  ⟨hs.memory, hs.objects, hs.wellFormed, hs.plain, hs.kept⟩

section
variable {fields : List String} {ks : List (List Value × Value)} {key : List Value}

theorem count_ofKey [Present] (hs : c.Shows store fields)
    (hf : ∀ field ∈ fields, isOperator field = false)
    (hks : Aggregate.keyed (Aggregate.discrete fields) store.records = .ok ks)
    (hlength : key.length = fields.length) (hpresent : ∀ part ∈ key, ¬ part.isAbsent) :
    (count (.object (Filter.ofKey fields key))).run.run c =
      (.ok (.int (ks.countP fun p => Value.eqList p.1 key)), c) := by
  have hq : store.Answers (.object (Filter.ofKey fields key)) (Filter.ofKey fields key) := by
    refine ⟨rfl, fun m hm => ?_, fun r hr => ?_⟩
    · obtain ⟨field, hfield, hname⟩ := List.mem_map.mp (List.of_mem_zip hm).1
      exact ⟨field, hname.symm, hf field hfield⟩
    · obtain ⟨found, hfound⟩ := Aggregate.exists_keyOf hks hr
      exact ⟨_, Aggregate.holds_ofKey hfound (hs.plain r hr) hlength hpresent⟩
  rw [count_run hs.memory hq, ← List.countP_eq_length_filter,
    Aggregate.countP_selects hks hs.plain hlength hpresent]

/-- From each group of an aggregate on, the query of its key finds the records that make up the
group, but for those whose keys are blended or merged with it. -/
theorem key_query_finds_group [Present] (hs : c.Shows store fields)
    (hf : ∀ field ∈ fields, isOperator field = false) {query : Query}
    (hempty : query.filter? = some []) {request options : Value} {spec : Aggregate.Spec}
    (hspec : (Aggregate.Request.given request).spec c.options.aggregate = .ok spec)
    (hclauses : spec.clauses = some (Aggregate.discrete fields)) (htotal : spec.total)
    {entries : List Aggregate.Entry}
    (hrun : (aggregate query request options).run.run c = (.ok (.groups entries), d)) :
    ∃ ks, Aggregate.keyed (Aggregate.discrete fields) store.records = .ok ks ∧
      ∀ e ∈ entries, ∃ total n : Nat, e.total = some total ∧
        (count (.object (Filter.ofKey fields e.key))).run.run d = (.ok (.int n), d) ∧
        total + ks.countP (fun p => Aggregate.blended p.1 e.key) =
          n + ks.countP (fun p => Aggregate.merged p.1 e.key) ∧
        ((∀ p ∈ ks, ¬ Aggregate.blended p.1 e.key ∧ ¬ Aggregate.merged p.1 e.key) →
          n = total) := by
  have hq : store.Answers query [] := ⟨hempty, by simp, fun r _ => ⟨true, rfl⟩⟩
  have hall : store.records.filter query.selects = store.records := by
    refine List.filter_eq_self.mpr fun r _ => ?_
    simp [Query.selects, hempty, Filter.holds]
  obtain ⟨⟨trace, rfl⟩, hresult⟩ := aggregate_eq_ok hs.memory hs.objects hq hrun
  rw [hall, hspec, List.map_map] at hresult
  obtain ⟨ks, hks, hentries⟩ :=
    Aggregate.sharing_of_entry hs.wellFormed hs.plain hs.kept hclauses hresult
  refine ⟨ks, hks, fun e he => ?_⟩
  obtain ⟨⟨p, hp, hkey⟩, hetotal⟩ := hentries e he
  rw [if_pos htotal] at hetotal
  have hparts {p} (hp : p ∈ ks) := Aggregate.parts_of_keyed hs.wellFormed hs.plain hks hp
  obtain ⟨hlength, hkeyParts⟩ := hkey ▸ hparts hp
  have hcount := count_ofKey (hs.after trace) hf hks hlength fun v hv => (hkeyParts v hv).1
  have hsum := Aggregate.length_sharing (fun p hp v hv => ((hparts hp).2 v hv).2)
    fun v hv => (hkeyParts v hv).2
  refine ⟨_, _, hetotal, hcount, hsum, fun hclear => ?_⟩
  have hblended : ks.countP (fun p => Aggregate.blended p.1 e.key) = 0 :=
    List.countP_eq_zero.mpr fun p hp => (hclear p hp).1
  have hmerged : ks.countP (fun p => Aggregate.merged p.1 e.key) = 0 :=
    List.countP_eq_zero.mpr fun p hp => (hclear p hp).2
  omega

/-- Three animals of two kinds. -/
theorem key_query_finds_group_of_dogs :
    let animal (name : String) : Value :=
      .object [("kind", .object [("name", .str name)]), ("tags", .list [.str "tame", .bool true])]
    let store : Store := { records := [animal "dog", animal "cat", animal "dog"] }
    let c : Collection := { name := .str "animals", backend := .memory store }
    let request : Value :=
      .object [("groupBy", .list [.str "kind.name", .str "tags"]), ("total", .bool true)]
    let fields := ["kind.name", "tags"]
    let key (name : String) : List Value := [.str name, .list [.str "tame", .bool true]]
    c.Shows store fields ∧
      (aggregate .null request .null).run.run c =
        (.ok (.groups [⟨key "dog", none, some 2⟩, ⟨key "cat", none, some 1⟩]), c) ∧
      (count (.object (Filter.ofKey fields (key "dog")))).run.run c = (.ok (.int 2), c) := by
  intro animal store c request fields key
  have ho : store.HoldsObjects := by
    simp [Store.HoldsObjects, store, animal, Value.isObject]
  have hanimal : ∀ r ∈ store.records, ∃ name, r = animal name := by simp [store]
  have hs : c.Shows store fields := by
    refine ⟨rfl, ho, by decide, fun r hr field hfield v hv => ?_, fun r hr field _ => ?_⟩
    · obtain ⟨name, rfl⟩ := hanimal r hr
      have hkind : (animal name).get (Path.ofText "kind.name") = .ok (.str name) := by cbv
      have htags : (animal name).get (Path.ofText "tags") =
          .ok (.list [.str "tame", .bool true]) := by cbv
      obtain rfl | rfl : field = "kind.name" ∨ field = "tags" := by simpa [fields] using hfield
      · rw [hkind] at hv
        cases hv
        rfl
      · rw [htags] at hv
        cases hv
        rfl
    · obtain ⟨name, rfl⟩ := hanimal r hr
      rfl
  let spec : Aggregate.Spec := ⟨some (Aggregate.discrete fields), [], true, []⟩
  have hspec : (Aggregate.Request.given request).spec c.options.aggregate = .ok spec := rfl
  have hq : store.Answers .null [] := ⟨rfl, by simp, fun r _ => ⟨true, rfl⟩⟩
  have hrun : (aggregate .null request .null).run.run c =
      (.ok (.groups [⟨key "dog", none, some 2⟩, ⟨key "cat", none, some 1⟩]), c) := by
    have hall : store.records.filter (Query.selects .null) = store.records := rfl
    have hbegin : Aggregate.begin (.ok spec) (Aggregate.optionsOf .null) =
        .ok { spec, options := .read {}, stats := [] } := rfl
    rw [aggregate_run rfl rfl ho hq, hspec, hbegin, hall]
    refine Prod.ext ?_ rfl
    cbv
  obtain ⟨ks, hks, hentries⟩ := key_query_finds_group hs (by decide) rfl hspec rfl rfl hrun
  obtain ⟨total, n, htotal, hcount, -, hclear⟩ := hentries _ List.mem_cons_self
  have hread : Aggregate.keyed (Aggregate.discrete fields) store.records = .ok
      [(key "dog", animal "dog"), (key "cat", animal "cat"), (key "dog", animal "dog")] := by cbv
  cases hread.symm.trans hks
  cases htotal
  have hapart (name : String) : ¬ Aggregate.blended (key name) (key "dog") ∧
      ¬ Aggregate.merged (key name) (key "dog") := by
    simp [key, Aggregate.blended, Aggregate.merged, Value.somewhereIn, Value.somewhere,
      Value.boolWithNum, Value.listWithTuple, Value.elements?]
  rw [hclear (by simp [hapart])] at hcount
  exact ⟨hs, hrun, hcount⟩

/-- The query of a key and its group differ where a boolean faces a number, where a list faces a
tuple, where a part of the key is a document, and where a listener changes what documents show. -/
theorem key_query_misses_group :
    let r (v : Value) : Value := .object [("f", v)]
    let memory (hooks : Hooks.Registry) (vs : List Value) : Collection :=
      { name := .str "animals", hooks, backend := .memory { records := vs.map r } }
    let request : Value := .object [("groupBy", .str "f"), ("total", .bool true)]
    let groups (c : Collection) : Option Value :=
      ((aggregate .null request .null).run.run c).1.toOption.map Aggregate.Result.toValue
    let found (key : Value) (c : Collection) : Option Value :=
      ((count (r key)).run.run c).1.toOption
    let entry (key : Value) (total : Int) : Value :=
      .object [("key", .list [key]), ("total", .int total)]
    let mixed := memory [] [.bool true, .int 1]
    let sequences := memory [] [.list [.null], .tuple [.null]]
    let nested := memory [] [.document (.object [])]
    let renamed :=
      memory [(Hooks.postInit, ⟨.str "l", false, some (.str "f", .str "b"), none⟩)] [.str "a"]
    (groups mixed = some (.list [entry (.bool true) 1, entry (.int 1) 1]) ∧
      found (.int 1) mixed = some (.int 2)) ∧
    (groups sequences = some (.list [entry (.list [.null]) 2]) ∧
      found (.list [.null]) sequences = some (.int 1)) ∧
    (groups nested = some (.list [entry (.document (.object [])) 1]) ∧
      found (.document (.object [])) nested = some (.int 0)) ∧
    groups renamed = some (.list [entry (.str "b") 1]) ∧
      found (.str "b") renamed = some (.int 0) := by
  decide +kernel

end

end Collection

end RecordStore
