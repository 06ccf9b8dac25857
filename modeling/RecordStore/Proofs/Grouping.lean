import RecordStore.Proofs.GroupRun

/-! What a group aggregate gives in one pass over the records is what one gets by sorting them into
classes first and then counting each class and taking its statistics on their own. -/
namespace RecordStore
namespace Aggregate

def Spec.overall (spec : Spec) : Spec := { spec with clauses := none, total := false }

def statsMembers (stats : List (String × Record)) : Record :=
  stats.map fun (field, ms) => (.text field, .object ms)

/-- What stands for a class in a result: its key, how many records it has, and the statistics that
an aggregate over them alone gives. -/
structure Entry.Of [Present] (spec : Spec) (c : Class) (e : Entry) : Prop where
  key : e.key = c.key
  total : e.total = if spec.total then some c.members.length else none
  stats : if spec.stats = [] then e.stats = none else
    ∃ stats, e.stats = some stats ∧
      (ofRecords (begin (.ok spec.overall) (.ok (.read {}))) c.members).result =
        .ok (.totals (statsMembers stats))

/-! ### Classes on their own -/

theorem begin_groups {spec : Spec} {clauses : List Clause} {o : AggregateOptions}
    (hc : spec.clauses = some clauses) (hx : extensionStats? spec.stats = none) :
    begin (.ok spec) (.ok (.read o)) =
      .ok { spec, options := .read o, stats := .start spec.stats } := by
  simp [begin, Run.start, hc, hx, bind, Except.bind]

theorem putAll_stats {as : Accumulators} {stats : List (String × Record)}
    (hr : as.render = .ok stats) (hn : as.fields.Nodup) :
    Record.putAll [] (statsMembers stats) = statsMembers stats := by
  refine Record.putAll_of_new ?_
  have hnames : (statsMembers stats).map Prod.fst = as.fields.map Name.text := by
    rw [← Accumulators.names_render hr, statsMembers, List.map_map, List.map_map]
    rfl
  rw [List.nil_append, hnames]
  exact hn.map fun _ _ h => Name.text.inj h

theorem render_overall {run : Run} (hc : run.spec.clauses = none) (ht : run.spec.total = false)
    (hn : run.stats.fields.Nodup) {result : Result} :
    run.render = .ok result ↔ ∃ stats, run.stats.render = .ok stats ∧
      result = .totals (statsMembers stats) := by
  simp only [Run.render, hc, Run.totals, bind_eq_ok, pure_eq_ok, ht]
  constructor
  · intro h
    obtain ⟨_, ⟨stats, hs, rfl⟩, rfl⟩ := h
    exact ⟨stats, hs, congrArg Result.totals (putAll_stats hs hn)⟩
  · intro h
    obtain ⟨stats, hs, rfl⟩ := h
    exact ⟨_, ⟨stats, hs, rfl⟩, congrArg Result.totals (putAll_stats hs hn)⟩

theorem overall_result [Present] {spec : Spec} (hx : extensionStats? spec.stats = none)
    (hn : (spec.stats.map Prod.fst).Nodup) {members : List Value} {result : Result} :
    (ofRecords (begin (.ok spec.overall) (.ok (.read {}))) members).result = .ok result ↔
      ∃ as stats, (Accumulators.start spec.stats).ingestAll members = .ok as ∧
        as.render = .ok stats ∧
        result = .totals (statsMembers stats) := by
  have hb : begin (.ok spec.overall) (.ok (.read {})) =
      .ok { spec := spec.overall, options := .read {}, stats := .start spec.stats } := by
    simp [begin, Run.start, Spec.overall, hx, RunOptions.presents?, bind, Except.bind]
  have hf : (Accumulators.start spec.stats).fields.Nodup := by
    simpa [Accumulators.start, Accumulators.fields, Function.comp_def] using hn
  rw [hb, ofRecords_eq_ok]
  constructor
  · intro h
    obtain ⟨run, last, hrun, hfeed, hrender⟩ := h
    cases hrun
    obtain ⟨as, has, rfl⟩ := (Run.feedAll_overall rfl).mp hfeed
    rw [← Accumulators.fields_ingestAll has] at hf
    obtain ⟨stats, hs, rfl⟩ := (render_overall rfl rfl hf).mp hrender
    exact ⟨as, stats, has, hs, rfl⟩
  · intro h
    obtain ⟨as, stats, has, hs, rfl⟩ := h
    rw [← Accumulators.fields_ingestAll has] at hf
    exact ⟨_, _, rfl, (Run.feedAll_overall rfl).mpr ⟨as, has, rfl⟩,
      (render_overall rfl rfl hf).mpr ⟨stats, hs, rfl⟩⟩

theorem statsMembers_injective : Function.Injective statsMembers := by
  refine List.map_injective_iff.mpr ?_
  rintro ⟨field, ms⟩ ⟨field', ms'⟩ h
  cases h
  rfl

theorem entryOf_eq_ok {run : Run} {g : Group} {e : Entry} :
    run.entryOf g = .ok e ↔ e.key = g.key ∧
      e.total = (if run.spec.total then some g.total else none) ∧
      if run.spec.stats = [] then e.stats = none else
        ∃ stats, e.stats = some stats ∧ g.stats.render = .ok stats := by
  rw [Run.entryOf]
  by_cases hs : run.spec.stats = []
  · rw [if_pos hs, if_pos hs]
    simp only [bind_eq_ok, pure_eq_ok]
    constructor
    · intro h
      obtain ⟨_, ⟨⟩, rfl⟩ := h
      exact ⟨rfl, rfl, rfl⟩
    · intro h
      obtain ⟨hk, ht, hst⟩ := h
      exact ⟨none, rfl, by rw [← hk, ← ht, ← hst]⟩
  · rw [if_neg hs, if_neg hs]
    simp only [bind_eq_ok, pure_eq_ok]
    constructor
    · intro h
      obtain ⟨_, hst, rfl⟩ := h
      obtain ⟨stats, hr, rfl⟩ := map_eq_ok.mp hst
      exact ⟨rfl, rfl, stats, rfl, hr⟩
    · intro h
      obtain ⟨hk, ht, stats, hst, hr⟩ := h
      exact ⟨some stats, map_eq_ok.mpr ⟨stats, hr, rfl⟩, by rw [← hk, ← ht, ← hst]⟩

theorem ingestAll_nil (members : List Value) : Accumulators.ingestAll members [] = .ok [] := by
  induction members with
  | nil => rfl
  | cons r rest ih => exact ih

/-- The group of a class gives the entry that stands for it. -/
theorem entry_of_class [Present] (run : Run) (hx : extensionStats? run.spec.stats = none)
    (hn : (run.spec.stats.map Prod.fst).Nodup) {c : Class} {e : Entry} :
    (∃ g, c.members.foldlM (fun g r => Run.Group.add r g)
      ⟨c.key, 0, .start run.spec.stats⟩ = .ok g ∧ run.entryOf g = .ok e) ↔
      Entry.Of run.spec c e := by
  constructor
  · intro h
    obtain ⟨g, hg, he⟩ := h
    obtain ⟨as, has, rfl⟩ := Run.Group.addAll_eq_ok.mp hg
    obtain ⟨hk, ht, hs⟩ := entryOf_eq_ok.mp he
    refine ⟨hk, by simpa using ht, ?_⟩
    split at hs
    · rwa [if_pos ‹_›]
    · rw [if_neg ‹_›]
      obtain ⟨stats, hst, hs⟩ := hs
      exact ⟨stats, hst, (overall_result hx hn).mpr ⟨as, stats, has, hs, rfl⟩⟩
  · intro h
    obtain ⟨hk, ht, hs⟩ := h
    by_cases hnone : run.spec.stats = []
    · -- The group still runs over its records, but there is nothing to take in.
      rw [if_pos hnone] at hs
      refine ⟨_, Run.Group.addAll_eq_ok.mpr ⟨[], ?_, rfl⟩, entryOf_eq_ok.mpr ⟨hk, ?_, ?_⟩⟩
      · simpa [hnone, Accumulators.start] using ingestAll_nil c.members
      · simpa using ht
      · rwa [if_pos hnone]
    · rw [if_neg hnone] at hs
      obtain ⟨stats, hst, hs⟩ := hs
      obtain ⟨as, stats', has, hs, heq⟩ := (overall_result hx hn).mp hs
      have heq := statsMembers_injective (Result.totals.inj heq)
      subst heq
      refine ⟨_, Run.Group.addAll_eq_ok.mpr ⟨as, has, rfl⟩, entryOf_eq_ok.mpr ⟨hk, ?_, ?_⟩⟩
      · simpa using ht
      · rw [if_neg hnone]
        exact ⟨stats, hst, hs⟩

theorem render_groups {run : Run} {clauses : List Clause} {o : AggregateOptions}
    (hc : run.spec.clauses = some clauses) (ho : run.options = .read o) (hs : o.sort = [])
    (hl : o.limit = none) {result : Result} :
    run.render = .ok result ↔ ∃ entries,
      List.Forall₂ (fun g e => run.entryOf g = .ok e) run.groups entries ∧
        result = .groups entries := by
  simp only [Run.render, hc, ho, RunOptions.read?, hs, hl, bind_eq_ok, mapM_eq_ok]
  constructor
  · intro h
    obtain ⟨entries, he, _, ⟨⟩, ⟨⟩⟩ := h
    exact ⟨entries, he, rfl⟩
  · intro h
    obtain ⟨entries, he, rfl⟩ := h
    exact ⟨entries, he, entries, rfl, rfl⟩

/-! ### The whole result -/

/-- A group aggregate over records gives a result if each record has a key or is left out, and each
class of records has an entry that stands for it. The result is these entries, one for each key in
the order in which the keys come up. -/
theorem group_aggregate_of_classes [Present] {spec : Spec} {clauses : List Clause}
    {o : AggregateOptions}
    (hc : spec.clauses = some clauses) (hx : extensionStats? spec.stats = none)
    (hn : (spec.stats.map Prod.fst).Nodup) (hs : o.sort = []) (hl : o.limit = none)
    {records : List Value} (hw : ∀ r ∈ records, r.isWellFormed) :
    (∀ result, (ofRecords (begin (.ok spec) (.ok (.read o))) records).result = .ok result ↔
      ∃ ks entries, keyed clauses records = .ok ks ∧
        List.Forall₂ (Entry.Of spec) (classes ks) entries ∧ result = .groups entries) ∧
    ∀ ks, keyed clauses records = .ok ks → Classified ks (classes ks) := by
  refine ⟨fun result => ?_, fun ks hk => classes_classified (keyed_wellFormed hw hk)⟩
  let last (groups : List Group) : Run :=
    { spec, options := .read o, stats := .start spec.stats, seen := 0 + records.length, groups }
  rw [begin_groups hc hx, ofRecords_eq_ok]
  constructor
  · intro h
    obtain ⟨run, _, hrun, hfeed, hrender⟩ := h
    cases hrun
    obtain ⟨ks, groups, hk, hg, rfl⟩ := (Run.feedAll_groups hc).mp hfeed
    obtain ⟨entries, he, rfl⟩ := (render_groups hc rfl hs hl).mp hrender
    refine ⟨ks, entries, hk, ?_, rfl⟩
    have he := forall₂_comp.mp ⟨groups, Run.addAll_nil.mp hg, he⟩
    exact he.imp fun c e h => (entry_of_class (last groups) hx hn).mp h
  · intro h
    obtain ⟨ks, entries, hk, he, rfl⟩ := h
    obtain ⟨groups, hg, he⟩ :=
      forall₂_comp.mpr (he.imp fun c e h => (entry_of_class (last []) hx hn).mpr h)
    exact ⟨_, last groups, rfl,
      (Run.feedAll_groups hc).mpr ⟨ks, groups, hk, Run.addAll_nil.mpr hg, rfl⟩,
      (render_groups hc rfl hs hl).mpr ⟨entries, he, rfl⟩⟩

/-- Three records of two keys, counted and with the statistics of a field. -/
theorem group_aggregate_of_two_classes :
    let r (key : String) (n : Int) : Value := .object [("a", .str key), ("n", .int n)]
    let clauses : List Clause := [⟨"a", .discrete⟩]
    let spec : Spec := ⟨some clauses, [("n", { count := true })], true, []⟩
    let records := [r "x" 1, r "y" 2, r "x" 3]
    let entries : List Entry := [⟨[.str "x"], some [("n", [("count", .int 2)])], some 2⟩,
      ⟨[.str "y"], some [("n", [("count", .int 1)])], some 1⟩]
    (extensionStats? spec.stats = none ∧ (spec.stats.map Prod.fst).Nodup ∧
      ∀ r ∈ records, r.isWellFormed) ∧
    (ofRecords (begin (.ok spec) (.ok (.read {}))) records).result = .ok (.groups entries) ∧
    ∃ ks, keyed clauses records = .ok ks ∧ Classified ks (classes ks) := by
  intro r clauses spec records entries
  have hx : extensionStats? spec.stats = none := rfl
  have hn : (spec.stats.map Prod.fst).Nodup := by decide
  have hw : ∀ r ∈ records, r.isWellFormed := by decide
  let ks := [([Value.str "x"], r "x" 1), ([Value.str "y"], r "y" 2), ([Value.str "x"], r "x" 3)]
  have hk : keyed clauses records = .ok ks := rfl
  have hclasses : classes ks =
      [⟨[.str "x"], [r "x" 1, r "x" 3]⟩, ⟨[.str "y"], [r "y" 2]⟩] := by
    simp [ks, classes, sharing, others, Value.sameKeys, Value.sameKey]
  have hof {c : Class} {e : Entry} (hkey : e.key = c.key) (htotal : e.total = some c.members.length)
      (hstats : ∃ stats, e.stats = some stats ∧
        (ofRecords (begin (.ok spec.overall) (.ok (.read {}))) c.members).result =
          .ok (.totals (statsMembers stats))) : Entry.Of spec c e := ⟨hkey, htotal, hstats⟩
  obtain ⟨hresult, hclassified⟩ := group_aggregate_of_classes (o := {}) rfl hx hn rfl rfl hw
  refine ⟨⟨hx, hn, hw⟩, (hresult _).mpr ⟨ks, entries, hk, ?_, rfl⟩, ks, hk, hclassified ks hk⟩
  rw [hclasses]
  exact .cons (hof rfl rfl ⟨_, rfl, rfl⟩) (.cons (hof rfl rfl ⟨_, rfl, rfl⟩) .nil)

end Aggregate
end RecordStore
