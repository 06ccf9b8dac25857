import RecordStore.Proofs.ArrivalOrder
import RecordStore.Proofs.FieldFaults

/-! Records that an aggregate neither shows a result for nor tells of as a mismatch: the run first
goes wrong at a lookup that breaks off, at a time that has no instant or no bucket, at an integer
too large for binary64 numbers or for the words of a mismatch, or at a path to sort by. -/
namespace RecordStore
namespace Aggregate

/-- The sum of the numbers of a field exists, but not their average. -/
def AverageLost (members : List Value) (x : String × StatRequest) : Prop :=
  x.2.avg ∧ AverageOverflows (numbersOf x.1 members)

namespace Accumulator
variable {request : StatRequest} {a : Accumulator}

theorem render_fault {e : RecordError} (h : a.render request = .error e) : e.Stray := by
  rw [render_eq, mean] at h
  split at h
  · cases hmean : a.sum.divCount a.summed with
    | some mean =>
      rw [hmean] at h
      cases h
    | none =>
      rw [hmean] at h
      cases h
      trivial
  · cases h

theorem render_escapes {field : String} {members : List Value}
    (ha : ingestAll field request members {} = .ok a) :
    Escapes (a.render request) ↔ AverageLost members (field, request) := by
  rw [render_eq, Escapes, fails_map, mean, AverageLost]
  cases havg : request.avg with
  | false => exact iff_of_false fails_ok (by simp)
  | true =>
    obtain ⟨hsum, hsummed⟩ := ingestAll_sums havg ha
    have hcount : a.summed = (numbersOf field members).length := by rw [hsummed, Nat.zero_add]
    rw [hcount, Bool.true_and]
    split
    · rename_i hne
      have hne : numbersOf field members ≠ [] := fun h => by simp [h] at hne
      rw [and_iff_right rfl, ← divCount_eq_none hne hsum]
      cases a.sum.divCount (numbersOf field members).length with
      | some mean => exact iff_of_false fails_ok (by simp)
      | none => exact iff_of_true (fails_error.mpr trivial) rfl
    · rename_i hnone
      have hnone : numbersOf field members = [] := by simpa using hnone
      rw [hnone]
      exact iff_of_false fails_ok (by simp [AverageOverflows])

theorem ingestAll_snoc {field : String} {members : List Value} {r : Value}
    (ha : ingestAll field request members {} = .ok a) :
    ingestAll field request (members ++ [r]) {} = a.ingested field request r := by
  rw [ingestAll] at ha ⊢
  rw [List.foldlM_append, ha, ok_bind, List.foldlM_cons]
  exact bind_pure _

end Accumulator

/-! ### Field by field -/

/-- The statistics of a group lose a record at the first field that cannot keep it. -/
def StatsLost (stats : Stats) (members : List Value) (r : Value) : Prop :=
  FirstBad (FieldKept (members ++ [r])) (FieldLost members r) stats

namespace Accumulators

def Keeps (members : List Value) (x : String × StatRequest)
    (y : String × StatRequest × Accumulator) : Prop :=
  y.1 = x.1 ∧ y.2.1 = x.2 ∧ Accumulator.ingestAll x.1 x.2 members {} = .ok y.2.2

variable {stats : Stats} {members : List Value} {as : Accumulators}

theorem keeps_of_start (h : (start stats).ingestAll members = .ok as) :
    List.Forall₂ (Keeps members) stats as := by
  rw [ingestAll_eq_ok, start, List.forall₂_map_left_iff] at h
  exact h

theorem ingested_escapes {r : Value} (h : (start stats).ingestAll members = .ok as) :
    Escapes (as.ingested r) ↔ StatsLost stats members r := by
  rw [ingested_eq_mapM, Escapes, fails_mapM]
  refine (firstBad_of_forall₂ (keeps_of_start h) ?_ ?_).symm
  · intro x y hy
    obtain ⟨hfield, hrequest, ha⟩ := hy
    rw [FieldKept, Accumulator.ingestAll_snoc ha, hfield, hrequest]
    simp [map_eq_ok]
  · intro x y hy
    obtain ⟨hfield, hrequest, ha⟩ := hy
    rw [fails_map, hfield, hrequest]
    exact (ingested_escapes_iff ha).symm

theorem render_escapes (h : (start stats).ingestAll members = .ok as) :
    Escapes as.render ↔ ∃ x ∈ stats, AverageLost members x := by
  rw [render, Escapes, fails_mapM, ← firstBad_of_not fun _ => Iff.rfl]
  refine (firstBad_of_forall₂ (keeps_of_start h) ?_ ?_).symm
  · intro x y hy
    obtain ⟨hfield, hrequest, ha⟩ := hy
    dsimp only
    rw [hrequest, ← Accumulator.render_escapes ha, Escapes,
      ← exists_ok_iff fun _ => Accumulator.render_fault]
    cases y.2.2.render x.2 with
    | ok ms => exact iff_of_true ⟨ms, rfl⟩ ⟨_, rfl⟩
    | error e => exact iff_of_false (by simp) (by simp)
  · intro x y hy
    obtain ⟨hfield, hrequest, ha⟩ := hy
    rw [fails_bind_pure, hrequest]
    exact (Accumulator.render_escapes ha).symm

theorem render_fault {e : RecordError} (h : as.render = .error e) : e.Stray := by
  refine mapM_fault (fun x e he => ?_) h
  cases hr : x.2.2.render x.2.1 with
  | ok ms =>
    dsimp only at he
    rw [hr] at he
    cases he
  | error e' =>
    dsimp only at he
    rw [hr] at he
    cases he
    exact Accumulator.render_fault hr

end Accumulators

/-! ### Runs -/

def classmates (key : List Value) (ks : List (List Value × Value)) : List Value :=
  ((classes ks).find? fun c => Value.sameKeys c.key key).elim [] Class.members

/-- A record cannot be taken in behind others: a clause loses it, or else the statistics over all
records or over its class. -/
def RecordLost [Present] (spec : Spec) (before : List Value) (r : Value) : Prop :=
  match spec.clauses with
  | none => StatsLost spec.stats before r
  | some clauses =>
    FirstBad (fun c => Clause.Places c r) (fun c => Clause.Loses c r) clauses ∨
      ∃ key ks, Run.keyOf r 0 clauses = .ok (some key) ∧ keyed clauses before = .ok ks ∧
        StatsLost spec.stats (classmates key ks) r

namespace Run

theorem Group.add_escapes {r : Value} {g : Group} :
    Escapes (Group.add r g) ↔ Escapes (g.stats.ingested r) := by
  rw [Group.add, Accumulators.ingested]
  rcases g.stats.ingest r with ⟨stats, e | _⟩
  · exact fails_error.trans fails_error.symm
  · exact iff_of_false fails_ok fails_ok

theorem addTo_escapes {stats : Stats} (key : List Value) (r : Value) {cs : List Class}
    {gs : List Group} (h : List.Forall₂ (fun c g =>
      c.members.foldlM (fun g r => Group.add r g) ⟨c.key, 0, .start stats⟩ = .ok g) cs gs) :
    Escapes (addTo (.start stats) key r gs) ↔
      StatsLost stats ((cs.find? fun c => Value.sameKeys c.key key).elim [] Class.members) r := by
  induction h with
  | nil =>
    rw [addTo, Escapes, fails_bind_pure]
    exact Group.add_escapes.trans (Accumulators.ingested_escapes rfl)
  | @cons c g cs gs hg _ ih =>
    obtain ⟨as, has, rfl⟩ := Group.addAll_eq_ok.mp hg
    rw [addTo, List.find?_cons]
    by_cases hkey : Value.sameKeys c.key key
    · rw [if_pos hkey, hkey, Escapes, fails_bind_pure]
      exact Group.add_escapes.trans (Accumulators.ingested_escapes has)
    · rw [if_neg hkey, Bool.eq_false_of_not_eq_true hkey, Escapes, fails_bind_pure]
      exact ih

theorem feed_escapes [Present] {spec : Spec} {o : RunOptions} {before : List Value} {r : Value}
    {mid : Run}
    (hcounts : ∀ clauses, spec.clauses = some clauses → ∀ c ∈ clauses, c.grouping.Counts)
    (h : Run.feedAll { spec, options := o, stats := .start spec.stats } before = .ok mid) :
    Escapes (mid.feed r) ↔ RecordLost spec before r := by
  rw [RecordLost]
  cases hc : spec.clauses with
  | none =>
    obtain ⟨as, has, rfl⟩ := (feedAll_overall (by exact hc)).mp h
    refine Iff.trans ?_ (Accumulators.ingested_escapes has)
    rw [feed, Accumulators.ingested]
    dsimp only
    rw [hc]
    rcases as.ingest r with ⟨stats, e | _⟩
    · exact fails_error.trans fails_error.symm
    · exact iff_of_false fails_ok fails_ok
  | some clauses =>
    obtain ⟨ks, gs, hks, hgs, rfl⟩ := (feedAll_groups (by exact hc)).mp h
    rw [feed]
    dsimp only
    rw [hc]
    dsimp only
    rw [Escapes, fails_bind]
    refine or_congr (keyOf_escapes (hcounts clauses hc)) ?_
    have hadd := fun key => addTo_escapes key r (addAll_nil.mp hgs)
    constructor
    · intro h
      obtain ⟨key, hkey, h⟩ := h
      cases key with
      | none => exact absurd h fails_ok
      | some key => exact ⟨key, ks, hkey, hks, (hadd key).mp (fails_bind_pure.mp h)⟩
    · intro h
      obtain ⟨key, ks', hkey, hks', h⟩ := h
      rw [hks] at hks'
      cases hks'
      exact ⟨some key, hkey, fails_bind_pure.mpr ((hadd key).mpr h)⟩

end Run

/-! ### Sorting -/

/-- A lookup in an entry breaks off, or one in its statistics that names which the entry does not
have lead to. -/
def Entry.Stuck (e : Entry) (path : String) : Prop :=
  e.toValue.Stuck (Path.ofText path) ∨
    e.toValue.get (Path.ofText path) = .ok .missing ∧
      (Path.ofText path).headD "" ∉ entryNames ∧
      ∃ stats, e.stats = some stats ∧ (statsValue stats).Stuck (Path.ofText path)

/-- Behind paths that entries can be sorted by, one breaks off. -/
def PathsLost (paths : List String) (es : List Entry) : Prop :=
  ∃ before path after sorted, paths = before ++ path :: after ∧
    sortEntries after es = .ok sorted ∧ ∃ e ∈ sorted, e.Stuck (SortKey.ofText path).path

theorem Entry.get_fails {e : Entry} {path : String} :
    (∃ f, e.get path = .error f) ↔ e.Stuck path := by
  rw [Entry.get, Entry.Stuck]
  cases hv : e.toValue.get (Path.ofText path) with
  | error f => exact iff_of_true ⟨f, rfl⟩ (.inl (get_escapes.mp ⟨f, hv⟩))
  | ok v =>
    have hgiven (v : Value) :
        ¬ ∃ f : Path.Fault, (pure v : Except Path.Fault Value) = .error f := by
      intro h
      obtain ⟨f, h⟩ := h
      cases h
    rw [or_iff_right (not_stuck_of_get hv), ok_bind]
    cases v with
    | missing =>
      dsimp only
      split
      · rename_i hname
        exact iff_of_false (hgiven _) fun h => h.2.1 hname
      · rename_i hname
        cases hstats : e.stats with
        | none => exact iff_of_false (hgiven _) (by simp)
        | some stats =>
          simp only [true_and, hname, not_false_eq_true, Option.some.injEq, exists_eq_left']
          exact get_escapes
    | _ => exact iff_of_false (hgiven _) (by simp)

def SortFault.Lookup : SortFault → Prop
  | .path _ => True
  | _ => False

theorem sortEntries_eq_ok {paths : List String} {es sorted : List Entry} :
    sortEntries paths es = .ok sorted ↔
      sortByKeys Entry.get (paths.map SortKey.ofText) es = .ok sorted := by
  rw [sortEntries]
  split <;> simp_all

theorem sortByKey_fails {key : SortKey} {es : List Entry} :
    Fails SortFault.Lookup (sortByKey Entry.get key es) ↔ ∃ e ∈ es, e.Stuck key.path := by
  have hsorted (items : List (Value × Entry)) :
      ¬ Fails SortFault.Lookup (sortKeyed key.descending items) := by
    rw [sortKeyed]
    dsimp only
    split
    · exact fails_ok
    · split
      · exact fails_ok
      · exact fun h => fails_error.mp h
  rw [sortByKey, fails_bind, fails_mapM, ← firstBad_of_not fun _ => Iff.rfl]
  refine (or_iff_left fun h => ?_).trans (firstBad_congr (fun e => ?_) fun e => ?_)
  · obtain ⟨keyed, -, h⟩ := h
    exact hsorted _ (fails_bind_pure.mp h)
  · rw [← Entry.get_fails]
    cases e.get key.path with
    | ok v => exact iff_of_true ⟨_, rfl⟩ (by simp)
    | error f => exact iff_of_false (by simp) (not_not.mpr ⟨f, rfl⟩)
  · rw [← Entry.get_fails]
    cases e.get key.path with
    | ok v => exact iff_of_false fails_ok (by simp)
    | error f => exact iff_of_true (fails_error.mpr trivial) ⟨f, rfl⟩

/-- Entries are sorted by the last path first. -/
theorem sortByKeys_fails {paths : List String} {es : List Entry} :
    Fails SortFault.Lookup (sortByKeys Entry.get (paths.map SortKey.ofText) es) ↔
      PathsLost paths es := by
  induction paths with
  | nil => exact iff_of_false fails_ok (by simp [PathsLost])
  | cons path paths ih =>
    have hcons : sortByKeys Entry.get ((path :: paths).map SortKey.ofText) es =
        sortByKeys Entry.get (paths.map SortKey.ofText) es >>=
          sortByKey Entry.get (SortKey.ofText path) := rfl
    rw [hcons, fails_bind, ih]
    simp only [sortByKey_fails]
    constructor
    · intro h
      rcases h with ⟨before, path', after, sorted, rfl, hlost⟩ | ⟨sorted, hsorted, hlost⟩
      · exact ⟨path :: before, path', after, sorted, rfl, hlost⟩
      · exact ⟨[], path, paths, sorted, rfl, sortEntries_eq_ok.mpr hsorted, hlost⟩
    · intro h
      obtain ⟨before, path', after, sorted, hpaths, hsorted, hlost⟩ := h
      cases before with
      | nil =>
        cases hpaths
        exact .inr ⟨sorted, sortEntries_eq_ok.mp hsorted, hlost⟩
      | cons path'' before =>
        cases hpaths
        exact .inl ⟨before, path', after, sorted, rfl, hsorted, hlost⟩

theorem sortEntries_escapes {paths : List String} {es : List Entry} :
    Escapes (sortEntries paths es) ↔ PathsLost paths es := by
  rw [← sortByKeys_fails, sortEntries]
  cases sortByKeys Entry.get (paths.map SortKey.ofText) es with
  | ok sorted => exact iff_of_false fails_ok fails_ok
  | error f =>
    cases f <;> simp [fails_error, RecordError.Stray, SortFault.Lookup, Fault.isWritable,
      Fault.quoted, RecordFault.quoted]

/-! ### Whole aggregates -/

def Spec.started (spec : Spec) (o : AggregateOptions) : Run :=
  { spec, options := .read o, stats := .start spec.stats }

/-- The average of a field, over all records or over a class of them, does not exist. -/
def AveragesLost [Present] (spec : Spec) (records : List Value) : Prop :=
  match spec.clauses with
  | none => ∃ x ∈ spec.stats, AverageLost records x
  | some clauses => ∃ ks, keyed clauses records = .ok ks ∧
    ∃ c ∈ classes ks, ∃ x ∈ spec.stats, AverageLost c.members x

/-- What keeps an aggregate from a result without being a mismatch. -/
inductive Lost [Present] (spec : Spec) (o : AggregateOptions) (records : List Value) : Prop
  /-- Behind records that were taken in, one cannot be. -/
  | record (before : List Value) (r : Value) (after : List Value)
      (split : records = before ++ r :: after)
      (taken : ∃ mid, (spec.started o).feedAll before = .ok mid) (lost : RecordLost spec before r)
  /-- All records are taken in, but an average does not exist. -/
  | average (taken : ∃ last, (spec.started o).feedAll records = .ok last)
      (lost : AveragesLost spec records)
  /-- There are entries, but they cannot be looked up by a path to sort by. -/
  | sort (es : List Entry)
      (entries : (ofRecords (begin (.ok spec) (.ok (.read {}))) records).result = .ok (.groups es))
      (lost : PathsLost o.sort es)

section
variable {spec : Spec} {o : AggregateOptions} {records : List Value}

theorem taken_iff [Present] (o' : AggregateOptions) :
    (∃ last, (spec.started o).feedAll records = .ok last) ↔
      ∃ last, (spec.started o').feedAll records = .ok last := by
  cases hc : spec.clauses with
  | none =>
    have htaken (o : AggregateOptions) : (∃ last, (spec.started o).feedAll records = .ok last) ↔
        ∃ as, (Accumulators.start spec.stats).ingestAll records = .ok as := by
      constructor
      · intro h
        obtain ⟨last, h⟩ := h
        obtain ⟨as, has, -⟩ := (Run.feedAll_overall (by exact hc)).mp h
        exact ⟨as, has⟩
      · intro h
        obtain ⟨as, has⟩ := h
        exact ⟨_, (Run.feedAll_overall (by exact hc)).mpr ⟨as, has, rfl⟩⟩
    rw [htaken, htaken]
  | some clauses =>
    have htaken (o : AggregateOptions) : (∃ last, (spec.started o).feedAll records = .ok last) ↔
        ∃ ks gs, keyed clauses records = .ok ks ∧
          Run.addAll (.start spec.stats) ks [] = .ok gs := by
      constructor
      · intro h
        obtain ⟨last, h⟩ := h
        obtain ⟨ks, gs, hks, hgs, -⟩ := (Run.feedAll_groups (by exact hc)).mp h
        exact ⟨ks, gs, hks, hgs⟩
      · intro h
        obtain ⟨ks, gs, hks, hgs⟩ := h
        exact ⟨_, (Run.feedAll_groups (by exact hc)).mpr ⟨ks, gs, hks, hgs, rfl⟩⟩
    rw [htaken, htaken]

theorem feedAll_escapes [Present]
    (hcounts : ∀ clauses, spec.clauses = some clauses → ∀ c ∈ clauses, c.grouping.Counts) :
    Escapes ((spec.started o).feedAll records) ↔ ∃ before r after,
      records = before ++ r :: after ∧ (∃ mid, (spec.started o).feedAll before = .ok mid) ∧
        RecordLost spec before r := by
  rw [Escapes, Run.feedAll, fails_foldlM]
  constructor
  · intro h
    obtain ⟨before, r, after, mid, hrecords, hmid, h⟩ := h
    exact ⟨before, r, after, hrecords, ⟨mid, hmid⟩, (Run.feed_escapes hcounts hmid).mp h⟩
  · intro h
    obtain ⟨before, r, after, hrecords, ⟨mid, hmid⟩, h⟩ := h
    exact ⟨before, r, after, mid, hrecords, hmid, (Run.feed_escapes hcounts hmid).mpr h⟩

theorem entryOf_escapes {run : Run} {c : Class} {g : Group}
    (hg : c.members.foldlM (fun g r => Run.Group.add r g) ⟨c.key, 0, .start run.spec.stats⟩ =
      .ok g) : Escapes (run.entryOf g) ↔ ∃ x ∈ run.spec.stats, AverageLost c.members x := by
  obtain ⟨as, has, rfl⟩ := Run.Group.addAll_eq_ok.mp hg
  rw [Run.entryOf]
  split
  · rename_i hnone
    exact iff_of_false fails_ok (by simp [hnone])
  · exact fails_bind_pure.trans (fails_map.trans (Accumulators.render_escapes has))

theorem entryOf_fault {run : Run} {g : Group} {e : RecordError} (h : run.entryOf g = .error e) :
    e.Stray := by
  rw [Run.entryOf] at h
  split at h
  · cases h
  · cases hr : g.stats.render with
    | ok stats =>
      rw [hr] at h
      cases h
    | error e' =>
      rw [hr] at h
      cases h
      exact Accumulators.render_fault hr

theorem unsorted_result [Present] {clauses : List Clause} (hc : spec.clauses = some clauses)
    (hx : extensionStats? spec.stats = none) {ks : List (List Value × Value)} {gs : List Group}
    {es : List Entry} (hks : keyed clauses records = .ok ks)
    (hgs : Run.addAll (.start spec.stats) ks [] = .ok gs) (run : Run) (hrun : run.spec = spec) :
    (ofRecords (begin (.ok spec) (.ok (.read {}))) records).result = .ok (.groups es) ↔
      gs.mapM run.entryOf = .ok es := by
  have hentry (last : Run) (hlast : last.spec = spec) : last.entryOf = run.entryOf := by
    funext g
    rw [Run.entryOf, Run.entryOf, hlast, hrun]
  rw [begin_groups hc hx, ofRecords_eq_ok, mapM_eq_ok]
  constructor
  · intro h
    obtain ⟨_, last, ⟨⟩, hfeed, hrender⟩ := h
    obtain ⟨ks', gs', hks', hgs', rfl⟩ := (Run.feedAll_groups hc).mp hfeed
    obtain ⟨es', hes, ⟨⟩⟩ := (render_groups hc rfl rfl rfl).mp hrender
    rw [hks] at hks'
    cases hks'
    rw [hgs] at hgs'
    cases hgs'
    rwa [hentry _ rfl] at hes
  · intro h
    refine ⟨_, _, rfl, (Run.feedAll_groups hc).mpr ⟨ks, gs, hks, hgs, rfl⟩,
      (render_groups hc rfl rfl rfl).mpr ⟨es, ?_, rfl⟩⟩
    rwa [hentry _ rfl]

theorem render_escapes [Present] (hx : extensionStats? spec.stats = none)
    (ho : spec.clauses = none → o.sort = [] ∧ o.limit = none) {last : Run}
    (h : (spec.started o).feedAll records = .ok last) :
    Escapes last.render ↔ AveragesLost spec records ∨ ∃ es,
      (ofRecords (begin (.ok spec) (.ok (.read {}))) records).result = .ok (.groups es) ∧
        PathsLost o.sort es := by
  cases hc : spec.clauses with
  | none =>
    obtain ⟨as, has, rfl⟩ := (Run.feedAll_overall (by exact hc)).mp h
    have hpaths : ∀ es, ¬ PathsLost o.sort es := by
      rw [(ho hc).1]
      simp [PathsLost]
    rw [or_iff_left (by simp [hpaths]), AveragesLost, hc, Run.render]
    dsimp only [Spec.started]
    rw [hc]
    exact fails_bind_pure.trans (fails_bind_pure.trans (Accumulators.render_escapes has))
  | some clauses =>
    obtain ⟨ks, gs, hks, hgs, hlast⟩ := (Run.feedAll_groups (by exact hc)).mp h
    have hspec : last.spec = spec := by rw [hlast]; rfl
    have hrender : last.render = (do
        let es ← gs.mapM last.entryOf
        return .groups (Run.limited o.limit (← sortEntries o.sort es))) := by
      rw [Run.render, hspec, hc, hlast]
      rfl
    have hunsorted (es : List Entry) :
        (ofRecords (begin (.ok spec) (.ok (.read {}))) records).result = .ok (.groups es) ↔
          gs.mapM last.entryOf = .ok es := unsorted_result hc hx hks hgs last hspec
    have haverages : AveragesLost spec records ↔
        ∃ c ∈ classes ks, ∃ x ∈ spec.stats, AverageLost c.members x := by
      simp [AveragesLost, hc, hks]
    have hentries : Escapes (gs.mapM last.entryOf) ↔
        ∃ c ∈ classes ks, ∃ x ∈ spec.stats, AverageLost c.members x := by
      rw [Escapes, fails_mapM, ← firstBad_of_not fun _ => Iff.rfl]
      have hgroups := Run.addAll_nil.mp hgs
      rw [← hspec] at hgroups ⊢
      refine (firstBad_of_forall₂ hgroups (fun c g hg => ?_) fun c g hg => ?_).symm
      · rw [exists_ok_iff fun _ => entryOf_fault]
        exact not_congr (entryOf_escapes hg).symm
      · exact (entryOf_escapes hg).symm
    simp only [hunsorted, haverages]
    rw [hrender, Escapes, fails_bind]
    exact or_congr hentries (exists_congr fun es => and_congr_right fun _ =>
      fails_bind_pure.trans sortEntries_escapes)

end

/-- An accepted request over records gives a result or tells of a mismatch, with its place, unless
it gets lost on the way. -/
theorem records_answered_iff [Present] {config : RequestOptions} {v : Value} {spec : Spec}
    {o : AggregateOptions} (hspec : Spec.ofRequest config v = .ok spec)
    (hx : extensionStats? spec.stats = none)
    (ho : spec.clauses = none → o.sort = [] ∧ o.limit = none) (records : List Value) :
    let result := (ofRecords (begin (.ok spec) (.ok (.read o))) records).result
    ((∃ r, result = .ok r) ∨ ∃ fault place,
      result = .error (.domain { fault := .record fault, location := place })) ↔
      ¬ Lost spec o records := by
  intro result
  have hcounts : ∀ clauses, spec.clauses = some clauses → ∀ c ∈ clauses, c.grouping.Counts :=
    fun _ hc => counts_of_accepted hspec hc
  have hbegin : begin (.ok spec) (.ok (.read o)) = .ok (spec.started o) :=
    begin_eq_ok.mpr ⟨spec, .read o, rfl, rfl, hx, fun hc => by
      simp [RunOptions.presents?, ho hc], rfl⟩
  have hresult : result = ((spec.started o).feedAll records >>= Run.render).mapError
      RecordError.failure := by
    dsimp only [result]
    rw [hbegin, ofRecords_result]
  have hlost : Lost spec o records ↔
      Escapes ((spec.started o).feedAll records >>= Run.render) := by
    rw [Escapes, fails_bind]
    constructor
    · intro h
      cases h with
      | record before r after split taken lost =>
        exact .inl ((feedAll_escapes hcounts).mpr ⟨before, r, after, split, taken, lost⟩)
      | average taken lost =>
        obtain ⟨last, hlast⟩ := taken
        exact .inr ⟨last, hlast, (render_escapes hx ho hlast).mpr (.inl lost)⟩
      | sort es entries lost =>
        obtain ⟨run, last, hrun, hlast, -⟩ := ofRecords_eq_ok.mp entries
        obtain ⟨_, _, ⟨⟩, ⟨⟩, -, -, rfl⟩ := begin_eq_ok.mp hrun
        obtain ⟨last', hlast'⟩ := (taken_iff o).mp ⟨last, hlast⟩
        exact .inr ⟨last', hlast', (render_escapes hx ho hlast').mpr (.inr ⟨es, entries, lost⟩)⟩
    · intro h
      rcases h with h | ⟨last, hlast, h⟩
      · obtain ⟨before, r, after, split, taken, lost⟩ := (feedAll_escapes hcounts).mp h
        exact .record before r after split taken lost
      · rcases (render_escapes hx ho hlast).mp h with lost | ⟨es, entries, lost⟩
        · exact .average ⟨last, hlast⟩ lost
        · exact .sort es entries lost
  rw [hresult, hlost]
  cases (spec.started o).feedAll records >>= Run.render with
  | ok r => exact iff_of_true (.inl ⟨r, rfl⟩) fails_ok
  | error e =>
    rw [Escapes, fails_error]
    cases e with
    | mismatch fault place =>
      rw [RecordError.Stray, Bool.not_eq_false]
      constructor
      · rintro (⟨r, h⟩ | ⟨fault', place', h⟩)
        · cases h
        · exact (DomainError.failure_eq_domain.mp (Except.error.inj h)).1
      · intro hwritable
        exact .inr ⟨fault, place, congrArg _ (DomainError.failure_of_writable hwritable)⟩
    | _ =>
      refine iff_of_false ?_ (not_not.mpr trivial)
      rintro (⟨r, h⟩ | ⟨fault, place, h⟩) <;> cases h

/-- A record of a day is placed in its group; one an hour before the calendar starts is lost. -/
theorem records_answered_of_day_and_early_hour :
    let clause : Value := .object [("field", .str "t"), ("timeComponent", .str "day")]
    let request : Value := .object [("groupBy", clause), ("total", .bool true)]
    let spec : Spec := ⟨some [⟨"t", .calendar .day 1⟩], [], true, []⟩
    let r (t : String) : Value := .object [("t", .str t)]
    Spec.ofRequest {} request = .ok spec ∧ extensionStats? spec.stats = none ∧
      (spec.clauses = none → AggregateOptions.sort {} = [] ∧ AggregateOptions.limit {} = none) ∧
      ¬ Lost spec {} [r "2012-01-01T08:00:00Z"] ∧ Lost spec {} [r "0001-01-01T00:00:00+01:00"] := by
  intro clause request spec r
  have hspec : Spec.ofRequest {} request = .ok spec := rfl
  have hx : extensionStats? spec.stats = none := rfl
  have ho : spec.clauses = none →
      AggregateOptions.sort {} = [] ∧ AggregateOptions.limit {} = none := fun _ => ⟨rfl, rfl⟩
  refine ⟨hspec, hx, ho, ?_, ?_⟩
  · exact (records_answered_iff hspec hx ho _).mp (.inl ⟨_, rfl⟩)
  · by_contra hlost
    have hanswered := (records_answered_iff hspec hx ho _).mpr hlost
    have hresult : (ofRecords (begin (.ok spec) (.ok (.read {})))
        [r "0001-01-01T00:00:00+01:00"]).result = .error (.time .outOfRange) := rfl
    rw [hresult] at hanswered
    rcases hanswered with ⟨_, h⟩ | ⟨_, _, h⟩ <;> cases h

/-- A record whose time is an hour before the calendar starts is well written, and stops the run. -/
theorem early_record_unanswered :
    let clause : Value := .object [("field", .str "t"), ("timeComponent", .str "day")]
    let request : Value := .object [("groupBy", clause), ("total", .bool true)]
    let record : Value := .object [("t", .str "0001-01-01T00:00:00+01:00")]
    ∃ spec, Spec.ofRequest {} request = .ok spec ∧
      let result := (ofRecords (begin (.ok spec) (.ok (.read {}))) [record]).result
      result = .error (.time .outOfRange) ∧
        ¬ ((∃ r, result = .ok r) ∨ ∃ fault place,
          result = .error (.domain { fault := .record fault, location := place })) := by
  intro clause request record
  refine ⟨⟨some [⟨"t", .calendar .day 1⟩], [], true, []⟩, rfl, ?_⟩
  intro result
  have hresult : result = .error (.time .outOfRange) := rfl
  rw [hresult]
  exact ⟨rfl, by simp⟩

end Aggregate
end RecordStore
