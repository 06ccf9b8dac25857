import RecordStore.Proofs.KeyClasses
import RecordStore.Proofs.WholeRun

/-! A run with clauses keeps all its groups side by side as records come in. Each group ends up as
if the records of its class had come in alone. -/
namespace RecordStore
namespace Aggregate

/-! ### Statistics of a list of records -/

namespace Accumulators

def ingested (record : Value) (as : Accumulators) : Except RecordError Accumulators :=
  match as.ingest record with
  | (as, .ok ()) => .ok as
  | (_, .error e) => .error e

def ingestAll (records : List Value) (as : Accumulators) : Except RecordError Accumulators :=
  records.foldlM (fun as r => as.ingested r) as

def fields (as : Accumulators) : List String := as.map Prod.fst

theorem fields_ingest (record : Value) (as : Accumulators) :
    (as.ingest record).1.fields = as.fields := by
  induction as with
  | nil => rfl
  | cons a as ih =>
    obtain ⟨field, request, a⟩ := a
    rw [ingest]
    split
    · rfl
    · split
      · rfl
      · simpa [fields] using ih

theorem fields_ingestAll {records : List Value} {as bs : Accumulators}
    (h : as.ingestAll records = .ok bs) : bs.fields = as.fields := by
  refine foldlM_keeps (P := fun bs => bs.fields = as.fields) ?_ rfl h
  intro b r c hb hc
  have hf := fields_ingest r b
  rw [ingested] at hc
  split at hc
  · rename_i hi
    cases hc
    rw [hi] at hf
    exact hf.trans hb
  · cases hc

theorem names_render {as : Accumulators} {stats : List (String × Record)}
    (h : as.render = .ok stats) : stats.map Prod.fst = as.fields := by
  rw [render, mapM_eq_ok] at h
  induction h with
  | nil => rfl
  | @cons a s as stats ha _ ih =>
    obtain ⟨ms, -, hs⟩ := bind_eq_ok.mp ha
    rw [← pure_eq_ok.mp hs]
    simp only [List.map_cons, fields] at ih ⊢
    rw [ih]

end Accumulators

/-! ### Groups side by side -/

namespace Run

theorem Group.add_eq_ok {record : Value} {g h : Group} : Group.add record g = .ok h ↔
    ∃ stats, g.stats.ingested record = .ok stats ∧
      h = { g with total := g.total + 1, stats } := by
  rw [Group.add, Accumulators.ingested]
  rcases g.stats.ingest record with ⟨stats, _ | _⟩ <;> simp [eq_comm]

theorem Group.add_key {record : Value} {g h : Group} (ha : Group.add record g = .ok h) :
    h.key = g.key := by
  obtain ⟨stats, -, rfl⟩ := Group.add_eq_ok.mp ha
  rfl

theorem Group.addAll_eq_ok {members : List Value} {g h : Group} :
    members.foldlM (fun g r => Group.add r g) g = .ok h ↔
      ∃ stats, g.stats.ingestAll members = .ok stats ∧
        h = { g with total := g.total + members.length, stats } := by
  induction members generalizing g with
  | nil => simp [Accumulators.ingestAll, pure, Except.pure, eq_comm]
  | cons r rest ih =>
    rw [Accumulators.ingestAll, List.foldlM_cons, List.foldlM_cons, List.length_cons,
      Nat.add_comm rest.length, ← Nat.add_assoc]
    simp only [bind_eq_ok]
    constructor
    · intro h
      obtain ⟨g', hg, hr⟩ := h
      obtain ⟨stats, hs, rfl⟩ := Group.add_eq_ok.mp hg
      obtain ⟨last, hl, rfl⟩ := ih.mp hr
      exact ⟨last, ⟨stats, hs, hl⟩, rfl⟩
    · intro h
      obtain ⟨last, ⟨stats, hs, hl⟩, rfl⟩ := h
      exact ⟨_, Group.add_eq_ok.mpr ⟨stats, hs, rfl⟩, ih.mpr ⟨last, hl, rfl⟩⟩

def addAll (fresh : Accumulators) (ks : List (List Value × Value)) (gs : List Group) :
    Except RecordError (List Group) :=
  ks.foldlM (fun gs p => addTo fresh p.1 p.2 gs) gs

/-- The first group takes all that share its key, the rest of them what is left. -/
theorem addAll_cons {fresh : Accumulators} {ks : List (List Value × Value)} {g : Group}
    {gs hs : List Group} : addAll fresh ks (g :: gs) = .ok hs ↔
      ∃ h rest, ((sharing g.key ks).map Prod.snd).foldlM (fun g r => Group.add r g) g = .ok h ∧
        addAll fresh (others g.key ks) gs = .ok rest ∧ hs = h :: rest := by
  -- Taking a record in leaves a group its key, so that the same ones are shared all along.
  induction ks generalizing g gs with
  | nil => simp [addAll, sharing, others, pure, Except.pure, eq_comm]
  | cons p ks ih =>
    rw [addAll, List.foldlM_cons, addTo]
    by_cases hp : Value.sameKeys g.key p.1
    · rw [if_pos hp, sharing_cons_pos hp, others_cons_pos hp, List.map_cons, List.foldlM_cons]
      simp only [bind_eq_ok, pure_eq_ok]
      constructor
      · intro h
        obtain ⟨_, ⟨g', hg, rfl⟩, hall⟩ := h
        obtain ⟨h, rest, hh, hr, rfl⟩ := ih.mp hall
        rw [Group.add_key hg] at hh hr
        exact ⟨h, rest, ⟨g', hg, hh⟩, hr, rfl⟩
      · rintro ⟨h, rest, ⟨g', hg, hh⟩, hr, rfl⟩
        refine ⟨_, ⟨g', hg, rfl⟩, ih.mpr ⟨h, rest, ?_, ?_, rfl⟩⟩
        · rwa [Group.add_key hg]
        · rwa [Group.add_key hg]
    · rw [if_neg hp, sharing_cons_neg hp, others_cons_neg hp]
      simp only [addAll, List.foldlM_cons, bind_eq_ok, pure_eq_ok]
      constructor
      · intro h
        obtain ⟨_, ⟨gs', hg, rfl⟩, hall⟩ := h
        obtain ⟨h, rest, hh, hr, rfl⟩ := ih.mp hall
        exact ⟨h, rest, hh, ⟨gs', hg, hr⟩, rfl⟩
      · rintro ⟨h, rest, hh, ⟨gs', hg, hr⟩, rfl⟩
        exact ⟨_, ⟨gs', hg, rfl⟩, ih.mpr ⟨h, rest, hh, hr, rfl⟩⟩

/-- From no groups on, each class of records makes its own. -/
theorem addAll_nil {fresh : Accumulators} {ks : List (List Value × Value)} {gs : List Group} :
    addAll fresh ks [] = .ok gs ↔ List.Forall₂ (fun c g =>
      c.members.foldlM (fun g r => Group.add r g) ⟨c.key, 0, fresh⟩ = .ok g) (classes ks) gs := by
  induction ks using classes.induct generalizing gs with
  | case1 => simp [addAll, classes, pure, Except.pure, eq_comm]
  | case2 key r rest ih =>
    rw [classes, List.forall₂_cons_left_iff, addAll, List.foldlM_cons, addTo]
    simp only [bind_eq_ok, pure_eq_ok, List.foldlM_cons]
    constructor
    · intro h
      obtain ⟨_, ⟨g, hg, rfl⟩, hall⟩ := h
      obtain ⟨h, others, hh, ho, rfl⟩ := addAll_cons.mp hall
      rw [Group.add_key hg] at hh ho
      exact ⟨h, others, ⟨g, hg, hh⟩, ih.mp ho, rfl⟩
    · rintro ⟨h, others, ⟨g, hg, hh⟩, ho, rfl⟩
      refine ⟨_, ⟨g, hg, rfl⟩, addAll_cons.mpr ⟨h, others, ?_, ?_, rfl⟩⟩
      · rwa [Group.add_key hg]
      · rw [Group.add_key hg]
        exact ih.mpr ho

/-! ### Whole runs -/

theorem feed_overall [Present] {run next : Run} (hc : run.spec.clauses = none) {record : Value} :
    run.feed record = .ok next ↔ ∃ stats, run.stats.ingested record = .ok stats ∧
      next = { run with seen := run.seen + 1, stats } := by
  rw [Accumulators.ingested]
  simp only [feed, hc]
  rcases run.stats.ingest record with ⟨stats, _ | _⟩ <;> simp [eq_comm, pure, Except.pure]

theorem feedAll_overall [Present] {run last : Run} (hc : run.spec.clauses = none)
    {records : List Value} :
    run.feedAll records = .ok last ↔ ∃ stats, run.stats.ingestAll records = .ok stats ∧
      last = { run with seen := run.seen + records.length, stats } := by
  induction records generalizing run with
  | nil => simp [feedAll, Accumulators.ingestAll, pure, Except.pure, eq_comm]
  | cons r rest ih =>
    rw [feedAll, Accumulators.ingestAll, List.foldlM_cons, List.foldlM_cons, List.length_cons,
      Nat.add_comm rest.length, ← Nat.add_assoc]
    simp only [bind_eq_ok]
    constructor
    · intro h
      obtain ⟨next, hn, hr⟩ := h
      obtain ⟨stats, hs, rfl⟩ := (feed_overall hc).mp hn
      obtain ⟨stats', hl, rfl⟩ := (ih (by exact hc)).mp hr
      exact ⟨stats', ⟨stats, hs, hl⟩, rfl⟩
    · intro h
      obtain ⟨stats', ⟨stats, hs, hl⟩, rfl⟩ := h
      exact ⟨_, (feed_overall hc).mpr ⟨stats, hs, rfl⟩, (ih (by exact hc)).mpr ⟨stats', hl, rfl⟩⟩

theorem feed_groups [Present] {run next : Run} {clauses : List Clause}
    (hc : run.spec.clauses = some clauses) {record : Value} : run.feed record = .ok next ↔
      ∃ key groups, keyOf record 0 clauses = .ok key ∧
        addAll run.stats (key.map fun k => (k, record)).toList run.groups = .ok groups ∧
        next = { run with seen := run.seen + 1, groups } := by
  simp only [feed, hc, bind_eq_ok]
  constructor
  · intro h
    obtain ⟨key, hk, h⟩ := h
    cases key with
    | none =>
      rw [← pure_eq_ok.mp h]
      exact ⟨none, run.groups, hk, rfl, rfl⟩
    | some key =>
      obtain ⟨groups, hg, h⟩ := bind_eq_ok.mp h
      rw [← pure_eq_ok.mp h]
      refine ⟨some key, groups, hk, ?_, rfl⟩
      simp [addAll, hg]
  · intro h
    obtain ⟨key, groups, hk, hg, rfl⟩ := h
    refine ⟨key, hk, ?_⟩
    cases key with
    | none =>
      cases hg
      rfl
    | some key =>
      have hg : addTo run.stats key record run.groups = .ok groups := by simpa [addAll] using hg
      simp [hg, bind, Except.bind, pure, Except.pure]

theorem feedAll_groups [Present] {run last : Run} {clauses : List Clause}
    (hc : run.spec.clauses = some clauses) {records : List Value} :
    run.feedAll records = .ok last ↔ ∃ ks groups, keyed clauses records = .ok ks ∧
      addAll run.stats ks run.groups = .ok groups ∧
      last = { run with seen := run.seen + records.length, groups } := by
  induction records generalizing run with
  | nil => simp [feedAll, keyed, addAll, pure, Except.pure, eq_comm]
  | cons r rest ih =>
    rw [feedAll, List.foldlM_cons, bind_eq_ok, List.length_cons, Nat.add_comm rest.length,
      ← Nat.add_assoc]
    constructor
    · intro h
      obtain ⟨next, hn, hr⟩ := h
      obtain ⟨key, groups, hk, hg, rfl⟩ := (feed_groups hc).mp hn
      obtain ⟨ks, groups', hks, hl, rfl⟩ := (ih (by exact hc)).mp hr
      refine ⟨_, groups', bind_eq_ok.mpr ⟨key, hk, bind_eq_ok.mpr ⟨ks, hks, rfl⟩⟩, ?_, rfl⟩
      rw [addAll, List.foldlM_append, bind_eq_ok]
      exact ⟨groups, hg, hl⟩
    · intro h
      obtain ⟨_, groups', hks, hl, rfl⟩ := h
      obtain ⟨key, hk, hks⟩ := bind_eq_ok.mp hks
      obtain ⟨ks, hks, hl'⟩ := bind_eq_ok.mp hks
      rw [← pure_eq_ok.mp hl', addAll, List.foldlM_append, bind_eq_ok] at hl
      obtain ⟨groups, hg, hl⟩ := hl
      exact ⟨_, (feed_groups hc).mpr ⟨key, groups, hk, hg, rfl⟩,
        (ih (by exact hc)).mpr ⟨ks, groups', hks, hl, rfl⟩⟩

end Run

end Aggregate
end RecordStore
