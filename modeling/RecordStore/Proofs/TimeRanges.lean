import RecordStore.Proofs.CanonicalText
import RecordStore.Proofs.Requests

/-! Ranges of time as a request gives them. They are checked step by step, from each bound to the
next, by the canonical texts of the bounds. -/
namespace RecordStore.Aggregate

/-- Two instants of which ranges want the first before the second, or at most the same. -/
structure Step where
  first : Instant
  second : Instant
  strict : Bool

/-- Whether a step goes up, for a sense of what is before what. -/
def Step.Rises (before : Instant → Instant → Prop) (p : Step) : Prop :=
  if p.strict then before p.first p.second else ¬ before p.second p.first

/-- Whether a step is between a whole second and a fraction of the same. -/
def Step.Clashes (p : Step) : Prop := Instant.Clash p.first p.second

/-- What a request gives for ranges of time: the boundaries between them, or their bounds. -/
inductive TimeRanges where
  | boundaries (ts : List Instant)
  | bounds (rs : List (Range Instant))

namespace TimeRanges

def within (r : Range Instant) : List Step :=
  match r.start, r.finish with
  | some s, some f => [⟨s, f, true⟩]
  | _, _ => []

def across (r next : Range Instant) : List Step :=
  match r.finish, next.start with
  | some f, some s => [⟨f, s, false⟩]
  | _, _ => []

def boundaryStep (t u : Instant) : Step := ⟨t, u, true⟩

def after (r : Range Instant) : List (Range Instant) → List Step
  | [] => []
  | next :: rest => across r next ++ within next ++ after next rest

def rangeSteps : List (Range Instant) → List Step
  | [] => []
  | r :: rest => within r ++ after r rest

def steps : TimeRanges → List Step
  | boundaries ts => List.zipWith boundaryStep ts ts.tail
  | bounds rs => rangeSteps rs

/-- Only the first range lacks a start, and only the last an end. -/
def Complete : TimeRanges → Prop
  | boundaries _ => True
  | bounds rs => (∀ r ∈ rs.tail, r.start.isSome) ∧ ∀ r ∈ rs.dropLast, r.finish.isSome

def Ascend (before : Instant → Instant → Prop) (g : TimeRanges) : Prop :=
  g.Complete ∧ ∀ p ∈ g.steps, p.Rises before

def InText (t u : Instant) : Prop := t.text < u.text
def InTime (t u : Instant) : Prop := t.micros < u.micros

def ReadsBound [Present] (v : Option Value) : Option Instant → Prop
  | none => v = none ∨ v = some .null
  | some t => ∃ w, v = some w ∧ w.toInstant = .ok t

def ReadsRange [Present] (v : Value) (r : Range Instant) : Prop :=
  ∃ ms : Record, v = .object ms ∧ namesOutside ["start", "end"] ms = [] ∧
    ReadsBound (ms.get? "start") r.start ∧ ReadsBound (ms.get? "end") r.finish

theorem objects_of_ranges [Present] {items : List Value} {rs : List (Range Instant)}
    (h : List.Forall₂ ReadsRange items rs) :
    ∃ objects : List Record, items = objects.map .object ∧
      List.Forall₂ (fun ms r => ReadsRange (.object ms) r) objects rs := by
  induction h with
  | nil => exact ⟨[], rfl, .nil⟩
  | cons hr _ ih =>
    obtain ⟨objects, rfl, ih⟩ := ih
    obtain ⟨ms, rfl, hms⟩ := id hr
    exact ⟨ms :: objects, rfl, .cons hr ih⟩

def GivenBy [Present] (g : TimeRanges) (v : Value) : Prop :=
  ∃ items, v.sequence? = some items ∧ items ≠ [] ∧ match g with
    | boundaries ts => List.Forall₂ (fun v t => v.toInstant = .ok t) items ts
    | bounds rs => List.Forall₂ ReadsRange items rs

/-! ### Bounds are read as times -/

theorem dateLike_of_toInstant [Present] {v : Value} {t : Instant} (h : v.toInstant = .ok t) :
    (∃ s, v = .str s) ∨ (∃ d, v = .date d) ∨ ∃ u, v = .datetime u := by
  cases v <;> simp [Value.toInstant] at h ⊢

theorem read_boundary [Present] (place : Location) {v : Value} {t : Instant}
    (h : v.toInstant = .ok t) :
    Boundary.read place v = .ok (.time t) := by
  rcases dateLike_of_toInstant h with ⟨s, rfl⟩ | ⟨d, rfl⟩ | ⟨u, rfl⟩ <;>
    simp [Boundary.read, Value.isDateLike, h]

theorem members?_of_toInstant [Present] {v : Value} {t : Instant} (h : v.toInstant = .ok t) :
    v.members? = none := by
  rcases dateLike_of_toInstant h with ⟨s, rfl⟩ | ⟨d, rfl⟩ | ⟨u, rfl⟩ <;> rfl

def timed (r : Range Instant) : Range Boundary := ⟨r.start.map .time, r.finish.map .time⟩

theorem read_bound [Present] {place : Location} {v : Option Value} {t : Option Instant}
    (h : ReadsBound v t) : rangeBound place v = .ok (t.map .time) := by
  cases t with
  | none => rcases h with rfl | rfl <;> rfl
  | some t =>
    obtain ⟨w, rfl, h⟩ := h
    have hw := read_boundary place h
    rcases dateLike_of_toInstant h with ⟨s, rfl⟩ | ⟨d, rfl⟩ | ⟨u, rfl⟩ <;>
      exact bind_eq_ok.mpr ⟨_, hw, rfl⟩

theorem read_range [Present] {place : Location} {ms : Record} {r : Range Instant}
    (h : ReadsRange (.object ms) r) : rangeOf place ms = .ok (timed r) := by
  obtain ⟨_, ⟨⟩, hn, hs, hf⟩ := h
  simp only [rangeOf, bind_eq_ok, pure_eq_ok, require_eq_ok]
  exact ⟨(), by simp [hn], _, read_bound hs, _, read_bound hf, rfl⟩

/-! ### Ranges are checked step by step -/

theorem ge_eq_false_iff (t u : Instant) :
    (Boundary.time t).ge (.time u) = false ↔ InText t u := by
  simp [Boundary.ge, InText]

theorem gt_eq_false_iff (t u : Instant) :
    (Boundary.time t).gt (.time u) = false ↔ ¬ InText u t := by
  simp [Boundary.gt, InText]

theorem ascending_iff (ts : List Instant) :
    ascending (ts.map .time) ↔ ∀ p ∈ (boundaries ts).steps, p.Rises InText := by
  induction ts with
  | nil => simp [ascending, steps]
  | cons t rest ih =>
    cases rest with
    | nil => simp [ascending, steps]
    | cons u rest =>
      simp only [List.map_cons, ascending, Bool.and_eq_true, Bool.not_eq_true',
        ge_eq_false_iff] at ih ⊢
      rw [ih]
      simp [steps, boundaryStep, Step.Rises]

theorem inOrder_timed {q? : Option (Range Instant)} {r : Range Instant} :
    InOrder (q?.map timed) (timed r) ↔ (r.start.isSome ∨ q? = none) ∧
      (∀ p ∈ within r, p.Rises InText) ∧ ∀ q ∈ q?, ∀ p ∈ across q r, p.Rises InText := by
  obtain ⟨start, finish⟩ := r
  have hacross : (∀ q ∈ q?, ∀ p ∈ across q ⟨start, finish⟩, p.Rises InText) ↔
      ∀ f ∈ q?.bind (·.finish), ∀ s ∈ start, ¬ InText s f := by
    cases q? with
    | none => simp
    | some q =>
      obtain ⟨-, f⟩ := q
      cases f <;> cases start <;> simp [across, Step.Rises]
  have hbefore : (q?.map timed).bind (·.finish) = (q?.bind (·.finish)).map .time := by
    cases q? <;> rfl
  rw [inOrder_iff, hacross, hbefore]
  generalize q?.bind (·.finish) = last
  cases start <;> cases finish <;> cases last <;>
    simp [timed, within, Step.Rises, ge_eq_false_iff, gt_eq_false_iff]

theorem checkRanges_cons (place : Location) (q? : Option (Range Instant)) (r : Range Instant)
    (rest : List (Range Instant)) :
    checkRanges place (q?.map timed) ((r :: rest).map timed) = .ok () ↔
      (r.start.isSome ∨ q? = none) ∧ (r.finish.isSome ∨ rest = []) ∧
      (∀ p ∈ within r, p.Rises InText) ∧ (∀ q ∈ q?, ∀ p ∈ across q r, p.Rises InText) ∧
      checkRanges place (some (timed r)) (rest.map timed) = .ok () := by
  have hfinish : (timed r).finish.isSome = r.finish.isSome := Option.isSome_map
  rw [List.map_cons, checkRanges_cons_eq_ok, inOrder_timed, hfinish, List.map_eq_nil_iff]
  simp only [and_assoc, and_left_comm]

theorem ends_cons {r : Range Instant} {rest : List (Range Instant)} :
    (∀ q ∈ (r :: rest).dropLast, q.finish.isSome) ↔
      (r.finish.isSome ∨ rest = []) ∧ ∀ q ∈ rest.dropLast, q.finish.isSome := by
  cases rest <;> simp

theorem checkRanges_after {place : Location} {q : Range Instant} {rs : List (Range Instant)} :
    checkRanges place (some (timed q)) (rs.map timed) = .ok () ↔
      (∀ r ∈ rs, r.start.isSome) ∧ (∀ r ∈ rs.dropLast, r.finish.isSome) ∧
      ∀ p ∈ after q rs, p.Rises InText := by
  -- Each range is the one before the next, so that the range before stays general.
  induction rs generalizing q with
  | nil => simp [checkRanges, after]
  | cons r rest ih =>
    have h := checkRanges_cons place (some q) r rest
    rw [ih] at h
    rw [← Option.map_some, h, after, ends_cons]
    simp only [List.forall_mem_append, List.forall_mem_cons, reduceCtorEq, or_false,
      Option.mem_some_iff, forall_eq']
    tauto

/-- Ranges pass if they are complete and their texts ascend. -/
theorem checkRanges_iff (place : Location) {rs : List (Range Instant)} :
    checkRanges place none (rs.map timed) = .ok () ↔ (bounds rs).Ascend InText := by
  cases rs with
  | nil => simp [checkRanges, Ascend, Complete, steps, rangeSteps]
  | cons r rest =>
    have h := checkRanges_cons place none r rest
    rw [checkRanges_after] at h
    rw [← Option.map_none, h, Ascend, Complete, steps, rangeSteps, ends_cons]
    simp only [List.forall_mem_append, List.tail_cons, or_true, true_and, Option.not_mem_none,
      IsEmpty.forall_iff, implies_true]
    tauto

theorem refuses_checkRanges {place : Location} (before : Option (Range Boundary))
    (rs : List (Range Boundary)) : Refuses place (checkRanges place before rs) := by
  induction rs generalizing before with
  | nil => exact refuses_ok
  | cons r rest ih =>
    rw [checkRanges]
    refine (refuses_require rfl).bind fun _ _ => (refuses_require rfl).bind fun _ _ => ?_
    dsimp only
    split
    · refine (refuses_require rfl).bind fun _ _ => ?_
      split
      · exact (refuses_require rfl).bind fun _ _ => ih _
      · exact ih _
    · split
      · exact (refuses_require rfl).bind fun _ _ => ih _
      · exact ih _

theorem unmixed_of_times (place : Location) {rs : List (Range Boundary)}
    (h : ∀ b ∈ Aggregate.bounds rs, b.time?.isSome) : ∃ g, unmixed place rs = .ok g := by
  have hall : ((Aggregate.bounds rs).all (·.time?.isSome)) = true := List.all_eq_true.mpr h
  simp only [unmixed, bind_eq_ok, require_eq_ok, hall, Bool.or_true, true_and, exists_const]
  split
  · exact ⟨_, rfl⟩
  · exact ⟨_, rfl⟩

theorem times_between (start : Option Instant) (ts : List Instant) :
    ∀ b ∈ Aggregate.bounds (between (start.map .time) (ts.map .time)), b.time?.isSome := by
  induction ts generalizing start with
  | nil => cases start <;> simp [between, Aggregate.bounds, Boundary.time?]
  | cons t rest ih =>
    have h := ih (some t)
    rw [Option.map_some] at h
    rw [List.map_cons, between, Aggregate.bounds, List.flatMap_cons, List.forall_mem_append]
    refine ⟨?_, h⟩
    cases start <;> simp [Boundary.time?]

theorem times_timed (rs : List (Range Instant)) :
    ∀ b ∈ Aggregate.bounds (rs.map timed), b.time?.isSome := by
  intro b hb
  obtain ⟨_, hr, hb⟩ := List.mem_flatMap.mp hb
  obtain ⟨r, -, rfl⟩ := List.mem_map.mp hr
  have htime {t? : Option Instant} (h : b ∈ (t?.map Boundary.time).toList) : b.time?.isSome := by
    cases t? with
    | none => cases h
    | some t =>
      rw [List.mem_singleton.mp h]
      rfl
  exact (List.mem_append.mp hb).elim htime htime

theorem exists_ok_of_check {check : Reading Unit} {α : Type} {r : Reading α}
    (hr : ∃ a, r = .ok a) : (∃ a, (check >>= fun _ => r) = .ok a) ↔ check = .ok () := by
  obtain ⟨a, rfl⟩ := hr
  simp only [bind_eq_ok]
  constructor
  · intro h
    obtain ⟨_, _, h, _⟩ := h
    exact h
  · intro h
    exact ⟨a, (), h, rfl⟩

/-- What a value gives is accepted if it ascends in text, and refused otherwise. -/
theorem readRanges_iff [Present] (place : Location) {v : Value} {g : TimeRanges}
    (hv : g.GivenBy v) :
    ((∃ r, readRanges place v = .ok r) ↔ g.Ascend InText) ∧ Refuses place (readRanges place v) := by
  obtain ⟨items, hitems, hne, hg⟩ := hv
  cases g with
  | boundaries ts =>
    have hno : ∀ i ∈ items, i.members? = none := by
      intro i hi
      obtain ⟨t, -, h⟩ := exists_of_forall₂ hg hi
      exact members?_of_toInstant h
    have hread : items.mapM (Boundary.read place) = .ok (ts.map .time) := by
      rw [mapM_eq_ok, List.forall₂_map_right_iff]
      exact hg.imp fun _ _ => read_boundary place
    have hpure := unmixed_of_times place (times_between none ts)
    rw [readRanges_boundaries hitems hne hno, hread]
    constructor
    · rw [Ascend, Complete, true_and, ← ascending_iff, ← require_eq_ok]
      exact exists_ok_of_check hpure
    · obtain ⟨r, hr⟩ := hpure
      refine refuses_ok.bind fun _ h => (refuses_require rfl).bind fun _ _ => ?_
      cases h
      rw [← Option.map_none, hr]
      exact refuses_ok
  | bounds rs =>
    obtain ⟨objects, rfl, hobjects⟩ := objects_of_ranges hg
    have hread : objects.mapM (rangeOf place) = .ok (rs.map timed) := by
      rw [mapM_eq_ok, List.forall₂_map_right_iff]
      exact hobjects.imp fun _ _ => read_range
    have hpure := unmixed_of_times place (times_timed rs)
    rw [readRanges_objects hitems (fun h => hne (h ▸ rfl)), hread]
    constructor
    · rw [← checkRanges_iff place]
      exact exists_ok_of_check hpure
    · obtain ⟨r, hr⟩ := hpure
      refine refuses_ok.bind fun _ h => (refuses_checkRanges _ _).bind fun _ _ => ?_
      cases h
      rw [hr]
      exact refuses_ok

end TimeRanges
end RecordStore.Aggregate
