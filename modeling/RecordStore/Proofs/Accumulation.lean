import RecordStore.Proofs.GroupRun
import RecordStore.Proofs.TotalOrder

/-! An accumulator that took values in one at a time stands for the list of them: for its length,
its sum, and the first least and the first greatest of its values. -/
namespace RecordStore
namespace Aggregate

/-- The values that records have at a field, without those that count as nothing. -/
def brought (field : String) (records : List Value) : List Value :=
  records.filterMap fun r => match r.get (Path.ofText field) with
    | .ok v => if v.isAbsent then none else some v
    | .error _ => none

theorem brought_cons {field : String} {r v : Value} {rest : List Value}
    (h : r.get (Path.ofText field) = .ok v) : brought field (r :: rest) =
      if v.isAbsent then brought field rest else v :: brought field rest := by
  by_cases hv : v.isAbsent <;> simp [brought, h, hv]

def present (vs : List Value) : List Value := vs.filter fun v => !v.isAbsent

/-- What has to be known of values for their statistics to be those of a list: integers, if an
average is asked for, and values in total order, if an extreme is. -/
structure Fits (request : StatRequest) (vs : List Value) : Prop where
  whole : request.avg → ∀ v ∈ vs, ∃ i, v = .int i
  ordered : request.min || request.max → inTotalOrder vs

theorem Fits.subset {request : StatRequest} {vs ws : List Value} (h : Fits request vs)
    (hws : ∀ w ∈ ws, w ∈ vs) : Fits request ws := by
  refine ⟨fun havg w hw => h.whole havg w (hws w hw), fun hext => ?_⟩
  have hvs := h.ordered hext
  rw [inTotalOrder, Bool.or_eq_true, List.all_eq_true, List.all_eq_true] at hvs ⊢
  exact hvs.imp (fun hvs w hw => hvs w (hws w hw)) fun hvs w hw => hvs w (hws w hw)

/-! ### Extremes -/

/-- The value that is better than all before it and that none after it is better than. -/
def FirstBest (better? : Value → Value → Option Bool) (vs : List Value) (v : Value) : Prop :=
  ∃ before after, vs = before ++ v :: after ∧ (∀ w ∈ before, better? v w = some true) ∧
    ∀ w ∈ after, better? w v = some false

/-- Whether the first is greater; none if the two are not comparable. -/
def greater? (v w : Value) : Option Bool := w.lt? v

namespace FirstBest
variable {better? : Value → Value → Option Bool} {α : Type} [LinearOrder α] {rank : Value → α}
  {vs : List Value} {v best : Value}

theorem single : FirstBest better? [v] v :=
  ⟨[], [], rfl, List.forall_mem_nil _, List.forall_mem_nil _⟩

theorem mem (h : FirstBest better? vs best) : best ∈ vs := by
  obtain ⟨before, after, rfl, -, -⟩ := h
  simp

theorem rank_le (hr : ∀ v ∈ vs, ∀ w ∈ vs, better? v w = some (decide (rank v < rank w)))
    (h : FirstBest better? vs best) : ∀ w ∈ vs, rank best ≤ rank w := by
  have hbest := h.mem
  obtain ⟨before, after, hvs, hbefore, hafter⟩ := h
  intro w hw
  have hside := hw
  rw [hvs, List.mem_append, List.mem_cons] at hside
  rcases hside with hside | rfl | hside
  · have hlt := hbefore w hside
    rw [hr best hbest w hw, Option.some.injEq, decide_eq_true_iff] at hlt
    exact hlt.le
  · exact le_rfl
  · have hge := hafter w hside
    rw [hr w hw best hbest, Option.some.injEq, decide_eq_false_iff_not] at hge
    exact not_lt.mp hge

theorem snoc (hr : ∀ u ∈ vs ++ [v], ∀ w ∈ vs ++ [v], better? u w = some (decide (rank u < rank w)))
    (h : FirstBest better? vs best) :
    ∃ more, better? v best = some more ∧
      FirstBest better? (vs ++ [v]) (if more then v else best) := by
  have hold : ∀ w ∈ vs, w ∈ vs ++ [v] := fun w hw => List.mem_append_left [v] hw
  have hv : v ∈ vs ++ [v] := by simp
  have hle := h.rank_le fun u hu w hw => hr u (hold u hu) w (hold w hw)
  refine ⟨_, hr v hv best (hold best h.mem), ?_⟩
  by_cases hlt : rank v < rank best
  · rw [decide_eq_true hlt, if_pos rfl]
    refine ⟨vs, [], rfl, fun w hw => ?_, List.forall_mem_nil _⟩
    rw [hr v hv w (hold w hw), decide_eq_true (hlt.trans_le (hle w hw))]
  · rw [decide_eq_false hlt, if_neg Bool.false_ne_true]
    have hworse : better? v best = some false := by
      rw [hr v hv best (hold best h.mem), decide_eq_false hlt]
    obtain ⟨before, after, rfl, hbefore, hafter⟩ := h
    refine ⟨before, after ++ [v], by simp, hbefore, fun w hw => ?_⟩
    rcases List.mem_append.mp hw with hw | hw
    · exact hafter w hw
    · rw [List.mem_singleton.mp hw]
      exact hworse

end FirstBest

def Bound (vs : List Value) : Option (Value × Value) → Prop
  | none => vs = []
  | some (least, greatest) => FirstBest Value.lt? vs least ∧ FirstBest greater? vs greatest

theorem Bound.eq_of_perm {vs vs' : List Value} {e e' : Option (Value × Value)}
    (hv : inTotalOrder vs) (hp : vs.Perm vs') (h : Bound vs e) (h' : Bound vs' e') :
    Option.Rel (fun p q => p.1.eq q.1 ∧ p.2.eq q.2) e e' := by
  obtain ⟨α, _, rank, hr⟩ := Value.exists_ranked hv
  cases e with
  | none =>
    cases e' with
    | none => exact .none
    | some p =>
      cases h
      exact absurd (hp.mem_iff.mpr h'.1.mem) List.not_mem_nil
  | some p =>
    cases e' with
    | none =>
      cases h'
      exact absurd (hp.mem_iff.mp h.1.mem) List.not_mem_nil
    | some q =>
      have hr' : ∀ v ∈ vs', ∀ w ∈ vs', v.lt? w = some (decide (rank v < rank w)) :=
        fun v hv w hw => hr.lt v (hp.mem_iff.mpr hv) w (hp.mem_iff.mpr hw)
      have hleast := hp.mem_iff.mpr h'.1.mem
      have hgreatest := hp.mem_iff.mpr h'.2.mem
      refine .some ⟨hr.eq _ h.1.mem _ hleast ?_, hr.eq _ h.2.mem _ hgreatest ?_⟩
      · have hle := h.1.rank_le hr.lt _ hleast
        have hge := h'.1.rank_le hr' _ (hp.mem_iff.mp h.1.mem)
        exact le_antisymm hle hge
      · -- What is greater comes first in the order turned round.
        have hle := h.2.rank_le (fun v hv w hw => hr.lt w hw v hv) (α := αᵒᵈ) _ hgreatest
        have hge := h'.2.rank_le (fun v hv w hw => hr' w hw v hv) (α := αᵒᵈ) _
          (hp.mem_iff.mp h.2.mem)
        exact le_antisymm hge hle

namespace Accumulator

theorem widen_bound (field : Value) {v : Value} {vs : List Value} {e : Option (Value × Value)}
    (hv : inTotalOrder (vs ++ [v])) (h : Bound vs e) :
    ∃ e', widen field v e = (e', .ok ()) ∧ Bound (vs ++ [v]) e' := by
  cases e with
  | none =>
    cases h
    exact ⟨_, rfl, .single, .single⟩
  | some p =>
    obtain ⟨α, _, rank, hr⟩ := Value.exists_ranked hv
    obtain ⟨less, hless, hleast⟩ := h.1.snoc hr.lt
    obtain ⟨more, hmore, hgreatest⟩ := h.2.snoc (α := αᵒᵈ) fun u hu w hw => hr.lt w hw u hu
    have hmore : p.2.lt? v = some more := hmore
    refine ⟨some (if less then v else p.1, if more then v else p.2), ?_, hleast, hgreatest⟩
    simp [widen, hless, hmore]

/-! ### Values one at a time -/

def Sums (vs : List Value) (a : Accumulator) : Prop :=
  ∃ is : List Int, vs = is.map Value.int ∧ a.sum = .int is.sum ∧ a.summed = is.length

structure Holds (request : StatRequest) (vs : List Value) (a : Accumulator) : Prop where
  count : a.count = vs.length
  sum : request.avg → Sums vs a
  extremes : request.min || request.max → Bound vs a.extremes

variable {request : StatRequest} {vs : List Value} {a : Accumulator}

theorem holds_nil : Holds request [] {} := ⟨rfl, fun _ => ⟨[], rfl, rfl, rfl⟩, fun _ => rfl⟩

theorem addTo_sums (field : Value) (i : Int) (h : Sums vs a) :
    ∃ b, addTo field a (.int i) = .ok b ∧ b.count = a.count ∧ b.extremes = a.extremes ∧
      Sums (vs ++ [.int i]) b := by
  obtain ⟨is, rfl, hsum, hsummed⟩ := h
  refine ⟨{ a with sum := .int (is.sum + i), summed := a.summed + 1 }, ?_, rfl, rfl, is ++ [i],
    by simp, by simp, by simp [hsummed]⟩
  simp [addTo, Value.int, hsum, Num.add, Num.lift]

theorem ingest_holds (field : Value) {v : Value} (h : Holds request vs a)
    (hf : Fits request (vs ++ [v])) (hv : v.isAbsent = false) :
    ∃ b, ingest field request a v = (b, .ok ()) ∧ Holds request (vs ++ [v]) b := by
  have hsummed : ∃ b, (if request.avg then addTo field { a with count := a.count + 1 } v
      else .ok { a with count := a.count + 1 }) = .ok b ∧ b.count = (vs ++ [v]).length ∧
        b.extremes = a.extremes ∧ (request.avg → Sums (vs ++ [v]) b) := by
    have hcount : a.count + 1 = (vs ++ [v]).length := by simp [h.count]
    by_cases havg : request.avg
    · obtain ⟨i, rfl⟩ := hf.whole havg v (by simp)
      obtain ⟨b, hb, hc, he, hs⟩ :=
        addTo_sums (a := { a with count := a.count + 1 }) field i (h.sum havg)
      exact ⟨b, by rw [if_pos havg, hb], hc.trans hcount, he, fun _ => hs⟩
    · exact ⟨_, if_neg havg, hcount, rfl, fun h => absurd h havg⟩
  obtain ⟨b, hb, hcount, hextremes, hsum⟩ := hsummed
  rw [ingest, hv, if_neg Bool.false_ne_true]
  simp only [hb]
  by_cases hext : request.min || request.max
  · obtain ⟨e, he, hbound⟩ := widen_bound field (hf.ordered hext) (h.extremes hext)
    rw [if_pos hext, he]
    exact ⟨_, rfl, hcount, hsum, fun _ => hbound⟩
  · rw [if_neg hext]
    exact ⟨_, rfl, hcount, hsum, fun h => absurd h hext⟩

def taken (field : Value) (request : StatRequest) (a : Accumulator) (v : Value) :
    Except RecordError Accumulator :=
  match a.ingest field request v with
  | (a, .ok ()) => .ok a
  | (_, .error e) => .error e

theorem taken_of_absent (field : Value) (request : StatRequest) (a : Accumulator) {v : Value}
    (h : v.isAbsent) : taken field request a v = .ok a := by
  rw [taken, ingest, if_pos h]

def takeAll (field : Value) (request : StatRequest) (vs : List Value) (a : Accumulator) :
    Except RecordError Accumulator :=
  vs.foldlM (taken field request) a

theorem takeAll_holds {field : Value} {before : List Value}
    (hf : Fits request (vs ++ present before)) (h : Holds request vs a) :
    ∃ b, takeAll field request before a = .ok b ∧ Holds request (vs ++ present before) b := by
  induction before generalizing vs a with
  | nil => exact ⟨a, rfl, by rwa [present, List.filter_nil, List.append_nil]⟩
  | cons v before ih =>
    rw [takeAll, List.foldlM_cons]
    cases habsent : v.isAbsent with
    | true =>
      have hpresent : present (v :: before) = present before :=
        List.filter_cons_of_neg (by simp [habsent])
      rw [hpresent] at hf ⊢
      rw [taken_of_absent field request a habsent]
      exact ih hf h
    | false =>
      have hpresent : present (v :: before) = v :: present before :=
        List.filter_cons_of_pos (by simp [habsent])
      rw [hpresent, List.append_cons] at hf ⊢
      obtain ⟨b, hb, hholds⟩ := ingest_holds field h
        (hf.subset fun w hw => List.mem_append_left _ hw) habsent
      rw [taken, hb]
      exact ih hf hholds

/-- The statistics of a field with a record taken in, if it can be. -/
def ingested (field : String) (request : StatRequest) (record : Value) (a : Accumulator) :
    Except RecordError Accumulator :=
  match record.get (Path.ofText field) with
  | .error f => .error (.path f)
  | .ok v => match a.ingest (.str field) request v with
    | (a, .ok ()) => .ok a
    | (_, .error e) => .error e

def ingestAll (field : String) (request : StatRequest) (records : List Value) (a : Accumulator) :
    Except RecordError Accumulator :=
  records.foldlM (fun a r => a.ingested field request r) a

theorem ingested_of_get {field : String} {r v : Value} (h : r.get (Path.ofText field) = .ok v) :
    a.ingested field request r = taken (.str field) request a v := by
  rw [ingested, h]
  rfl

theorem ingestAll_eq_takeAll {field : String} {records before : List Value}
    (h : List.Forall₂ (fun r v => r.get (Path.ofText field) = .ok v) records before) :
    a.ingestAll field request records = takeAll (.str field) request before a ∧
      brought field records = present before := by
  induction h generalizing a with
  | nil => exact ⟨rfl, rfl⟩
  | @cons r v rest before hv _ ih =>
    constructor
    · rw [ingestAll, takeAll, List.foldlM_cons, List.foldlM_cons, ingested_of_get hv]
      exact bind_congr fun b => ih.1
    · rw [brought_cons hv, (ih (a := a)).2]
      cases habsent : v.isAbsent <;> simp [present, habsent]

/-- Records in which the field can be looked up, with values that fit, can be taken in. -/
theorem ingestAll_holds {field : String} {records : List Value}
    (hread : ∀ r ∈ records, ∃ v, r.get (Path.ofText field) = .ok v)
    (hf : Fits request (vs ++ brought field records)) (h : Holds request vs a) :
    ∃ b, a.ingestAll field request records = .ok b ∧
      Holds request (vs ++ brought field records) b := by
  obtain ⟨before, hbefore⟩ := exists_forall₂ hread
  obtain ⟨htake, hbrought⟩ : a.ingestAll field request records =
      takeAll (.str field) request before a ∧ _ := ingestAll_eq_takeAll hbefore
  rw [hbrought] at hf ⊢
  rw [htake]
  exact takeAll_holds hf h

theorem ingestAll_of_fits {field : String} {records : List Value}
    (hread : ∀ r ∈ records, ∃ v, r.get (Path.ofText field) = .ok v)
    (hf : Fits request (brought field records)) :
    ∃ b, ingestAll field request records {} = .ok b ∧ Holds request (brought field records) b :=
  ingestAll_holds hread (by rwa [List.nil_append]) holds_nil

theorem readable_of_ingestAll {field : String} {records : List Value} {b : Accumulator}
    (h : a.ingestAll field request records = .ok b) :
    ∀ r ∈ records, ∃ v, r.get (Path.ofText field) = .ok v := by
  induction records generalizing a with
  | nil => exact List.forall_mem_nil _
  | cons r rest ih =>
    rw [ingestAll, List.foldlM_cons, bind_eq_ok] at h
    obtain ⟨c, hc, h⟩ := h
    refine List.forall_mem_cons.mpr ⟨?_, ih h⟩
    rw [ingested] at hc
    cases hv : r.get (Path.ofText field) with
    | ok v => exact ⟨v, rfl⟩
    | error f =>
      rw [hv] at hc
      cases hc

/-! ### What is given -/

def mean (request : StatRequest) (a : Accumulator) : Except RecordError Record :=
  if request.avg && a.summed ≠ 0 then
    match a.sum.divCount a.summed with
    | some mean => .ok [("avg", .float mean)]
    | none => .error .numberTooLarge
  else .ok []

def shown (request : StatRequest) (a : Accumulator) (avg : Record) : Record :=
  given "count" (if request.count then some (.int a.count) else none) ++ avg ++
    given "min" (if request.min then a.extremes.map Prod.fst else none) ++
    given "max" (if request.max then a.extremes.map Prod.snd else none)

theorem render_eq (request : StatRequest) (a : Accumulator) :
    a.render request = (a.mean request).map (a.shown request) := by
  obtain ⟨count, avg, min, max, extensions⟩ := request
  unfold render mean
  by_cases havg : (avg && decide (a.summed ≠ 0)) = true
  · simp only [if_pos havg]
    cases a.sum.divCount a.summed <;> cases count <;> cases min <;> cases max <;> rfl
  · simp only [if_neg havg]
    cases count <;> cases min <;> cases max <;> rfl

end Accumulator

/-! ### Field by field -/

namespace Accumulators

theorem ingested_eq_mapM (record : Value) (as : Accumulators) :
    as.ingested record = as.mapM fun x =>
      (x.2.2.ingested x.1 x.2.1 record).map fun a => (x.1, x.2.1, a) := by
  induction as with
  | nil => rfl
  | cons x as ih =>
    obtain ⟨field, request, a⟩ := x
    rw [List.mapM_cons, ← ih, ingested, ingest, Accumulator.ingested]
    cases record.get (Path.ofText field) with
    | error f => rfl
    | ok v =>
      rcases h : a.ingest (.str field) request v with ⟨b, e | _⟩
      · simp only [h]
        rfl
      · rcases hrest : ingest record as with ⟨bs, e | _⟩ <;> simp only [h, ingested, hrest] <;> rfl

def Took (records : List Value) (x y : String × StatRequest × Accumulator) : Prop :=
  y.1 = x.1 ∧ y.2.1 = x.2.1 ∧ x.2.2.ingestAll x.1 x.2.1 records = .ok y.2.2

theorem took_nil {x y : String × StatRequest × Accumulator} : Took [] x y ↔ x = y := by
  obtain ⟨field, request, a⟩ := x
  obtain ⟨field', request', b⟩ := y
  simp [Took, Accumulator.ingestAll, pure, Except.pure, eq_comm]

theorem took_cons {r : Value} {rest : List Value} {x z : String × StatRequest × Accumulator} :
    Took (r :: rest) x z ↔
      ∃ y, ((x.2.2.ingested x.1 x.2.1 r).map fun a => (x.1, x.2.1, a)) = .ok y ∧
        Took rest y z := by
  rw [Took, Accumulator.ingestAll, List.foldlM_cons, bind_eq_ok]
  constructor
  · intro h
    obtain ⟨hfield, hrequest, a, ha, hrest⟩ := h
    exact ⟨_, map_eq_ok.mpr ⟨a, ha, rfl⟩, hfield, hrequest, hrest⟩
  · intro h
    obtain ⟨y, hy, hfield, hrequest, hrest⟩ := h
    obtain ⟨a, ha, rfl⟩ := map_eq_ok.mp hy
    exact ⟨hfield, hrequest, a, ha, hrest⟩

theorem ingestAll_eq_ok {records : List Value} {as bs : Accumulators} :
    as.ingestAll records = .ok bs ↔ List.Forall₂ (Took records) as bs := by
  induction records generalizing as with
  | nil =>
    have hnil : Took [] = Eq := by
      funext x y
      exact propext took_nil
    rw [hnil, List.forall₂_eq_eq_eq, ingestAll, List.foldlM_nil, pure_eq_ok]
  | cons r rest ih =>
    have hcons : Took (r :: rest) = fun x z => ∃ y,
        ((x.2.2.ingested x.1 x.2.1 r).map fun a => (x.1, x.2.1, a)) = .ok y ∧ Took rest y z := by
      funext x z
      exact propext took_cons
    rw [hcons, ← forall₂_comp, ingestAll, List.foldlM_cons, bind_eq_ok]
    refine exists_congr fun cs => and_congr ?_ ih
    rw [ingested_eq_mapM, mapM_eq_ok]

end Accumulators

/-- The statistics of a field that an accumulator gives once all records are in. -/
def Summed (records : List Value) (x : String × StatRequest) (s : String × Record) : Prop :=
  ∃ a, Accumulator.ingestAll x.1 x.2 records {} = .ok a ∧ a.render x.2 = .ok s.2 ∧ s.1 = x.1

theorem summed_iff {stats : Stats} {records : List Value} {ss : List (String × Record)} :
    (∃ as, (Accumulators.start stats).ingestAll records = .ok as ∧ as.render = .ok ss) ↔
      List.Forall₂ (Summed records) stats ss := by
  simp only [Accumulators.ingestAll_eq_ok, Accumulators.render, mapM_eq_ok, forall₂_comp,
    Accumulators.start, List.forall₂_map_left_iff, bind_eq_ok, pure_eq_ok]
  have hone (x : String × StatRequest) (s : String × Record) :
      (∃ y : String × StatRequest × Accumulator, Accumulators.Took records (x.1, x.2, {}) y ∧
        ∃ ms, y.2.2.render y.2.1 = .ok ms ∧ (y.1, ms) = s) ↔ Summed records x s := by
    constructor
    · intro h
      obtain ⟨⟨field, request, a⟩, ⟨hfield, hrequest, ha⟩, ms, hms, rfl⟩ := h
      cases hfield
      cases hrequest
      exact ⟨a, ha, hms, rfl⟩
    · intro h
      obtain ⟨a, ha, hms, hname⟩ := h
      exact ⟨(x.1, x.2, a), ⟨rfl, rfl, ha⟩, s.2, hms, by rw [← hname]⟩
  constructor
  · exact List.Forall₂.imp fun x s => (hone x s).mp
  · exact List.Forall₂.imp fun x s => (hone x s).mpr

theorem summed_names {stats : Stats} {records : List Value} {ss : List (String × Record)}
    (h : List.Forall₂ (Summed records) stats ss) : ss.map Prod.fst = stats.map Prod.fst := by
  induction h with
  | nil => rfl
  | cons h _ ih =>
    obtain ⟨_, -, -, hname⟩ := h
    rw [List.map_cons, List.map_cons, hname, ih]

end Aggregate
end RecordStore
