import RecordStore.Aggregate.Request
import RecordStore.Proofs.Inversion
import RecordStore.Proofs.Members

/-! What the parts of a request's reading come to, one step each. -/
namespace RecordStore.Aggregate

theorem require_eq_ok {holds : Bool} {fault : SpecFault} {place : Location} {u : Unit} :
    require holds fault place = .ok u ↔ holds := by
  cases holds <;> simp [require, refuse]

theorem require_true {fault : SpecFault} {place : Location} : require true fault place = .ok () :=
  rfl

def Refuses {α : Type} (place : Location) (r : Reading α) : Prop :=
  ∀ e, r = .error e → ∃ fault, e = .invalid fault place ∧ fault.quoted = []

section
variable {α β : Type} {place : Location} {fault : SpecFault}

theorem refuses_ok {a : α} : Refuses place (.ok a) := by
  intro e h
  cases h

theorem refuses_refuse (hf : fault.quoted = []) :
    Refuses place (refuse fault place : Reading α) := by
  intro e h
  cases h
  exact ⟨fault, rfl, hf⟩

theorem refuses_require {holds : Bool} (hf : fault.quoted = []) :
    Refuses place (require holds fault place) := by
  cases holds
  · exact refuses_refuse hf
  · exact refuses_ok

theorem Refuses.bind {r : Reading α} {f : α → Reading β} (hr : Refuses place r)
    (hf : ∀ a, r = .ok a → Refuses place (f a)) : Refuses place (r >>= f) := by
  intro e h
  cases hr' : r with
  | ok a =>
    rw [hr'] at h
    exact hf a hr' e h
  | error e' =>
    rw [hr'] at h
    cases h
    exact hr e hr'

end

/-! ### Ranges -/

structure InOrder (before : Option (Range Boundary)) (r : Range Boundary) : Prop where
  start : r.start.isSome ∨ before = none
  within : ∀ s ∈ r.start, ∀ f ∈ r.finish, s.ge f = false
  across : ∀ f ∈ before.bind (·.finish), ∀ s ∈ r.start, f.gt s = false

theorem inOrder_iff {before : Option (Range Boundary)} {r : Range Boundary} :
    InOrder before r ↔ (r.start.isSome ∨ before = none) ∧
      (∀ s ∈ r.start, ∀ f ∈ r.finish, s.ge f = false) ∧
      ∀ f ∈ before.bind (·.finish), ∀ s ∈ r.start, f.gt s = false :=
  ⟨fun h => ⟨h.1, h.2, h.3⟩, fun h => ⟨h.1, h.2.1, h.2.2⟩⟩

theorem checkRanges_cons_eq_ok {place : Location} {before : Option (Range Boundary)}
    {r : Range Boundary} {rest : List (Range Boundary)} :
    checkRanges place before (r :: rest) = .ok () ↔
      InOrder before r ∧ (r.finish.isSome ∨ rest = []) ∧
        checkRanges place (some r) rest = .ok () := by
  obtain ⟨start, finish⟩ := r
  rw [checkRanges, inOrder_iff]
  simp only [bind_eq_ok, require_eq_ok, exists_const, Bool.or_eq_true, Option.isNone_iff_eq_none,
    List.isEmpty_iff]
  generalize before.bind (·.finish) = last
  cases start <;> cases finish <;> cases last <;> simp [bind_eq_ok, require_eq_ok] <;> tauto

theorem readRanges_boundaries [Present] {place : Location} {v : Value} {items : List Value}
    (hv : v.sequence? = some items) (hne : items ≠ []) (hno : ∀ i ∈ items, i.members? = none) :
    readRanges place v = (do
      let all ← items.mapM (Boundary.read place)
      require (ascending all) .unsortedRanges place
      unmixed place (between none all)) := by
  have hnone : items.filterMap Value.members? = [] := List.filterMap_eq_nil_iff.mpr hno
  simp [readRanges, hv, hne, hnone, require, bind, Except.bind]

theorem readRanges_objects [Present] {place : Location} {v : Value} {objects : List Record}
    (hv : v.sequence? = some (objects.map .object)) (hne : objects ≠ []) :
    readRanges place v = (do
      let rs ← objects.mapM (rangeOf place)
      checkRanges place none rs
      unmixed place rs) := by
  have hall : (objects.map Value.object).filterMap Value.members? = objects := by
    rw [List.filterMap_map]
    exact List.filterMap_some
  simp [readRanges, hv, hne, hall, require, bind, Except.bind]

theorem fieldPath_eq_ok {options : RequestOptions} {clause v : Value} {path : String}
    (h : fieldPath options clause v = .ok path) : v = .str path := by
  cases v with
  | str s =>
    rw [fieldPath] at h
    split at h
    · cases h
    · split at h
      · cases h
      · cases h
        rfl
  | _ => cases h

/-! ### Clauses -/

/-- The names of a clause are known, choose one way of grouping, and add nothing that it lacks. -/
structure FitNames (ms : Record) : Prop where
  known : namesOutside clauseNames ms = []
  modes : (modeNames.filter fun (name : String) => ms.has name).length ≤ 1
  base : (!ms.has "base" || ms.has "interval") = true
  count : (!ms.has "timeComponentCount" || ms.has "timeComponent") = true

def groupingOf [Present] (place : Location) (ms : Record) : Reading Grouping :=
  match ms.get? "ranges", ms.get? "interval", ms.get? "timeComponent" with
  | some v, _, _ => readRanges place v
  | _, some v, _ => readInterval place v (optional ms "base")
  | _, _, some v => readUnit place v ((ms.get? "timeComponentCount").getD (.int 1))
  | _, _, _ => .ok .discrete

def clauseBehind [Present] (field : String) (ms : Record) (place : Location) : Reading Clause := do
  let unknown := namesOutside clauseNames ms
  require (unknown = []) (.clauseKeys (sortedNames unknown)) place
  let modes := modeNames.filter fun (name : String) => ms.has name
  require (modes.length ≤ 1) (.combinedModes modes) place
  require (!ms.has "base" || ms.has "interval") .baseWithoutInterval place
  require (!ms.has "timeComponentCount" || ms.has "timeComponent") .countWithoutUnit place
  return ⟨field, ← groupingOf place ms⟩

theorem clauseOf_eq [Present] (options : RequestOptions) (index : Int) (ms : Record) :
    clauseOf options index ms =
      fieldPath options (.int index) ((ms.get? "field").getD .null) >>= fun field =>
        clauseBehind field ms ⟨.str field, .int index⟩ := by
  unfold clauseOf clauseBehind groupingOf
  cases ms.get? "ranges" <;> cases ms.get? "interval" <;> cases ms.get? "timeComponent" <;> rfl

theorem clauseOf_of_fit [Present] {options : RequestOptions} {index : Int} {ms : Record}
    {field : String}
    (hfield : fieldPath options (.int index) ((ms.get? "field").getD .null) = .ok field)
    (hms : FitNames ms) :
    clauseOf options index ms =
      (groupingOf ⟨.str field, .int index⟩ ms).map fun g => ⟨field, g⟩ := by
  rw [clauseOf_eq, hfield, ok_bind, clauseBehind, map_eq_bind]
  simp only [hms.known, hms.modes, hms.base, hms.count, decide_true, require_true, ok_bind]
  rfl

theorem clauseOf_eq_ok [Present] {options : RequestOptions} {index : Int} {ms : Record}
    {c : Clause} :
    clauseOf options index ms = .ok c ↔
      fieldPath options (.int index) ((ms.get? "field").getD .null) = .ok c.field ∧ FitNames ms ∧
        groupingOf ⟨.str c.field, .int index⟩ ms = .ok c.grouping := by
  constructor
  · intro h
    obtain ⟨field, hfield, hfit⟩ := bind_eq_ok.mp h
    obtain ⟨_, hknown, hfit⟩ := bind_eq_ok.mp hfit
    obtain ⟨_, hmodes, hfit⟩ := bind_eq_ok.mp hfit
    obtain ⟨_, hbase, hfit⟩ := bind_eq_ok.mp hfit
    obtain ⟨_, hcount, -⟩ := bind_eq_ok.mp hfit
    rw [require_eq_ok, decide_eq_true_iff] at hknown hmodes
    rw [require_eq_ok] at hbase hcount
    have hms : FitNames ms := ⟨hknown, hmodes, hbase, hcount⟩
    rw [clauseOf_of_fit hfield hms, map_eq_ok] at h
    obtain ⟨g, hg, rfl⟩ := h
    exact ⟨hfield, hms, hg⟩
  · intro h
    obtain ⟨hfield, hms, hg⟩ := h
    rw [clauseOf_of_fit hfield hms, hg]
    rfl

theorem readClauses_append [Present] {options : RequestOptions} (index : Nat)
    (front behind : List Value) :
    readClauses options index (front ++ behind) = (do
      let cs ← readClauses options index front
      let ds ← readClauses options (index + front.length) behind
      return cs ++ ds) := by
  induction front generalizing index with
  | nil =>
    rw [readClauses, ok_bind, List.nil_append, List.length_nil, Nat.add_zero]
    exact (bind_pure _).symm
  | cons v front ih =>
    simp only [List.cons_append, readClauses, ih, List.length_cons, bind_assoc, pure_bind]
    rw [Nat.add_right_comm, Nat.add_assoc]

theorem length_readClauses [Present] {options : RequestOptions} {index : Nat} {vs : List Value}
    {cs : List Clause} (h : readClauses options index vs = .ok cs) : cs.length = vs.length := by
  induction vs generalizing index cs with
  | nil =>
    cases h
    rfl
  | cons v vs ih =>
    obtain ⟨c, hc, h⟩ := bind_eq_ok.mp h
    obtain ⟨cs, hcs, h⟩ := bind_eq_ok.mp h
    cases h
    rw [List.length_cons, List.length_cons, ih hcs]

/-! ### One clause of a request -/

def requestWith (front behind : List Value) (ms : Record) (clause : Value) : Value :=
  .object (("groupBy", .list (front ++ clause :: behind)) :: ms)

theorem readGroupBy_list [Present] {options : RequestOptions} {vs : List Value} (h : vs ≠ []) :
    readGroupBy options (.list vs) = readClauses options 0 vs := by
  cases vs with
  | nil => exact absurd rfl h
  | cons v vs => rfl

def groupStats (options : RequestOptions) (v : Option Value) : Reading Stats :=
  match v with
  | some v => statsSection options v
  | none => .ok []

theorem groupSpec_of_some [Present] {options : RequestOptions} {ms extra : Record} {total : Bool}
    {groupBy : Value} (h : ms.get? "groupBy" = some groupBy) :
    groupSpec options ms extra total = (do
      let clauses ← readGroupBy options groupBy
      let stats ← groupStats options (optional ms "stats")
      return ⟨some clauses, stats, total, extra⟩) := by
  rw [groupSpec, h]
  cases optional ms "stats" <;> rfl

def extraMembers (ms : Record) : Record := ms.filter fun (k, _) => k.reading ∉ requestNames

theorem mem_extraMembers {ms : Record} {m : Name × Value} :
    m ∈ extraMembers ms ↔ m ∈ ms ∧ m.1.reading ∉ requestNames := by
  rw [extraMembers, List.mem_filter, decide_eq_true_iff]

theorem ofRequest_object [Present] {options : RequestOptions} {ms : Record} :
    Spec.ofRequest options (.object ms) = (do
      require (namesOutside requestNames ms = [] || options.allowUnknownKeys)
        (.unknownKeys (sortedNames (namesOutside requestNames ms)))
      match (ms.get? "total").getD (.bool false) with
      | .bool total =>
        if ← wantsGroups ms then groupSpec options ms (extraMembers ms) total
        else statsSpec options ms (extraMembers ms) total
      | _ => refuse .totalNotBool) := rfl

/-- If clauses are fine, another one in place of one of them is all that counts. -/
theorem readClauses_replace [Present] {options : RequestOptions} {index : Nat}
    {front behind : List Value} {clause : Value} {cs : List Clause}
    (h : readClauses options index (front ++ clause :: behind) = .ok cs) :
    (∃ c, readClause options (index + front.length : Nat) clause = .ok c) ∧
    ∃ put : Clause → List Clause, ∀ v, readClauses options index (front ++ v :: behind) =
      (readClause options (index + front.length : Nat) v).map put := by
  rw [readClauses_append] at h
  obtain ⟨cs, hcs, h⟩ := bind_eq_ok.mp h
  obtain ⟨_, hds, -⟩ := bind_eq_ok.mp h
  rw [readClauses] at hds
  obtain ⟨c, hc, hds⟩ := bind_eq_ok.mp hds
  obtain ⟨ds, hds, -⟩ := bind_eq_ok.mp hds
  refine ⟨⟨c, hc⟩, fun c => cs ++ c :: ds, fun v => ?_⟩
  rw [readClauses_append, hcs, ok_bind, readClauses, hds]
  cases readClause options (index + front.length : Nat) v <;> rfl

theorem truthy_of_sequence? {v : Value} {xs : List Value} (h : v.sequence? = some xs) :
    v.truthy = !xs.isEmpty := by
  cases v with
  | list | tuple =>
    cases h
    rfl
  | bytes bs | byteArray bs =>
    cases h
    cases bs <;> rfl
  | _ => cases h

def totalStats (options : RequestOptions) (given : Value) : Reading Stats :=
  if given.truthy then statsSection options given else .ok []

theorem statsSpec_eq {options : RequestOptions} {ms extra : Record} {total : Bool} :
    statsSpec options ms extra total = (do
      require (!ms.has "groupBy") .groupByInStats
      let stats ← totalStats options ((ms.get? "stats").getD .null)
      require (stats ≠ [] || total) .nothingRequested
      return ⟨none, stats, total, extra⟩) := by
  unfold statsSpec totalStats
  dsimp only
  split <;> rfl

theorem namesOutside_eq (ms : Record) :
    namesOutside requestNames ms = (extraMembers ms).keys := by
  rw [namesOutside, Record.keys, List.filter_map]
  rfl

theorem ofRequest_eq_ok [Present] {options : RequestOptions} {ms : Record} {spec : Spec}
    (h : Spec.ofRequest options (.object ms) = .ok spec) :
    (extraMembers ms = [] ∨ options.allowUnknownKeys) ∧ spec.extra = extraMembers ms ∧
      match spec.clauses with
      | some cs => (∃ groupBy, readGroupBy options groupBy = .ok cs) ∧
          groupStats options (optional ms "stats") = .ok spec.stats
      | none => (spec.stats ≠ [] ∨ spec.total) ∧
          totalStats options ((ms.get? "stats").getD .null) = .ok spec.stats := by
  rw [ofRequest_object] at h
  obtain ⟨_, hknown, h⟩ := bind_eq_ok.mp h
  rw [require_eq_ok, Bool.or_eq_true, decide_eq_true_iff, namesOutside_eq, Record.keys,
    List.map_eq_nil_iff] at hknown
  split at h
  · obtain ⟨wanted, -, h⟩ := bind_eq_ok.mp h
    cases wanted with
    | true =>
      rw [if_pos rfl] at h
      cases hgroupBy : ms.get? "groupBy" with
      | none =>
        rw [groupSpec, hgroupBy] at h
        cases h
      | some groupBy =>
        rw [groupSpec_of_some hgroupBy] at h
        obtain ⟨cs, hcs, h⟩ := bind_eq_ok.mp h
        obtain ⟨stats, hstats, h⟩ := bind_eq_ok.mp h
        cases h
        exact ⟨hknown, rfl, ⟨groupBy, hcs⟩, hstats⟩
    | false =>
      rw [if_neg Bool.false_ne_true, statsSpec_eq] at h
      obtain ⟨_, -, h⟩ := bind_eq_ok.mp h
      obtain ⟨stats, hstats, h⟩ := bind_eq_ok.mp h
      obtain ⟨_, hasked, h⟩ := bind_eq_ok.mp h
      cases h
      rw [require_eq_ok, Bool.or_eq_true, decide_eq_true_iff] at hasked
      exact ⟨hknown, rfl, hasked, hstats⟩
  · cases h

theorem extraMembers_put (ms : Record) (v : Value) :
    extraMembers (ms.put "groupBy" v) = extraMembers ms := by
  induction ms with
  | nil => rfl
  | cons m ms ih =>
    obtain ⟨k, w⟩ := m
    rw [Record.put]
    split
    · rename_i hk
      subst hk
      rfl
    · rw [extraMembers, extraMembers] at ih ⊢
      rw [List.filter_cons, List.filter_cons, ih]

theorem ofRequest_put [Present] {options : RequestOptions} {ms : Record} {groupBy : Value}
    {spec : Spec}
    (h : Spec.ofRequest options (.object (ms.put "groupBy" groupBy)) = .ok spec) (v : Value) :
    Spec.ofRequest options (.object (ms.put "groupBy" v)) =
      (readGroupBy options v).map fun cs => { spec with clauses := some cs } := by
  have hother {k : Name} (hk : Name.text "groupBy" ≠ k) (v : Value) :
      (ms.put "groupBy" v).get? k = ms.get? k := Record.get?_put_of_ne hk v ms
  have hself (v : Value) : (ms.put "groupBy" v).get? "groupBy" = some v :=
    Record.get?_put_self v ms
  have hhas (v : Value) : (ms.put "groupBy" v).has "groupBy" = true := by
    rw [Record.has, hself]
    rfl
  have hwants (v : Value) :
      wantsGroups (ms.put "groupBy" v) = wantsGroups (ms.put "groupBy" groupBy) := by
    rw [wantsGroups, wantsGroups, hhas, hhas, hother (by decide), hother (by decide),
      hother (by decide), hother (by decide)]
  have htotal (v : Value) : (ms.put "groupBy" v).get? "total" = ms.get? "total" :=
    hother (by decide) v
  have hstats (v : Value) : optional (ms.put "groupBy" v) "stats" = optional ms "stats" := by
    rw [optional, optional, hother (by decide)]
  simp only [ofRequest_object, namesOutside_eq, extraMembers_put, htotal, hwants v] at h ⊢
  obtain ⟨_, hknown, h⟩ := bind_eq_ok.mp h
  rw [hknown, ok_bind]
  generalize (ms.get? "total").getD (.bool false) = given at h ⊢
  cases given with
  | bool total =>
    obtain ⟨wanted, hwanted, h⟩ := bind_eq_ok.mp h
    dsimp only
    rw [hwanted, ok_bind]
    cases wanted with
    | false =>
      obtain ⟨_, hno, -⟩ := bind_eq_ok.mp h
      rw [require_eq_ok, hhas] at hno
      cases hno
    | true =>
      rw [if_pos rfl, groupSpec_of_some (hself _), hstats] at h ⊢
      obtain ⟨_, -, h⟩ := bind_eq_ok.mp h
      obtain ⟨stats, hs, h⟩ := bind_eq_ok.mp h
      cases h
      rw [hs]
      cases readGroupBy options v <;> rfl
  | _ => cases h

/-- If a request is fine with one clause, the reading of another in its place is all that counts. -/
theorem ofRequest_requestWith [Present] {options : RequestOptions} {front behind : List Value}
    {ms : Record} {clause : Value} {spec : Spec}
    (h : Spec.ofRequest options (requestWith front behind ms clause) = .ok spec) :
    (∃ c, readClause options front.length clause = .ok c) ∧
    ∃ put : Clause → Spec, ∀ v, Spec.ofRequest options (requestWith front behind ms v) =
      (readClause options front.length v).map put := by
  have hrequest (v : Value) : requestWith front behind ms v = .object
      (Record.put "groupBy" (.list (front ++ v :: behind)) (("groupBy", .null) :: ms)) := rfl
  rw [hrequest] at h
  have hread := ofRequest_put h
  rw [hread, map_eq_ok, readGroupBy_list (by simp)] at h
  obtain ⟨clauses, hclauses, -⟩ := h
  obtain ⟨hclause, put, hput⟩ := readClauses_replace hclauses
  rw [Nat.zero_add] at hclause hput
  refine ⟨hclause, fun c => { spec with clauses := some (put c) }, fun v => ?_⟩
  rw [hrequest, hread, readGroupBy_list (by simp), hput]
  cases readClause options front.length v <;> rfl

end RecordStore.Aggregate
