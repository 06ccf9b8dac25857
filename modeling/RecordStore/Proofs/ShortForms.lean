import RecordStore.Proofs.ClauseWire

/-! Short forms of requests and their long forms. A request in which short forms are written out,
at any places and in any number, is read to the same specification or refused for the same
reason. -/
namespace RecordStore

namespace Aggregate

/-! ### Short forms -/

def countAlone : Value := .object [("count", .bool true)]

/-- The fields of a list, each with the request for its count; a path that comes twice counts
once. -/
def countedFields (paths : List String) : Record :=
  Record.putAll [] (paths.map fun path => (.text path, countAlone))

/-- The ranges below, between and above values, as objects of their bounds. -/
def rangeObjects : Option Value → List Value → List Record
  | start, [] => [given "start" start]
  | start, b :: rest => (given "start" start ++ given "end" (some b)) :: rangeObjects (some b) rest

inductive StatExpands : Value → Value → Prop
  | same (v : Value) : StatExpands v v
  | yes : StatExpands (.bool true) countAlone
  | empty : StatExpands (.object []) countAlone

inductive StatsExpand : Value → Value → Prop
  | same (v : Value) : StatsExpand v v
  | path {path : String} (given : path ≠ "") :
      StatsExpand (.str path) (.object [(path, countAlone)])
  | paths {v : Value} {paths : List String} (given : v.sequence? = some (paths.map .str)) :
      StatsExpand v (.object (countedFields paths))
  | fields {ms ns : Record} (each : Record.Paired (fun _ => StatExpands) ms ns) :
      StatsExpand (.object ms) (.object ns)

inductive RangesExpand : Value → Value → Prop
  | same (v : Value) : RangesExpand v v
  | boundaries {v : Value} {bs : List Value} (given : v.sequence? = some bs) (nonempty : bs ≠ [])
      (plain : ∀ b ∈ bs, b ≠ .null ∧ b.members? = none) :
      RangesExpand v (.list ((rangeObjects none bs).map .object))

/-- A clause, and the same with its field and its ranges written out. -/
inductive ClauseExpands : Value → Value → Prop
  | same (v : Value) : ClauseExpands v v
  | path (path : String) : ClauseExpands (.str path) (.object [("field", .str path)])
  | members {ms ns : Record}
      (each : Record.Paired (fun k v w => v = w ∨ k = "ranges" ∧ RangesExpand v w) ms ns) :
      ClauseExpands (.object ms) (.object ns)

/-- What is grouped by, and the same written out: one clause alone as a list of one, and the clauses
of a list each by itself. -/
inductive GroupByExpands : Value → Value → Prop
  | same (v : Value) : GroupByExpands v v
  | path {path : String} {w : Value} (clause : ClauseExpands (.str path) w) :
      GroupByExpands (.str path) (.list [w])
  | object {ms : Record} {w : Value} (clause : ClauseExpands (.object ms) w) :
      GroupByExpands (.object ms) (.list [w])
  | clauses {v : Value} {vs ws : List Value} (given : v.sequence? = some vs)
      (each : List.Forall₂ ClauseExpands vs ws) : GroupByExpands v (.list ws)

/-- A member of a request, and the same with its short forms written out. -/
def MemberExpands (k : Name) (v w : Value) : Prop :=
  v = w ∨ k = "stats" ∧ StatsExpand v w ∨ k = "groupBy" ∧ GroupByExpands v w

/-- A request, and the same with some of its short forms written out, or all of them. -/
inductive Expands : Value → Value → Prop
  | same (v : Value) : Expands v v
  | members {ms ns : Record} (each : Record.Paired MemberExpands ms ns) :
      Expands (.object ms) (.object ns)

variable {options : RequestOptions}

/-! ### Statistics -/

theorem statRequest_expanded {v w : Value} (h : StatExpands v w) (path : String) :
    statRequest options path v = statRequest options path w := by
  cases h <;> rfl

def readFields (options : RequestOptions) (ms : Record) : Reading Stats :=
  ms.entries.mapM fun (path, request) => do
    let path ← fieldPath options .null (.str path)
    return (path, ← statRequest options path request)

theorem readFields_expanded {ms ns : Record} (h : Record.Paired (fun _ => StatExpands) ms ns) :
    readFields options ms = readFields options ns := by
  rw [readFields, readFields, Record.entries, Record.entries, List.mapM_map, List.mapM_map]
  induction h with
  | nil => rfl
  | @cons m n _ _ hm _ ih =>
    rw [List.mapM_cons, List.mapM_cons, ih]
    obtain ⟨k, v⟩ := m
    obtain ⟨k', w⟩ := n
    obtain ⟨hname, hvw⟩ := hm
    dsimp only at hname hvw
    subst hname
    simp only [Function.comp_apply, statRequest_expanded hvw]

theorem statsSection_fields (v : Value) :
    statsSection options v = statFields v >>= readFields options := rfl

theorem statFields_paths {v : Value} {paths : List String}
    (h : v.sequence? = some (paths.map .str)) : statFields v =
      .ok (Record.putAll [] ((paths.map Name.text).map fun name => (name, .bool true))) := by
  unfold statFields
  split
  · cases h
  · cases h
  · rw [h]
    refine bind_eq_ok.mpr ⟨paths.map Name.text, mapM_eq_ok.mpr ?_, rfl⟩
    rw [List.forall₂_map_left_iff, List.forall₂_map_right_iff, List.forall₂_same]
    exact fun _ _ => rfl

theorem statsSection_expanded {v w : Value} (h : StatsExpand v w) :
    statsSection options v = statsSection options w := by
  cases h with
  | same => rfl
  | path given =>
    rw [statsSection_fields, statsSection_fields]
    exact readFields_expanded (.cons ⟨rfl, .yes⟩ .nil)
  | @paths _ paths given =>
    rw [statsSection_fields, statsSection_fields, statFields_paths given]
    refine readFields_expanded (Record.Paired.putAll .nil ?_)
    rw [Record.Paired, List.map_map, List.forall₂_map_left_iff, List.forall₂_map_right_iff,
      List.forall₂_same]
    exact fun _ _ => ⟨rfl, .yes⟩
  | fields each => exact readFields_expanded each

/-! ### Ranges -/

theorem rangeOf_given [Present] (place : Location) (start finish : Option Value) :
    rangeOf place (given "start" start ++ given "end" finish) = (do
      let start ← rangeBound place start
      let finish ← rangeBound place finish
      return ⟨start, finish⟩) := by
  cases start <;> cases finish <;> rfl

theorem rangeBound_some [Present] {place : Location} {v : Value} (h : v ≠ .null) :
    rangeBound place (some v) = (Boundary.read place v).map some := by
  cases v with
  | null => exact absurd rfl h
  | _ => rfl

/-- The objects of ranges are read as their boundaries are, one after the other. -/
theorem mapM_rangeObjects [Present] {place : Location} {start : Option Value} {s : Option Boundary}
    {bs : List Value} (hstart : rangeBound place start = .ok s) (hbs : ∀ b ∈ bs, b ≠ .null) :
    (rangeObjects start bs).mapM (rangeOf place) =
      (bs.mapM (Boundary.read place)).map (between s) := by
  induction bs generalizing start s with
  | nil =>
    have hlast := rangeOf_given place start none
    have hopen : given "end" none = [] := rfl
    rw [hopen, List.append_nil, hstart] at hlast
    rw [rangeObjects, List.mapM_cons, hlast]
    rfl
  | cons b rest ih =>
    obtain ⟨hb, hrest⟩ := List.forall_mem_cons.mp hbs
    rw [rangeObjects, List.mapM_cons, List.mapM_cons, rangeOf_given, hstart, rangeBound_some hb]
    cases hread : Boundary.read place b with
    | error e => rfl
    | ok b' =>
      have hnext : rangeBound place (some b) = .ok (some b') := by
        rw [rangeBound_some hb, hread]
        rfl
      rw [ih hnext hrest]
      cases rest.mapM (Boundary.read place) <;> rfl

theorem rangeObjects_ne_nil (start : Option Value) (bs : List Value) :
    rangeObjects start bs ≠ [] := by
  cases bs <;> exact List.cons_ne_nil _ _

/-- Boundaries are checked as the ranges between them are. -/
theorem readRanges_expanded [Present] {v w : Value} (h : RangesExpand v w) (place : Location) :
    readRanges place v = readRanges place w := by
  cases h with
  | same => rfl
  | @boundaries bs given nonempty plain =>
    have hopen : rangeBound place none = .ok none := rfl
    have hobjects := mapM_rangeObjects hopen fun b hb => (plain b hb).1
    rw [readRanges_boundaries given nonempty fun b hb => (plain b hb).2,
      readRanges_objects rfl (rangeObjects_ne_nil none bs), hobjects]
    cases bs.mapM (Boundary.read place) with
    | error e => rfl
    | ok all => simp only [Except.map, ok_bind, checkRanges_boundaries]

/-! ### Clauses -/

theorem clauseOf_expanded [Present] {ms ns : Record}
    (h : Record.Paired (fun k v w => v = w ∨ k = "ranges" ∧ RangesExpand v w) ms ns) (index : Int) :
    clauseOf options index ms = clauseOf options index ns := by
  have hsame {k : String} (hk : k ≠ "ranges") : ms.get? k = ns.get? k := by
    refine h.get?_eq fun v w hvw => hvw.resolve_right fun hranges => hk ?_
    exact Name.text.inj hranges.1
  have hranges := h.get? "ranges"
  simp only [clauseOf, optional, namesOutside, h.keys, h.has, hsame (k := "field") (by decide),
    hsame (k := "interval") (by decide), hsame (k := "base") (by decide),
    hsame (k := "timeComponent") (by decide), hsame (k := "timeComponentCount") (by decide)]
  generalize ms.get? "ranges" = v, ns.get? "ranges" = w at hranges ⊢
  cases hranges with
  | none => rfl
  | some hvw =>
    rcases hvw with rfl | ⟨-, hvw⟩
    · rfl
    · simp only [readRanges_expanded hvw]
      rfl

theorem readClause_expanded [Present] {v w : Value} (h : ClauseExpands v w) (index : Int) :
    readClause options index v = readClause options index w := by
  cases h with
  | same => rfl
  | path => rfl
  | members each => exact clauseOf_expanded each index

theorem readClauses_expanded [Present] {vs ws : List Value} (h : List.Forall₂ ClauseExpands vs ws)
    (index : Nat) : readClauses options index vs = readClauses options index ws := by
  induction h generalizing index with
  | nil => rfl
  | cons hclause _ ih => rw [readClauses, readClauses, readClause_expanded hclause, ih]

theorem clauseValues?_of_sequence? {v : Value} {vs : List Value} (h : v.sequence? = some vs) :
    clauseValues? v = some vs := by
  cases v with
  | list | tuple | bytes | byteArray => exact h
  | _ => cases h

theorem readGroupBy_expanded [Present] {v w : Value} (h : GroupByExpands v w) :
    readGroupBy options v = readGroupBy options w := by
  cases h with
  | same => rfl
  | path clause => exact readClauses_expanded (.cons clause .nil) 0
  | object clause => exact readClauses_expanded (.cons clause .nil) 0
  | clauses given each =>
    rw [readGroupBy, clauseValues?_of_sequence? given]
    cases each with
    | nil => rfl
    | cons hclause hrest => exact readClauses_expanded (.cons hclause hrest) 0

/-! ### Whole requests -/

theorem totalStats_object (ms : Record) :
    totalStats options (.object ms) = readFields options ms := by
  cases ms <;> rfl

theorem totalStats_expanded {v w : Value} (h : StatsExpand v w) :
    totalStats options v = totalStats options w := by
  cases h with
  | same => rfl
  | @path path given =>
    have htruthy : (Value.str path).truthy = true := decide_eq_true given
    rw [totalStats, if_pos htruthy, statsSection_expanded (.path given), totalStats_object]
    rfl
  | @paths _ paths given =>
    rw [totalStats, truthy_of_sequence? given, statsSection_expanded (.paths given),
      totalStats_object]
    cases paths <;> rfl
  | fields each =>
    rw [totalStats_object, totalStats_object]
    exact readFields_expanded each

section
variable {ms ns : Record} (each : Record.Paired MemberExpands ms ns)
include each

theorem member_expanded {k : String} (hstats : k ≠ "stats") (hgroupBy : k ≠ "groupBy") :
    ms.get? k = ns.get? k := by
  refine each.get?_eq fun v w hvw => ?_
  rcases hvw with hvw | ⟨hk, -⟩ | ⟨hk, -⟩
  · exact hvw
  · exact absurd (Name.text.inj hk) hstats
  · exact absurd (Name.text.inj hk) hgroupBy

theorem statsMembers_expanded : Option.Rel StatsExpand (ms.get? "stats") (ns.get? "stats") := by
  have hrel := each.get? "stats"
  generalize ms.get? "stats" = v, ns.get? "stats" = w at hrel ⊢
  cases hrel with
  | none => exact .none
  | some hvw =>
    rcases hvw with rfl | ⟨-, hvw⟩ | ⟨hk, -⟩
    · exact .some (.same _)
    · exact .some hvw
    · exact absurd (Name.text.inj hk) (by decide)

theorem groupByMembers_expanded :
    Option.Rel GroupByExpands (ms.get? "groupBy") (ns.get? "groupBy") := by
  have hrel := each.get? "groupBy"
  generalize ms.get? "groupBy" = v, ns.get? "groupBy" = w at hrel ⊢
  cases hrel with
  | none => exact .none
  | some hvw =>
    rcases hvw with rfl | ⟨hk, -⟩ | ⟨-, hvw⟩
    · exact .some (.same _)
    · exact absurd (Name.text.inj hk) (by decide)
    · exact .some hvw

theorem groupStats_expanded :
    groupStats options (optional ms "stats") = groupStats options (optional ns "stats") := by
  have hrel := statsMembers_expanded each
  rw [optional, optional]
  generalize ms.get? "stats" = v, ns.get? "stats" = w at hrel ⊢
  cases hrel with
  | none => rfl
  | @some v w hvw =>
    cases hvw with
    | same => rfl
    | path given => exact statsSection_expanded (.path given)
    | @paths _ paths given =>
      cases v with
      | list | tuple | bytes | byteArray => exact statsSection_expanded (.paths given)
      | _ => cases given
    | fields each => exact statsSection_expanded (.fields each)

theorem groupSpec_expanded [Present] (extra : Record) (total : Bool) :
    groupSpec options ms extra total = groupSpec options ns extra total := by
  have hrel := groupByMembers_expanded each
  cases hms : ms.get? "groupBy" with
  | none =>
    cases hns : ns.get? "groupBy" with
    | none => rw [groupSpec, groupSpec, hms, hns]
    | some w =>
      rw [hms, hns] at hrel
      cases hrel
  | some v =>
    cases hns : ns.get? "groupBy" with
    | none =>
      rw [hms, hns] at hrel
      cases hrel
    | some w =>
      rw [hms, hns] at hrel
      cases hrel with
      | some hvw =>
        rw [groupSpec_of_some hms, groupSpec_of_some hns, readGroupBy_expanded hvw,
          groupStats_expanded each]

theorem statsSpec_expanded (extra : Record) (total : Bool) :
    statsSpec options ms extra total = statsSpec options ns extra total := by
  have hrel := statsMembers_expanded each
  rw [statsSpec_eq, statsSpec_eq, each.has]
  generalize ms.get? "stats" = v, ns.get? "stats" = w at hrel ⊢
  cases hrel with
  | none => rfl
  | some hvw => rw [Option.getD_some, Option.getD_some, totalStats_expanded hvw]

theorem extraMembers_expanded : extraMembers ms = extraMembers ns := by
  induction each with
  | nil => rfl
  | @cons m n ms ns hm _ ih =>
    obtain ⟨k, v⟩ := m
    obtain ⟨k', w⟩ := n
    obtain ⟨hname, hvw⟩ := hm
    dsimp only at hname hvw
    subst hname
    rw [extraMembers, extraMembers] at ih ⊢
    rw [List.filter_cons, List.filter_cons, ih]
    rcases hvw with rfl | ⟨rfl, -⟩ | ⟨rfl, -⟩ <;> rfl

theorem wantsGroups_expanded : wantsGroups ms = wantsGroups ns := by
  rw [wantsGroups, wantsGroups, member_expanded each (k := "type") (by decide) (by decide),
    member_expanded each (k := "aggregateType") (by decide) (by decide), each.has]

end

/-- Short forms mean their long forms: with the same options a request is read as the one in which
they are written out, and refused where that is, for the same reason. -/
theorem ofRequest_expanded [Present] {v w : Value} (h : Expands v w) (options : RequestOptions) :
    Spec.ofRequest options v = Spec.ofRequest options w := by
  cases h with
  | same => rfl
  | @members ms ns each =>
    rw [ofRequest_object, ofRequest_object, namesOutside_eq, namesOutside_eq,
      extraMembers_expanded each, member_expanded each (by decide) (by decide)]
    simp only [wantsGroups_expanded each, groupSpec_expanded each, statsSpec_expanded each]

/-- Short forms within short forms, and what both requests are read as. -/
theorem ofRequest_expanded_of_nested :
    let bs : List Value := [.str "2012-01-01", .str "2012-01-02"]
    let short : Value := .object [
      ("groupBy", .object [("field", .str "day"), ("ranges", .list bs)]),
      ("stats", .list [.str "kind", .str "age", .str "kind"])]
    let long : Value := .object [
      ("groupBy", .list [.object [("field", .str "day"), ("ranges", .list [
        .object [("end", .str "2012-01-01")],
        .object [("start", .str "2012-01-01"), ("end", .str "2012-01-02")],
        .object [("start", .str "2012-01-02")]])]]),
      ("stats", .object [("kind", countAlone), ("age", countAlone)])]
    let first : Instant := ⟨63460972800000000, by decide⟩
    let second : Instant := ⟨63461059200000000, by decide⟩
    let days := [⟨none, some first⟩, ⟨some first, some second⟩, ⟨some second, none⟩]
    let spec : Spec := ⟨some [⟨"day", .timeRanges days⟩],
      [("kind", { count := true }), ("age", { count := true })], false, []⟩
    Expands short long ∧ Spec.ofRequest {} short = .ok spec ∧
      Spec.ofRequest {} long = .ok spec := by
  intro bs short long first second days spec
  have hranges : RangesExpand (.list bs) (.list ((rangeObjects none bs).map .object)) :=
    .boundaries rfl (List.cons_ne_nil _ _) (List.forall_mem_cons.mpr
      ⟨⟨Value.noConfusion, rfl⟩, List.forall_mem_singleton.mpr ⟨Value.noConfusion, rfl⟩⟩)
  have hgroupBy : GroupByExpands (.object [("field", .str "day"), ("ranges", .list bs)])
      (.list [.object [("field", .str "day"),
        ("ranges", .list ((rangeObjects none bs).map .object))]]) :=
    .object (.members (.cons ⟨rfl, .inl rfl⟩ (.cons ⟨rfl, .inr ⟨rfl, hranges⟩⟩ .nil)))
  have hstats : StatsExpand (.list [.str "kind", .str "age", .str "kind"])
      (.object (countedFields ["kind", "age", "kind"])) := .paths rfl
  have h : Expands short long := .members (.cons ⟨rfl, .inr (.inr ⟨rfl, hgroupBy⟩)⟩
    (.cons ⟨rfl, .inr (.inl ⟨rfl, hstats⟩)⟩ .nil))
  have hspec : Spec.ofRequest {} short = .ok spec := rfl
  exact ⟨h, hspec, (ofRequest_expanded h {}).symm.trans hspec⟩

end Aggregate
end RecordStore
