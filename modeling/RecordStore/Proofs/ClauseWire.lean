import RecordStore.Proofs.Requests
import RecordStore.Proofs.TimestampText

/-! The wire forms of clauses. What a reader gave for ranges, an interval or a calendar unit has a
wire form that the same reader takes back. -/
namespace RecordStore

theorem Num.lt_irrefl (n : Num) : n.lt n = false := by
  rw [lt]
  cases n.place? with
  | none => rfl
  | some p => cases p <;> simp [Place.lt, Place.le]

namespace Aggregate

/-! ### Ranges -/

namespace Boundary

def toWire : Boundary → Value
  | number n => .num n
  | time t => .str t.text

theorem read_toWire [Present] (place : Location) (b : Boundary) : read place b.toWire = .ok b := by
  cases b with
  | number n => rfl
  | time t =>
    have ht : (Value.str t.text).toInstant = .ok t := TimeText.parseTimestamp_text t
    simp [read, toWire, Value.isDateLike, ht]

theorem gt_irrefl (b : Boundary) : b.gt b = false := by
  cases b with
  | number n => exact Num.lt_irrefl n
  | time t => simp [gt]

end Boundary

namespace Range

def members (r : Range Boundary) : Record :=
  given "start" (r.start.map Boundary.toWire) ++ given "end" (r.finish.map Boundary.toWire)

theorem rangeBound_toWire [Present] (place : Location) (b? : Option Boundary) :
    rangeBound place (b?.map Boundary.toWire) = .ok b? := by
  cases b? with
  | none => rfl
  | some b =>
    have hb := b.read_toWire place
    cases b <;> exact bind_eq_ok.mpr ⟨_, hb, rfl⟩

theorem rangeOf_members [Present] (place : Location) (r : Range Boundary) :
    rangeOf place r.members = .ok r := by
  have hnames : namesOutside ["start", "end"] r.members = [] := by
    obtain ⟨_ | s, _ | f⟩ := r <;> rfl
  have hstart : r.members.get? "start" = r.start.map Boundary.toWire := by
    obtain ⟨_ | s, _ | f⟩ := r <;> rfl
  have hfinish : r.members.get? "end" = r.finish.map Boundary.toWire := by
    obtain ⟨_ | s, _ | f⟩ := r <;> rfl
  rw [rangeOf, hnames, hstart, hfinish, rangeBound_toWire, rangeBound_toWire]
  rfl

end Range

theorem map_bind_pick {α : Type} {pick : Boundary → Option α} {wire : α → Value}
    (hwire : ∀ {b a}, pick b = some a → wire a = b.toWire) {b? : Option Boundary}
    (h : ∀ b ∈ b?.toList, (pick b).isSome) : (b?.bind pick).map wire = b?.map Boundary.toWire := by
  cases b? with
  | none => rfl
  | some b =>
    obtain ⟨a, ha⟩ := Option.isSome_iff_exists.mp (h b List.mem_cons_self)
    rw [Option.bind_some, ha, Option.map_some, hwire ha, Option.map_some]

theorem toWire_only {α : Type} {pick : Boundary → Option α} {wire : α → Value}
    (hwire : ∀ {b a}, pick b = some a → wire a = b.toWire) {rs : List (Range Boundary)}
    (h : ∀ b ∈ bounds rs, (pick b).isSome) :
    (rs.map (Range.only pick)).map (·.toWire wire) = (rs.map Range.members).map .object := by
  rw [List.map_map, List.map_map]
  refine List.map_congr_left fun r hr => ?_
  have hr : ∀ b ∈ r.start.toList ++ r.finish.toList, (pick b).isSome :=
    fun b hb => h b (List.mem_flatMap.mpr ⟨r, hr, hb⟩)
  rw [List.forall_mem_append] at hr
  simp only [Function.comp_apply, Range.toWire, Range.only, Range.members,
    map_bind_pick hwire hr.1, map_bind_pick hwire hr.2]

theorem unmixed_eq_ok {place : Location} {rs : List (Range Boundary)} {g : Grouping}
    (h : unmixed place rs = .ok g) :
    (∀ b ∈ bounds rs, b.time?.isSome) ∧ g = .timeRanges (rs.map (Range.only Boundary.time?)) ∨
    (∀ b ∈ bounds rs, b.number?.isSome) ∧
      g = .numberRanges (rs.map (Range.only Boundary.number?)) := by
  obtain ⟨_, hsort, h⟩ := bind_eq_ok.mp h
  rw [require_eq_ok, Bool.or_eq_true, List.all_eq_true, List.all_eq_true] at hsort
  split at h
  · rename_i hany
    obtain ⟨b, hb, htime⟩ := List.any_eq_true.mp hany
    have hall : ∀ b ∈ bounds rs, b.time?.isSome := by
      refine hsort.resolve_left fun hnumbers => ?_
      have := hnumbers b hb
      cases b <;> simp_all [Boundary.time?, Boundary.number?]
    cases h
    exact .inl ⟨hall, rfl⟩
  · rename_i hnone
    have hall : ∀ b ∈ bounds rs, b.number?.isSome := by
      rcases hsort with hnumbers | htimes
      · exact hnumbers
      · intro b hb
        exact absurd (List.any_eq_true.mpr ⟨b, hb, htimes b hb⟩) hnone
    cases h
    exact .inr ⟨hall, rfl⟩

theorem toWire_of_unmixed {place : Location} {rs : List (Range Boundary)} {g : Grouping}
    (h : unmixed place rs = .ok g) :
    g.toWire = [(.text "ranges", .list ((rs.map Range.members).map .object))] := by
  rcases unmixed_eq_ok h with ⟨hall, rfl⟩ | ⟨hall, rfl⟩
  · rw [Grouping.toWire, toWire_only (fun {b a} hb => ?_) hall]
    cases b <;> cases hb
    rfl
  · rw [Grouping.toWire, toWire_only (fun {b a} hb => ?_) hall]
    cases b <;> cases hb
    rfl

theorem require_and {a b : Bool} {fault : SpecFault} {place : Location} :
    require (a && b) fault place = require a fault place >>= fun _ => require b fault place := by
  cases a <;> rfl

theorem checkRanges_between (place : Location) (before : Option (Range Boundary))
    (start : Option Boundary) (all : List Boundary) (hfirst : start.isSome ∨ before = none)
    (hstart : before.bind (·.finish) = start) : checkRanges place before (between start all) =
      require (ascending (start.toList ++ all)) .unsortedRanges place := by
  induction all generalizing before start with
  | nil =>
    have hascending : ascending (start.toList ++ []) = true := by cases start <;> rfl
    rw [hascending, require_true, between, checkRanges_cons_eq_ok]
    refine ⟨⟨hfirst, ?_, ?_⟩, .inr rfl, rfl⟩
    · intro s _ f hf
      cases hf
    · intro f hf s hs
      cases (hstart.symm.trans hf).symm.trans hs
      exact f.gt_irrefl
  | cons b rest ih =>
    have hrest := ih (some ⟨start, some b⟩) (some b) (.inl rfl) rfl
    have hshown : (start.isSome || before.isNone) = true := by
      rwa [Bool.or_eq_true, Option.isNone_iff_eq_none]
    rw [between, checkRanges, hshown, hstart, hrest]
    cases start with
    | none => rfl
    | some s =>
      simp only [require_true, ok_bind, Option.isSome_some, Bool.true_or, s.gt_irrefl,
        Bool.not_false, Option.toList_some, List.singleton_append, ascending, require_and]

theorem checkRanges_boundaries (place : Location) (all : List Boundary) :
    checkRanges place none (between none all) = require (ascending all) .unsortedRanges place :=
  checkRanges_between place none none all (.inr rfl) rfl

theorem between_ne_nil (start : Option Boundary) (all : List Boundary) :
    between start all ≠ [] := by
  cases all <;> exact List.cons_ne_nil _ _

theorem readRanges_eq_ok [Present] {place : Location} {v : Value} {g : Grouping}
    (h : readRanges place v = .ok g) :
    ∃ rs, rs ≠ [] ∧ checkRanges place none rs = .ok () ∧ unmixed place rs = .ok g := by
  rw [readRanges] at h
  split at h
  · obtain ⟨_, -, h⟩ := bind_eq_ok.mp h
    dsimp only at h
    split at h
    · obtain ⟨all, -, h⟩ := bind_eq_ok.mp h
      obtain ⟨_, hascending, h⟩ := bind_eq_ok.mp h
      exact ⟨_, between_ne_nil _ _, (checkRanges_boundaries place all).trans hascending, h⟩
    · rename_i hobjects
      split at h
      · obtain ⟨rs, hrs, h⟩ := bind_eq_ok.mp h
        obtain ⟨_, hcheck, h⟩ := bind_eq_ok.mp h
        have hlength := (mapM_eq_ok.mp hrs).length_eq
        refine ⟨rs, ?_, hcheck, h⟩
        rintro rfl
        exact hobjects (List.eq_nil_of_length_eq_zero hlength)
      · cases h
  · cases h

theorem readRanges_toWire [Present] {place : Location} {v : Value} {g : Grouping}
    (h : readRanges place v = .ok g) :
    ∃ w, g.toWire = [(.text "ranges", w)] ∧ readRanges place w = .ok g := by
  obtain ⟨rs, hne, hcheck, hg⟩ := readRanges_eq_ok h
  refine ⟨_, toWire_of_unmixed hg, ?_⟩
  have hread : (rs.map Range.members).mapM (rangeOf place) = .ok rs := by
    rw [mapM_eq_ok, List.forall₂_map_left_iff]
    exact List.forall₂_same.mpr fun r _ => r.rangeOf_members place
  rw [readRanges_objects rfl (by simpa using hne), hread, ok_bind, hcheck, ok_bind, hg]

/-! ### Intervals and calendar units -/

theorem readInterval_toWire [Present] {place : Location} {v : Value} {base : Option Value}
    {g : Grouping} (h : readInterval place v base = .ok g) :
    ∃ w b, g.toWire = (.text "interval", w) :: given "base" b ∧ b ≠ some .null ∧
      readInterval place w b = .ok g := by
  cases v with
  | num step =>
    obtain ⟨_, hstep, hbase⟩ := bind_eq_ok.mp h
    split at hbase
    · cases hbase
      exact ⟨.num step, none, rfl, nofun, h⟩
    · rename_i b
      cases hbase
      exact ⟨.num step, some (.num b), rfl, nofun, h⟩
    · cases hbase
  | str text =>
    rw [readInterval] at h
    split at h
    · split at h <;> cases h
    · rename_i step hduration
      obtain ⟨_, hstep, hbase⟩ := bind_eq_ok.mp h
      split at hbase
      · cases hbase
        refine ⟨.str text, none, rfl, nofun, ?_⟩
        rw [readInterval, hduration]
        exact h
      · obtain ⟨_, -, hbase⟩ := bind_eq_ok.mp hbase
        split at hbase
        · rename_i t _
          cases hbase
          have ht : (Value.str t.text).toInstant = .ok t := TimeText.parseTimestamp_text t
          refine ⟨.str text, some (.str t.text), rfl, nofun, ?_⟩
          rw [readInterval, hduration]
          refine bind_eq_ok.mpr ⟨_, hstep, ?_⟩
          dsimp only
          rw [ht]
          rfl
        · split at hbase <;> cases hbase
  | _ => cases h

theorem ofName?_name (unit : CalendarUnit) : CalendarUnit.ofName? unit.name = some unit := by
  cases unit <;> rfl

theorem readUnit_toWire {place : Location} {v count : Value} {g : Grouping}
    (h : readUnit place v count = .ok g) :
    ∃ w n, g.toWire = [(.text "timeComponent", w), (.text "timeComponentCount", n)] ∧
      readUnit place w n = .ok g := by
  unfold readUnit at h
  dsimp only at h
  split at h
  · rename_i unit _
    split at h
    · rename_i n
      obtain ⟨_, hn, h⟩ := bind_eq_ok.mp h
      cases h
      refine ⟨.str unit.name, .int n.toNat, rfl, ?_⟩
      have hcast : (n.toNat : Int) = n := by
        rw [require_eq_ok, decide_eq_true_iff] at hn
        omega
      rw [hcast, readUnit, ofName?_name]
      exact bind_eq_ok.mpr ⟨_, hn, rfl⟩
    · cases h
  · cases h

/-! ### Clauses -/

def Clause.members (c : Clause) : Record := ("field", .str c.field) :: c.grouping.toWire

theorem fitNames_members (c : Clause) : FitNames c.members := by
  obtain ⟨field, g⟩ := c
  cases g with
  | discrete => exact ⟨rfl, Nat.zero_le 1, rfl, rfl⟩
  | numberRanges rs => exact ⟨rfl, Nat.le_refl 1, rfl, rfl⟩
  | timeRanges rs => exact ⟨rfl, Nat.le_refl 1, rfl, rfl⟩
  | numberInterval step base => cases base <;> exact ⟨rfl, Nat.le_refl 1, rfl, rfl⟩
  | timeInterval text step base => cases base <;> exact ⟨rfl, Nat.le_refl 1, rfl, rfl⟩
  | calendar unit count => exact ⟨rfl, Nat.le_refl 1, rfl, rfl⟩

theorem groupingOf_interval [Present] {place : Location} {field w : Value} {b : Option Value}
    (hb : b ≠ some .null) :
    groupingOf place ((.text "field", field) :: (.text "interval", w) :: given "base" b) =
      readInterval place w b := by
  cases b with
  | none => rfl
  | some v =>
    cases v with
    | null => exact absurd rfl hb
    | _ => rfl

theorem groupingOf_members [Present] {place : Location} {ms : Record} {field : String}
    {g : Grouping} (h : groupingOf place ms = .ok g) :
    groupingOf place (Clause.members ⟨field, g⟩) = .ok g := by
  rw [groupingOf] at h
  split at h
  · obtain ⟨w, hw, hread⟩ := readRanges_toWire h
    rw [Clause.members, hw]
    exact hread
  · obtain ⟨w, b, hw, hb, hread⟩ := readInterval_toWire h
    rw [Clause.members, hw, groupingOf_interval hb, hread]
  · obtain ⟨w, n, hw, hread⟩ := readUnit_toWire h
    rw [Clause.members, hw]
    exact hread
  · cases h
    rfl

theorem readClause_toWire [Present] {options : RequestOptions} {index : Int} {v : Value}
    {c : Clause}
    (h : readClause options index v = .ok c) : readClause options index c.toWire = .ok c := by
  have hclause : ∃ ms, clauseOf options index ms = .ok c := by
    cases v with
    | str path => exact ⟨_, h⟩
    | object ms => exact ⟨ms, h⟩
    | _ => cases h
  obtain ⟨ms, hms⟩ := hclause
  obtain ⟨hfield, -, hg⟩ := clauseOf_eq_ok.mp hms
  rw [fieldPath_eq_ok hfield] at hfield
  exact clauseOf_eq_ok.mpr ⟨hfield, fitNames_members c, groupingOf_members hg⟩

theorem readClauses_toWire [Present] {options : RequestOptions} {index : Nat} {vs : List Value}
    {cs : List Clause} (h : readClauses options index vs = .ok cs) :
    readClauses options index (cs.map Clause.toWire) = .ok cs := by
  induction vs generalizing index cs with
  | nil =>
    cases h
    rfl
  | cons v vs ih =>
    obtain ⟨c, hc, h⟩ := bind_eq_ok.mp h
    obtain ⟨cs, hcs, h⟩ := bind_eq_ok.mp h
    cases h
    rw [List.map_cons, readClauses, readClause_toWire hc, ok_bind, ih hcs]
    rfl

end Aggregate
end RecordStore
