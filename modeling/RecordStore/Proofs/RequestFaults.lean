import RecordStore.Aggregate.Outcome
import RecordStore.Proofs.TimeFaults
import RecordStore.Proofs.TimeRanges

/-! Requests that are neither accepted nor refused: they first go wrong at a time that cannot be
reckoned, which is a fault that no refusal tells of, or at a value with a number in it that is too
long for the words of a refusal. -/
namespace RecordStore

namespace Value
variable {v : Value}

theorem truthy_of_unwritable (h : v.isWritable = false) : v.truthy := by
  cases v with
  | num n =>
    cases n with
    | int i =>
      rw [truthy, Num.isZero]
      by_contra hzero
      have hi : i = 0 := by simpa using hzero
      have hpos : ∀ n, 0 < Nat.pow 10 n := fun n => Nat.pow_pos (by decide)
      rw [isWritable, decide_eq_false_iff_not, hi] at h
      exact h (hpos Text.numeralLimit)
    | _ => cases h
  | list xs | tuple xs | set xs =>
    cases xs with
    | nil => cases h
    | cons x xs => rfl
  | object ms =>
    cases ms with
    | nil => cases h
    | cons m ms => rfl
  | document data => rfl
  | _ => cases h

end Value

namespace Aggregate

open TimeFault (Untold isRefusal tells_refusals)

/-- A fault that is no refusal: of a time, or one that cannot be put into words. -/
def SpecError.Stray : SpecError → Prop
  | .invalid fault _ => (Fault.spec fault).isWritable = false
  | .time _ => True

abbrev Strays {α : Type} (r : Reading α) : Prop := Fails SpecError.Stray r

section
variable {α β : Type} {fault : SpecFault} {place : Location}

theorem isWritable_of_quoted (h : fault.quoted = []) : (Fault.spec fault).isWritable := by
  rw [Fault.isWritable, Fault.quoted, h]
  rfl

theorem Refuses.not_strays {r : Reading α} (h : Refuses place r) : ¬ Strays r := by
  intro hs
  obtain ⟨e, he, hstray⟩ := hs
  obtain ⟨fault, rfl, hquoted⟩ := h e he
  exact Bool.eq_false_iff.mp hstray (isWritable_of_quoted hquoted)

theorem not_strays_refuse (h : fault.quoted = []) : ¬ Strays (refuse fault place : Reading α) :=
  (refuses_refuse h).not_strays

theorem strays_refuse {v : Value} (h : fault.quoted = [v]) :
    Strays (refuse fault place : Reading α) ↔ v.isWritable = false := by
  rw [Strays, refuse, fails_error, SpecError.Stray, Fault.isWritable, Fault.quoted, h,
    List.all_cons, List.all_nil, Bool.and_true]

theorem strays_require (h : fault.quoted = []) {holds : Bool} :
    ¬ Strays (require holds fault place) :=
  (refuses_require h).not_strays

theorem strays_require_bind (hf : fault.quoted = []) {holds : Bool} {r : Unit → Reading α} :
    Strays (require holds fault place >>= r) ↔ holds ∧ Strays (r ()) := by
  rw [Strays, fails_bind]
  constructor
  · intro h
    rcases h with h | ⟨⟨⟩, hholds, h⟩
    · exact absurd h (strays_require hf)
    · exact ⟨require_eq_ok.mp hholds, h⟩
  · intro h
    exact .inr ⟨(), require_eq_ok.mpr h.1, h.2⟩

/-- A fault of a time is told as a refusal if it can be. -/
theorem strays_told {f : TimeFault} (hf : (Fault.spec fault).isWritable) :
    Strays (if f.isRefusal then refuse fault place else .error (.time f) : Reading α) ↔
      Untold isRefusal f := by
  rw [Untold]
  split
  · rename_i h
    refine iff_of_false (fun hs => ?_) (by simp [h])
    obtain ⟨_, ⟨⟩, hstray⟩ := hs
    exact Bool.eq_false_iff.mp hstray hf
  · rename_i h
    exact iff_of_true (fails_error.mpr trivial) (by simpa using h)

theorem told_ne_ok {f : TimeFault} {a : α} :
    (if f.isRefusal then refuse fault place else .error (.time f) : Reading α) ≠ .ok a := by
  split
  · rintro ⟨⟩
  · rintro ⟨⟩

end

/-! ### Boundaries and ranges -/

/-- A number, or a date-like value that has an instant. -/
def IsBoundary [Present] (v : Value) : Prop := v.isNum ∨ v.isDateLike ∧ ∃ t, v.toInstant = .ok t

theorem boundary_read [Present] {place : Location} {v : Value} :
    (∃ b, Boundary.read place v = .ok b) ↔ IsBoundary v := by
  rw [Boundary.read.eq_def, IsBoundary]
  split
  · exact iff_of_true ⟨_, rfl⟩ (.inl rfl)
  · rename_i hnum
    have hnum : v.isNum = false := by
      cases v with
      | num n => exact absurd rfl (hnum n)
      | _ => rfl
    split
    · rename_i hlike
      cases v.toInstant with
      | ok t => exact iff_of_true ⟨_, rfl⟩ (.inr ⟨hlike, t, rfl⟩)
      | error f => exact iff_of_false (fun ⟨b, h⟩ => told_ne_ok h) (by simp [hnum])
    · rename_i hlike
      refine iff_of_false (fun ⟨b, h⟩ => ?_) (by simp [hnum, hlike])
      cases h

/-- What is no boundary, for a time that cannot be reckoned or in a way that no words tell. -/
def BoundaryUnanswered (v : Value) : Prop :=
  v.Unreckoned isRefusal ∨ v.isNum = false ∧ v.isWritable = false

theorem boundary_strays [Present] {place : Location} {v : Value} :
    Strays (Boundary.read place v) ↔ BoundaryUnanswered v := by
  rw [Boundary.read.eq_def, BoundaryUnanswered]
  split
  · exact iff_of_false fails_ok (by simp [Value.Unreckoned, Value.isNum])
  · rename_i hnum
    have hnum : v.isNum = false := by
      cases v with
      | num n => exact absurd rfl (hnum n)
      | _ => rfl
    split
    · rename_i hlike
      have hwritable := Value.isWritable_of_isDateLike hlike
      have hfault : (Fault.spec (.boundary v)).isWritable := by
        simp [Fault.isWritable, Fault.quoted, SpecFault.quoted, hwritable]
      rw [← Value.toInstant_fails tells_refusals (.inl hlike), hwritable, hnum]
      cases v.toInstant with
      | ok t => exact iff_of_false fails_ok (by simp [fails_ok])
      | error f => exact (strays_told hfault).trans (by simp [fails_error])
    · rename_i hlike
      have hreckoned : ¬ v.Unreckoned isRefusal := fun h => hlike (Value.isDateLike_of_unreckoned h)
      rw [strays_refuse rfl]
      simp [hreckoned, hnum]

/-- A bound that is left out or null, or a boundary. -/
def IsBound [Present] (v : Option Value) : Prop :=
  v = none ∨ v = some .null ∨ ∃ w, v = some w ∧ IsBoundary w

def BoundUnanswered (v : Option Value) : Prop := ∃ w, v = some w ∧ BoundaryUnanswered w

theorem rangeBound_read [Present] (place : Location) {v : Option Value} :
    (∃ b, rangeBound place v = .ok b) ↔ IsBound v := by
  rw [IsBound, rangeBound.eq_def]
  split
  · exact iff_of_true ⟨_, rfl⟩ (.inl rfl)
  · exact iff_of_true ⟨_, rfl⟩ (.inr (.inl rfl))
  · rename_i v hnull
    simp only [bind_eq_ok, pure_eq_ok]
    have hbound : (∃ b a, Boundary.read place v = .ok a ∧ some a = b) ↔
        ∃ a, Boundary.read place v = .ok a := by simp
    have hnone : v ≠ .null := hnull
    rw [hbound, boundary_read]
    simp [hnone]

theorem rangeBound_strays [Present] {place : Location} {v : Option Value} :
    Strays (rangeBound place v) ↔ BoundUnanswered v := by
  rw [BoundUnanswered, rangeBound.eq_def]
  split
  · exact iff_of_false fails_ok (by simp)
  · exact iff_of_false fails_ok
      (by simp [BoundaryUnanswered, Value.Unreckoned, Value.isWritable])
  · rename_i v hnull
    rw [Strays, fails_bind]
    simp [boundary_strays, fails_pure]

/-- The names of a range are known, and no refusal tells of the first of its bounds that is none. -/
def RangeUnanswered [Present] (ms : Record) : Prop :=
  namesOutside ["start", "end"] ms = [] ∧
    FirstBad IsBound BoundUnanswered [ms.get? "start", ms.get? "end"]

def IsRange [Present] (ms : Record) : Prop :=
  namesOutside ["start", "end"] ms = [] ∧ IsBound (ms.get? "start") ∧ IsBound (ms.get? "end")

theorem rangeOf_read [Present] {place : Location} {ms : Record} :
    (∃ r, rangeOf place ms = .ok r) ↔ IsRange ms := by
  simp only [rangeOf, IsRange, ← rangeBound_read place, bind_eq_ok, require_eq_ok,
    pure_eq_ok, decide_eq_true_iff]
  constructor
  · intro h
    obtain ⟨_, _, hnames, start, hstart, finish, hfinish, -⟩ := h
    exact ⟨hnames, ⟨start, hstart⟩, finish, hfinish⟩
  · intro h
    obtain ⟨hnames, ⟨start, hstart⟩, finish, hfinish⟩ := h
    exact ⟨_, (), hnames, start, hstart, finish, hfinish, rfl⟩

theorem rangeOf_strays [Present] {place : Location} {ms : Record} :
    Strays (rangeOf place ms) ↔ RangeUnanswered ms := by
  rw [rangeOf, strays_require_bind rfl, decide_eq_true_iff, RangeUnanswered, firstBad_cons,
    firstBad_cons, Strays, fails_bind]
  simp only [fails_bind_pure, rangeBound_strays, ← rangeBound_read place, firstBad_nil,
    and_false, or_false, exists_and_right]

/-- The boundaries or ranges of a clause: no refusal tells of the first that is none. -/
def RangesUnanswered [Present] (v : Value) : Prop :=
  (∃ items, v.sequence? = some items ∧ (∀ i ∈ items, i.members? = none) ∧
    FirstBad IsBoundary BoundaryUnanswered items) ∨
  ∃ objects : List Record, v.sequence? = some (objects.map .object) ∧
    FirstBad IsRange RangeUnanswered objects

theorem refuses_unmixed {place : Location} {rs : List (Range Boundary)} :
    Refuses place (unmixed place rs) := by
  refine (refuses_require rfl).bind fun _ _ => ?_
  split
  · exact refuses_ok
  · exact refuses_ok

theorem eq_map_of_length_eq {items : List Value}
    (h : (items.filterMap Value.members?).length = items.length) :
    items = (items.filterMap Value.members?).map .object := by
  induction items with
  | nil => rfl
  | cons i items ih =>
    have hle := List.length_filterMap_le Value.members? items
    cases hi : i.members? with
    | none =>
      rw [List.filterMap_cons_none hi, List.length_cons] at h
      omega
    | some ms =>
      rw [List.filterMap_cons_some hi] at h ⊢
      rw [List.map_cons, ← ih (Nat.succ.inj h)]
      cases i with
      | object ns =>
        cases hi
        rfl
      | _ => cases hi

theorem readRanges_strays [Present] {place : Location} {v : Value} :
    Strays (readRanges place v) ↔ RangesUnanswered v := by
  constructor
  · intro h
    cases hv : v.sequence? with
    | none =>
      rw [readRanges, hv] at h
      exact absurd h (not_strays_refuse rfl)
    | some items =>
      rw [readRanges, hv] at h
      obtain ⟨-, h⟩ := (strays_require_bind rfl).mp h
      dsimp only at h
      split at h
      · rename_i hno
        have hno := List.filterMap_eq_nil_iff.mp hno
        rcases fails_bind.mp h with h | ⟨all, -, h⟩
        · rw [fails_mapM] at h
          exact .inl ⟨items, hv, hno,
            (firstBad_congr (fun _ => boundary_read) fun _ => boundary_strays).mp h⟩
        · exact absurd h ((refuses_require rfl).bind fun _ _ => refuses_unmixed).not_strays
      · split at h
        · rename_i hall
          rcases fails_bind.mp h with h | ⟨rs, -, h⟩
          · rw [fails_mapM] at h
            exact .inr ⟨_, eq_map_of_length_eq hall ▸ hv,
              (firstBad_congr (fun _ => rangeOf_read) fun _ => rangeOf_strays).mp h⟩
          · exact absurd h
              ((TimeRanges.refuses_checkRanges none rs).bind fun _ _ => refuses_unmixed).not_strays
        · exact absurd h (not_strays_refuse rfl)
  · intro h
    rcases h with ⟨items, hv, hno, hbad⟩ | ⟨objects, hv, hbad⟩
    · have hne : items ≠ [] := fun h => firstBad_nil (h ▸ hbad)
      rw [readRanges_boundaries hv hne hno]
      refine fails_bind.mpr (.inl (fails_mapM.mpr ?_))
      exact (firstBad_congr (fun _ => boundary_read) fun _ => boundary_strays).mpr hbad
    · have hne : objects ≠ [] := fun h => firstBad_nil (h ▸ hbad)
      rw [readRanges_objects hv hne]
      refine fails_bind.mpr (.inl (fails_mapM.mpr ?_))
      exact (firstBad_congr (fun _ => rangeOf_read) fun _ => rangeOf_strays).mpr hbad

/-! ### Intervals, units and clauses -/

/-- A base that is given and cannot be reckoned. -/
def BaseUnreckoned (v : Option Value) : Prop := ∃ w, v = some w ∧ w.Unreckoned isRefusal

/-- A duration's text goes wrong on reading, or its base cannot be reckoned. -/
def IntervalUnreckoned (interval : Value) (base : Option Value) : Prop :=
  ∃ text, interval = .str text ∧ (TimeText.Baffling isRefusal text ∨ TimeText.Overlong text ∨
    ∃ step, TimeText.parseDuration text = .ok step ∧ 0 < step ∧ BaseUnreckoned base)

theorem readInterval_strays [Present] {place : Location} {interval : Value} {base : Option Value} :
    Strays (readInterval place interval base) ↔ IntervalUnreckoned interval base := by
  cases interval with
  | num step =>
    refine iff_of_false (Refuses.not_strays (?_ : Refuses place _)) (by simp [IntervalUnreckoned])
    refine (refuses_require rfl).bind fun _ _ => ?_
    split
    · exact refuses_ok
    · exact refuses_ok
    · exact refuses_refuse rfl
  | str text =>
    have htext : IntervalUnreckoned (.str text) base ↔
        Fails (Untold isRefusal) (TimeText.parseDuration text) ∨
          ∃ step, TimeText.parseDuration text = .ok step ∧ 0 < step ∧ BaseUnreckoned base := by
      simp [IntervalUnreckoned, TimeText.parseDuration_fails tells_refusals, or_assoc]
    rw [htext, readInterval]
    cases TimeText.parseDuration text with
    | error f =>
      have hfault : (Fault.spec (.duration text f)).isWritable := isWritable_of_quoted rfl
      simp [strays_told hfault, fails_error]
    | ok step =>
      dsimp only
      have hstep : (Fails (Untold isRefusal) (.ok step : Except TimeFault Int) ∨ ∃ s,
          (.ok step : Except TimeFault Int) = .ok s ∧ 0 < s ∧ BaseUnreckoned base) ↔
          0 < step ∧ BaseUnreckoned base := by simp [fails_ok]
      rw [strays_require_bind rfl, decide_eq_true_iff, hstep]
      refine and_congr_right fun _ => ?_
      cases base with
      | none => exact iff_of_false fails_ok (by simp [BaseUnreckoned])
      | some b =>
        dsimp only
        have hbase : BaseUnreckoned (some b) ↔ b.isDateLike ∧ b.Unreckoned isRefusal := by
          simpa [BaseUnreckoned] using Value.isDateLike_of_unreckoned
        rw [strays_require_bind rfl, hbase]
        refine and_congr_right fun hlike => ?_
        have hfault : (Fault.spec (.baseText b)).isWritable := by
          simp [Fault.isWritable, Fault.quoted, SpecFault.quoted,
            Value.isWritable_of_isDateLike hlike]
        rw [← Value.toInstant_fails tells_refusals (.inl hlike)]
        cases b.toInstant with
        | ok t => exact iff_of_false fails_ok fails_ok
        | error f => exact (strays_told hfault).trans fails_error.symm
  | _ => exact iff_of_false (not_strays_refuse rfl) (by simp [IntervalUnreckoned])

theorem refuses_readUnit {place : Location} {unit count : Value} :
    Refuses place (readUnit place unit count) := by
  unfold readUnit
  dsimp only
  split
  · split
    · refine (refuses_require rfl).bind fun _ _ => refuses_ok
    · exact refuses_refuse rfl
  · exact refuses_refuse rfl

/-- No refusal tells of the ranges or the interval of a clause. -/
def GroupingUnanswered [Present] (ms : Record) : Prop :=
  (∃ v, ms.get? "ranges" = some v ∧ RangesUnanswered v) ∨
    ∃ v, ms.get? "interval" = some v ∧ IntervalUnreckoned v (optional ms "base")

theorem groupingOf_strays [Present] {place : Location} {ms : Record} (hms : FitNames ms) :
    Strays (groupingOf place ms) ↔ GroupingUnanswered ms := by
  have hone : ¬ (ms.has "ranges" ∧ ms.has "interval") := by
    intro h
    have hmodes := hms.modes
    simp [modeNames, List.filter_cons, h.1, h.2] at hmodes
  rw [groupingOf, GroupingUnanswered]
  cases hranges : ms.get? "ranges" with
  | some v =>
    have hinterval : ms.get? "interval" = none := by
      simpa [Record.has, hranges] using hone
    simp [hinterval, readRanges_strays]
  | none =>
    cases hinterval : ms.get? "interval" with
    | some v => simp [readInterval_strays]
    | none =>
      cases ms.get? "timeComponent" with
      | some v => simp [refuses_readUnit.not_strays]
      | none => simp [fails_ok]

/-- A path that is not empty, and has no empty name if paths are strict. -/
def IsPath (options : RequestOptions) (path : String) : Prop :=
  path ≠ "" ∧ (options.strictFieldPaths → ∀ name ∈ Path.ofText path, name ≠ "")

theorem fieldPath_read {options : RequestOptions} (clause : Value) {path : String} {v : Value} :
    fieldPath options clause v = .ok path ↔ v = .str path ∧ IsPath options path := by
  cases v with
  | str s =>
    rw [fieldPath, IsPath]
    split
    · rename_i hempty
      refine iff_of_false (by rintro ⟨⟩) ?_
      rintro ⟨⟨⟩, hne, -⟩
      exact hne hempty
    · rename_i hne
      split
      · rename_i hstrict
        rw [Bool.and_eq_true, List.any_eq_true] at hstrict
        obtain ⟨hstrict, name, hname, hempty⟩ := hstrict
        refine iff_of_false (by rintro ⟨⟩) ?_
        rintro ⟨⟨⟩, -, hnames⟩
        exact hnames hstrict name hname (of_decide_eq_true hempty)
      · rename_i hstrict
        have hnames : options.strictFieldPaths → ∀ name ∈ Path.ofText s, name ≠ "" := by
          rintro hs name hname rfl
          have hany : (Path.ofText s).any (· = "") := List.any_eq_true.mpr ⟨"", hname, rfl⟩
          exact hstrict (Bool.and_eq_true_iff.mpr ⟨hs, hany⟩)
        constructor
        · rintro ⟨⟩
          exact ⟨rfl, hne, hnames⟩
        · rintro ⟨⟨⟩, -⟩
          rfl
  | _ => exact iff_of_false (by rintro ⟨⟩) (by simp)

theorem fieldPath_strays {options : RequestOptions} {clause v : Value} :
    Strays (fieldPath options clause v) ↔ v.isWritable = false := by
  cases v with
  | str s =>
    refine iff_of_false ?_ (by simp [Value.isWritable])
    rw [fieldPath]
    split
    · rw [strays_refuse rfl]
      simp [Value.isWritable]
    · split
      · exact not_strays_refuse rfl
      · exact fails_ok
  | _ => exact strays_refuse rfl

/-- No refusal tells of a clause: what it has for a field cannot be put into words, or it is fine
but for its ranges or its interval. -/
inductive ClauseUnanswered [Present] (options : RequestOptions) (ms : Record) : Prop
  | field {v : Value} (hfield : ms.get? "field" = some v) (hv : v.isWritable = false)
  | grouping {path : String} (hfield : ms.get? "field" = some (.str path))
      (hpath : IsPath options path) (names : FitNames ms) (grouping : GroupingUnanswered ms)

theorem clauseOf_strays [Present] {options : RequestOptions} {index : Int} {ms : Record} :
    Strays (clauseOf options index ms) ↔ ClauseUnanswered options ms := by
  constructor
  · intro h
    have hall := h
    rw [clauseOf] at h
    obtain h | ⟨path, hpath, h⟩ := fails_bind.mp h
    · have hv := fieldPath_strays.mp h
      cases hget : ms.get? "field" with
      | none =>
        rw [hget] at hv
        cases hv
      | some v =>
        rw [hget] at hv
        exact .field hget hv
    · obtain ⟨hknown, h⟩ := (strays_require_bind rfl).mp h
      obtain ⟨hmodes, h⟩ := (strays_require_bind rfl).mp h
      obtain ⟨hbase, h⟩ := (strays_require_bind rfl).mp h
      obtain ⟨hcount, -⟩ := (strays_require_bind rfl).mp h
      have hms : FitNames ms :=
        ⟨of_decide_eq_true hknown, of_decide_eq_true hmodes, hbase, hcount⟩
      rw [clauseOf_of_fit hpath hms, Strays, fails_map, ← Strays, groupingOf_strays hms] at hall
      obtain ⟨hfield, hpath⟩ := (fieldPath_read _).mp hpath
      refine .grouping ?_ hpath hms hall
      cases hget : ms.get? "field" with
      | none =>
        rw [hget] at hfield
        cases hfield
      | some v =>
        rw [hget] at hfield
        exact congrArg some hfield
  · intro h
    cases h with
    | field hfield hv =>
      rw [clauseOf, hfield, Option.getD_some]
      exact fails_bind.mpr (.inl (fieldPath_strays.mpr hv))
    | grouping hfield hpath hms hgrouping =>
      have hread := (fieldPath_read (.int index)).mpr ⟨congrArg (·.getD .null) hfield, hpath⟩
      rw [clauseOf_of_fit hread hms, Strays, fails_map]
      exact (groupingOf_strays hms).mpr hgrouping

/-- No refusal tells of an element for a clause. -/
def ElementUnanswered [Present] (options : RequestOptions) (v : Value) : Prop :=
  (∃ ms, v = .object ms ∧ ClauseUnanswered options ms) ∨ v.isObject = false ∧ v.isWritable = false

theorem readClause_strays [Present] {options : RequestOptions} {index : Int} {v : Value} :
    Strays (readClause options index v) ↔ ElementUnanswered options v := by
  rw [ElementUnanswered]
  cases v with
  | object ms => simp [readClause, clauseOf_strays, Value.isObject]
  | str path =>
    rw [readClause, clauseOf_strays]
    refine iff_of_false (fun h => ?_) (by simp [Value.isWritable])
    cases h with
    | field hfield hv =>
      cases hfield
      cases hv
    | grouping _ _ _ hgrouping =>
      rcases hgrouping with ⟨v, hv, -⟩ | ⟨v, hv, -⟩
      · rw [Record.get?_cons_of_ne (by decide)] at hv
        cases hv
      · rw [Record.get?_cons_of_ne (by decide)] at hv
        cases hv
  | _ => exact (strays_refuse rfl).trans (by simp [Value.isObject])

/-- No refusal tells of the first element that gives no clause. -/
def ClausesUnanswered [Present] (options : RequestOptions) (vs : List Value) : Prop :=
  ∃ before v after, vs = before ++ v :: after ∧
    (∃ cs, readClauses options 0 before = .ok cs) ∧ ElementUnanswered options v

theorem readClauses_strays [Present] {options : RequestOptions} {index : Nat} {vs : List Value} :
    Strays (readClauses options index vs) ↔ ∃ before v after, vs = before ++ v :: after ∧
      (∃ cs, readClauses options index before = .ok cs) ∧ ElementUnanswered options v := by
  constructor
  · intro h
    induction vs generalizing index with
    | nil => exact absurd h fails_ok
    | cons v vs ih =>
      rw [readClauses] at h
      rcases fails_bind.mp h with h | ⟨c, hc, h⟩
      · exact ⟨[], v, vs, rfl, ⟨[], rfl⟩, readClause_strays.mp h⟩
      · obtain ⟨before, w, after, rfl, ⟨cs, hcs⟩, hw⟩ := ih (fails_bind_pure.mp h)
        refine ⟨v :: before, w, after, rfl, ⟨c :: cs, ?_⟩, hw⟩
        rw [readClauses, hc, ok_bind, hcs]
        rfl
  · intro h
    obtain ⟨before, v, after, rfl, ⟨cs, hcs⟩, hv⟩ := h
    rw [readClauses_append, hcs, ok_bind, readClauses]
    exact fails_bind_pure.mpr (fails_bind.mpr (.inl (readClause_strays.mpr hv)))

/-! ### Statistics -/

theorem strays_mapM {α β : Type} {f : α → Reading β} {xs : List α} :
    Strays (xs.mapM f) ↔ FirstBad (fun x => ∃ y, f x = .ok y) (fun x => Strays (f x)) xs :=
  fails_mapM

theorem statMember_strays {options : RequestOptions} {path : String} {r : StatRequest}
    {name : String} {v : Value} : ¬ Strays (statMember options path r name v) := by
  rw [statMember.eq_def]
  split
  · exact fails_ok
  · exact not_strays_refuse rfl
  · split
    · exact fails_ok
    · exact not_strays_refuse rfl

theorem statRequest_strays {options : RequestOptions} {path : String} {v : Value} :
    Strays (statRequest options path v) ↔ v.isObject = false ∧ v.isWritable = false := by
  rw [statRequest.eq_def]
  split
  · exact iff_of_false fails_ok (by simp [Value.isWritable])
  · exact iff_of_false fails_ok (by simp [Value.isObject])
  · refine iff_of_false (fun h => ?_) (by simp [Value.isObject])
    obtain h | ⟨r, -, h⟩ := fails_bind.mp h
    · obtain ⟨_, _, _, _, -, -, h⟩ := fails_foldlM.mp h
      exact statMember_strays h
    · exact absurd ((strays_require_bind rfl).mp h).2 fails_ok
  · rename_i hobject
    have hobject : v.isObject = false := by
      cases v with
      | object ms => exact absurd rfl (hobject ms)
      | _ => rfl
    rw [strays_refuse rfl]
    simp [hobject]

/-- A field of a section with what is asked of it: the path is one, and the request is accepted. -/
def FieldTaken (options : RequestOptions) (field : String × Value) : Prop :=
  IsPath options field.1 ∧ ∃ r, statRequest options field.1 field.2 = .ok r

/-- The path is one, and no refusal tells of what is asked. -/
def FieldUnanswered (options : RequestOptions) (field : String × Value) : Prop :=
  IsPath options field.1 ∧ field.2.isObject = false ∧ field.2.isWritable = false

/-- No refusal tells of a section: it is of no kind that is read, an element of its list is no path,
or what it asks of a field is not accepted. -/
inductive SectionUnanswered (options : RequestOptions) (v : Value) : Prop
  | form (hobject : v.isObject = false) (hlist : v.sequence? = none) (hv : v.isWritable = false)
  | entry {xs : List Value} (hlist : v.sequence? = some xs)
      (hxs : FirstBad (fun x => x.isStr) (fun x => x.isWritable = false) xs)
  | field {ms : Record} (hobject : v = .object ms)
      (hms : FirstBad (FieldTaken options) (FieldUnanswered options) ms.entries)

theorem entries_strays {xs : List Value} :
    Strays (xs.mapM fun x => match x with
      | .str path => .ok (Name.text path)
      | x => refuse (.statsEntry x)) ↔
      FirstBad (fun x => x.isStr) (fun x => x.isWritable = false) xs := by
  rw [strays_mapM]
  refine firstBad_congr (fun x => ?_) fun x => ?_
  · cases x <;> simp [Value.isStr, refuse]
  · cases x with
    | str path => exact iff_of_false fails_ok (by simp [Value.isWritable])
    | _ => exact strays_refuse rfl

theorem statFields_strays {v : Value} : Strays (statFields v) ↔
    (v.isObject = false ∧ v.sequence? = none ∧ v.isWritable = false) ∨ ∃ xs,
      v.sequence? = some xs ∧ FirstBad (fun x => x.isStr) (fun x => x.isWritable = false) xs := by
  rw [statFields.eq_def]
  split
  · exact iff_of_false fails_ok (by simp [Value.isWritable, Value.sequence?])
  · exact iff_of_false fails_ok (by simp [Value.isObject, Value.sequence?])
  · rename_i hobject
    have hobject : v.isObject = false := by
      cases v with
      | object ms => exact absurd rfl (hobject ms)
      | _ => rfl
    split
    · rename_i xs hlist
      exact fails_bind_pure.trans (entries_strays.trans (by simp [hlist]))
    · rename_i hlist
      rw [strays_refuse rfl]
      simp [hobject, hlist]

theorem fields_of_list {v : Value} {fields : Record} (hobject : v.isObject = false)
    (h : statFields v = .ok fields) : ∀ m ∈ fields, m.2 = .bool true := by
  unfold statFields at h
  split at h
  · cases h
    simp
  · cases hobject
  · split at h
    · obtain ⟨paths, -, h⟩ := bind_eq_ok.mp h
      cases h
      intro m hm
      obtain hm | hm := Record.mem_putAll hm
      · cases hm
      · obtain ⟨path, -, rfl⟩ := List.mem_map.mp hm
        rfl
    · cases h

def readField (options : RequestOptions) (field : String × Value) :
    Reading (String × StatRequest) := do
  let path ← fieldPath options .null (.str field.1)
  return (path, ← statRequest options path field.2)

theorem readField_read {options : RequestOptions} {field : String × Value} :
    (∃ r, readField options field = .ok r) ↔ FieldTaken options field := by
  simp only [readField, FieldTaken, bind_eq_ok, pure_eq_ok, fieldPath_read, Value.str.injEq]
  constructor
  · intro h
    obtain ⟨_, _, ⟨rfl, hpath⟩, r, hr, -⟩ := h
    exact ⟨hpath, r, hr⟩
  · intro h
    obtain ⟨hpath, r, hr⟩ := h
    exact ⟨_, _, ⟨rfl, hpath⟩, r, hr, rfl⟩

theorem readField_strays {options : RequestOptions} {field : String × Value} :
    Strays (readField options field) ↔ FieldUnanswered options field := by
  rw [readField, Strays, fails_bind]
  simp only [fails_bind_pure, fieldPath_read, Value.str.injEq, statRequest_strays, FieldUnanswered]
  have hpath : ¬ Strays (fieldPath options .null (.str field.1)) := fun h => by
    cases fieldPath_strays.mp h
  simp [hpath]

theorem statsSection_strays {options : RequestOptions} {v : Value} :
    Strays (statsSection options v) ↔ SectionUnanswered options v := by
  have hread : statsSection options v = statFields v >>= fun fields =>
      fields.entries.mapM (readField options) := rfl
  have hfields {fields : Record} : Strays (fields.entries.mapM (readField options)) ↔
      FirstBad (FieldTaken options) (FieldUnanswered options) fields.entries :=
    strays_mapM.trans (firstBad_congr (fun _ => readField_read) fun _ => readField_strays)
  rw [hread, Strays, fails_bind, ← Strays, statFields_strays]
  constructor
  · intro h
    obtain (⟨hobject, hlist, hv⟩ | ⟨xs, hlist, hxs⟩) | ⟨fields, hv, h⟩ := h
    · exact .form hobject hlist hv
    · exact .entry hlist hxs
    · have hbad := hfields.mp h
      cases hobject : v.isObject with
      | true =>
        cases v with
        | object ms =>
          cases hv
          exact .field rfl hbad
        | _ => cases hobject
      | false =>
        obtain ⟨_, ⟨path, w⟩, _, hmem, -, -, -, hw⟩ := hbad
        have hentry : (path, w) ∈ fields.entries := by simp [hmem]
        obtain ⟨m, hm, heq⟩ := List.mem_map.mp hentry
        cases heq
        rw [fields_of_list hobject hv m hm] at hw
        cases hw
  · intro h
    cases h with
    | form hobject hlist hv => exact .inl (.inl ⟨hobject, hlist, hv⟩)
    | entry hlist hxs => exact .inl (.inr ⟨_, hlist, hxs⟩)
    | field hobject hms =>
      subst hobject
      exact .inr ⟨_, rfl, hfields.mpr hms⟩

/-- A section that no refusal tells of is not left unread. -/
theorem SectionUnanswered.truthy {options : RequestOptions} {v : Value}
    (h : SectionUnanswered options v) : v.truthy := by
  cases h with
  | form _ _ hv => exact Value.truthy_of_unwritable hv
  | entry hlist hxs =>
    rw [truthy_of_sequence? hlist]
    obtain ⟨before, x, after, rfl, -⟩ := hxs
    simp
  | field hobject hms =>
    subst hobject
    obtain ⟨before, x, after, hms, -⟩ := hms
    rw [Value.truthy, Bool.not_eq_true', List.isEmpty_eq_false_iff]
    rintro rfl
    cases before <;> cases hms

/-! ### Whole requests -/

def declaredType (ms : Record) : Value :=
  (ms.get? "type").getD ((ms.get? "aggregateType").getD .null)

/-- The clauses of a request for groups, or its statistics behind clauses that are taken. -/
def GroupsUnanswered [Present] (options : RequestOptions) (ms : Record) : Prop :=
  ∃ groupBy, ms.get? "groupBy" = some groupBy ∧
    ((∃ vs, clauseValues? groupBy = some vs ∧ ClausesUnanswered options vs) ∨
      (∃ cs, readGroupBy options groupBy = .ok cs) ∧
        ∃ v, ms.get? "stats" = some v ∧ SectionUnanswered options v)

/-- The statistics of a request for totals. -/
def TotalsUnanswered (options : RequestOptions) (ms : Record) : Prop :=
  ms.get? "groupBy" = none ∧ ∃ v, ms.get? "stats" = some v ∧ SectionUnanswered options v

/-- A request that is fine up to its type, its clauses or its statistics, of which no refusal
tells. -/
structure RequestUnanswered [Present] (options : RequestOptions) (ms : Record) : Prop where
  names : namesOutside requestNames ms = [] ∨ options.allowUnknownKeys
  total : ∃ b, (ms.get? "total").getD (.bool false) = .bool b
  part : (declaredType ms).isWritable = false ∨
    (wantsGroups ms = .ok true ∧ GroupsUnanswered options ms) ∨
      wantsGroups ms = .ok false ∧ TotalsUnanswered options ms

theorem readGroupBy_strays [Present] {options : RequestOptions} {v : Value} :
    Strays (readGroupBy options v) ↔
      ∃ vs, clauseValues? v = some vs ∧ ClausesUnanswered options vs := by
  rw [readGroupBy.eq_def]
  split
  · rename_i h
    exact iff_of_false (not_strays_refuse rfl) (by simp [h])
  · rename_i h
    exact iff_of_false (not_strays_refuse rfl) (by simp [h, ClausesUnanswered])
  · rename_i vs _ h
    simp [readClauses_strays, h, ClausesUnanswered]

theorem groupStats_strays {options : RequestOptions} {ms : Record} :
    Strays (groupStats options (optional ms "stats")) ↔
      ∃ v, ms.get? "stats" = some v ∧ SectionUnanswered options v := by
  rw [optional]
  cases ms.get? "stats" with
  | none => exact iff_of_false fails_ok (by simp)
  | some v =>
    rw [Option.bind_some]
    split
    · refine iff_of_false fails_ok ?_
      rintro ⟨_, ⟨⟩, h⟩
      cases h.truthy
    · exact statsSection_strays.trans (by simp)

theorem groupSpec_strays [Present] {options : RequestOptions} {ms extra : Record} {total : Bool} :
    Strays (groupSpec options ms extra total) ↔ GroupsUnanswered options ms := by
  rw [GroupsUnanswered]
  cases h : ms.get? "groupBy" with
  | none =>
    rw [groupSpec, h]
    exact iff_of_false (not_strays_refuse rfl) (by simp)
  | some v =>
    rw [groupSpec_of_some h, Strays, fails_bind]
    simp only [fails_bind_pure, groupStats_strays, readGroupBy_strays, Option.some.injEq,
      exists_eq_left', exists_and_right]

theorem statsSpec_strays {options : RequestOptions} {ms extra : Record} {total : Bool} :
    Strays (statsSpec options ms extra total) ↔ TotalsUnanswered options ms := by
  have hstats : Strays (totalStats options ((ms.get? "stats").getD .null)) ↔
      ∃ v, ms.get? "stats" = some v ∧ SectionUnanswered options v := by
    rw [totalStats]
    cases ms.get? "stats" with
    | none => exact iff_of_false fails_ok (by simp)
    | some v =>
      rw [Option.getD_some]
      split
      · exact statsSection_strays.trans (by simp)
      · rename_i hblank
        refine iff_of_false fails_ok ?_
        rintro ⟨_, ⟨⟩, h⟩
        exact hblank h.truthy
  rw [statsSpec_eq, strays_require_bind rfl, TotalsUnanswered, ← hstats, Strays, fails_bind,
    or_iff_left]
  · simp [Record.has]
  · rintro ⟨stats, -, h⟩
    exact fails_ok ((strays_require_bind rfl).mp h).2

theorem wantsGroups_strays {ms : Record} :
    Strays (wantsGroups ms) ↔ (declaredType ms).isWritable = false := by
  rw [wantsGroups, declaredType]
  split
  · rename_i h
    exact iff_of_false fails_ok (by simp [h, Value.isWritable])
  · rename_i h
    exact iff_of_false fails_ok (by simp [h, Value.isWritable])
  · rename_i h
    exact iff_of_false fails_ok (by simp [h, Value.isWritable])
  · exact strays_refuse rfl

theorem ofRequest_strays [Present] {options : RequestOptions} {v : Value} :
    Strays (Spec.ofRequest options v) ↔ ∃ ms, v = .object ms ∧ RequestUnanswered options ms := by
  cases v with
  | object ms =>
    rw [ofRequest_object, strays_require_bind rfl, Bool.or_eq_true, decide_eq_true_iff]
    constructor
    · intro h
      obtain ⟨hnames, h⟩ := h
      split at h
      · rename_i total htotal
        refine ⟨ms, rfl, hnames, ⟨total, htotal⟩, ?_⟩
        obtain h | ⟨wanted, hwanted, h⟩ := fails_bind.mp h
        · exact .inl (wantsGroups_strays.mp h)
        · cases wanted with
          | false => exact .inr (.inr ⟨hwanted, statsSpec_strays.mp h⟩)
          | true => exact .inr (.inl ⟨hwanted, groupSpec_strays.mp h⟩)
      · exact absurd h (not_strays_refuse rfl)
    · intro h
      obtain ⟨_, ⟨⟩, hnames, ⟨total, htotal⟩, hpart⟩ := h
      refine ⟨hnames, ?_⟩
      rw [htotal]
      refine fails_bind.mpr ?_
      obtain htype | ⟨hwanted, hgroups⟩ | ⟨hwanted, htotals⟩ := hpart
      · exact .inl (wantsGroups_strays.mpr htype)
      · exact .inr ⟨true, hwanted, groupSpec_strays.mpr hgroups⟩
      · exact .inr ⟨false, hwanted, statsSpec_strays.mpr htotals⟩
  | _ => exact iff_of_false (not_strays_refuse rfl) (by simp)

/-- A number for a section of statistics stops the reading if it is too long to be shown. -/
theorem long_number_unanswered [Present] {i : Int} (h : (Value.int i).isWritable = false) :
    RequestUnanswered {} [("stats", .int i), ("total", .bool true)] where
  names := .inl rfl
  total := ⟨true, rfl⟩
  part := .inr (.inr ⟨rfl, rfl, _, rfl, .form rfl rfl h⟩)

end Aggregate

end RecordStore
