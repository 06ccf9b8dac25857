import RecordStore.Proofs.AcceptedClauses
import RecordStore.Proofs.BucketStarts
import RecordStore.Proofs.FieldFaults
import RecordStore.Proofs.TimeRanges

/-! Buckets of a fixed length, of integers and of time. The key of a value is the start of the one
bucket that holds it, below the base as well as above it, so that keys keep the order of values, and
two values share a key if and only if they share a bucket. Integers are never moved back. -/
namespace RecordStore

/-- A bucket of that length, counted from the base, starts there and holds the point. -/
structure InBucket (base step start point : Int) : Prop where
  aligned : step ∣ start - base
  le : start ≤ point
  lt : point < start + step

def floorFrom (base step point : Int) : Int := base + Int.fdiv (point - base) step * step

section
variable {base step start start' point point' : Int}

theorem inBucket_floorFrom (hstep : 0 < step) :
    InBucket base step (floorFrom base step point) point := by
  have hsplit := Int.mul_fdiv_add_fmod (point - base) step
  have hlow := Int.fmod_nonneg_of_pos (point - base) hstep
  have hhigh := Int.fmod_lt_of_pos (point - base) hstep
  have hswap := Int.mul_comm step (Int.fdiv (point - base) step)
  constructor
  · have hsteps : floorFrom base step point - base = step * Int.fdiv (point - base) step := by
      rw [floorFrom]
      omega
    exact ⟨_, hsteps⟩
  · rw [floorFrom]
    omega
  · rw [floorFrom]
    omega

namespace InBucket

/-- Buckets do not overlap: one that starts later holds later points only. -/
theorem mono (h : InBucket base step start point) (h' : InBucket base step start' point')
    (hpoint : point ≤ point') : start ≤ start' := by
  by_contra hless
  have hdvd : step ∣ start - start' := by
    have hdiff := Int.dvd_sub h.aligned h'.aligned
    rwa [show start - base - (start' - base) = start - start' by omega] at hdiff
  have hfar := Int.le_of_dvd (by omega) hdvd
  have hlow := h.le
  have hhigh := h'.lt
  omega

theorem unique (h : InBucket base step start point) (h' : InBucket base step start' point) :
    start = start' :=
  Int.le_antisymm (h.mono h' le_rfl) (h'.mono h le_rfl)

theorem self (hstep : 0 < step) (h : InBucket base step start point) :
    InBucket base step start start := by
  constructor
  · exact h.aligned
  · exact le_rfl
  · omega

end InBucket

end

/-! ### Instants -/

namespace Instant

theorem bucket?_eq_some {origin t k : Instant} {step : Int} (hstep : 0 < step) :
    origin.bucket? step t = some k ↔ InBucket origin.micros step k.micros t.micros := by
  have hfloor : InBucket origin.micros step (floorFrom origin.micros step t.micros) t.micros :=
    inBucket_floorFrom hstep
  rw [bucket?, ofMicros?_eq_some]
  constructor
  · intro h
    rw [h]
    exact hfloor
  · intro h
    exact h.unique hfloor

theorem bucket?_eq_none_iff {origin t : Instant} {step : Int} (hstep : 0 < step) :
    origin.bucket? step t = none ↔
      ∀ start, InBucket origin.micros step start t.micros → start < 0 := by
  have hfloor : InBucket origin.micros step (floorFrom origin.micros step t.micros) t.micros :=
    inBucket_floorFrom hstep
  rw [bucket?_eq_none hstep]
  constructor
  · intro h start hstart
    rwa [hstart.unique hfloor]
  · intro h
    exact h _ hfloor

end Instant

/-! ### Numbers -/

theorem Num.le_int (m n : Int) : Num.le (.int m) (.int n) = decide (m ≤ n) := by
  have hone : (0 : Int) < Binary64.one := Int.natCast_pos.mpr Binary64.one_pos
  simp only [Num.le, Num.place?, Place.le, Int.mul_le_mul_right hone]

namespace Aggregate

def roughKey? (base step value : Num) : Option Num := do
  let index ← (← value.sub base).floorDiv step
  base.add (← index.mul step)

/-- A key moved by one bucket if the value lies outside its own. -/
def movedBack? (step value key : Num) : Option Num :=
  if value.lt key then key.sub step
  else (key.add step).map fun next => if next.le value then next else key

theorem bucketNumber?_eq (base step value : Num) : bucketNumber? base step value = (do
    let key ← movedBack? step value (← roughKey? base step value)
    return if base.isInt && step.isInt then key.integral else key) := by
  simp only [bucketNumber?, roughKey?, bind_assoc]
  congr! 6
  refine bind_congr fun key => ?_
  rw [movedBack?]
  split <;> rfl

theorem roughKey?_int (base step value : Int) :
    roughKey? (.int base) (.int step) (.int value) = some (.int (floorFrom base step value)) := rfl

theorem movedBack?_int {base step start value : Int} (h : InBucket base step start value) :
    movedBack? (.int step) (.int value) (.int start) = some (.int start) := by
  have hle := h.le
  have hlt := h.lt
  have hbelow : Num.lt (.int value) (.int start) = false := by
    rw [Num.lt_int, decide_eq_false_iff_not]
    omega
  have habove : Num.le (.int (start + step)) (.int value) = false := by
    rw [Num.le_int, decide_eq_false_iff_not]
    omega
  have hnext : Num.add (.int start) (.int step) = some (.int (start + step)) := rfl
  rw [movedBack?, hbelow, if_neg Bool.false_ne_true, hnext, Option.map_some, habove,
    if_neg Bool.false_ne_true]

theorem bucketNumber?_int (base value : Int) {step : Int} (hstep : 0 < step) :
    bucketNumber? (.int base) (.int step) (.int value) =
      some (.int (floorFrom base step value)) := by
  rw [bucketNumber?_eq, roughKey?_int, Option.bind_eq_bind, Option.bind_some,
    movedBack?_int (inBucket_floorFrom hstep)]
  rfl

/-! ### Accepted intervals -/

section
variable {options : RequestOptions} {v : Value} {spec : Spec} {cs : List Clause} {c : Clause}

theorem ofRequest_clause [Present] {w : Value} (h : readClause options 0 w = .ok c) :
    Spec.ofRequest options (requestWith [] [] [] w) = .ok ⟨some [c], [], false, []⟩ := by
  rw [requestWith, ofRequest_object]
  refine bind_eq_ok.mpr ⟨(), rfl, ?_⟩
  refine bind_eq_ok.mpr ⟨true, rfl, ?_⟩
  rw [if_pos rfl, groupSpec_of_some (Record.get?_cons_self ..)]
  refine bind_eq_ok.mpr ⟨[c], ?_, rfl⟩
  rw [readGroupBy_list (by simp)]
  exact bind_eq_ok.mpr ⟨c, h, rfl⟩

theorem readInterval_of_accepted [Present] (haccepted : Spec.ofRequest options v = .ok spec)
    (hcs : spec.clauses = some cs) (hc : c ∈ cs) {interval : Value} {base : Option Value}
    (hwire : c.grouping.toWire = (.text "interval", interval) :: given "base" base)
    (hbase : base ≠ some .null) :
    ∃ place, readInterval place interval base = .ok c.grouping := by
  obtain ⟨i, ms, hms⟩ := clauseOf_of_accepted haccepted hcs c hc
  have hread : groupingOf _ c.members = .ok c.grouping :=
    groupingOf_members (clauseOf_eq_ok.mp hms).2.2
  rw [Clause.members, hwire, groupingOf_interval hbase] at hread
  exact ⟨_, hread⟩

theorem positive_of_numberInterval [Present] (haccepted : Spec.ofRequest options v = .ok spec)
    (hcs : spec.clauses = some cs) (hc : c ∈ cs) {step : Num} {base : Option Num}
    (hg : c.grouping = .numberInterval step base) : step.le (.int 0) = false := by
  have hwire : c.grouping.toWire =
      (.text "interval", .num step) :: given "base" (base.map numberWire) := by
    rw [hg]
    rfl
  have hbase : base.map numberWire ≠ some .null := by
    cases base <;> nofun
  obtain ⟨place, hread⟩ := readInterval_of_accepted haccepted hcs hc hwire hbase
  obtain ⟨_, hpositive, -⟩ := bind_eq_ok.mp hread
  rwa [require_eq_ok, Bool.not_eq_true'] at hpositive

theorem duration_of_timeInterval [Present] (haccepted : Spec.ofRequest options v = .ok spec)
    (hcs : spec.clauses = some cs) (hc : c ∈ cs) {text : String} {step : Int}
    {base : Option Instant} (hg : c.grouping = .timeInterval text step base) :
    TimeText.parseDuration text = .ok step := by
  have hwire : c.grouping.toWire =
      (.text "interval", .str text) :: given "base" (base.map instantWire) := by
    rw [hg]
    rfl
  have hbase : base.map instantWire ≠ some .null := by
    cases base <;> nofun
  obtain ⟨place, hread⟩ := readInterval_of_accepted haccepted hcs hc hwire hbase
  rw [readInterval] at hread
  split at hread
  · split at hread <;> cases hread
  · rename_i micros hduration
    obtain ⟨_, -, hread⟩ := bind_eq_ok.mp hread
    rw [hduration]
    have hstep : Grouping.timeInterval text micros none = c.grouping ∨
        ∃ t, Grouping.timeInterval text micros (some t) = c.grouping := by
      split at hread
      · exact .inl (Except.ok.inj hread)
      · obtain ⟨_, -, hread⟩ := bind_eq_ok.mp hread
        split at hread
        · exact .inr ⟨_, Except.ok.inj hread⟩
        · split at hread <;> cases hread
    rw [hg] at hstep
    rcases hstep with h | ⟨t, h⟩ <;> cases h <;> rfl

end

namespace Clause

variable {c : Clause} {step : Int}

section
variable {text : String} {base : Option Instant} {index w key : Value} {t : Instant}

theorem resolve_toInstant [Present] (hg : c.grouping = .timeInterval text step base)
    (ht : w.toInstant = .ok t) :
    c.resolve index w = instantKey ((base.getD .epoch).bucket? step t) := by
  have hpresent : w.isAbsent = false := by
    rcases TimeRanges.dateLike_of_toInstant ht with ⟨s, rfl⟩ | ⟨d, rfl⟩ | ⟨u, rfl⟩ <;> rfl
  rw [resolve, hpresent, if_neg Bool.false_ne_true, hg, keyOf, instant, ht, ok_bind]

theorem toInstant_of_resolve [Present] (hg : c.grouping = .timeInterval text step base)
    (hkey : c.resolve index w = .ok (some key)) : ∃ t, w.toInstant = .ok t := by
  rw [resolve, hg] at hkey
  split at hkey
  · cases hkey
  · obtain ⟨t, ht, -⟩ := bind_eq_ok.mp hkey
    exact ⟨t, instant_eq_ok.mp ht⟩

/-- The key of an instant is the text of the start of its bucket. -/
theorem resolve_timeInterval [Present] (hg : c.grouping = .timeInterval text step base)
    (hstep : 0 < step)
    (ht : w.toInstant = .ok t) : c.resolve index w = .ok (some key) ↔ ∃ k : Instant,
      key = .str k.text ∧ InBucket (base.getD .epoch).micros step k.micros t.micros := by
  simp only [← Instant.bucket?_eq_some hstep]
  rw [resolve_toInstant hg ht]
  cases (base.getD .epoch).bucket? step t with
  | none => simp [instantKey]
  | some b => simp [instantKey, eq_comm]

end

theorem resolve_numberInterval [Present] {base : Option Int}
    (hg : c.grouping = .numberInterval (.int step) (base.map .int)) (hstep : 0 < step)
    (index : Value) (value : Int) : c.resolve index (.int value) =
      .ok (some (.int (floorFrom (base.getD 0) step value))) := by
  have hbase : (base.map Num.int).getD (.int 0) = .int (base.getD 0) := by
    cases base <;> rfl
  have hkey := bucketNumber?_int (base.getD 0) value hstep
  have hpresent : (Value.int value).isAbsent = false := rfl
  rw [resolve, hpresent, if_neg Bool.false_ne_true, hg, keyOf, hbase]
  refine bind_eq_ok.mpr ⟨.int value, rfl, ?_⟩
  rw [hkey]
  rfl

end Clause

theorem text_eq_iff_of_inBucket [Present] {origin t t' k k' : Instant} {step : Int}
    (h : InBucket origin.micros step k.micros t.micros)
    (h' : InBucket origin.micros step k'.micros t'.micros) : k.text = k'.text ↔
      ∃ start, InBucket origin.micros step start t.micros ∧
        InBucket origin.micros step start t'.micros := by
  constructor
  · intro htext
    have hk := TimeText.parseTimestamp_text k
    rw [htext, TimeText.parseTimestamp_text, Except.ok.injEq] at hk
    rw [hk] at h'
    exact ⟨k.micros, h, h'⟩
  · rintro ⟨start, hstart, hstart'⟩
    have hsame : (k.micros : Int) = k'.micros := (h.unique hstart).trans (hstart'.unique h')
    rw [Instant.eq_of_micros hsame]

/-- Values of time are keyed by the buckets of that length: a key reads back as the start of the one
bucket that holds the instant, two keys are one if and only if one bucket holds both instants, and
keys keep the order of time. An instant has a key unless its bucket starts before the calendar. -/
structure KeyedByBuckets [Present] (origin : Instant) (step : Int)
    (key : Value → Except RecordError (Option Value)) : Prop where
  located : ∀ w found, key w = .ok (some found) → ∃ t k : Instant,
    w.toInstant = .ok t ∧ found = .str k.text ∧ found.toInstant = .ok k ∧
      InBucket origin.micros step k.micros t.micros ∧
      ∀ start, InBucket origin.micros step start t.micros → start = k.micros
  together : ∀ w w' found found' t t', key w = .ok (some found) → key w' = .ok (some found') →
    w.toInstant = .ok t → w'.toInstant = .ok t' → (found = found' ↔
      ∃ start, InBucket origin.micros step start t.micros ∧
        InBucket origin.micros step start t'.micros)
  mono : ∀ w w' found found' t t' k k', key w = .ok (some found) → key w' = .ok (some found') →
    w.toInstant = .ok t → w'.toInstant = .ok t' → found.toInstant = .ok k →
    found'.toInstant = .ok k' → t.micros ≤ t'.micros → k.micros ≤ k'.micros
  beyond : ∀ w t, w.toInstant = .ok t → (∃ found, key w = .ok (some found)) ∨
    key w = .error (.time .outOfRange) ∧
      ∀ start, InBucket origin.micros step start t.micros → start < 0

theorem keyedByBuckets [Present] {c : Clause} {text : String} {step : Int} {base : Option Instant}
    (hg : c.grouping = .timeInterval text step base) (hstep : 0 < step) (index : Value) :
    KeyedByBuckets (base.getD .epoch) step (c.resolve index) := by
  have hstart {w found : Value} {t : Instant} (hkey : c.resolve index w = .ok (some found))
      (ht : w.toInstant = .ok t) : ∃ k : Instant, found = .str k.text ∧ found.toInstant = .ok k ∧
        InBucket (base.getD .epoch).micros step k.micros t.micros := by
    obtain ⟨k, rfl, hin⟩ := (Clause.resolve_timeInterval hg hstep ht).mp hkey
    exact ⟨k, rfl, TimeText.parseTimestamp_text k, hin⟩
  constructor
  case located =>
    intro w found hkey
    obtain ⟨t, ht⟩ := Clause.toInstant_of_resolve hg hkey
    obtain ⟨k, htext, hread, hin⟩ := hstart hkey ht
    exact ⟨t, k, ht, htext, hread, hin, fun start h => h.unique hin⟩
  case together =>
    intro w w' found found' t t' hkey hkey' ht ht'
    obtain ⟨k, rfl, -, hin⟩ := hstart hkey ht
    obtain ⟨k', rfl, -, hin'⟩ := hstart hkey' ht'
    rw [Value.str.injEq, text_eq_iff_of_inBucket hin hin']
  case mono =>
    intro w w' found found' t t' k k' hkey hkey' ht ht' hk hk' hle
    obtain ⟨b, -, hb, hin⟩ := hstart hkey ht
    obtain ⟨b', -, hb', hin'⟩ := hstart hkey' ht'
    cases hk.symm.trans hb
    cases hk'.symm.trans hb'
    have hmono := hin.mono hin' (Int.ofNat_le.mpr hle)
    exact Int.ofNat_le.mp hmono
  case beyond =>
    intro w t ht
    rw [← Instant.bucket?_eq_none_iff hstep, Clause.resolve_toInstant hg ht]
    cases (base.getD .epoch).bucket? step t with
    | some k => exact .inl ⟨_, rfl⟩
    | none => exact .inr ⟨rfl, rfl⟩

section
variable {options : RequestOptions} {v : Value} {spec : Spec} {cs : List Clause} {c : Clause}

/-- In an accepted request, the clause with a duration keys instants by buckets of that duration. -/
theorem duration_keys_hold [Present] (haccepted : Spec.ofRequest options v = .ok spec)
    (hcs : spec.clauses = some cs) (hc : c ∈ cs) {text : String} {step : Int}
    {base : Option Instant} (hg : c.grouping = .timeInterval text step base) (index : Value) :
    TimeText.parseDuration text = .ok step ∧ 0 < step ∧
      KeyedByBuckets (base.getD .epoch) step (c.resolve index) := by
  have hcounts := counts_of_accepted haccepted hcs c hc
  rw [hg] at hcounts
  exact ⟨duration_of_timeInterval haccepted hcs hc hg, hcounts, keyedByBuckets hg hcounts index⟩

/-- A clock reading half an hour before the base lies in the bucket of six hours below it. -/
theorem duration_keys_hold_below_base :
    let base : Instant := ⟨63460976400000000, by decide⟩
    let half : Instant := ⟨63460974600000000, by decide⟩
    let start : Instant := ⟨63460954800000000, by decide⟩
    let born : Clause := ⟨"born", .timeInterval "PT6H" 21600000000 (some base)⟩
    let request := requestWith [] [] [] (.object [("field", .str "born"),
      ("interval", .str "PT6H"), ("base", .str "2012-01-01T01:00:00Z")])
    Spec.ofRequest {} request = .ok ⟨some [born], [], false, []⟩ ∧
      (Value.str "2012-01-01T00:30:00Z").toInstant = .ok half ∧
      InBucket base.micros 21600000000 start.micros half.micros ∧
      born.resolve (.int 0) (.str "2012-01-01T00:30:00Z") =
        .ok (some (.str "2011-12-31T19:00:00Z")) := by
  intro base half start born request
  have hduration : TimeText.parseDuration "PT6H" = .ok 21600000000 := by decide +kernel
  have hbase : (Value.str "2012-01-01T01:00:00Z").toInstant = .ok base := by decide +kernel
  have hread : readClause {} 0 (.object [("field", .str "born"), ("interval", .str "PT6H"),
      ("base", .str "2012-01-01T01:00:00Z")]) = .ok born := by
    refine clauseOf_eq_ok.mpr ⟨rfl, ⟨rfl, le_rfl, rfl, rfl⟩, ?_⟩
    apply (groupingOf_interval (b := some (.str "2012-01-01T01:00:00Z")) nofun).trans
    rw [readInterval, hduration]
    refine bind_eq_ok.mpr ⟨(), rfl, ?_⟩
    dsimp only
    rw [hbase]
    rfl
  have haccepted := ofRequest_clause hread
  have hhalf : (Value.str "2012-01-01T00:30:00Z").toInstant = .ok half := by decide +kernel
  have htext : start.text = "2011-12-31T19:00:00Z" := by decide +kernel
  have hin : InBucket base.micros 21600000000 start.micros half.micros :=
    ⟨⟨-1, by decide⟩, by decide, by decide⟩
  obtain ⟨-, -, hkeyed⟩ :=
    duration_keys_hold haccepted rfl (List.mem_singleton_self born) rfl (.int 0)
  refine ⟨haccepted, hhalf, hin, ?_⟩
  rcases hkeyed.beyond _ _ hhalf with ⟨found, hfound⟩ | ⟨-, hbeyond⟩
  · obtain ⟨t, k, ht, hk, hread, -, hunique⟩ := hkeyed.located _ _ hfound
    cases hhalf.symm.trans ht
    have hstart : start = k := Instant.eq_of_micros (hunique _ hin)
    rw [hfound, hk, ← hstart, htext]
  · exact absurd (hbeyond _ hin) (by decide)

/-- In an accepted request, the clause with an integer length and an integer base, or none, keys
every integer by the start of the one bucket that holds it. The key is its own key, and the
correction for rounding finds nothing to correct. -/
theorem integer_keys_hold [Present] (haccepted : Spec.ofRequest options v = .ok spec)
    (hcs : spec.clauses = some cs) (hc : c ∈ cs) {step : Int} {base : Option Int}
    (hg : c.grouping = .numberInterval (.int step) (base.map .int)) (index : Value) :
    1 ≤ step ∧ ∃ start : Int → Int,
      (∀ value, c.resolve index (.int value) = .ok (some (.int (start value)))) ∧
      (∀ value, InBucket (base.getD 0) step (start value) value ∧
        ∀ other, InBucket (base.getD 0) step other value → other = start value) ∧
      (∀ value value', value ≤ value' → start value ≤ start value') ∧
      (∀ value, start (start value) = start value) ∧
      ∀ value, roughKey? (.int (base.getD 0)) (.int step) (.int value) = some (.int (start value)) ∧
        movedBack? (.int step) (.int value) (.int (start value)) = some (.int (start value)) := by
  have hpositive := positive_of_numberInterval haccepted hcs hc hg
  rw [Num.le_int, decide_eq_false_iff_not] at hpositive
  have hstep : 0 < step := by omega
  have hin (value : Int) :
      InBucket (base.getD 0) step (floorFrom (base.getD 0) step value) value :=
    inBucket_floorFrom hstep
  refine ⟨hstep, floorFrom (base.getD 0) step, Clause.resolve_numberInterval hg hstep index, ?_, ?_,
    ?_, ?_⟩
  · intro value
    exact ⟨hin value, fun other h => h.unique (hin value)⟩
  · intro value value' hle
    exact (hin value).mono (hin value') hle
  · intro value
    exact (hin _).unique ((hin value).self hstep)
  · intro value
    exact ⟨roughKey?_int _ _ _, movedBack?_int (hin value)⟩

/-- Six below zero lies in the bucket of three that starts eight below, counted from one. -/
theorem integer_keys_hold_below_base :
    let age : Clause := ⟨"age", .numberInterval (.int 3) (some (.int 1))⟩
    let request := requestWith [] [] [] (.object [("field", .str "age"), ("interval", .int 3),
      ("base", .int 1)])
    Spec.ofRequest {} request = .ok ⟨some [age], [], false, []⟩ ∧
      age.resolve (.int 0) (.int (-6)) = .ok (some (.int (-8))) ∧ InBucket 1 3 (-8) (-6) ∧
      age.resolve (.int 0) (.int (-8)) = .ok (some (.int (-8))) := by
  intro age request
  have hread : readClause {} 0 (.object [("field", .str "age"), ("interval", .int 3),
      ("base", .int 1)]) = .ok age := by
    refine clauseOf_eq_ok.mpr ⟨rfl, ⟨rfl, le_rfl, rfl, rfl⟩, bind_eq_ok.mpr ⟨(), ?_, rfl⟩⟩
    rw [require_eq_ok, Num.le_int]
    rfl
  have haccepted := ofRequest_clause hread
  have hg : age.grouping = .numberInterval (.int 3) ((some 1).map .int) := rfl
  obtain ⟨-, start, hkey, hin, -, hself, -⟩ :=
    integer_keys_hold haccepted rfl (List.mem_singleton_self age) hg (.int 0)
  have hbucket : InBucket 1 3 (-8) (-6) := ⟨⟨-3, by decide⟩, by decide, by decide⟩
  have hstart : start (-6) = -8 := ((hin (-6)).2 _ hbucket).symm
  have hagain := hkey (start (-6))
  rw [hself, hstart] at hagain
  have hfirst := hkey (-6)
  rw [hstart] at hfirst
  exact ⟨haccepted, hfirst, hbucket, hagain⟩

end

end Aggregate

end RecordStore
