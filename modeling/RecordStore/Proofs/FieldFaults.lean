import RecordStore.Proofs.AcceptedClauses
import RecordStore.Proofs.Accumulation
import RecordStore.Proofs.BucketStarts
import RecordStore.Proofs.Lookups
import RecordStore.Proofs.NumberRange

/-! Values of records that are neither placed and taken in nor told of as a mismatch, clause by
clause and field by field. -/
namespace RecordStore
namespace Aggregate

open TimeFault (isMismatch tells_mismatches)

def RecordError.Stray : RecordError → Prop
  | .mismatch fault _ => (Fault.record fault).isWritable = false
  | _ => True

theorem not_stray {fault : RecordFault} {place : Location} (h : fault.quoted = []) :
    ¬ (RecordError.mismatch fault place).Stray := by
  rw [RecordError.Stray, Fault.isWritable, Fault.quoted, h]
  exact Bool.noConfusion

abbrev Escapes {α : Type} (r : Except RecordError α) : Prop := Fails RecordError.Stray r

theorem get_escapes {r : Value} {path : Path} : (∃ f, r.get path = .error f) ↔ r.Stuck path := by
  rw [← Value.get_fails fun _ => trivial]
  exact exists_congr fun f => (and_iff_left trivial).symm

theorem not_stuck_of_get {r v : Value} {path : Path} (h : r.get path = .ok v) : ¬ r.Stuck path := by
  rw [← get_escapes, h]
  simp

/-! ### Keys -/

/-- A value has no instant, and no mismatch says why: it cannot be reckoned or put into words. -/
def InstantLost (v : Value) : Prop := v.Unreckoned isMismatch ∨ v.isWritable = false

namespace Grouping

/-- A value has no place under a way of grouping, and no mismatch says why. -/
def Loses [Present] (v : Value) : Grouping → Prop
  | discrete | numberRanges _ => False
  | timeRanges _ | calendar .. => InstantLost v
  | numberInterval step base => ∃ n, v = .num n ∧ BucketOverflows (base.getD (.int 0)) step n
  | timeInterval _ step base => InstantLost v ∨
    ∃ t, v.toInstant = .ok t ∧ (base.getD .epoch).bucketMicros step t < 0

end Grouping

namespace Clause
variable {place : Location} {v : Value}

theorem number_eq_ok {n : Num} : number place v = .ok n ↔ v = .num n := by
  cases v <;> simp [number]

theorem number_escapes : ¬ Escapes (number place v) := by
  cases v with
  | num n => exact fails_ok
  | _ => exact fun h => not_stray rfl (fails_error.mp h)

theorem instant_eq_ok [Present] {t : Instant} : instant place v = .ok t ↔ v.toInstant = .ok t := by
  rw [instant]
  cases v.toInstant <;> simp

theorem instant_escapes [Present] : Escapes (instant place v) ↔ InstantLost v := by
  rw [InstantLost, ← Value.toInstant_fails tells_mismatches (.inr fun _ => rfl), instant]
  cases ht : v.toInstant with
  | ok t =>
    have hwritable := Value.isWritable_of_isDateLike (Value.isDateLike_of_toInstant ht)
    exact iff_of_false fails_ok (by simp [fails_ok, hwritable])
  | error f =>
    rw [Escapes, fails_error, fails_error]
    cases hf : f.isMismatch with
    | true => simp [RecordError.Stray, Fault.isWritable, Fault.quoted, RecordFault.quoted,
        TimeFault.Untold, hf]
    | false => exact iff_of_true trivial (.inl hf)

theorem keyOf_escapes [Present] {g : Grouping} (hg : g.Counts) :
    Escapes (keyOf place v g) ↔ g.Loses v := by
  cases g with
  | discrete =>
    rw [keyOf]
    split
    · exact iff_of_false (fun h => not_stray rfl (fails_error.mp h)) not_false
    · exact iff_of_false fails_ok not_false
  | numberRanges rs => exact iff_of_false (fun h => number_escapes (fails_bind_pure.mp h)) not_false
  | timeRanges rs => exact fails_bind_pure.trans instant_escapes
  | numberInterval step base =>
    rw [keyOf, Escapes, fails_bind, Grouping.Loses]
    simp only [number_escapes, false_or, number_eq_ok]
    refine exists_congr fun n => and_congr_right fun _ => ?_
    rw [← bucketNumber?_eq_none]
    cases bucketNumber? (base.getD (.int 0)) step n with
    | some key => exact iff_of_false fails_ok (by simp)
    | none => exact iff_of_true (fails_error.mpr trivial) rfl
  | timeInterval text step base =>
    rw [keyOf, Escapes, fails_bind]
    refine or_congr instant_escapes (exists_congr fun t => and_congr instant_eq_ok ?_)
    rw [← Instant.bucket?_eq_none hg]
    cases (base.getD .epoch).bucket? step t with
    | some b => exact iff_of_false fails_ok (by simp)
    | none => exact iff_of_true (fails_error.mpr trivial) rfl
  | calendar unit count =>
    rw [keyOf, Escapes, fails_bind]
    refine (or_iff_left fun h => ?_).trans instant_escapes
    obtain ⟨t, -, h⟩ := h
    obtain ⟨b, hb⟩ := t.exists_calendarBucket unit (Int.ofNat_le.mpr hg)
    rw [hb] at h
    exact fails_ok h

theorem keyOf_place [Present] {place' : Location} {g : Grouping} {key : Option Value}
    (h : keyOf place v g = .ok key) : keyOf place' v g = .ok key := by
  cases g with
  | discrete =>
    rw [keyOf] at h ⊢
    split at h
    · cases h
    · rename_i hkey
      rwa [if_neg hkey]
  | numberRanges | numberInterval =>
    obtain ⟨n, hn, h⟩ := bind_eq_ok.mp h
    exact bind_eq_ok.mpr ⟨n, number_eq_ok.mpr (number_eq_ok.mp hn), h⟩
  | timeRanges | timeInterval | calendar =>
    obtain ⟨t, ht, h⟩ := bind_eq_ok.mp h
    exact bind_eq_ok.mpr ⟨t, instant_eq_ok.mpr (instant_eq_ok.mp ht), h⟩

theorem resolve_index [Present] {c : Clause} {index : Value} {key : Option Value} (index' : Value)
    (h : c.resolve index v = .ok key) : c.resolve index' v = .ok key := by
  rw [resolve] at h ⊢
  split at h
  · rwa [if_pos ‹_›]
  · rw [if_neg ‹_›]
    exact keyOf_place h

theorem resolve_escapes [Present] {c : Clause} {index : Value} (hc : c.grouping.Counts) :
    Escapes (c.resolve index v) ↔ v.isAbsent = false ∧ c.grouping.Loses v := by
  rw [resolve]
  split
  · exact iff_of_false fails_ok (by simp [‹v.isAbsent = true›])
  · rename_i habsent
    rw [keyOf_escapes hc, and_iff_right (by simpa using habsent)]

def Places [Present] (c : Clause) (r : Value) : Prop :=
  ∃ v part, r.get (Path.ofText c.field) = .ok v ∧ c.resolve .null v = .ok (some part)

/-- A record is lost by a clause: its field cannot be looked up, or what is there has no place. -/
def Loses [Present] (c : Clause) (r : Value) : Prop :=
  r.Stuck (Path.ofText c.field) ∨ ∃ v, r.get (Path.ofText c.field) = .ok v ∧
    v.isAbsent = false ∧ c.grouping.Loses v

end Clause

namespace Run

theorem keyOf_escapes [Present] {r : Value} {index : Int} {clauses : List Clause}
    (hc : ∀ c ∈ clauses, c.grouping.Counts) : Escapes (keyOf r index clauses) ↔
      FirstBad (fun c => Clause.Places c r) (fun c => Clause.Loses c r) clauses := by
  induction clauses generalizing index with
  | nil => exact iff_of_false fails_ok firstBad_nil
  | cons c rest ih =>
    obtain ⟨hcounts, hrest⟩ := List.forall_mem_cons.mp hc
    rw [firstBad_cons, ← ih hrest, keyOf, Clause.Loses, Clause.Places]
    cases hv : r.get (Path.ofText c.field) with
    | error f =>
      exact iff_of_true (fails_error.mpr trivial) (.inl (.inl (get_escapes.mp ⟨f, hv⟩)))
    | ok v =>
      simp only [Escapes, fails_bind, not_stuck_of_get hv, false_or, Except.ok.injEq,
        exists_eq_left']
      refine or_congr (Clause.resolve_escapes hcounts) ?_
      constructor
      · intro h
        obtain ⟨part, hpart, h⟩ := h
        cases part with
        | none => exact absurd h fails_ok
        | some part =>
          exact ⟨⟨v, part, rfl, Clause.resolve_index _ hpart⟩, fails_bind_pure.mp h⟩
      · intro h
        obtain ⟨⟨_, part, rfl, hpart⟩, h⟩ := h
        exact ⟨some part, Clause.resolve_index _ hpart, fails_bind_pure.mpr h⟩

end Run

/-! ### Statistics -/

def numberOf? : Value → Option Num
  | .num n => some n
  | _ => none

def numbersOf (field : String) (records : List Value) : List Num :=
  (brought field records).filterMap numberOf?

theorem numbersOf_append (field : String) (records members : List Value) :
    numbersOf field (records ++ members) = numbersOf field records ++ numbersOf field members := by
  simp [numbersOf, brought]

theorem numbersOf_single {field : String} {r v : Value} (h : r.get (Path.ofText field) = .ok v) :
    numbersOf field [r] = if v.isAbsent then [] else (numberOf? v).toList := by
  rw [numbersOf, brought_cons h]
  split
  · rfl
  · cases hn : numberOf? v <;> simp [brought, hn]

namespace Accumulator
variable {request : StatRequest} {a b : Accumulator}

theorem widen_escapes {field v : Value} {e : Option (Value × Value)} :
    ¬ Escapes (widen field v e).2 := by
  cases e with
  | none => exact fails_ok
  | some p =>
    obtain ⟨least, greatest⟩ := p
    rw [widen]
    cases v.lt? least with
    | none => exact fun h => not_stray rfl (fails_error.mp h)
    | some less =>
      dsimp only
      cases greatest.lt? v with
      | none => exact fun h => not_stray rfl (fails_error.mp h)
      | some more => exact fails_ok

theorem ingest_escapes (field : Value) {v : Value} (hv : v.isAbsent = false) :
    Escapes (ingest field request a v).2 ↔
      request.avg ∧ ∃ n, numberOf? v = some n ∧ a.sum.add n = none := by
  rw [ingest, hv, if_neg Bool.false_ne_true]
  have hwidened (summed : Accumulator) : ¬ Escapes (if request.min || request.max then
      ({ summed with extremes := (widen field v a.extremes).1 }, (widen field v a.extremes).2)
      else (summed, .ok ())).2 := by
    split
    · exact widen_escapes
    · exact fails_ok
  cases havg : request.avg with
  | false => exact iff_of_false (hwidened _) (by simp)
  | true =>
    cases v with
    | num n =>
      simp only [addTo, numberOf?]
      cases hsum : a.sum.add n with
      | none => exact iff_of_true (fails_error.mpr trivial) ⟨trivial, n, rfl, hsum⟩
      | some sum =>
        refine iff_of_false (hwidened _) ?_
        simp [hsum]
    | _ => exact iff_of_false (fun h => not_stray rfl (fails_error.mp h)) (by simp [numberOf?])

theorem ingest_sums {field v : Value} (hv : v.isAbsent = false) (havg : request.avg)
    (h : ingest field request a v = (b, .ok ())) :
    ∃ n, numberOf? v = some n ∧ a.sum.add n = some b.sum ∧ b.summed = a.summed + 1 := by
  rw [ingest, hv, if_neg Bool.false_ne_true] at h
  dsimp only at h
  rw [if_pos havg] at h
  cases v with
  | num n =>
    simp only [addTo] at h
    cases hsum : a.sum.add n with
    | none =>
      rw [hsum] at h
      cases h
    | some sum =>
      rw [hsum] at h
      dsimp only at h
      have hb := congrArg Prod.fst h
      split at hb
      · cases hb
        exact ⟨n, rfl, hsum, rfl⟩
      · cases hb
        exact ⟨n, rfl, hsum, rfl⟩
  | _ => cases h

theorem ingested_escapes {field : String} {r : Value} : Escapes (a.ingested field request r) ↔
    r.Stuck (Path.ofText field) ∨
      request.avg ∧ (numbersOf field [r]).foldlM Num.add a.sum = none := by
  cases hv : r.get (Path.ofText field) with
  | error f =>
    rw [ingested, hv]
    exact iff_of_true (fails_error.mpr trivial) (.inl (get_escapes.mp ⟨f, hv⟩))
  | ok v =>
    rw [or_iff_right (not_stuck_of_get hv), numbersOf_single hv, ingested_of_get hv]
    cases habsent : v.isAbsent with
    | true =>
      rw [taken_of_absent _ _ _ habsent]
      exact iff_of_false fails_ok (by simp)
    | false =>
      have hsum : (numberOf? v).toList.foldlM Num.add a.sum = none ↔
          ∃ n, numberOf? v = some n ∧ a.sum.add n = none := by
        cases numberOf? v <;> simp
      rw [if_neg Bool.false_ne_true, hsum, ← ingest_escapes (.str field) habsent, taken]
      rcases a.ingest (.str field) request v with ⟨b, e | _⟩
      · exact fails_error.trans fails_error.symm
      · exact iff_of_false fails_ok fails_ok

theorem ingested_sums {field : String} {r : Value} (havg : request.avg)
    (h : a.ingested field request r = .ok b) :
    (numbersOf field [r]).foldlM Num.add a.sum = some b.sum ∧
      b.summed = a.summed + (numbersOf field [r]).length := by
  cases hv : r.get (Path.ofText field) with
  | error f =>
    rw [ingested, hv] at h
    cases h
  | ok v =>
    rw [ingested_of_get hv] at h
    rw [numbersOf_single hv]
    cases habsent : v.isAbsent with
    | true =>
      rw [taken_of_absent _ _ _ habsent] at h
      cases h
      exact ⟨rfl, rfl⟩
    | false =>
      rw [taken] at h
      rcases hi : a.ingest (.str field) request v with ⟨c, e | _⟩
      · rw [hi] at h
        cases h
      · rw [hi] at h
        cases h
        obtain ⟨n, hn, hsum, hsummed⟩ := ingest_sums habsent havg hi
        simp [hn, hsum, hsummed]

/-- An accumulator that took records in holds the sum of the numbers they bring. -/
theorem ingestAll_sums {field : String} {records : List Value} (havg : request.avg)
    (h : a.ingestAll field request records = .ok b) :
    (numbersOf field records).foldlM Num.add a.sum = some b.sum ∧
      b.summed = a.summed + (numbersOf field records).length := by
  induction records generalizing a with
  | nil =>
    cases h
    exact ⟨rfl, rfl⟩
  | cons r rest ih =>
    rw [ingestAll, List.foldlM_cons, bind_eq_ok] at h
    obtain ⟨c, hc, h⟩ := h
    obtain ⟨hfirst, hcount⟩ := ingested_sums havg hc
    obtain ⟨hrest, hcount'⟩ := ih h
    rw [← List.singleton_append, numbersOf_append, List.foldlM_append, hfirst, List.length_append]
    exact ⟨hrest, by omega⟩

end Accumulator

/-- A field of a record cannot be looked up, or the sum of the numbers at it up to this record does
not exist. -/
def FieldLost (members : List Value) (r : Value) (x : String × StatRequest) : Prop :=
  r.Stuck (Path.ofText x.1) ∨ x.2.avg ∧ SumOverflows (numbersOf x.1 (members ++ [r]))

def FieldKept (records : List Value) (x : String × StatRequest) : Prop :=
  ∃ a, Accumulator.ingestAll x.1 x.2 records {} = .ok a

theorem ingested_escapes_iff {x : String × StatRequest} {members : List Value} {r : Value}
    {a : Accumulator} (ha : Accumulator.ingestAll x.1 x.2 members {} = .ok a) :
    Escapes (a.ingested x.1 x.2 r) ↔ FieldLost members r x := by
  rw [Accumulator.ingested_escapes, FieldLost]
  refine or_congr Iff.rfl (and_congr_right fun havg => ?_)
  obtain ⟨hsum, -⟩ := Accumulator.ingestAll_sums havg ha
  have htotal : total? (numbersOf x.1 members) = some a.sum := hsum
  rw [← total?_eq_none, numbersOf_append, total?, List.foldlM_append, ← total?, htotal]
  rfl

end Aggregate
end RecordStore
