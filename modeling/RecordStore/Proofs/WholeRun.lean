import RecordStore.Proofs.Deliveries

/-! An aggregate over a source takes its records in one after the other and then concludes; the
first fault of a record is its outcome. -/
namespace RecordStore
namespace Aggregate

theorem RecordError.not_streamClosed (e : RecordError) : e.failure.isStreamClosed = false := by
  cases e with
  | mismatch fault place =>
    have hkind : FaultKind.typeMismatch ≠ .streamClosed := by decide
    exact DomainError.isStreamClosed_failure hkind
  | _ => rfl

/-- A run starts unless the request is refused, the options are, statistics of other names are asked
for, or an order or a limit where there are no groups. -/
theorem begin_eq_ok {spec : Except Failure Spec} {options : Except Failure RunOptions} {run : Run} :
    begin spec options = .ok run ↔ ∃ s o, spec = .ok s ∧ options = .ok o ∧
      extensionStats? s.stats = none ∧ (s.clauses = none → o.presents? = some false) ∧
      run = { spec := s, options := o, stats := .start s.stats } := by
  simp only [begin, bind_eq_ok]
  constructor
  · intro h
    obtain ⟨s, hs, o, ho, h⟩ := h
    refine ⟨s, o, hs, ho, ?_⟩
    rw [Run.start] at h
    split at h
    · cases h
    · cases h
    · cases h
    · rename_i hx hasked hunread
      cases h
      refine ⟨hx, fun hc => ?_, rfl⟩
      cases hp : o.presents? with
      | none => exact absurd hp (hunread hc)
      | some asked =>
        cases asked with
        | true => exact absurd hp (hasked hc)
        | false => rfl
  · intro h
    obtain ⟨s, o, hs, ho, hx, hp, rfl⟩ := h
    refine ⟨s, hs, o, ho, ?_⟩
    rw [Run.start]
    cases hc : s.clauses with
    | none => simp [hx, hp hc]
    | some clauses => simp [hx]

namespace Run

theorem foldlM_step [Present] {run : Run} {records : List Value} :
    records.foldlM step run = (run.feedAll records).mapError RecordError.failure := by
  rw [feedAll]
  induction records generalizing run with
  | nil => rfl
  | cons r rest ih =>
    rw [List.foldlM_cons, List.foldlM_cons, step]
    cases h : run.feed r with
    | ok next => exact ih
    | error e => rfl

end Run

theorem ofSource_of_delivers [Present] {σ : Type} {src : Source σ} {s t : σ} {records : List Value}
    {ending : Option Failure} (run : Run) (h : src.Delivers s records ending t) :
    (ofSource src (.ok run) s).1 = match run.feedAll records with
      | .ok last => last.conclude ending
      | .error e => ⟨.error e.failure, none⟩ := by
  have hfold := Source.fold_of_delivers Run.step run h
  rw [Run.foldlM_step] at hfold
  cases hf : run.feedAll records with
  | ok last =>
    rw [hf] at hfold
    have hfold : src.fold Run.step run s = ((last, ending), t) := hfold
    simp [ofSource, hfold]
  | error e =>
    rw [hf] at hfold
    obtain ⟨after, u, hfold⟩ := hfold
    simp [ofSource, hfold, Run.conclude, e.not_streamClosed]

theorem ofRecords_result [Present] (run : Run) (records : List Value) :
    (ofRecords (.ok run) records).result =
      (run.feedAll records >>= Run.render).mapError RecordError.failure := by
  rw [ofRecords, ofSource_of_delivers run (Source.delivers_ofList records)]
  cases run.feedAll records <;> rfl

theorem ofRecords_eq_ok [Present] {start : Except Failure Run} {records : List Value}
    {result : Result} :
    (ofRecords start records).result = .ok result ↔
      ∃ run last, start = .ok run ∧ run.feedAll records = .ok last ∧ last.render = .ok result := by
  cases start with
  | error f => simp [ofRecords, ofSource]
  | ok run =>
    rw [ofRecords_result, mapError_eq_ok, bind_eq_ok]
    simp

end Aggregate
end RecordStore
