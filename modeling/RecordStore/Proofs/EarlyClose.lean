import RecordStore.Proofs.WholeRun

/-! A source that someone else closes early. The outcome is that of the records before, where the
options allow it, and an interruption otherwise; it is the same for any two sources that deliver the
same. -/
namespace RecordStore
namespace Aggregate
namespace Run

def Refuses [Present] (run : Run) (records : List Value) (e : RecordError) : Prop :=
  ∃ before r after mid, records = before ++ r :: after ∧ run.feedAll before = .ok mid ∧
    mid.feed r = .error e

theorem feedAll_eq_error [Present] {run : Run} {records : List Value} {e : RecordError} :
    run.feedAll records = .error e ↔ run.Refuses records e :=
  foldlM_eq_error

theorem feed_frame [Present] {run next : Run} {r : Value} (h : run.feed r = .ok next) :
    next.seen = run.seen + 1 ∧ next.options = run.options := by
  rw [feed] at h
  split at h
  · split at h
    · cases h
      exact ⟨rfl, rfl⟩
    · cases h
  · obtain ⟨key, -, h⟩ := bind_eq_ok.mp h
    cases key with
    | none =>
      cases h
      exact ⟨rfl, rfl⟩
    | some key =>
      obtain ⟨groups, -, h⟩ := bind_eq_ok.mp h
      cases h
      exact ⟨rfl, rfl⟩

theorem feedAll_frame [Present] {run last : Run} {records : List Value}
    (h : run.feedAll records = .ok last) :
    last.seen = run.seen + records.length ∧ last.options = run.options := by
  induction records generalizing run with
  | nil =>
    cases h
    exact ⟨rfl, rfl⟩
  | cons r rest ih =>
    rw [feedAll, List.foldlM_cons, bind_eq_ok] at h
    obtain ⟨next, hn, h⟩ := h
    obtain ⟨hseen, hoptions⟩ := feed_frame hn
    obtain ⟨hseen', hoptions'⟩ := ih h
    refine ⟨?_, hoptions'.trans hoptions⟩
    rw [hseen', hseen, List.length_cons]
    omega

end Run

/-- Endings that differ at most in how they word that the source was closed. -/
def SameEnding : Option Failure → Option Failure → Prop
  | none, none => True
  | some f, some g => f = g ∨ f.isStreamClosed ∧ g.isStreamClosed
  | _, _ => False

theorem conclude_of_sameEnding {e e' : Option Failure} (run : Run) (h : SameEnding e e') :
    run.conclude e = run.conclude e' := by
  cases e with
  | none =>
    cases e' with
    | none => rfl
    | some g => cases h
  | some f =>
    cases e' with
    | none => cases h
    | some g =>
      rcases h with rfl | ⟨hf, hg⟩
      · rfl
      · simp [Run.conclude, hf, hg]

theorem conclude_of_partial {run : Run} {o : AggregateOptions} {f : Failure}
    (ho : run.options = .read o) (hp : o.allowPartial) (hf : f.isStreamClosed) :
    (run.conclude (some f)).result = (run.conclude none).result := by
  simp [Run.conclude, hf, ho, RunOptions.read?, hp]

theorem conclude_of_interrupted {run : Run} {o : AggregateOptions} {f : Failure}
    (ho : run.options = .read o) (hp : o.allowPartial = false) (hf : f.isStreamClosed) :
    (run.conclude (some f)).result =
      .error (.domain { fault := .closedEarly run.seen }) := by
  simp [Run.conclude, hf, ho, RunOptions.read?, hp]

section
variable {σ τ : Type} {src : Source σ} {other : Source τ} {s t : σ} {u w : τ}
  {records : List Value} {e e' : Option Failure}

/-- Nothing but what a source delivers tells in the outcome. -/
theorem outcome_of_delivers [Present] (start : Except Failure Run) (hd : src.Delivers s records e t)
    (hd' : other.Delivers u records e' w) (he : SameEnding e e') :
    (ofSource src start s).1 = (ofSource other start u).1 := by
  cases start with
  | error f => rfl
  | ok run =>
    rw [ofSource_of_delivers run hd, ofSource_of_delivers run hd']
    cases run.feedAll records with
    | ok last => exact conclude_of_sameEnding last he
    | error _ => rfl

end

end Aggregate
end RecordStore
