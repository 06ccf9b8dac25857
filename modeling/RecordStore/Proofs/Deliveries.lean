import RecordStore.Aggregate.Outcome
import RecordStore.Proofs.Inversion

/-! What a source delivers when it is read to its end. The outcome of an aggregate depends on this
alone: on the records, and on how the source ended after them. -/
namespace RecordStore

namespace Source
variable {σ α : Type}

/-- A source delivers records one by one, and then ends, well or with a failure. -/
inductive Delivers (src : Source σ) : σ → List Value → Option Failure → σ → Prop
  | finished {s t : σ} (h : src.next s = (.finished, t)) : Delivers src s [] none t
  | failed {s t : σ} {f : Failure} (h : src.next s = (.failed f, t)) :
      Delivers src s [] (some f) t
  | record {s t u : σ} {v : Value} {vs : List Value} {ending : Option Failure}
      (h : src.next s = (.record v, t)) (rest : Delivers src t vs ending u) :
      Delivers src s (v :: vs) ending u

theorem exists_delivers (src : Source σ) (s : σ) :
    ∃ vs ending t, src.Delivers s vs ending t := by
  induction hn : src.size s using Nat.strongRecOn generalizing s with
  | ind n ih =>
    cases hd : src.next s with
    | mk d t =>
      cases d with
      | finished => exact ⟨[], none, t, .finished hd⟩
      | failed f => exact ⟨[], some f, t, .failed hd⟩
      | record v =>
        have hlt : src.size t < n := hn ▸ src.size_next hd
        obtain ⟨vs, ending, u, hrest⟩ := ih _ hlt t rfl
        exact ⟨v :: vs, ending, u, .record hd hrest⟩

theorem Delivers.keeps {src : Source σ} {P : σ → Prop} {s t : σ} {vs : List Value}
    {ending : Option Failure} (hnext : ∀ s, P s → P (src.next s).2)
    (h : src.Delivers s vs ending t) (hs : P s) : P t := by
  induction h with
  | finished hn | failed hn =>
    have ht := hnext _ hs
    rwa [hn] at ht
  | record hn _ ih =>
    have ht := hnext _ hs
    rw [hn] at ht
    exact ih ht

theorem delivers_ofList (vs : List Value) : ofList.Delivers vs vs none [] := by
  induction vs with
  | nil => exact .finished rfl
  | cons v vs ih => exact .record rfl ih

/-! ### Reading to the end -/

section
variable {src : Source σ} {step : α → Value → Except Failure α} {s t : σ}

theorem foldUpTo_finished (h : src.next s = (.finished, t)) (fuel : Nat) (a : α) :
    src.foldUpTo step fuel a s = ((a, none), t) := by
  rw [foldUpTo.eq_def]
  simp only [h]

theorem foldUpTo_failed {f : Failure} (h : src.next s = (.failed f, t)) (fuel : Nat) (a : α) :
    src.foldUpTo step fuel a s = ((a, some f), t) := by
  rw [foldUpTo.eq_def]
  simp only [h]

theorem foldUpTo_record {v : Value} (h : src.next s = (.record v, t)) (fuel : Nat) (a : α) :
    src.foldUpTo step (fuel + 1) a s = match step a v with
      | .ok b => src.foldUpTo step fuel b t
      | .error f => ((a, some f), t) := by
  rw [foldUpTo.eq_def]
  cases hs : step a v <;> simp only [h, hs]

theorem foldUpTo_eq_fold {fuel : Nat} (a : α) (hfuel : src.size s ≤ fuel) :
    src.foldUpTo step fuel a s = src.fold step a s := by
  obtain ⟨vs, ending, u, hd⟩ := src.exists_delivers s
  have general (n m : Nat) (hn : src.size s ≤ n) (hm : src.size s ≤ m) :
      src.foldUpTo step n a s = src.foldUpTo step m a s := by
    clear hfuel
    induction hd generalizing a n m with
    | finished h => rw [foldUpTo_finished h, foldUpTo_finished h]
    | failed h => rw [foldUpTo_failed h, foldUpTo_failed h]
    | @record s t u v vs ending h _ ih =>
      have hlt := src.size_next h
      obtain ⟨n, rfl⟩ := Nat.exists_eq_succ_of_ne_zero (by omega : n ≠ 0)
      obtain ⟨m, rfl⟩ := Nat.exists_eq_succ_of_ne_zero (by omega : m ≠ 0)
      rw [foldUpTo_record h, foldUpTo_record h]
      cases step a v with
      | error f => rfl
      | ok b => exact ih b n m (by omega) (by omega)
  exact general _ _ hfuel (Nat.le_refl _)

theorem fold_finished (h : src.next s = (.finished, t)) (a : α) :
    src.fold step a s = ((a, none), t) := foldUpTo_finished h _ a

theorem fold_failed {f : Failure} (h : src.next s = (.failed f, t)) (a : α) :
    src.fold step a s = ((a, some f), t) := foldUpTo_failed h _ a

theorem fold_record {v : Value} (h : src.next s = (.record v, t)) (a : α) :
    src.fold step a s = match step a v with
      | .ok b => src.fold step b t
      | .error f => ((a, some f), t) := by
  have hlt := src.size_next h
  obtain ⟨n, hn⟩ := Nat.exists_eq_succ_of_ne_zero (by omega : src.size s ≠ 0)
  rw [fold, hn, foldUpTo_record h]
  cases step a v with
  | error f => rfl
  | ok b => exact foldUpTo_eq_fold b (by omega)

/-- Reading is folding what is delivered, up to the first record that a step refuses. -/
theorem fold_of_delivers (step : α → Value → Except Failure α) {vs : List Value}
    {ending : Option Failure} (a : α) (h : src.Delivers s vs ending t) :
    match vs.foldlM step a with
    | .ok b => src.fold step a s = ((b, ending), t)
    | .error f => ∃ b u, src.fold step a s = ((b, some f), u) := by
  induction h generalizing a with
  | finished hn => exact fold_finished hn a
  | failed hn => exact fold_failed hn a
  | @record s t u v vs ending hn _ ih =>
    rw [List.foldlM_cons, fold_record hn]
    cases step a v with
    | error f => exact ⟨a, t, rfl⟩
    | ok b => exact ih b

end

def listed (vs : List Value) : Option Failure → Except Failure (List Value)
  | none => .ok vs
  | some f => .error f

theorem toList_of_ending {src : Source σ} {s t : σ} {vs : List Value} {ending : Option Failure}
    (h : src.Delivers s vs ending t) : src.toList s = (listed vs ending, src.close t) := by
  have hstep (acc : List Value) :
      vs.foldlM (fun acc v => (.ok (v :: acc) : Except Failure (List Value))) acc =
        .ok (vs.reverse ++ acc) := by
    clear h
    induction vs generalizing acc with
    | nil => rfl
    | cons v vs ih =>
      rw [List.foldlM_cons, List.reverse_cons, List.append_assoc]
      exact ih (v :: acc)
  have hfold := fold_of_delivers (fun acc v => .ok (v :: acc)) [] h
  simp only [hstep, List.append_nil] at hfold
  simp only [toList, hfold, List.reverse_reverse]
  cases ending <;> rfl

theorem toList_of_delivers {src : Source σ} {s t : σ} {vs : List Value}
    (h : src.Delivers s vs none t) : src.toList s = (.ok vs, src.close t) := toList_of_ending h

end Source

end RecordStore
