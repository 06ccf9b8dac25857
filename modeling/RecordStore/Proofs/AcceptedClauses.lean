import RecordStore.Proofs.ClauseWire

/-! What the clauses of an accepted request are: each was read from an object, and its lengths and
counts are positive. -/
namespace RecordStore
namespace Aggregate

def Grouping.Counts : Grouping → Prop
  | timeInterval _ step _ => 0 < step
  | calendar _ count => 1 ≤ count
  | _ => True

section
variable {options : RequestOptions} {place : Location} {g : Grouping}

theorem counts_of_unmixed {rs : List (Range Boundary)} (h : unmixed place rs = .ok g) :
    g.Counts := by
  rcases unmixed_eq_ok h with ⟨-, rfl⟩ | ⟨-, rfl⟩
  · trivial
  · trivial

theorem counts_of_interval [Present] {v : Value} {base : Option Value}
    (h : readInterval place v base = .ok g) : g.Counts := by
  cases v with
  | num step =>
    obtain ⟨_, -, h⟩ := bind_eq_ok.mp h
    split at h
    · cases h
      trivial
    · cases h
      trivial
    · cases h
  | str text =>
    rw [readInterval] at h
    split at h
    · split at h <;> cases h
    · obtain ⟨_, hstep, h⟩ := bind_eq_ok.mp h
      rw [require_eq_ok, decide_eq_true_iff] at hstep
      split at h
      · cases h
        exact hstep
      · obtain ⟨_, -, h⟩ := bind_eq_ok.mp h
        split at h
        · cases h
          exact hstep
        · split at h <;> cases h
  | _ => cases h

theorem counts_of_unit {v count : Value} (h : readUnit place v count = .ok g) : g.Counts := by
  unfold readUnit at h
  dsimp only at h
  split at h
  · split at h
    · obtain ⟨_, hn, h⟩ := bind_eq_ok.mp h
      rw [require_eq_ok, decide_eq_true_iff] at hn
      cases h
      show 1 ≤ Int.toNat _
      omega
    · cases h
  · cases h

theorem counts_of_groupingOf [Present] {ms : Record} (h : groupingOf place ms = .ok g) :
    g.Counts := by
  rw [groupingOf] at h
  split at h
  · obtain ⟨rs, -, -, hg⟩ := readRanges_eq_ok h
    exact counts_of_unmixed hg
  · exact counts_of_interval h
  · exact counts_of_unit h
  · cases h
    trivial

theorem clauseOf_of_readClause [Present] {index : Int} {v : Value} {c : Clause}
    (h : readClause options index v = .ok c) : ∃ ms, clauseOf options index ms = .ok c := by
  cases v with
  | str path => exact ⟨_, h⟩
  | object ms => exact ⟨ms, h⟩
  | _ => cases h

theorem clauseOf_of_readClauses [Present] {index : Nat} {vs : List Value} {cs : List Clause}
    (h : readClauses options index vs = .ok cs) :
    ∀ c ∈ cs, ∃ (i : Int) (ms : Record), clauseOf options i ms = .ok c := by
  induction vs generalizing index cs with
  | nil =>
    cases h
    exact List.forall_mem_nil _
  | cons v vs ih =>
    obtain ⟨c, hc, h⟩ := bind_eq_ok.mp h
    obtain ⟨rest, hrest, h⟩ := bind_eq_ok.mp h
    cases h
    obtain ⟨ms, hms⟩ := clauseOf_of_readClause hc
    exact List.forall_mem_cons.mpr ⟨⟨index, ms, hms⟩, ih hrest⟩

theorem clauseOf_of_accepted [Present] {v : Value} {spec : Spec} {cs : List Clause}
    (h : Spec.ofRequest options v = .ok spec) (hcs : spec.clauses = some cs) :
    ∀ c ∈ cs, ∃ (i : Int) (ms : Record), clauseOf options i ms = .ok c := by
  cases v with
  | object ms =>
    obtain ⟨-, -, hparts⟩ := ofRequest_eq_ok h
    rw [hcs] at hparts
    obtain ⟨⟨groupBy, hread⟩, -⟩ := hparts
    rw [readGroupBy] at hread
    split at hread
    · cases hread
    · cases hread
    · exact clauseOf_of_readClauses hread
  | _ => cases h

theorem counts_of_accepted [Present] {v : Value} {spec : Spec} {cs : List Clause}
    (h : Spec.ofRequest options v = .ok spec) (hcs : spec.clauses = some cs) :
    ∀ c ∈ cs, c.grouping.Counts := by
  intro c hc
  obtain ⟨i, ms, hms⟩ := clauseOf_of_accepted h hcs c hc
  exact counts_of_groupingOf (clauseOf_eq_ok.mp hms).2.2

end

end Aggregate
end RecordStore
