import Mathlib
import RecordStore.Proofs.ValueEquality
import RecordStore.Value.Sort

/-! Values in one total order have ranks by which they are compared: numbers and booleans go by
where they stand, texts by themselves. Values of equal rank are equal. -/
namespace RecordStore

namespace Place

def rank : Place → WithBot (WithTop ℤ)
  | bottom => ⊥
  | point units => ((units : WithTop ℤ) : WithBot (WithTop ℤ))
  | top => ((⊤ : WithTop ℤ) : WithBot (WithTop ℤ))

theorem le_iff (p q : Place) : p.le q ↔ p.rank ≤ q.rank := by
  cases p <;> cases q <;> simp [le, rank]

theorem lt_eq (p q : Place) : p.lt q = decide (p.rank < q.rank) := by
  have h : p.rank < q.rank ↔ ¬ q.le p := by rw [le_iff, not_le]
  simp only [lt, h, Bool.not_eq_true, Bool.decide_eq_false]

theorem rank_injective : Function.Injective rank := by
  intro p q h
  cases p <;> cases q <;> simp_all [rank]

end Place

theorem Num.place?_of_not_isNaN {n : Num} (h : n.isNaN = false) : ∃ p, n.place? = some p := by
  cases n with
  | int i => exact ⟨_, rfl⟩
  | float x =>
    cases x with
    | nan payload => cases h
    | infinite s => exact ⟨_, rfl⟩
    | finite s u fits => exact ⟨_, rfl⟩

namespace Value

structure Ranked {α : Type} [LinearOrder α] (rank : Value → α) (vs : List Value) : Prop where
  lt : ∀ v ∈ vs, ∀ w ∈ vs, v.lt? w = some (decide (rank v < rank w))
  eq : ∀ v ∈ vs, ∀ w ∈ vs, rank v = rank w → v.eq w

def numberRank (v : Value) : WithBot (WithTop ℤ) := (v.asNum?.bind Num.place?).elim ⊥ Place.rank

theorem lt?_of_asNum {v w : Value} {n : Num} (h : v.asNum? = some n) :
    v.lt? w = w.asNum?.map n.lt := by
  cases v <;> cases h <;> simp [lt?]

theorem ranked_numbers {vs : List Value} (h : ∀ v ∈ vs, v.asNum?.any (!·.isNaN)) :
    Ranked numberRank vs := by
  have place (v) (hv : v ∈ vs) : ∃ n p, v.asNum? = some n ∧ n.place? = some p := by
    have hnumber := h v hv
    cases hn : v.asNum? with
    | none => simp [hn] at hnumber
    | some n =>
      obtain ⟨p, hp⟩ := Num.place?_of_not_isNaN (by simpa [hn] using hnumber)
      exact ⟨n, p, rfl, hp⟩
  refine ⟨fun v hv w hw => ?_, fun v hv w hw hr => ?_⟩
  all_goals
    obtain ⟨n, p, hn, hp⟩ := place v hv
    obtain ⟨m, q, hm, hq⟩ := place w hw
  · have hlt : n.lt m = p.lt q := by simp only [Num.lt, hp, hq]
    rw [lt?_of_asNum hn, hm, Option.map_some, hlt, Place.lt_eq]
    simp [numberRank, hn, hm, hp, hq]
  · have hpq : p = q := Place.rank_injective (by simpa [numberRank, hn, hm, hp, hq] using hr)
    exact (eq_of_asNum hn).mpr ⟨m, hm, Num.eq_iff.mpr ⟨p, hp, hpq ▸ hq⟩⟩

def textRank : Value → String
  | str s => s
  | _ => ""

theorem ranked_texts {vs : List Value} (h : ∀ v ∈ vs, v.isStr) : Ranked textRank vs := by
  have text (v) (hv : v ∈ vs) : v = str v.textRank := by
    have hstr := h v hv
    cases v with
    | str s => rfl
    | _ => cases hstr
  refine ⟨fun v hv w hw => ?_, fun v hv w hw hr => ?_⟩
  all_goals rw [text v hv, text w hw]
  · simp [lt?, textRank]
  · rw [hr]
    simp [eq]

theorem exists_ranked {vs : List Value} (h : inTotalOrder vs) :
    ∃ (α : Type) (_ : LinearOrder α) (rank : Value → α), Ranked rank vs := by
  rw [inTotalOrder, Bool.or_eq_true, List.all_eq_true, List.all_eq_true] at h
  rcases h with h | h
  · exact ⟨_, inferInstance, numberRank, ranked_numbers h⟩
  · exact ⟨_, inferInstance, textRank, ranked_texts h⟩

end Value
end RecordStore
