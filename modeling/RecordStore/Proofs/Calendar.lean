import Mathlib
import RecordStore.Time.Calendar

/-! The calendar counts days without gaps: every day has one date, and later days have later
dates. -/
namespace RecordStore.Calendar

/-! ### Years -/

theorem daysInYear_eq (year : Nat) :
    daysInYear year + (if year % 100 = 0 then 1 else 0) =
      365 + (if year % 4 = 0 then 1 else 0) + if year % 400 = 0 then 1 else 0 := by
  have h100 : year % 100 = 0 → year % 4 = 0 := by omega
  have h400 : year % 400 = 0 → year % 100 = 0 := by omega
  simp only [daysInYear, isLeap]
  by_cases c : year % 400 = 0
  · have b := h400 c
    simp [h100 b, b, c]
  · by_cases b : year % 100 = 0
    · simp [h100 b, b, c]
    · by_cases a : year % 4 = 0 <;> simp [a, b, c]

theorem succ_div (n k : Nat) : (n + 1) / k = n / k + if (n + 1) % k = 0 then 1 else 0 := by
  rw [Nat.succ_div]
  simp only [Nat.dvd_iff_mod_eq_zero]

theorem daysBeforeYear_succ {year : Nat} (hy : 1 ≤ year) :
    daysBeforeYear (year + 1) = daysBeforeYear year + daysInYear year := by
  obtain ⟨past, rfl⟩ : ∃ past, year = past + 1 := ⟨year - 1, by omega⟩
  have hle : past / 100 ≤ past / 4 := by omega
  have hyear := daysInYear_eq (past + 1)
  have hone : (if (past + 1) % 100 = 0 then 1 else 0) ≤ 1 := by split <;> omega
  simp only [daysBeforeYear, Nat.add_sub_cancel]
  rw [succ_div past 4, succ_div past 100, succ_div past 400]
  -- A quotient grows in the years that its remainder tests; all else is linear.
  generalize past / 4 = a at *
  generalize past / 100 = b at *
  generalize past / 400 = c at *
  generalize (if (past + 1) % 4 = 0 then 1 else 0) = a' at *
  generalize (if (past + 1) % 100 = 0 then 1 else 0) = b' at *
  generalize (if (past + 1) % 400 = 0 then 1 else 0) = c' at *
  omega

theorem daysBeforeYear_mono {y z : Nat} (hy : 1 ≤ y) (h : y ≤ z) :
    daysBeforeYear y ≤ daysBeforeYear z := by
  induction h with
  | refl => exact Nat.le_refl _
  | step h ih =>
    rw [daysBeforeYear_succ (Nat.le_trans hy h)]
    omega

theorem yearOf_pos (day : Nat) : 1 ≤ yearOf day := by
  simp only [yearOf]
  split
  · simp only [daysBeforeYear] at *
    omega
  · split <;> omega

theorem daysBeforeYear_yearOf (day : Nat) : daysBeforeYear (yearOf day) ≤ day := by
  -- The year that the average length gives is off by one at most, which the two tests make up for.
  simp only [yearOf]
  split
  · simp only [daysBeforeYear] at *
    omega
  · split <;> omega

theorem lt_daysBeforeYear_yearOf (day : Nat) : day < daysBeforeYear (yearOf day + 1) := by
  simp only [yearOf]
  split
  · rename_i h
    rwa [Nat.add_sub_cancel]
  · split
    · simp only [daysBeforeYear] at *
      omega
    · omega

/-! ### Months -/

theorem monthAndDay_spec {lengths : List Nat} {day : Nat} (month : Nat) (h : day < lengths.sum) :
    ∃ i n, monthAndDay lengths month day = (month + i, n + 1) ∧ i < lengths.length ∧
      (lengths.take i).sum + n = day ∧ n < lengths.getD i 0 := by
  induction lengths generalizing month day with
  | nil => simp at h
  | cons length rest ih =>
    rw [monthAndDay]
    by_cases hd : day < length
    · rw [if_pos hd]
      exact ⟨0, day, rfl, Nat.succ_pos _, Nat.zero_add day, hd⟩
    · rw [if_neg hd]
      rw [List.sum_cons] at h
      obtain ⟨i, n, hm, hi, hsum, hn⟩ := ih (month + 1) (by omega : day - length < rest.sum)
      refine ⟨i + 1, n, ?_, Nat.succ_lt_succ hi, ?_, hn⟩
      · rw [hm, Nat.add_assoc, Nat.add_comm 1 i]
      · rw [List.take_succ_cons, List.sum_cons]
        omega

theorem sum_monthLengths (year : Nat) : (monthLengths (isLeap year)).sum = daysInYear year := by
  rw [daysInYear]
  cases isLeap year <;> rfl

theorem daysBeforeMonth_eq (year month : Nat) :
    daysBeforeMonth year month = ((monthLengths (isLeap year)).take (month - 1)).sum := by
  rw [daysBeforeMonth, List.sum_eq_foldl]

theorem sum_take_succ (lengths : List Nat) (i : Nat) :
    (lengths.take (i + 1)).sum = (lengths.take i).sum + lengths.getD i 0 := by
  rw [List.take_add_one, List.sum_append, List.getD_eq_getElem?_getD]
  cases lengths[i]? <;> simp

theorem sum_take_mono (lengths : List Nat) {i j : Nat} (h : i ≤ j) :
    (lengths.take i).sum ≤ (lengths.take j).sum := by
  induction h with
  | refl => exact Nat.le_refl _
  | step h ih =>
    rw [sum_take_succ]
    omega

theorem daysBeforeMonth_succ (year : Nat) {month : Nat} (hm : 1 ≤ month) :
    daysBeforeMonth year (month + 1) = daysBeforeMonth year month + daysInMonth year month := by
  rw [daysBeforeMonth_eq, daysBeforeMonth_eq, daysInMonth, ← sum_take_succ]
  congr 2
  omega

theorem daysBeforeMonth_mono (year : Nat) {m n : Nat} (h : m ≤ n) :
    daysBeforeMonth year m ≤ daysBeforeMonth year n := by
  rw [daysBeforeMonth_eq, daysBeforeMonth_eq]
  exact sum_take_mono _ (by omega)

theorem daysBeforeMonth_thirteen (year : Nat) : daysBeforeMonth year 13 = daysInYear year := by
  rw [daysBeforeMonth_eq, ← sum_monthLengths]
  rfl

theorem daysInMonth_le (year month : Nat) : daysInMonth year month ≤ 31 := by
  have hall : ∀ n ∈ monthLengths (isLeap year), n ≤ 31 := by
    cases isLeap year <;> decide
  rw [daysInMonth, List.getD_eq_getElem?_getD]
  cases h : (monthLengths (isLeap year))[month - 1]? with
  | none => exact Nat.zero_le 31
  | some n => exact hall n (List.mem_of_getElem? h)

/-! ### Dates -/

theorem civilOf_eq (day : Nat) : ∃ i n, civilOf day = ⟨yearOf day, i + 1, n + 1⟩ ∧ i < 12 ∧
    daysBeforeYear (yearOf day) + daysBeforeMonth (yearOf day) (i + 1) + n = day ∧
    n < daysInMonth (yearOf day) (i + 1) := by
  have hlow := daysBeforeYear_yearOf day
  have hhigh := lt_daysBeforeYear_yearOf day
  rw [daysBeforeYear_succ (yearOf_pos day), ← sum_monthLengths] at hhigh
  obtain ⟨i, n, hm, hi, hsum, hn⟩ := monthAndDay_spec 1
    (by omega : day - daysBeforeYear (yearOf day) < (monthLengths (isLeap (yearOf day))).sum)
  refine ⟨i, n, ?_, hi, ?_, hn⟩
  · simp only [civilOf, hm, Nat.add_comm 1 i]
  · rw [daysBeforeMonth_eq, Nat.add_sub_cancel]
    omega

theorem valid_civilOf {day : Nat} (h : day < dayCount) : Valid (civilOf day) := by
  obtain ⟨i, n, hc, hi, -, hn⟩ := civilOf_eq day
  have hlow := daysBeforeYear_yearOf day
  have hyear : yearOf day ≤ 9999 := by
    by_contra hy
    -- In a later year no day of the calendar is left.
    have := daysBeforeYear_mono (by omega : 1 ≤ 10000) (by omega : 10000 ≤ yearOf day)
    have hall : daysBeforeYear 10000 = dayCount := rfl
    omega
  rw [hc]
  exact ⟨yearOf_pos day, hyear, Nat.succ_pos i, hi, Nat.succ_pos n, hn⟩

theorem dayNumber_civilOf (day : Nat) : dayNumber (civilOf day) = day := by
  obtain ⟨i, n, hc, -, hsum, -⟩ := civilOf_eq day
  rw [hc, dayNumber]
  exact hsum

def Before (c d : Civil) : Prop :=
  c.year < d.year ∨ c.year = d.year ∧
    (c.month < d.month ∨ c.month = d.month ∧ c.day < d.day)

theorem dayNumber_lt_of_before {c d : Civil} (hc : Valid c) (hd : Valid d) (h : Before c d) :
    dayNumber c < dayNumber d := by
  obtain ⟨hy, -, hm, hm', hday, hday'⟩ := hc
  obtain ⟨-, -, -, -, hday'', -⟩ := hd
  rw [dayNumber, dayNumber]
  have hmonth := daysBeforeMonth_succ c.year hm
  rcases h with h | ⟨hyear, h | ⟨hmeq, h⟩⟩
  · have hyears := daysBeforeYear_mono (Nat.succ_pos c.year) (Nat.succ_le_of_lt h)
    have hmonths := daysBeforeMonth_mono c.year (by omega : c.month + 1 ≤ 13)
    rw [daysBeforeMonth_thirteen] at hmonths
    rw [Nat.succ_eq_add_one, daysBeforeYear_succ hy] at hyears
    omega
  · have hmonths := daysBeforeMonth_mono c.year (Nat.succ_le_of_lt h)
    rw [Nat.succ_eq_add_one] at hmonths
    rw [← hyear]
    omega
  · rw [← hyear, ← hmeq]
    omega

theorem before_civilOf_iff {d e : Nat} (hd : d < dayCount) (he : e < dayCount) :
    Before (civilOf d) (civilOf e) ↔ d < e := by
  have order {d e : Nat} (hd : d < dayCount) (he : e < dayCount)
      (h : Before (civilOf d) (civilOf e)) : d < e := by
    have := dayNumber_lt_of_before (valid_civilOf hd) (valid_civilOf he) h
    rwa [dayNumber_civilOf, dayNumber_civilOf] at this
  refine ⟨order hd he, fun h => ?_⟩
  by_contra hn
  by_cases hback : Before (civilOf e) (civilOf d)
  · have := order he hd hback
    omega
  · -- Neither before nor after, it is the same date, and so the same day.
    have heq : civilOf d = civilOf e := by
      simp only [Before] at hn hback
      rw [Civil.mk.injEq]
      omega
    have := congrArg dayNumber heq
    rw [dayNumber_civilOf, dayNumber_civilOf] at this
    omega

end RecordStore.Calendar
