import RecordStore.Proofs.Calendar
import RecordStore.Proofs.TimeFaults
import RecordStore.Time.Bucket

/-! Where buckets of time start. A bucket of calendar units always starts on the calendar; one of a
fixed length may start before it. -/
namespace RecordStore

namespace Calendar

theorem daysInMonth_pos (year : Nat) {month : Nat} (hlow : 1 ≤ month) (hhigh : month ≤ 12) :
    1 ≤ daysInMonth year month := by
  obtain ⟨i, rfl⟩ : ∃ i, month = i + 1 := ⟨month - 1, by omega⟩
  rw [daysInMonth, Nat.add_sub_cancel]
  have hall : ∀ leap, ∀ i < 12, 1 ≤ (monthLengths leap).getD i 0 := by decide
  exact hall _ i (by omega)

theorem valid_first {year month : Nat} (hyear : 1 ≤ year) (hyear' : year ≤ 9999)
    (hmonth : 1 ≤ month) (hmonth' : month ≤ 12) : Valid ⟨year, month, 1⟩ :=
  ⟨hyear, hyear', hmonth, hmonth', Nat.le_refl 1, daysInMonth_pos year hmonth hmonth'⟩

theorem dayNumber_lt {c : Civil} (h : Valid c) : dayNumber c < dayCount := by
  obtain ⟨hyear, hyear', hmonth, hmonth', -, hday⟩ := h
  have hmonths := daysBeforeMonth_mono c.year (by omega : c.month + 1 ≤ 13)
  rw [daysBeforeMonth_succ c.year hmonth, daysBeforeMonth_thirteen] at hmonths
  have hyears := daysBeforeYear_mono (Nat.succ_pos c.year) (by omega : c.year + 1 ≤ 10000)
  rw [daysBeforeYear_succ hyear] at hyears
  have hall : daysBeforeYear 10000 = dayCount := rfl
  have hpos := daysInMonth_pos c.year hmonth hmonth'
  rw [dayNumber]
  omega

end Calendar

theorem Date.exists_ofDay {day : Nat} (h : day < Calendar.dayCount) : ∃ d, ofDay? day = some d :=
  ⟨_, dif_pos h⟩

theorem Date.exists_ofCivil {c : Civil} (h : Calendar.Valid c) : ∃ d, ofCivil? c = some d := by
  rw [ofCivil?, if_pos h]
  exact exists_ofDay (Calendar.dayNumber_lt h)

theorem Instant.exists_ofTime (d : Date) {hour minute second : Nat} (hh : hour < 24)
    (hm : minute < 60) (hs : second < 60) : ∃ t, ofTime? d hour minute second = some t := by
  have hin := d.inRange
  rw [ofTime?, ofMicros?, dif_pos]
  · exact ⟨_, rfl⟩
  · simp only [microsPerDay, microsPerSecond]
    omega

theorem Instant.clock_lt (t : Instant) : t.hour < 24 ∧ t.minute < 60 ∧ t.second < 60 := by
  have hday : t.timeOfDay < microsPerDay := Nat.mod_lt _ (by decide)
  rw [hour, minute, second]
  simp only [microsPerDay, microsPerSecond] at *
  omega

namespace CalendarUnit

theorem exists_start (unit : CalendarUnit) (t : Instant) {index : Nat}
    (h : index ≤ unit.index t) : ∃ b, unit.start? t index = some b := by
  have hvalid : Calendar.Valid t.civil := Calendar.valid_civilOf t.date.inRange
  obtain ⟨hyear, hyear', hmonth, hmonth', hday, hday'⟩ := hvalid
  obtain ⟨hhour, hminute, hsecond⟩ := t.clock_lt
  have hstart {d? : Option Date} (hd : ∃ d, d? = some d) :
      ∃ b, d?.map Instant.startOf = some b := by
    obtain ⟨d, rfl⟩ := hd
    exact ⟨_, rfl⟩
  cases unit with
  | year =>
    simp only [CalendarUnit.index] at h
    exact hstart (Date.exists_ofCivil
      (Calendar.valid_first (by omega) (by omega) (by omega) (by omega)))
  | month =>
    simp only [CalendarUnit.index] at h
    exact hstart (Date.exists_ofCivil
      (Calendar.valid_first (by omega) (by omega) (by omega) (by omega)))
  | week =>
    have hin := t.date.inRange
    simp only [CalendarUnit.index] at h
    exact hstart (Date.exists_ofDay (by omega))
  | day =>
    simp only [CalendarUnit.index] at h
    have hindex : 1 ≤ index + 1 ∧ index + 1 ≤ t.civil.day := by omega
    exact hstart (Date.exists_ofCivil
      ⟨hyear, hyear', hmonth, hmonth', hindex.1, hindex.2.trans hday'⟩)
  | hour =>
    simp only [CalendarUnit.index] at h
    have hindex : index < 24 := by omega
    rw [start?, if_pos hindex]
    exact Instant.exists_ofTime t.date hindex (by decide) (by decide)
  | minute =>
    simp only [CalendarUnit.index] at h
    have hindex : index < 60 := by omega
    rw [start?, if_pos hindex]
    exact Instant.exists_ofTime t.date hhour hindex (by decide)
  | second =>
    simp only [CalendarUnit.index] at h
    have hindex : index < 60 := by omega
    rw [start?, if_pos hindex]
    exact Instant.exists_ofTime t.date hhour hminute hindex

end CalendarUnit

namespace Instant

theorem floorTo_bounds (index : Nat) {count : Int} (h : 1 ≤ count) :
    0 ≤ floorTo index count ∧ floorTo index count ≤ index := by
  have hlow := Int.fmod_nonneg_of_pos (index : Int) (by omega : 0 < count)
  have hfloor := Int.fdiv_nonneg (Int.natCast_nonneg index) (by omega : 0 ≤ count)
  have hsplit := Int.mul_fdiv_add_fmod index count
  have hmul := Int.mul_nonneg (by omega : 0 ≤ count) hfloor
  rw [floorTo]
  omega

theorem exists_calendarBucket (t : Instant) (unit : CalendarUnit) {count : Int} (h : 1 ≤ count) :
    ∃ b, t.calendarBucket unit count = .ok b := by
  obtain ⟨hlow, hhigh⟩ := floorTo_bounds (unit.index t) h
  have hindex : (floorTo (unit.index t) count).toNat ≤ unit.index t := by omega
  obtain ⟨b, hb⟩ := unit.exists_start t hindex
  refine ⟨b, ?_⟩
  rw [calendarBucket, if_neg (by omega)]
  simp only [hb]

/-- Microseconds from the start of the calendar to the start of a bucket of a fixed length. -/
def bucketMicros (origin : Instant) (step : Int) (t : Instant) : Int :=
  origin.micros + Int.fdiv ((t.micros : Int) - origin.micros) step * step

theorem bucket?_eq_none {origin t : Instant} {step : Int} (h : 0 < step) :
    origin.bucket? step t = none ↔ bucketMicros origin step t < 0 := by
  have hle : bucketMicros origin step t ≤ t.micros := by
    have := Int.fmod_nonneg_of_pos ((t.micros : Int) - origin.micros) h
    have := Int.mul_fdiv_add_fmod ((t.micros : Int) - origin.micros) step
    rw [bucketMicros, Int.mul_comm]
    omega
  have hin := t.inRange
  rw [bucket?, ← bucketMicros, ofMicros?_eq_none]
  omega

end Instant

end RecordStore
