import RecordStore.Proofs.BucketStarts

/-! Buckets of calendar units are a floor. The bucket of an instant starts at the start of a unit,
at most as late as the instant and less than a bucket before its unit; buckets keep the order of
time, and two instants share one if and only if they are counted in the same and have one quotient
by the count. -/
namespace RecordStore

namespace Calendar

theorem eq_of_not_before {c d : Civil} (h : ¬ Before c d) (h' : ¬ Before d c) : c = d := by
  simp only [Before] at h h'
  rw [Civil.mk.injEq]
  omega

theorem civilOf_dayNumber {c : Civil} (h : Valid c) : civilOf (dayNumber c) = c := by
  have hvalid := valid_civilOf (dayNumber_lt h)
  have hsame := dayNumber_civilOf (dayNumber c)
  apply eq_of_not_before
  · intro hbefore
    have := dayNumber_lt_of_before hvalid h hbefore
    omega
  · intro hbefore
    have := dayNumber_lt_of_before h hvalid hbefore
    omega

end Calendar

theorem Date.civil_of_ofCivil {c : Civil} {d : Date} (h : ofCivil? c = some d) : d.civil = c := by
  rw [ofCivil?] at h
  split at h
  · rename_i hvalid
    rw [ofDay?, dif_pos (Calendar.dayNumber_lt hvalid)] at h
    cases h
    exact Calendar.civilOf_dayNumber hvalid
  · cases h

namespace Instant

def Midnight (t : Instant) : Prop :=
  t.hour = 0 ∧ t.minute = 0 ∧ t.second = 0 ∧ t.microsecond = 0

theorem midnight_iff (t : Instant) : t.Midnight ↔ t.timeOfDay = 0 := by
  have hday : t.timeOfDay < microsPerDay := Nat.mod_lt _ (by decide)
  simp only [Midnight, hour, minute, second, microsecond, microsPerDay, microsPerSecond] at *
  omega

theorem Midnight.le_of_day {b t : Instant} (hb : b.Midnight) (h : b.date.day ≤ t.date.day) :
    b.micros ≤ t.micros := by
  have hsplit : b.date.day * microsPerDay + b.timeOfDay = b.micros := Nat.div_add_mod' _ _
  have hsplit' : t.date.day * microsPerDay + t.timeOfDay = t.micros := Nat.div_add_mod' _ _
  have hdays := Nat.mul_le_mul_right microsPerDay h
  rw [midnight_iff] at hb
  omega

theorem date_startOf (d : Date) : (startOf d).date = d := by
  have hday : d.day * microsPerDay / microsPerDay = d.day := Nat.mul_div_cancel _ (by decide)
  rw [Date.mk.injEq]
  exact hday

theorem midnight_startOf (d : Date) : (startOf d).Midnight := by
  rw [midnight_iff]
  exact Nat.mul_mod_left _ _

theorem fields_of_ofTime {d : Date} {hour minute second : Nat} {t : Instant} (hhour : hour < 24)
    (hminute : minute < 60) (hsecond : second < 60) (h : ofTime? d hour minute second = some t) :
    t.date = d ∧ t.hour = hour ∧ t.minute = minute ∧ t.second = second ∧ t.microsecond = 0 := by
  rw [ofTime?, ofMicros?] at h
  split at h
  · cases h
    rw [Date.mk.injEq]
    simp only [date, Instant.hour, Instant.minute, Instant.second, microsecond, timeOfDay,
      microsPerDay, microsPerSecond]
    omega
  · cases h

theorem valid_civil (t : Instant) : Calendar.Valid t.civil := Calendar.valid_civilOf t.date.inRange

theorem day_eq (t : Instant) : t.date.day = Calendar.dayNumber t.civil :=
  (Calendar.dayNumber_civilOf t.date.day).symm

theorem before_civil_iff (t u : Instant) :
    Calendar.Before t.civil u.civil ↔ t.date.day < u.date.day :=
  Calendar.before_civilOf_iff t.date.inRange u.date.inRange

end Instant

namespace CalendarUnit

/-- What units of a kind are counted in, unless they are counted from the start of the calendar. -/
def holder? : CalendarUnit → Option CalendarUnit
  | day => some month
  | hour => some day
  | minute => some hour
  | second => some minute
  | _ => none

/-- How many units of a kind have passed since the start of the calendar. -/
def ordinal (t : Instant) : CalendarUnit → Nat
  | year => t.civil.year - 1
  | month => (t.civil.year - 1) * 12 + (t.civil.month - 1)
  | week => t.date.day / 7
  | day => t.date.day
  | hour => t.micros / (3600 * microsPerSecond)
  | minute => t.micros / (60 * microsPerSecond)
  | second => t.micros / microsPerSecond

/-- Whether two instants lie in the same unit of those that hold a kind of units. -/
def Together (unit : CalendarUnit) (t u : Instant) : Prop :=
  ∀ holder ∈ unit.holder?, holder.ordinal t = holder.ordinal u

/-- Everything smaller than the unit is at its least, and a week starts on a Monday. -/
def Aligned (t : Instant) : CalendarUnit → Prop
  | year => t.civil.month = 1 ∧ t.civil.day = 1 ∧ t.Midnight
  | month => t.civil.day = 1 ∧ t.Midnight
  | week => t.date.day % 7 = 0 ∧ t.Midnight
  | day => t.Midnight
  | hour => t.minute = 0 ∧ t.second = 0 ∧ t.microsecond = 0
  | minute => t.second = 0 ∧ t.microsecond = 0
  | second => t.microsecond = 0

theorem ordinal_hour (t : Instant) : hour.ordinal t = day.ordinal t * 24 + t.hour := by
  simp only [ordinal, Instant.date, Instant.hour, Instant.timeOfDay, microsPerDay, microsPerSecond]
  omega

theorem ordinal_minute (t : Instant) : minute.ordinal t = hour.ordinal t * 60 + t.minute := by
  simp only [ordinal, Instant.minute, Instant.timeOfDay, microsPerDay, microsPerSecond]
  omega

theorem ordinal_second (t : Instant) : second.ordinal t = minute.ordinal t * 60 + t.second := by
  simp only [ordinal, Instant.second, Instant.timeOfDay, microsPerDay, microsPerSecond]
  omega

variable {unit : CalendarUnit} {t u b : Instant}

theorem Together.symm (h : unit.Together t u) : unit.Together u t :=
  fun holder hholder => (h holder hholder).symm

theorem Together.trans (h : unit.Together t b) (h' : unit.Together b u) : unit.Together t u :=
  fun holder hholder => (h holder hholder).trans (h' holder hholder)

theorem together_of_none (h : unit.holder? = none) (t u : Instant) : unit.Together t u := by
  intro holder hholder
  rw [h] at hholder
  cases hholder

theorem together_refl (unit : CalendarUnit) (t : Instant) : unit.Together t t :=
  fun _ _ => rfl

/-! ### Units in the order of time -/

theorem ordinal_mono (unit : CalendarUnit) (h : t.micros ≤ u.micros) :
    unit.ordinal t ≤ unit.ordinal u := by
  have hday : t.date.day ≤ u.date.day := Nat.div_le_div_right h
  have hdate : ¬ Calendar.Before u.civil t.civil := by
    rw [Instant.before_civil_iff]
    omega
  obtain ⟨_, _, _, _, -⟩ := t.valid_civil
  obtain ⟨_, _, _, _, -⟩ := u.valid_civil
  simp only [Calendar.Before] at hdate
  cases unit <;> simp only [ordinal, microsPerSecond] <;> omega

theorem together_of_between (h : unit.Together b u) (hlow : b.micros ≤ t.micros)
    (hhigh : t.micros ≤ u.micros) : unit.Together t u := by
  intro holder hholder
  have hb := holder.ordinal_mono hlow
  have hu := holder.ordinal_mono hhigh
  have hsame := h holder hholder
  omega

/-- An aligned instant is the first of its unit. -/
theorem le_of_ordinal_le (hb : unit.Aligned b) (h : unit.ordinal b ≤ unit.ordinal t) :
    b.micros ≤ t.micros := by
  have hdate := Instant.before_civil_iff t b
  obtain ⟨_, _, _, _, _, -⟩ := t.valid_civil
  obtain ⟨_, _, _, _, _, -⟩ := b.valid_civil
  simp only [Calendar.Before] at hdate
  cases unit with
  | year =>
    obtain ⟨hmonth, hday, hmidnight⟩ := hb
    simp only [ordinal] at h
    exact hmidnight.le_of_day (by omega)
  | month =>
    obtain ⟨hday, hmidnight⟩ := hb
    simp only [ordinal] at h
    exact hmidnight.le_of_day (by omega)
  | week =>
    obtain ⟨hmonday, hmidnight⟩ := hb
    simp only [ordinal] at h
    exact hmidnight.le_of_day (by omega)
  | day => exact Instant.Midnight.le_of_day hb h
  | hour =>
    simp only [Aligned, ordinal, Instant.minute, Instant.second, Instant.microsecond,
      Instant.timeOfDay, microsPerDay, microsPerSecond] at hb h
    omega
  | minute =>
    simp only [Aligned, ordinal, Instant.second, Instant.microsecond, Instant.timeOfDay,
      microsPerDay, microsPerSecond] at hb h
    omega
  | second =>
    simp only [Aligned, ordinal, Instant.microsecond, Instant.timeOfDay, microsPerDay,
      microsPerSecond] at hb h
    omega

theorem ordinal_add_index (h : unit.Together t u) :
    unit.ordinal t + unit.index u = unit.ordinal u + unit.index t := by
  cases unit with
  | year | month | week => exact Nat.add_comm _ _
  | day =>
    have hmonth := h month rfl
    obtain ⟨_, _, _, _, -⟩ := t.valid_civil
    obtain ⟨_, _, _, _, -⟩ := u.valid_civil
    simp only [ordinal] at hmonth
    have hyear : t.civil.year = u.civil.year := by omega
    have hmonth : t.civil.month = u.civil.month := by omega
    simp only [ordinal, index, Instant.day_eq, Calendar.dayNumber, hyear, hmonth]
    omega
  | hour =>
    have hday := h day rfl
    rw [ordinal_hour, ordinal_hour, hday, index, index]
    omega
  | minute =>
    have hhour := h hour rfl
    rw [ordinal_minute, ordinal_minute, hhour, index, index]
    omega
  | second =>
    have hminute := h minute rfl
    rw [ordinal_second, ordinal_second, hminute, index, index]
    omega

theorem eq_of_index_eq (ht : unit.Aligned t) (hu : unit.Aligned u) (h : unit.Together t u)
    (hindex : unit.index t = unit.index u) : t = u := by
  have hordinal := ordinal_add_index h
  have hle := le_of_ordinal_le ht (by omega : unit.ordinal t ≤ unit.ordinal u)
  have hge := le_of_ordinal_le hu (by omega : unit.ordinal u ≤ unit.ordinal t)
  rw [Instant.mk.injEq]
  omega

/-! ### The start of a unit -/

/-- The start of a unit is its first instant, in the holder that it is asked for. -/
theorem start_spec {index : Nat} (h : unit.start? t index = some b) :
    unit.Aligned b ∧ unit.Together b t ∧ unit.index b = index := by
  cases unit with
  | year =>
    obtain ⟨d, hd, rfl⟩ := Option.map_eq_some_iff.mp h
    have hcivil : (Instant.startOf d).civil = ⟨index + 1, 1, 1⟩ := by
      rw [Instant.civil, Instant.date_startOf, Date.civil_of_ofCivil hd]
    refine ⟨?_, together_of_none rfl _ t, ?_⟩
    · simp [Aligned, hcivil, Instant.midnight_startOf]
    · simp [CalendarUnit.index, hcivil]
  | month =>
    obtain ⟨d, hd, rfl⟩ := Option.map_eq_some_iff.mp h
    have hcivil : (Instant.startOf d).civil = ⟨index / 12 + 1, index % 12 + 1, 1⟩ := by
      rw [Instant.civil, Instant.date_startOf, Date.civil_of_ofCivil hd]
    refine ⟨?_, together_of_none rfl _ t, ?_⟩
    · simp [Aligned, hcivil, Instant.midnight_startOf]
    · simp only [CalendarUnit.index, hcivil]
      omega
  | week =>
    obtain ⟨d, hd, rfl⟩ := Option.map_eq_some_iff.mp h
    have hday : d.day = index * 7 := by
      rw [Date.ofDay?] at hd
      split at hd <;> cases hd
      rfl
    refine ⟨?_, together_of_none rfl _ t, ?_⟩
    · simp [Aligned, Instant.date_startOf, hday, Instant.midnight_startOf]
    · simp [CalendarUnit.index, Instant.date_startOf, hday]
  | day =>
    obtain ⟨d, hd, rfl⟩ := Option.map_eq_some_iff.mp h
    have hcivil : (Instant.startOf d).civil = ⟨t.civil.year, t.civil.month, index + 1⟩ := by
      rw [Instant.civil, Instant.date_startOf, Date.civil_of_ofCivil hd]
    refine ⟨Instant.midnight_startOf d, ?_, ?_⟩
    · rintro _ ⟨⟩
      simp [ordinal, hcivil]
    · simp [CalendarUnit.index, hcivil]
  | hour =>
    rw [start?] at h
    split at h
    · rename_i hhour
      obtain ⟨hdate, hhour, hrest⟩ := Instant.fields_of_ofTime hhour (by omega) (by omega) h
      refine ⟨hrest, ?_, hhour⟩
      rintro _ ⟨⟩
      rw [ordinal, ordinal, hdate]
    · cases h
  | minute =>
    rw [start?] at h
    split at h
    · rename_i hminute
      obtain ⟨hdate, hhour, hminute, hrest⟩ :=
        Instant.fields_of_ofTime t.clock_lt.1 hminute (by omega) h
      refine ⟨hrest, ?_, hminute⟩
      rintro _ ⟨⟩
      rw [ordinal_hour, ordinal_hour, ordinal, ordinal, hdate, hhour]
    · cases h
  | second =>
    rw [start?] at h
    split at h
    · rename_i hsecond
      obtain ⟨hdate, hhour, hminute, hsecond, hmicro⟩ :=
        Instant.fields_of_ofTime t.clock_lt.1 t.clock_lt.2.1 hsecond h
      refine ⟨hmicro, ?_, hsecond⟩
      rintro _ ⟨⟩
      rw [ordinal_minute, ordinal_minute, ordinal_hour, ordinal_hour, ordinal, ordinal, hdate,
        hhour, hminute]
    · cases h

end CalendarUnit

namespace Instant
variable {count : Int} {unit : CalendarUnit} {t u b : Instant}

/-! ### Buckets -/

theorem floorTo_eq (index : Nat) (hcount : 1 ≤ count) :
    floorTo index count = count * ((index : Int) / count) := by
  have hsplit := Int.mul_ediv_add_emod index count
  rw [floorTo, Int.fmod_eq_emod_of_nonneg _ (by omega)]
  omega

structure StartsBucket (unit : CalendarUnit) (count : Int) (t b : Instant) : Prop where
  aligned : unit.Aligned b
  together : unit.Together b t
  index : (unit.index b : Int) = floorTo (unit.index t) count

theorem StartsBucket.unique {b' : Instant} (h : StartsBucket unit count t b)
    (h' : StartsBucket unit count t b') : b = b' := by
  have hindex := h.index.trans h'.index.symm
  exact CalendarUnit.eq_of_index_eq h.aligned h'.aligned (h.together.trans h'.together.symm)
    (by omega)

theorem calendarBucket_eq_ok_iff (hcount : 1 ≤ count) :
    t.calendarBucket unit count = .ok b ↔ StartsBucket unit count t b := by
  have hstarts {b : Instant} (h : t.calendarBucket unit count = .ok b) :
      StartsBucket unit count t b := by
    obtain ⟨hlow, -⟩ := floorTo_bounds (unit.index t) hcount
    rw [calendarBucket, if_neg (by omega)] at h
    dsimp only at h
    split at h
    · rename_i start hstart
      cases h
      obtain ⟨haligned, htogether, hindex⟩ := CalendarUnit.start_spec hstart
      exact ⟨haligned, htogether, by omega⟩
    · cases h
  refine ⟨hstarts, fun h => ?_⟩
  obtain ⟨b', hb'⟩ := t.exists_calendarBucket unit hcount
  rw [hb', (hstarts hb').unique h]

namespace StartsBucket

theorem le (hcount : 1 ≤ count) (h : StartsBucket unit count t b) : b.micros ≤ t.micros := by
  have hfloor := (floorTo_bounds (unit.index t) hcount).2
  have hindex := h.index
  have hordinal := CalendarUnit.ordinal_add_index h.together
  exact CalendarUnit.le_of_ordinal_le h.aligned (by omega)

theorem ordinal_lt (hcount : 1 ≤ count) (h : StartsBucket unit count t b) :
    (unit.ordinal t : Int) < unit.ordinal b + count := by
  have hindex := h.index
  have hordinal := CalendarUnit.ordinal_add_index h.together
  have hrest := Int.emod_lt_of_pos (unit.index t : Int) (by omega : 0 < count)
  have hsplit := Int.mul_ediv_add_emod (unit.index t) count
  rw [floorTo_eq _ hcount] at hindex
  omega

/-- A bucket starts where the bucket of its start does. -/
theorem start (hcount : 1 ≤ count) (h : StartsBucket unit count t b) :
    StartsBucket unit count b b := by
  refine ⟨h.aligned, CalendarUnit.together_refl unit b, ?_⟩
  have hindex := h.index
  rw [floorTo_eq _ hcount] at hindex
  rw [floorTo_eq _ hcount, hindex, Int.mul_ediv_cancel_left _ (by omega)]

theorem mono (hcount : 1 ≤ count) {c : Instant} (h : StartsBucket unit count t b)
    (h' : StartsBucket unit count u c) (htime : t.micros ≤ u.micros) : b.micros ≤ c.micros := by
  have hbefore := h.le hcount
  by_cases htogether : unit.Together t u
  · have hordinal := CalendarUnit.ordinal_add_index htogether
    have hlater := unit.ordinal_mono htime
    have hquotient : (unit.index t : Int) / count ≤ (unit.index u : Int) / count :=
      Int.ediv_le_ediv (by omega) (by omega)
    have hfloor := Int.mul_le_mul_of_nonneg_left hquotient (by omega : 0 ≤ count)
    have hindex := h.index
    have hindex' := h'.index
    rw [floorTo_eq _ hcount] at hindex hindex'
    have hstarts := CalendarUnit.ordinal_add_index
      ((h.together.trans htogether).trans h'.together.symm)
    exact CalendarUnit.le_of_ordinal_le h.aligned (by omega)
  · -- The later bucket cannot start before the earlier one: all between would be in one holder.
    by_contra hless
    apply htogether
    exact CalendarUnit.together_of_between h'.together (by omega) htime

theorem iff_of_same (hcount : 1 ≤ count) (h : StartsBucket unit count t b) :
    StartsBucket unit count u b ↔ unit.Together t u ∧
      (unit.index t : Int) / count = (unit.index u : Int) / count := by
  have hindex := h.index
  rw [floorTo_eq _ hcount] at hindex
  constructor
  · intro h'
    have hindex' := h'.index
    rw [floorTo_eq _ hcount, hindex] at hindex'
    exact ⟨h.together.symm.trans h'.together,
      Int.eq_of_mul_eq_mul_left (by omega : count ≠ 0) hindex'⟩
  · rintro ⟨htogether, hquotient⟩
    refine ⟨h.aligned, h.together.trans htogether, ?_⟩
    rw [floorTo_eq _ hcount, hindex, hquotient]

end StartsBucket

/-- Every instant has a bucket. It starts at the first instant of a unit, not after the instant,
in the same of what holds its units, and fewer units than the count before its own; it is its own
bucket. Later instants have no earlier buckets, and two share one if and only if their units are
counted in the same and have one quotient by the count. -/
theorem calendarBucket_floor (unit : CalendarUnit) {count : Int} (hcount : 1 ≤ count) :
    ∃ bucket : Instant → Instant,
      (∀ t : Instant, t.calendarBucket unit count = .ok (bucket t)) ∧
      (∀ t, (bucket t).micros ≤ t.micros ∧ unit.Aligned (bucket t) ∧
        unit.Together (bucket t) t ∧ (unit.ordinal t : Int) < unit.ordinal (bucket t) + count ∧
        bucket (bucket t) = bucket t) ∧
      (∀ t u : Instant, t.micros ≤ u.micros → (bucket t).micros ≤ (bucket u).micros) ∧
      ∀ t u, bucket t = bucket u ↔ unit.Together t u ∧
        (unit.index t : Int) / count = (unit.index u : Int) / count := by
  choose bucket hbucket using fun t : Instant => t.exists_calendarBucket unit hcount
  have hstarts (t : Instant) : StartsBucket unit count t (bucket t) :=
    (calendarBucket_eq_ok_iff hcount).mp (hbucket t)
  refine ⟨bucket, hbucket, fun t => ?_, fun t u => ?_, fun t u => ?_⟩
  · have hstart := (hstarts t).start hcount
    exact ⟨(hstarts t).le hcount, (hstarts t).aligned, (hstarts t).together,
      (hstarts t).ordinal_lt hcount, (hstarts (bucket t)).unique hstart⟩
  · exact (hstarts t).mono hcount (hstarts u)
  · rw [← (hstarts t).iff_of_same hcount]
    constructor
    · intro h
      rw [h]
      exact hstarts u
    · intro h
      exact h.unique (hstarts u)

/-- The last day of January makes a bucket of two days alone. -/
theorem calendarBucket_floor_of_two_days :
    let noon : Instant := ⟨63463608000000000, by decide⟩
    let midnight : Instant := ⟨63463564800000000, by decide⟩
    (1 : Int) ≤ 2 ∧ noon.text = "2012-01-31T12:00:00Z" ∧
      noon.calendarBucket .day 2 = .ok midnight ∧ midnight.micros ≤ noon.micros ∧
      CalendarUnit.day.Aligned midnight ∧ CalendarUnit.day.Together midnight noon ∧
      midnight.calendarBucket .day 2 = .ok midnight := by
  intro noon midnight
  have hcount : (1 : Int) ≤ 2 := by decide
  obtain ⟨bucket, hbucket, hfloor, -, -⟩ := calendarBucket_floor .day hcount
  have hnoon : noon.calendarBucket .day 2 = .ok midnight := by decide +kernel
  have hmidnight : bucket noon = midnight :=
    Except.ok.inj ((hbucket noon).symm.trans hnoon)
  obtain ⟨hle, haligned, htogether, -, hsame⟩ := hfloor noon
  rw [hmidnight] at hle haligned htogether hsame
  refine ⟨hcount, by decide +kernel, hnoon, hle, haligned, htogether, ?_⟩
  rw [hbucket midnight, hsame]

end Instant

end RecordStore
