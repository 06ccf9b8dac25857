import RecordStore.Time.Instant

/-! When texts of times are read. -/
namespace RecordStore

/-- The date and the instant at which texts are read. The date is one of the calendar on the wall,
and need not be that of the instant in universal time. -/
class Present where
  today : Date
  instant : Instant

/-- The start of 1970, for closed terms. -/
instance (priority := low) Present.epoch : Present := ⟨Instant.epoch.date, .epoch⟩

end RecordStore
