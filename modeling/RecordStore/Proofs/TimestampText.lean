import RecordStore.Proofs.Inversion
import RecordStore.Proofs.TimestampForms
import RecordStore.Time.Reading

/-! The canonical text of an instant is of one of the forms, and denotes that instant. -/
namespace RecordStore

namespace Instant
variable (t : Instant)

def fractionForm : Option Iso.FractionForm :=
  if t.microsecond = 0 then none
  else some ⟨'.', Text.padded 6 t.microsecond, .inl rfl, Text.padded_ne_nil (by decide) _,
    Text.all_padded 6 _⟩

def clockForm : Iso.ClockForm := .second true t.hour t.minute t.second t.fractionForm

def form : Iso.StampForm :=
  .reading (.civil true t.civil.year t.civil.month t.civil.day) 'T' t.clockForm .universal

theorem text_form : t.form.text = t.text.toList := by
  have hfraction : Iso.fractionText t.fractionForm =
      if t.microsecond = 0 then [] else '.' :: Text.padded 6 t.microsecond := by
    rw [fractionForm]
    split <;> rfl
  rw [Instant.text, String.toList_ofList, Instant.fields, Date.text, ← hfraction]
  simp [form, clockForm, Iso.StampForm.text, Iso.DateForm.text, Iso.ClockForm.text,
    Iso.OffsetForm.text, Iso.separator, civil]

theorem fractionMicros_fractionForm : Iso.fractionMicros t.fractionForm = t.microsecond := by
  have hbound : t.microsecond < 10 ^ 6 := Nat.mod_lt _ (by decide)
  have hunit : microsPerSecond = 10 ^ 6 := by norm_num [microsPerSecond]
  have hvalue : Text.numeralValue (Text.padded 6 t.microsecond) = t.microsecond := by
    rw [Text.numeralValue, Text.foldl_padded, Nat.zero_mul, Nat.zero_add, Nat.mod_eq_of_lt hbound]
  rw [fractionForm]
  split
  · exact Eq.symm ‹_›
  · rw [Iso.fractionMicros, Option.map_some, Option.getD_some, Iso.FractionForm.micros, hvalue,
      Text.length_padded, hunit, Nat.mul_div_cancel _ (Nat.pow_pos (by decide))]

theorem denotes_clockForm : t.clockForm.Denotes t.timeOfDay := by
  have hbounds : t.hour < 24 ∧ t.minute < 60 ∧ t.second < 60 := by
    simp only [hour, minute, second, timeOfDay, microsPerDay, microsPerSecond]
    omega
  refine ⟨hbounds.1, hbounds.2.1, hbounds.2.2, ?_⟩
  rw [fractionMicros_fractionForm]
  simp only [hour, minute, second, microsecond, microsPerSecond]
  omega

theorem denotes_form : t.form.Denotes t.micros := by
  have hday : t.date.day * microsPerDay + t.timeOfDay = t.micros := by
    rw [date, timeOfDay, Nat.div_add_mod']
  refine ⟨.inl rfl, rfl, t.date, t.timeOfDay, 0, rfl, t.denotes_clockForm, rfl, by decide, ?_⟩
  rw [Int.sub_zero, ← Nat.cast_mul, ← Nat.cast_add, hday]

end Instant

namespace TimeText
variable {text : String} {t : Instant}

theorem meaning_eq_present_iff : meaning text = .ok .present ↔ text = presentWord := by
  constructor
  · intro h
    rw [meaning] at h
    split at h
    · assumption
    · split at h
      · cases h
      · dsimp only at h
        split at h
        · obtain ⟨_, -, h⟩ := map_eq_ok.mp h
          cases h
        · obtain ⟨_, -, h⟩ := map_eq_ok.mp h
          cases h
        · cases h
  · rintro rfl
    rfl

theorem instantOf_eq_ok_iff {u : DateTime} :
    instantOf u = .ok t ↔ u.hasClock ∧ u.universalMicros = t.micros := by
  rw [instantOf, DateTime.toInstant?]
  cases hclock : u.hasClock with
  | false => simp
  | true =>
    rw [if_neg (by simp), eq_comm (a := u.universalMicros), ← Instant.ofMicros?_eq_some]
    cases Instant.ofMicros? u.universalMicros <;> simp

/-- Only points of time are timestamps, and the present is. -/
theorem parseTimestamp_eq_ok_iff [Present] : parseTimestamp text = .ok t ↔
    text = presentWord ∧ t = Present.instant ∨
      ∃ form, meaning text = .ok (.point form) ∧ form.IsAt t := by
  rw [parseTimestamp, bind_eq_ok]
  constructor
  · rintro ⟨m, hmeaning, h⟩
    split at h
    · exact .inl ⟨meaning_eq_present_iff.mp hmeaning, (pure_eq_ok.mp h).symm⟩
    · exact .inr ⟨_, hmeaning, (pure_eq_ok.mp h).symm⟩
    · exact .inr ⟨_, hmeaning, instantOf_eq_ok_iff.mp h⟩
    · exact .inr ⟨_, hmeaning, (pure_eq_ok.mp h).symm⟩
    · obtain ⟨_, -, h⟩ := bind_eq_ok.mp h
      cases h
    · cases h
  · rintro (⟨rfl, rfl⟩ | ⟨form, hmeaning, h⟩)
    · exact ⟨.present, meaning_eq_present_iff.mpr rfl, rfl⟩
    · refine ⟨_, hmeaning, ?_⟩
      cases form with
      | date d => exact pure_eq_ok.mpr h.symm
      | reading u => exact instantOf_eq_ok_iff.mpr h
      | clock n => exact pure_eq_ok.mpr h.symm
      | span s => cases h

theorem form?_presentWord : Iso.form? presentWord.toList = none := by decide

theorem meaning_of_iso {form : Iso.Form} (h : Iso.form? text.toList = some form) :
    meaning text = .ok (.point form) := by
  have hnow : text ≠ presentWord := by
    rintro rfl
    rw [form?_presentWord] at h
    cases h
  rw [meaning, if_neg hnow, h]

theorem parseTimestamp_of_form [Present] {f : Iso.PointForm} (hf : f.text = text.toList)
    (h : f.Denotes t.micros) : parseTimestamp text = .ok t := by
  obtain ⟨form, hform, hat⟩ := Iso.exists_isAt_iff.mpr ⟨f, hf, h⟩
  exact parseTimestamp_eq_ok_iff.mpr (.inr ⟨form, meaning_of_iso hform, hat⟩)

theorem parseTimestamp_text [Present] (t : Instant) : parseTimestamp t.text = .ok t := by
  have hform : (Iso.PointForm.stamp t.form).text = t.text.toList := t.text_form
  exact parseTimestamp_of_form hform t.denotes_form

end TimeText
end RecordStore
