import Mathlib
import RecordStore.Proofs.Calendar
import RecordStore.Time.Instant

/-! The order of the canonical texts of instants. All fields have a fixed width but the fraction of
a second, which is left out when it is zero: texts go by whole seconds, and within a second the
whole one, whose text ends with a letter where others have a point, comes last. -/
namespace RecordStore

namespace Text

/-! ### Fields of a fixed width -/

theorem append_lt_append_iff {a b c d : List Char} (h : a.length = b.length) :
    a ++ c < b ++ d ↔ a < b ∨ a = b ∧ c < d := by
  induction a generalizing b with
  | nil =>
    rw [List.eq_nil_of_length_eq_zero h.symm]
    simp
  | cons x a ih =>
    cases b with
    | nil => cases h
    | cons y b =>
      rw [List.cons_append, List.cons_append, List.cons_lt_cons_iff, List.cons_lt_cons_iff,
        ih (Nat.succ.inj h), List.cons.injEq]
      grind

theorem length_padded (width n : Nat) : (padded width n).length = width := by
  induction width generalizing n with
  | zero => rfl
  | succ width ih => rw [padded, List.length_append, ih, List.length_singleton]

theorem digit_lt_iff : ∀ d < 10, ∀ e < 10,
    Char.ofNat (48 + d) < Char.ofNat (48 + e) ↔ d < e := by
  decide

theorem digit_injective : ∀ d < 10, ∀ e < 10,
    Char.ofNat (48 + d) = Char.ofNat (48 + e) → d = e := by
  decide

theorem padded_injective {width n m : Nat} (hn : n < 10 ^ width) (hm : m < 10 ^ width)
    (h : padded width n = padded width m) : n = m := by
  induction width generalizing n m with
  | zero => omega
  | succ width ih =>
    rw [padded, padded] at h
    obtain ⟨htens, hones⟩ := List.append_inj h (by rw [length_padded, length_padded])
    rw [Nat.pow_succ] at hn hm
    have := ih (by omega) (by omega) htens
    have := digit_injective (n % 10) (by omega) (m % 10) (by omega) (List.cons.inj hones).1
    omega

theorem padded_lt_iff {width n m : Nat} (hn : n < 10 ^ width) (hm : m < 10 ^ width) :
    padded width n < padded width m ↔ n < m := by
  induction width generalizing n m with
  | zero =>
    simp only [padded, List.not_lt_nil, false_iff]
    omega
  | succ width ih =>
    rw [Nat.pow_succ] at hn hm
    have htens := ih (by omega : n / 10 < 10 ^ width) (by omega : m / 10 < 10 ^ width)
    have hones := digit_lt_iff (n % 10) (by omega) (m % 10) (by omega)
    rw [padded, padded, append_lt_append_iff (by rw [length_padded, length_padded]), htens,
      List.cons_lt_cons_iff, hones]
    simp only [List.not_lt_nil, and_false, or_false]
    -- The last digit decides among numbers whose other digits are the same.
    constructor
    · rintro (h | ⟨heq, h⟩)
      · omega
      · have := padded_injective (by omega) (by omega) heq
        omega
    · intro h
      by_cases ht : n / 10 < m / 10
      · exact .inl ht
      · have heq : n / 10 = m / 10 := by omega
        exact .inr ⟨congrArg (padded width) heq, by omega⟩

section
variable {before after : List Char} {width n m : Nat} {mark : Char}

theorem field_lt_iff (h : before.length = after.length) (hn : n < 10 ^ width)
    (hm : m < 10 ^ width) :
    before ++ mark :: padded width n < after ++ mark :: padded width m ↔
      before < after ∨ before = after ∧ n < m := by
  rw [append_lt_append_iff h, List.cons_lt_cons_iff, padded_lt_iff hn hm]
  simp

theorem field_eq_iff (h : before.length = after.length) (hn : n < 10 ^ width)
    (hm : m < 10 ^ width) :
    before ++ mark :: padded width n = after ++ mark :: padded width m ↔
      before = after ∧ n = m := by
  constructor
  · intro he
    obtain ⟨hb, hp⟩ := List.append_inj he h
    exact ⟨hb, padded_injective hn hm (List.cons.inj hp).2⟩
  · intro h
    obtain ⟨rfl, rfl⟩ := h
    rfl

end

end Text

namespace Date

theorem civil_bounds (d : Date) : d.civil.year < 10 ^ 4 ∧ d.civil.month < 10 ^ 2 ∧
    d.civil.day < 10 ^ 2 := by
  obtain ⟨-, hy, -, hm, -, hd⟩ := Calendar.valid_civilOf d.inRange
  have := Calendar.daysInMonth_le (Calendar.civilOf d.day).year (Calendar.civilOf d.day).month
  rw [civil]
  omega

theorem length_text (d : Date) : d.text.length = 10 := by
  simp [text, Text.length_padded]

theorem text_lt_iff (d e : Date) : d.text < e.text ↔ d.day < e.day := by
  obtain ⟨hy, hm, hd⟩ := d.civil_bounds
  obtain ⟨hy', hm', hd'⟩ := e.civil_bounds
  have hyears : Text.padded 4 d.civil.year = Text.padded 4 e.civil.year ↔
      d.civil.year = e.civil.year := ⟨Text.padded_injective hy hy', congrArg _⟩
  rw [text, text, Text.field_lt_iff (by simp [Text.length_padded]) hd hd',
    Text.field_lt_iff (by simp [Text.length_padded]) hm hm',
    Text.field_eq_iff (by simp [Text.length_padded]) hm hm', Text.padded_lt_iff hy hy', hyears,
    ← Calendar.before_civilOf_iff d.inRange e.inRange]
  change _ ↔ Calendar.Before d.civil e.civil
  rw [Calendar.Before]
  omega

theorem text_eq_iff (d e : Date) : d.text = e.text ↔ d.day = e.day := by
  constructor
  · intro h
    have hn := mt (text_lt_iff d e).mpr (by rw [h]; exact List.lt_irrefl _)
    have hn' := mt (text_lt_iff e d).mpr (by rw [h]; exact List.lt_irrefl _)
    omega
  · intro h
    rw [text, text, civil, civil, h]

end Date

namespace Instant

/-- Seconds since the start of the calendar, fractions left out. -/
def wholeSeconds (t : Instant) : Nat := t.micros / microsPerSecond

def shownSeconds (t : Instant) : List Char :=
  t.date.text ++ 'T' :: Text.padded 2 t.hour ++ ':' :: Text.padded 2 t.minute ++
    ':' :: Text.padded 2 t.second

def shownFraction (t : Instant) : List Char :=
  if t.microsecond = 0 then ['Z'] else '.' :: Text.padded 6 t.microsecond ++ ['Z']

theorem toList_text (t : Instant) : t.text.toList = t.shownSeconds ++ t.shownFraction := by
  rw [text, String.toList_ofList, fields, shownFraction, shownSeconds]
  split <;> simp

theorem length_shownSeconds (t : Instant) : t.shownSeconds.length = 19 := by
  simp [shownSeconds, Text.length_padded, Date.length_text]

theorem clock_bounds (t : Instant) : t.hour < 10 ^ 2 ∧ t.minute < 10 ^ 2 ∧ t.second < 10 ^ 2 := by
  simp only [hour, minute, second, timeOfDay, microsPerDay, microsPerSecond]
  omega

theorem fields_eq (t : Instant) : t.date.day = t.wholeSeconds / 86400 ∧
    t.hour = t.wholeSeconds % 86400 / 3600 ∧ t.minute = t.wholeSeconds % 86400 / 60 % 60 ∧
    t.second = t.wholeSeconds % 86400 % 60 := by
  simp only [date, hour, minute, second, timeOfDay, wholeSeconds, microsPerDay, microsPerSecond]
  omega

theorem shownSeconds_lt_iff (t u : Instant) :
    t.shownSeconds < u.shownSeconds ↔ t.wholeSeconds < u.wholeSeconds := by
  obtain ⟨hh, hm, hs⟩ := t.clock_bounds
  obtain ⟨hh', hm', hs'⟩ := u.clock_bounds
  rw [shownSeconds, shownSeconds]
  rw [Text.field_lt_iff (by simp [Text.length_padded, Date.length_text]) hs hs',
    Text.field_lt_iff (by simp [Text.length_padded, Date.length_text]) hm hm',
    Text.field_eq_iff (by simp [Text.length_padded, Date.length_text]) hm hm',
    Text.field_lt_iff (by simp [Date.length_text]) hh hh',
    Text.field_eq_iff (by simp [Date.length_text]) hh hh', Date.text_lt_iff, Date.text_eq_iff]
  -- Field by field in order is the order of the seconds that they make up.
  obtain ⟨a, b, c, d⟩ := t.fields_eq
  obtain ⟨a', b', c', d'⟩ := u.fields_eq
  rw [a, b, c, d, a', b', c', d']
  omega

theorem shownSeconds_eq_iff (t u : Instant) :
    t.shownSeconds = u.shownSeconds ↔ t.wholeSeconds = u.wholeSeconds := by
  constructor
  · intro h
    have hn := mt (shownSeconds_lt_iff t u).mpr (by rw [h]; exact List.lt_irrefl _)
    have hn' := mt (shownSeconds_lt_iff u t).mpr (by rw [h]; exact List.lt_irrefl _)
    omega
  · intro h
    obtain ⟨a, b, c, d⟩ := t.fields_eq
    obtain ⟨a', b', c', d'⟩ := u.fields_eq
    have hdate : t.date.text = u.date.text := (Date.text_eq_iff _ _).mpr (by rw [a, a', h])
    rw [shownSeconds, shownSeconds, hdate, b, c, d, b', c', d', h]

theorem shownFraction_lt_iff (t u : Instant) : t.shownFraction < u.shownFraction ↔
    t.microsecond ≠ 0 ∧ (u.microsecond = 0 ∨ t.microsecond < u.microsecond) := by
  have hm : t.microsecond < 10 ^ 6 := Nat.mod_lt _ (by decide)
  have hm' : u.microsecond < 10 ^ 6 := Nat.mod_lt _ (by decide)
  have hmarks : '.' < 'Z' ∧ ¬ 'Z' < '.' := by decide
  rw [shownFraction, shownFraction]
  by_cases ht : t.microsecond = 0
  · by_cases hu : u.microsecond = 0
    · rw [if_pos ht, if_pos hu]
      simp [ht]
    · rw [if_pos ht, if_neg hu, List.cons_append, List.cons_lt_cons_iff]
      simp [ht, hmarks]
  · by_cases hu : u.microsecond = 0
    · rw [if_neg ht, if_pos hu, List.cons_append, List.cons_lt_cons_iff]
      simp [ht, hu, hmarks]
    · rw [if_neg ht, if_neg hu, Text.append_lt_append_iff (by simp [Text.length_padded]),
        List.cons_lt_cons_iff, Text.padded_lt_iff hm hm']
      simp [ht, hu]

theorem micros_eq (t : Instant) :
    t.micros = t.wholeSeconds * microsPerSecond + t.microsecond ∧
      t.microsecond < microsPerSecond := by
  simp only [wholeSeconds, microsecond, timeOfDay, microsPerDay, microsPerSecond]
  omega

def textRank (t : Instant) : Nat :=
  if t.microsecond = 0 then t.micros + microsPerSecond else t.micros

theorem text_lt_iff (t u : Instant) : t.text < u.text ↔ t.textRank < u.textRank := by
  obtain ⟨ht, hbound⟩ := t.micros_eq
  obtain ⟨hu, hbound'⟩ := u.micros_eq
  rw [String.lt_iff, toList_text, toList_text,
    Text.append_lt_append_iff (by rw [length_shownSeconds, length_shownSeconds]),
    shownSeconds_lt_iff, shownSeconds_eq_iff, shownFraction_lt_iff, textRank, textRank]
  simp only [microsPerSecond] at *
  split <;> split <;> omega

def Clash (t u : Instant) : Prop :=
  t.wholeSeconds = u.wholeSeconds ∧ (t.microsecond = 0 ↔ u.microsecond ≠ 0)

instance (t u : Instant) : Decidable (Clash t u) := inferInstanceAs (Decidable (_ ∧ _))

theorem Clash.symm {t u : Instant} (h : Clash t u) : Clash u t := by
  refine ⟨h.1.symm, ?_⟩
  have := h.2
  tauto

theorem Clash.micros_ne {t u : Instant} (h : Clash t u) : t.micros ≠ u.micros := by
  intro hm
  have hfraction : t.microsecond = u.microsecond := by
    rw [microsecond, microsecond, timeOfDay, timeOfDay, hm]
  have := h.2
  rw [hfraction] at this
  tauto

/-- Texts are in the order of time unless two instants clash. -/
theorem text_lt_iff_of_not_clash {t u : Instant} (h : ¬ Clash t u) :
    t.text < u.text ↔ t.micros < u.micros := by
  obtain ⟨ht, hbound⟩ := t.micros_eq
  obtain ⟨hu, hbound'⟩ := u.micros_eq
  rw [text_lt_iff, textRank, textRank]
  rw [Clash] at h
  simp only [microsPerSecond] at *
  split <;> split <;> omega

theorem text_lt_iff_of_clash {t u : Instant} (h : Clash t u) :
    t.text < u.text ↔ u.micros < t.micros := by
  obtain ⟨ht, hbound⟩ := t.micros_eq
  obtain ⟨hu, hbound'⟩ := u.micros_eq
  rw [text_lt_iff, textRank, textRank]
  rw [Clash] at h
  simp only [microsPerSecond] at *
  split <;> split <;> omega

end Instant

end RecordStore
