import RecordStore.Proofs.Faults
import RecordStore.Value.Text
import RecordStore.Value.Time

/-! Times that cannot be reckoned. Who reads a time tells of some faults in words of their own; the
others come of texts that reading breaks off at, of durations without end, and of clock readings
that have no instant. -/
namespace RecordStore

namespace TimeFault

def Untold (told : TimeFault → Bool) (f : TimeFault) : Prop := told f = false

structure Tells (told : TimeFault → Bool) : Prop where
  refusal : ∀ f : TimeFault, f.isRefusal → told f
  outOfRange : told outOfRange = false

theorem tells_refusals : Tells isRefusal := ⟨fun _ h => h, rfl⟩

theorem tells_mismatches : Tells isMismatch := by
  refine ⟨fun f h => ?_, rfl⟩
  cases f <;> simp_all [isMismatch, isRefusal]

end TimeFault

open TimeFault (Untold Tells)

def DateTime.OffCalendar (t : DateTime) : Prop :=
  t.hasClock ∧ (t.universalMicros < 0 ∨ Calendar.dayCount * microsPerDay ≤ t.universalMicros)

theorem Instant.ofMicros?_eq_none {micros : Int} : Instant.ofMicros? micros = none ↔
    micros < 0 ∨ Calendar.dayCount * microsPerDay ≤ micros := by
  rw [ofMicros?]
  split
  · simp only [reduceCtorEq, false_iff]
    omega
  · simp only [true_iff]
    omega

namespace TimeText

/-- A text on which reading fails, but with a fault that is not told of. -/
def Baffling (told : TimeFault → Bool) (text : String) : Prop := Fails (Untold told) (meaning text)

def Overlong (text : String) : Prop :=
  ∃ s, meaning text = .ok (.point (.span s)) ∧ spanLimit ≤ s.nominalMicros

def OffCalendar (text : String) : Prop :=
  ∃ t, meaning text = .ok (.point (.reading t)) ∧ t.OffCalendar

section
variable {told : TimeFault → Bool} (ht : Tells told) {text : String}
include ht

theorem not_fails_refusal {α : Type} {f : TimeFault} (h : f.isRefusal) :
    ¬ Fails (Untold told) (throw f : Except TimeFault α) := by
  intro hf
  have huntold := fails_error.mp hf
  rw [Untold, ht.refusal f h] at huntold
  cases huntold

theorem instantOf_fails {t : DateTime} : Fails (Untold told) (instantOf t) ↔ t.OffCalendar := by
  rw [instantOf, DateTime.OffCalendar, ← Instant.ofMicros?_eq_none, ← DateTime.toInstant?]
  have hoffset := ht.refusal (.impossible .offset) rfl
  cases t.hasClock <;> cases t.toInstant? <;>
    simp [fails_error, fails_ok, Untold, ht.outOfRange, hoffset]

theorem bounded_fails {s : Span} :
    Fails (Untold told) (bounded s) ↔ spanLimit ≤ s.nominalMicros := by
  rw [bounded]
  split
  · exact iff_of_true (fails_error.mpr ht.outOfRange) ‹_›
  · exact iff_of_false fails_ok ‹_›

theorem parseTimestamp_fails [Present] : Fails (Untold told) (parseTimestamp text) ↔
    Baffling told text ∨ Overlong text ∨ OffCalendar text := by
  rw [parseTimestamp, fails_bind, Baffling]
  refine or_congr Iff.rfl ?_
  constructor
  · intro h
    obtain ⟨m, hm, h⟩ := h
    cases m with
    | interval e => exact absurd h (not_fails_refusal ht rfl)
    | present => exact absurd h fails_ok
    | point form =>
      cases form with
      | date d => exact absurd h fails_ok
      | reading t => exact .inr ⟨t, hm, (instantOf_fails ht).mp h⟩
      | clock micros => exact absurd h fails_ok
      | span s =>
        rcases fails_bind.mp h with h | ⟨_, -, h⟩
        · exact .inl ⟨s, hm, (bounded_fails ht).mp h⟩
        · exact absurd h (not_fails_refusal ht rfl)
  · intro h
    rcases h with ⟨s, hm, hs⟩ | ⟨t, hm, ht'⟩
    · exact ⟨_, hm, fails_bind.mpr (.inl ((bounded_fails ht).mpr hs))⟩
    · exact ⟨_, hm, (instantOf_fails ht).mpr ht'⟩

theorem parseDuration_fails :
    Fails (Untold told) (parseDuration text) ↔ Baffling told text ∨ Overlong text := by
  have hrest (micros : Int) (calendrical : Bool) : ¬ Fails (Untold told) (do
      if calendrical then throw (.calendarDuration text)
      return throughSeconds micros) := by
    cases calendrical with
    | true => exact not_fails_refusal ht rfl
    | false => exact fails_ok
  rw [parseDuration, fails_bind, Baffling]
  refine or_congr Iff.rfl ?_
  constructor
  · intro h
    obtain ⟨m, hm, h⟩ := h
    cases m with
    | interval e => exact absurd h (hrest e.micros e.calendrical)
    | present => exact absurd h (not_fails_refusal ht rfl)
    | point form =>
      cases form with
      | span s =>
        rcases fails_bind.mp h with h | ⟨s', -, h⟩
        · exact ⟨s, hm, (bounded_fails ht).mp h⟩
        · exact absurd h (hrest s'.nominalMicros s'.isCalendrical)
      | _ => exact absurd h (not_fails_refusal ht rfl)
  · intro h
    obtain ⟨s, hm, hs⟩ := h
    exact ⟨_, hm, fails_bind.mpr (.inl ((bounded_fails ht).mpr hs))⟩

end

end TimeText

namespace Value

/-- Texts and clock readings that have no instant, for a reason that is not told of. -/
def Unreckoned (told : TimeFault → Bool) : Value → Prop
  | datetime t => t.OffCalendar
  | str s => TimeText.Baffling told s ∨ TimeText.Overlong s ∨ TimeText.OffCalendar s
  | _ => False

theorem toInstant_fails [Present] {told : TimeFault → Bool} (ht : Tells told) {v : Value}
    (h : v.isDateLike ∨ ∀ kind, told (.notDateLike kind)) :
    Fails (Untold told) v.toInstant ↔ v.Unreckoned told := by
  cases v with
  | datetime t => exact TimeText.instantOf_fails ht
  | str s => exact TimeText.parseTimestamp_fails ht
  | date d => exact iff_of_false fails_ok not_false
  | _ =>
    have htold := h.resolve_left Bool.false_ne_true
    refine iff_of_false (fun hf => ?_) not_false
    have huntold := fails_error.mp hf
    rw [Untold, htold] at huntold
    cases huntold

theorem isDateLike_of_toInstant [Present] {v : Value} {t : Instant} (h : v.toInstant = .ok t) :
    v.isDateLike := by
  cases v <;> first | rfl | cases h

theorem isWritable_of_isDateLike {v : Value} (h : v.isDateLike) : v.isWritable := by
  cases v <;> first | rfl | cases h

theorem isDateLike_of_unreckoned {told : TimeFault → Bool} {v : Value} (h : v.Unreckoned told) :
    v.isDateLike := by
  cases v with
  | datetime | str => rfl
  | _ => exact absurd h not_false

end Value

end RecordStore
