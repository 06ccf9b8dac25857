import RecordStore.Proofs.Inversion
import RecordStore.Proofs.TimestampForms
import RecordStore.Time.Reading

/-! The forms of a timestamp outside ISO 8601, each with what it denotes. A text that has one of
them is read as what the form denotes. -/
namespace RecordStore.Loose

/-! ### Numerals -/

structure Numeral where
  digits : List Char
  all_digits : ∀ c ∈ digits, (Text.decimalValue? c).isSome

namespace Numeral

def values (m : Numeral) : List Nat := m.digits.map fun c => (Text.decimalValue? c).getD 0

def value (m : Numeral) : Nat := m.values.foldl (fun n d => 10 * n + d) 0

theorem not_mem (m : Numeral) {c : Char} (h : Text.decimalValue? c = none) : c ∉ m.digits := by
  intro hc
  have hsome := m.all_digits c hc
  rw [h] at hsome
  cases hsome

end Numeral

theorem decimalValue?_lt {c : Char} {n : Nat} (h : Text.decimalValue? c = some n) : n < 10 := by
  obtain ⟨start, hstart, rfl⟩ := Option.map_eq_some_iff.mp h
  have hblock := List.find?_some hstart
  simp only [Bool.and_eq_true, decide_eq_true_eq] at hblock
  omega

theorem Numeral.values_lt (m : Numeral) : ∀ v ∈ m.values, v < 10 := by
  refine List.forall_mem_map.mpr fun c hc => ?_
  obtain ⟨n, hn⟩ := Option.isSome_iff_exists.mp (m.all_digits c hc)
  rw [hn]
  exact decimalValue?_lt hn

theorem mapM_eq_some_iff {value? : Char → Option Nat} {cs : List Char} {vs : List Nat} :
    cs.mapM value? = some vs ↔
      (∀ c ∈ cs, (value? c).isSome) ∧ (cs.map fun c => (value? c).getD 0) = vs := by
  induction cs generalizing vs with
  | nil => simp
  | cons c cs ih =>
    rw [List.mapM_cons, List.forall_mem_cons, List.map_cons]
    cases value? c with
    | none => simp
    | some n => simp [Option.bind_eq_some_iff, ih, and_assoc]

theorem mapM_decimalValue?_eq_some_iff {cs : List Char} {vs : List Nat} :
    cs.mapM Text.decimalValue? = some vs ↔ ∃ m : Numeral, m.digits = cs ∧ m.values = vs := by
  rw [mapM_eq_some_iff]
  constructor
  · rintro ⟨hdigits, hvalues⟩
    exact ⟨⟨cs, hdigits⟩, rfl, hvalues⟩
  · rintro ⟨m, rfl, hvalues⟩
    exact ⟨m.all_digits, hvalues⟩

theorem numeral?_eq_some_iff {width n : Nat} {cs rest : List Char} :
    numeral? width cs = some (n, rest) ↔
      ∃ m : Numeral, m.digits.length = width ∧ m.digits ++ rest = cs ∧ m.value = n := by
  constructor
  · intro h
    rw [numeral?] at h
    split at h
    · cases h
    · rename_i hlength
      obtain ⟨vs, hvs, h⟩ := Option.bind_eq_some_iff.mp h
      cases h
      obtain ⟨m, hm, rfl⟩ := mapM_decimalValue?_eq_some_iff.mp hvs
      refine ⟨m, ?_, ?_, rfl⟩
      · rw [hm, List.length_take]
        omega
      · rw [hm, List.take_append_drop]
  · rintro ⟨m, rfl, rfl, rfl⟩
    have hvalues : m.digits.mapM Text.decimalValue? = some m.values :=
      mapM_decimalValue?_eq_some_iff.mpr ⟨m, rfl, rfl⟩
    rw [numeral?, if_neg (by simp), List.take_left, List.drop_left, hvalues]
    rfl

theorem numeral?_append {width : Nat} {m : Numeral} (h : m.digits.length = width)
    (rest : List Char) : numeral? width (m.digits ++ rest) = some (m.value, rest) :=
  numeral?_eq_some_iff.mpr ⟨m, h, rfl, rfl⟩

structure Short extends Numeral where
  ne_nil : digits ≠ []
  length_le : digits.length ≤ 2

def Stops (cs : List Char) : Prop := ∀ c ∈ cs.head?, Text.decimalValue? c = none

theorem form_of_short {cs rest : List Char} {n : Nat} (h : short? cs = some (n, rest)) :
    ∃ m : Short, m.digits ++ rest = cs ∧ m.value = n := by
  rw [short?, Option.or_eq_some_iff] at h
  obtain h | ⟨-, h⟩ := h
  · obtain ⟨m, hm, hcs, hvalue⟩ := numeral?_eq_some_iff.mp h
    exact ⟨⟨m, List.ne_nil_of_length_eq_add_one hm, hm.le⟩, hcs, hvalue⟩
  · obtain ⟨m, hm, hcs, hvalue⟩ := numeral?_eq_some_iff.mp h
    exact ⟨⟨m, List.ne_nil_of_length_eq_add_one hm, by omega⟩, hcs, hvalue⟩

theorem short?_append (m : Short) {rest : List Char} (hrest : Stops rest) :
    short? (m.digits ++ rest) = some (m.value, rest) := by
  have hpos := List.length_pos_iff_ne_nil.mpr m.ne_nil
  have hle := m.length_le
  have hread := numeral?_append (rfl : m.toNumeral.digits.length = _) rest
  rw [short?]
  obtain hlength | hlength : m.digits.length = 2 ∨ m.digits.length = 1 := by omega
  · rw [hlength] at hread
    rw [hread, Option.some_or]
  · have hnone : numeral? 2 (m.digits ++ rest) = none := by
      refine Option.eq_none_iff_forall_ne_some.mpr ?_
      rintro ⟨n, after⟩ h
      obtain ⟨k, hk, hcs, -⟩ := numeral?_eq_some_iff.mp h
      -- The second digit would be the first of what follows.
      obtain ⟨a, b, hab⟩ := List.length_eq_two.mp hk
      obtain ⟨c, hc⟩ := List.length_eq_one_iff.mp hlength
      rw [hab, hc] at hcs
      have hb : b ∈ rest.head? := by
        have htail : b :: after = rest := (List.cons.inj hcs).2
        rw [← htail]
        rfl
      exact k.not_mem (hrest b hb) (by simp [hab])
    rw [hlength] at hread
    rw [hnone, hread, Option.none_or]

theorem short?_of_stops {cs : List Char} (h : Stops cs) : short? cs = none := by
  refine Option.eq_none_iff_forall_ne_some.mpr ?_
  rintro ⟨n, rest⟩ hread
  obtain ⟨m, rfl, -⟩ := form_of_short hread
  obtain ⟨c, ds, hm⟩ := List.exists_cons_of_ne_nil m.ne_nil
  exact m.not_mem (h c (by simp [hm])) (by simp [hm])

/-! ### Times of day -/

structure Fraction where
  mark : Char
  numeral : Numeral
  mark_eq : mark = '.' ∨ mark = ',' ∨ mark = '|'
  ne_nil : numeral.digits ≠ []
  length_le : numeral.digits.length ≤ 9

def fractionText (f : Option Fraction) : List Char :=
  (f.map fun f => f.mark :: f.numeral.digits).getD []

def fractionMicros (f : Option Fraction) : Nat :=
  (f.map fun f => f.numeral.value * microsPerSecond / 10 ^ f.numeral.digits.length).getD 0

theorem Numeral.value_lt (m : Numeral) : m.value < 10 ^ m.digits.length := by
  have hlt := Nat.ofDigits_lt_base_pow_length (b := 10) (l := m.values.reverse) (by decide)
    fun v hv => m.values_lt v (List.mem_reverse.mp hv)
  rw [List.length_reverse, ← Text.foldl_digits] at hlt
  exact hlt.trans_eq (congrArg (10 ^ ·) (List.length_map _))

theorem fractionMicros_lt (f : Option Fraction) : fractionMicros f < microsPerSecond := by
  cases f with
  | none => exact Nat.zero_lt_succ _
  | some f =>
    change f.numeral.value * microsPerSecond / 10 ^ f.numeral.digits.length < _
    rw [Nat.div_lt_iff_lt_mul (by positivity), Nat.mul_comm]
    exact Nat.mul_lt_mul_of_pos_left f.numeral.value_lt (by decide)

theorem fraction?_eq_some_iff {cs : List Char} {n : Nat} :
    fraction? cs = some n ↔ ∃ f, fractionText f = cs ∧ fractionMicros f = n := by
  have hsix (m : Numeral) : ((m.values ++ List.replicate 6 0).take 6).foldl
      (fun n d => 10 * n + d) 0 = m.value * microsPerSecond / 10 ^ m.digits.length := by
    have hplaces := Text.foldl_six m.values_lt
    rw [show m.values.length = m.digits.length from List.length_map _] at hplaces
    exact hplaces
  constructor
  · intro h
    cases cs with
    | nil =>
      cases h
      exact ⟨none, rfl, rfl⟩
    | cons mark ds =>
      rw [fraction?] at h
      split at h
      · rename_i hgood
        obtain ⟨vs, hvs, h⟩ := Option.bind_eq_some_iff.mp h
        cases h
        obtain ⟨m, rfl, rfl⟩ := mapM_decimalValue?_eq_some_iff.mp hvs
        exact ⟨some ⟨mark, m, hgood.1, hgood.2.1, hgood.2.2⟩, rfl, (hsix m).symm⟩
      · cases h
  · rintro ⟨f, rfl, rfl⟩
    cases f with
    | none => rfl
    | some f =>
      have hvalues : f.numeral.digits.mapM Text.decimalValue? = some f.numeral.values :=
        mapM_decimalValue?_eq_some_iff.mpr ⟨f.numeral, rfl, rfl⟩
      change fraction? (f.mark :: f.numeral.digits) = _
      rw [fraction?, if_pos ⟨f.mark_eq, f.ne_nil, f.length_le⟩, hvalues]
      exact congrArg some (hsix f.numeral)

structure ClockForm where
  gap : Bool
  hour : Short
  minute : Option Short
  second : Option Short
  fraction : Option Fraction

namespace ClockForm

def secondText (f : ClockForm) : List Char :=
  ((f.second.map fun s => ':' :: s.digits).getD []) ++ fractionText f.fraction

def text (f : ClockForm) : List Char := Iso.separator ' ' f.gap ++
  (f.hour.digits ++ ':' :: ((f.minute.map (·.digits)).getD [] ++ f.secondText))

def clock (f : ClockForm) : Clock :=
  ⟨f.hour.value, f.minute.map (·.value), (f.second.map (·.value)).getD 0,
    fractionMicros f.fraction⟩

end ClockForm

theorem stops_cons {c : Char} {cs : List Char} (h : Text.decimalValue? c = none) :
    Stops (c :: cs) := by
  intro d hd
  cases hd
  exact h

theorem stops_fractionText (f : Option Fraction) : Stops (fractionText f) := by
  cases f with
  | none =>
    intro c hc
    cases hc
  | some f =>
    refine stops_cons ?_
    obtain h | h | h := f.mark_eq
    all_goals
      rw [h]
      rfl

theorem ClockForm.stops_secondText (f : ClockForm) : Stops f.secondText := by
  rw [secondText]
  cases f.second with
  | none => exact stops_fractionText f.fraction
  | some s => exact stops_cons rfl

theorem exists_gap (cs : List Char) : ∃ gap,
    cs = Iso.separator ' ' gap ++ if cs.head? = some ' ' then cs.drop 1 else cs := by
  split
  · rename_i hhead
    obtain ⟨rest, rfl⟩ := List.head?_eq_some_iff.mp hhead
    exact ⟨true, rfl⟩
  · exact ⟨false, rfl⟩

theorem form_of_seconds {hour : Nat} {minute : Option Nat} {cs : List Char}
    {k : Option Clock} (h : (match cs with
      | ':' :: rest => do
        let (second, rest) ← short? rest
        return some ⟨hour, minute, second, ← fraction? rest⟩
      | rest => do return some ⟨hour, minute, 0, ← fraction? rest⟩) = some k) :
    ∃ (second : Option Short) (fraction : Option Fraction),
      ((second.map fun s => ':' :: s.digits).getD []) ++ fractionText fraction = cs ∧
        k = some ⟨hour, minute, (second.map (·.value)).getD 0, fractionMicros fraction⟩ := by
  split at h
  · obtain ⟨⟨n, after⟩, hsecond, h⟩ := Option.bind_eq_some_iff.mp h
    obtain ⟨micros, hmicros, h⟩ := Option.bind_eq_some_iff.mp h
    cases h
    obtain ⟨second, rfl, rfl⟩ := form_of_short hsecond
    obtain ⟨fraction, rfl, rfl⟩ := fraction?_eq_some_iff.mp hmicros
    exact ⟨some second, fraction, rfl, rfl⟩
  · obtain ⟨micros, hmicros, h⟩ := Option.bind_eq_some_iff.mp h
    cases h
    obtain ⟨fraction, rfl, rfl⟩ := fraction?_eq_some_iff.mp hmicros
    exact ⟨none, fraction, rfl, rfl⟩

theorem form_of_clock {cs : List Char} {k : Option Clock} (hcs : cs ≠ [])
    (h : clock? cs = some k) : ∃ f : ClockForm, f.text = cs ∧ some f.clock = k := by
  obtain ⟨gap, hgap⟩ := exists_gap cs
  rw [clock?, if_neg hcs] at h
  generalize (if cs.head? = some ' ' then cs.drop 1 else cs) = body at h hgap
  obtain ⟨⟨n, after⟩, hhour, hbody⟩ := Option.bind_eq_some_iff.mp h
  obtain ⟨hour, rfl, rfl⟩ := form_of_short hhour
  dsimp only at hbody
  split at hbody
  · rename_i rest heq
    cases heq
    cases hshort : short? rest with
    | none =>
      rw [hshort] at hbody
      dsimp only at hbody
      obtain ⟨second, fraction, hrest, rfl⟩ := form_of_seconds hbody
      refine ⟨⟨gap, hour, none, second, fraction⟩, ?_, rfl⟩
      rw [hgap, ← hrest]
      rfl
    | some read =>
      obtain ⟨n, after⟩ := read
      rw [hshort] at hbody
      dsimp only at hbody
      obtain ⟨minute, rfl, rfl⟩ := form_of_short hshort
      obtain ⟨second, fraction, hrest, rfl⟩ := form_of_seconds hbody
      refine ⟨⟨gap, hour, some minute, second, fraction⟩, ?_, rfl⟩
      rw [hgap, ← hrest]
      rfl
  · cases hbody

theorem seconds_of_form {hour : Nat} {minute : Option Nat} (f : ClockForm) :
    (match f.secondText with
      | ':' :: rest => do
        let (second, rest) ← short? rest
        return some ⟨hour, minute, second, ← fraction? rest⟩
      | rest => do return some ⟨hour, minute, 0, ← fraction? rest⟩) =
      some (some (Clock.mk hour minute ((f.second.map (·.value)).getD 0)
        (fractionMicros f.fraction))) := by
  have hfraction : fraction? (fractionText f.fraction) = some (fractionMicros f.fraction) :=
    fraction?_eq_some_iff.mpr ⟨f.fraction, rfl, rfl⟩
  rw [ClockForm.secondText]
  cases f.second with
  | none =>
    have hcolon (rest : List Char) : fractionText f.fraction ≠ ':' :: rest := by
      cases hf : f.fraction with
      | none => exact fun h => nomatch h
      | some g =>
        intro h
        have hmark := g.mark_eq
        rw [(List.cons.inj h).1] at hmark
        revert hmark
        decide
    change (match fractionText f.fraction with
      | ':' :: rest => _
      | rest => _) = _
    split
    · rename_i rest h
      exact absurd h (hcolon rest)
    · rw [hfraction]
      rfl
  | some s =>
    have hshort := short?_append s (stops_fractionText f.fraction)
    change (do
      let (second, rest) ← short? (s.digits ++ fractionText f.fraction)
      return some (Clock.mk hour minute second (← fraction? rest))) = _
    rw [hshort, Option.bind_eq_bind, Option.bind_some]
    dsimp only
    rw [hfraction]
    rfl

theorem short?_minute (f : ClockForm) :
    short? ((f.minute.map (·.digits)).getD [] ++ f.secondText) =
      f.minute.map fun m => (m.value, f.secondText) := by
  cases f.minute with
  | none => exact short?_of_stops f.stops_secondText
  | some m => exact short?_append m f.stops_secondText

theorem clock?_of_form (f : ClockForm) : clock? f.text = some (some f.clock) := by
  have hhead : f.text ≠ [] := by
    simp [ClockForm.text]
  have hbody : (if f.text.head? = some ' ' then f.text.drop 1 else f.text) =
      f.hour.digits ++ ':' :: ((f.minute.map (·.digits)).getD [] ++ f.secondText) := by
    rw [ClockForm.text]
    cases f.gap with
    | true => rfl
    | false =>
      obtain ⟨c, ds, hdigits⟩ := List.exists_cons_of_ne_nil f.hour.ne_nil
      have hc : c ≠ ' ' := by
        rintro rfl
        exact f.hour.not_mem rfl (by rw [hdigits]; exact List.mem_cons_self)
      simp [Iso.separator, hdigits, hc]
  have hhour := short?_append f.hour
    (stops_cons rfl : Stops (':' :: ((f.minute.map (·.digits)).getD [] ++ f.secondText)))
  rw [clock?, if_neg hhead, hbody]
  dsimp only
  rw [hhour, Option.bind_eq_bind, Option.bind_some, ClockForm.clock]
  split
  · rename_i hour rest heq
    cases heq
    rw [short?_minute]
    cases f.minute with
    | none => exact seconds_of_form f
    | some m => exact seconds_of_form f
  · rename_i hne
    exact absurd rfl (hne _ _)

def clockText (f : Option ClockForm) : List Char := (f.map ClockForm.text).getD []

theorem clock?_eq_some_iff {cs : List Char} {k : Option Clock} :
    clock? cs = some k ↔ ∃ f, clockText f = cs ∧ f.map ClockForm.clock = k := by
  constructor
  · intro h
    by_cases hcs : cs = []
    · subst hcs
      cases h
      exact ⟨none, rfl, rfl⟩
    · obtain ⟨f, hf, hk⟩ := form_of_clock hcs h
      exact ⟨some f, hf, hk⟩
  · rintro ⟨f, rfl, rfl⟩
    cases f with
    | none => rfl
    | some f => exact clock?_of_form f

/-! ### Dates -/

structure DateForm where
  year : Numeral
  first : Option Char
  month : Numeral
  last : Option Char
  day : Numeral
  length_year : year.digits.length = 4
  length_month : month.digits.length = 2
  length_day : day.digits.length = 2
  first_eq : ∀ c ∈ first, c = '/' ∨ c = ':'
  last_eq : ∀ c ∈ last, c = '/' ∨ c = ':'

namespace DateForm

def text (f : DateForm) : List Char :=
  f.year.digits ++ (f.first.toList ++ (f.month.digits ++ (f.last.toList ++ f.day.digits)))

def civil (f : DateForm) : Civil := ⟨f.year.value, f.month.value, f.day.value⟩

end DateForm

def full? (cs : List Char) : Option (Option Civil × Option Clock) := do
  let (year, rest) ← numeral? 4 cs
  let (month, rest) ← numeral? 2 (dropMark rest)
  let (day, rest) ← numeral? 2 (dropMark rest)
  return (some (Civil.mk year month day), ← clock? rest)

def yearly? (cs : List Char) : Option (Option Civil × Option Clock) := do
  let (year, rest) ← numeral? 4 cs
  return (some (Civil.mk year 1 1), ← clock? rest)

theorem parts?_eq (cs : List Char) : parts? cs =
    (full? cs).or ((yearly? cs).or (do return (none, ← clock? cs))) := rfl

theorem exists_mark (cs : List Char) : ∃ mark : Option Char,
    (∀ c ∈ mark, c = '/' ∨ c = ':') ∧ cs = mark.toList ++ dropMark cs := by
  rw [dropMark]
  split
  · rename_i hhead
    obtain ⟨c, hc, hmark⟩ : ∃ c, cs.head? = some c ∧ (c = '/' ∨ c = ':') := by
      obtain h | h := hhead
      · exact ⟨_, h, .inl rfl⟩
      · exact ⟨_, h, .inr rfl⟩
    obtain ⟨rest, rfl⟩ := List.head?_eq_some_iff.mp hc
    refine ⟨some c, ?_, rfl⟩
    intro d hd
    cases hd
    exact hmark
  · refine ⟨none, ?_, rfl⟩
    intro c hc
    cases hc

theorem dropMark_append {mark : Option Char} (h : ∀ c ∈ mark, c = '/' ∨ c = ':') (m : Numeral)
    (hm : m.digits ≠ []) (rest : List Char) :
    dropMark (mark.toList ++ (m.digits ++ rest)) = m.digits ++ rest := by
  cases mark with
  | some c =>
    obtain hc | hc := h c rfl
    · rw [hc]
      rfl
    · rw [hc]
      rfl
  | none =>
    obtain ⟨d, ds, hdigits⟩ := List.exists_cons_of_ne_nil hm
    have hd : d ∈ m.digits := by
      rw [hdigits]
      exact List.mem_cons_self
    have hslash : d ≠ '/' := by
      rintro rfl
      exact m.not_mem rfl hd
    have hcolon : d ≠ ':' := by
      rintro rfl
      exact m.not_mem rfl hd
    simp [dropMark, hdigits, hslash, hcolon]

theorem full?_eq_some_iff {cs : List Char} {parts : Option Civil × Option Clock} :
    full? cs = some parts ↔ ∃ (f : DateForm) (k : Option ClockForm),
      f.text ++ clockText k = cs ∧ (some f.civil, k.map ClockForm.clock) = parts := by
  constructor
  · intro h
    obtain ⟨⟨y, rest⟩, hyear, h⟩ := Option.bind_eq_some_iff.mp h
    obtain ⟨⟨m, rest'⟩, hmonth, h⟩ := Option.bind_eq_some_iff.mp h
    obtain ⟨⟨d, rest''⟩, hday, h⟩ := Option.bind_eq_some_iff.mp h
    obtain ⟨k, hclock, h⟩ := Option.bind_eq_some_iff.mp h
    cases h
    obtain ⟨year, hy, rfl, rfl⟩ := numeral?_eq_some_iff.mp hyear
    obtain ⟨month, hm, hmonthText, rfl⟩ := numeral?_eq_some_iff.mp hmonth
    obtain ⟨day, hd, hdayText, rfl⟩ := numeral?_eq_some_iff.mp hday
    obtain ⟨clock, rfl, rfl⟩ := clock?_eq_some_iff.mp hclock
    obtain ⟨first, hfirst, hrest⟩ := exists_mark rest
    obtain ⟨last, hlast, hrest'⟩ := exists_mark rest'
    refine ⟨⟨year, first, month, last, day, hy, hm, hd, hfirst, hlast⟩, clock, ?_, rfl⟩
    rw [hrest, ← hmonthText, hrest', ← hdayText]
    simp [DateForm.text]
  · rintro ⟨f, k, rfl, rfl⟩
    have hmonth : f.month.digits ≠ [] := List.ne_nil_of_length_eq_add_one f.length_month
    have hday : f.day.digits ≠ [] := List.ne_nil_of_length_eq_add_one f.length_day
    have hclock : clock? (clockText k) = some (k.map ClockForm.clock) :=
      clock?_eq_some_iff.mpr ⟨k, rfl, rfl⟩
    rw [full?, DateForm.text]
    simp only [List.append_assoc]
    rw [numeral?_append f.length_year, Option.bind_eq_bind, Option.bind_some]
    dsimp only
    rw [dropMark_append f.first_eq f.month hmonth, numeral?_append f.length_month,
      Option.bind_eq_bind, Option.bind_some]
    dsimp only
    rw [dropMark_append f.last_eq f.day hday, numeral?_append f.length_day, Option.bind_some]
    dsimp only
    rw [hclock]
    rfl

theorem yearly?_eq_some_iff {cs : List Char} {parts : Option Civil × Option Clock} :
    yearly? cs = some parts ↔ ∃ (year : Numeral) (k : Option ClockForm),
      year.digits.length = 4 ∧ year.digits ++ clockText k = cs ∧
        (some ⟨year.value, 1, 1⟩, k.map ClockForm.clock) = parts := by
  constructor
  · intro h
    obtain ⟨⟨y, rest⟩, hyear, h⟩ := Option.bind_eq_some_iff.mp h
    obtain ⟨k, hclock, h⟩ := Option.bind_eq_some_iff.mp h
    cases h
    obtain ⟨year, hy, rfl, rfl⟩ := numeral?_eq_some_iff.mp hyear
    obtain ⟨clock, rfl, rfl⟩ := clock?_eq_some_iff.mp hclock
    exact ⟨year, clock, hy, rfl, rfl⟩
  · rintro ⟨year, k, hy, rfl, rfl⟩
    have hclock : clock? (clockText k) = some (k.map ClockForm.clock) :=
      clock?_eq_some_iff.mpr ⟨k, rfl, rfl⟩
    rw [yearly?, numeral?_append hy, Option.bind_eq_bind, Option.bind_some]
    dsimp only
    rw [hclock]
    rfl

/-! ### Timestamps -/

/-- A timestamp as it is written: a year, with month and day or without, and a time of day or
nothing behind. -/
inductive StampForm where
  | full (date : DateForm) (clock : Option ClockForm)
  | yearly (year : Numeral) (four : year.digits.length = 4) (clock : Option ClockForm)

namespace StampForm

def text : StampForm → List Char
  | full f k => f.text ++ clockText k
  | yearly y _ k => y.digits ++ clockText k

def civil : StampForm → Civil
  | full f _ => f.civil
  | yearly y _ _ => ⟨y.value, 1, 1⟩

def clock : StampForm → Option ClockForm
  | full _ k | yearly _ _ k => k

def IsRead : StampForm → Prop
  | full _ _ => True
  | yearly y _ k => ∀ f k', (full f k').text ≠ y.digits ++ clockText k

end StampForm

theorem parts?_eq_some_iff {cs : List Char} {c : Civil} {k : Option Clock} :
    parts? cs = some (some c, k) ↔ ∃ f : StampForm, f.text = cs ∧ f.IsRead ∧ f.civil = c ∧
      f.clock.map ClockForm.clock = k := by
  have hnone : full? cs = none ↔ ∀ f k', (StampForm.full f k').text ≠ cs := by
    rw [Option.eq_none_iff_forall_ne_some]
    constructor
    · intro h f k' htext
      exact h _ (full?_eq_some_iff.mpr ⟨f, k', htext, rfl⟩)
    · intro h parts hparts
      obtain ⟨f, k', htext, -⟩ := full?_eq_some_iff.mp hparts
      exact h f k' htext
  rw [parts?_eq, Option.or_eq_some_iff, Option.or_eq_some_iff, hnone, full?_eq_some_iff,
    yearly?_eq_some_iff]
  constructor
  · rintro (⟨f, k', rfl, h⟩ | ⟨hfull, ⟨y, k', hy, rfl, h⟩ | ⟨-, h⟩⟩)
    · cases h
      exact ⟨.full f k', rfl, trivial, rfl, rfl⟩
    · cases h
      exact ⟨.yearly y hy k', rfl, hfull, rfl, rfl⟩
    · obtain ⟨_, -, h⟩ := Option.bind_eq_some_iff.mp h
      cases h
  · rintro ⟨f, rfl, hread, rfl, rfl⟩
    cases f with
    | full f k' => exact .inl ⟨f, k', rfl, rfl⟩
    | yearly y hy k' => exact .inr ⟨hread, .inl ⟨y, k', hy, rfl, rfl⟩⟩

/-- A time of day is alone where there can be no date. -/
theorem parts?_eq_time_iff {cs : List Char} {k : Clock} :
    parts? cs = some (none, some k) ↔
      ∃ f : ClockForm, f.text = cs ∧ (∀ g : StampForm, g.text ≠ cs) ∧ f.clock = k := by
  have hfull {c : Option Civil × Option Clock} (h : full? cs = some c) : c.1.isSome := by
    obtain ⟨_, _, -, rfl⟩ := full?_eq_some_iff.mp h
    rfl
  have hyearly {c : Option Civil × Option Clock} (h : yearly? cs = some c) : c.1.isSome := by
    obtain ⟨_, _, -, -, rfl⟩ := yearly?_eq_some_iff.mp h
    rfl
  rw [parts?_eq, Option.or_eq_some_iff, Option.or_eq_some_iff]
  constructor
  · rintro (h | ⟨hnofull, h | ⟨hnoyearly, h⟩⟩)
    · cases hfull h
    · cases hyearly h
    · obtain ⟨k', hclock, h⟩ := Option.bind_eq_some_iff.mp h
      cases h
      obtain ⟨f, hf, hk⟩ := clock?_eq_some_iff.mp hclock
      obtain ⟨f, rfl, rfl⟩ := Option.map_eq_some_iff.mp hk
      refine ⟨f, hf, fun g hg => ?_, rfl⟩
      cases g with
      | full d k =>
        rw [full?_eq_some_iff.mpr ⟨d, k, hg, rfl⟩] at hnofull
        cases hnofull
      | yearly y hy k =>
        rw [yearly?_eq_some_iff.mpr ⟨y, k, hy, hg, rfl⟩] at hnoyearly
        cases hnoyearly
  · rintro ⟨f, rfl, hdate, rfl⟩
    refine .inr ⟨?_, .inr ⟨?_, ?_⟩⟩
    · refine Option.eq_none_iff_forall_ne_some.mpr fun c hc => ?_
      obtain ⟨d, k, htext, -⟩ := full?_eq_some_iff.mp hc
      exact hdate (.full d k) htext
    · refine Option.eq_none_iff_forall_ne_some.mpr fun c hc => ?_
      obtain ⟨y, k, hy, htext, -⟩ := yearly?_eq_some_iff.mp hc
      exact hdate (.yearly y hy k) htext
    · rw [clock?_of_form]
      rfl

/-- The microseconds since midnight that a time of day denotes; it has to have a minute. -/
def ClockForm.Denotes (n : Nat) (f : ClockForm) : Prop :=
  ∃ minute, f.clock.minute = some minute ∧ f.clock.hour < 24 ∧ minute < 60 ∧
    f.clock.second < 60 ∧
    n = (3600 * f.clock.hour + 60 * minute + f.clock.second) * microsPerSecond + f.clock.micros

theorem ClockForm.Denotes.lt {f : ClockForm} {n : Nat} (h : f.Denotes n) : n < microsPerDay := by
  obtain ⟨minute, -, hhour, hminute, hsecond, rfl⟩ := h
  have hfraction : f.clock.micros < microsPerSecond := fractionMicros_lt f.fraction
  simp only [microsPerDay, microsPerSecond] at *
  omega

/-- The instant that a form denotes, in microseconds of universal time. -/
def StampForm.Denotes (micros : Int) (f : StampForm) : Prop :=
  ∃ (d : Date) (n : Nat), d.civil = f.civil ∧
    (match f.clock with
      | none => n = 0
      | some k => k.Denotes n) ∧
    micros = d.day * microsPerDay + n

theorem dateOf_eq_ok_iff {c : Civil} {d : Date} : dateOf c = .ok d ↔ d.civil = c := by
  rw [← Date.ofCivil?_eq_some_iff, dateOf]
  cases Date.ofCivil? c <;> simp

theorem timeOfDay_eq_ok_iff {k : Clock} {minute n : Nat} : k.timeOfDay minute = .ok n ↔
    k.hour < 24 ∧ minute < 60 ∧ k.second < 60 ∧
      n = (3600 * k.hour + 60 * minute + k.second) * microsPerSecond + k.micros := by
  rw [Clock.timeOfDay]
  split
  · exact iff_of_false (by simp) (by omega)
  · split
    · exact iff_of_false (by simp) (by omega)
    · split
      · exact iff_of_false (by simp) (by omega)
      · rw [Except.ok.injEq]
        omega

theorem readingOf_eq_ok_iff {c : Civil} {k : Clock} {form : Iso.Form} :
    readingOf c k = .ok form ↔ ∃ (minute : Nat) (d : Date) (n : Nat) (wall : Instant),
      k.minute = some minute ∧ d.civil = c ∧ k.timeOfDay minute = .ok n ∧
        (wall.micros : Int) = d.day * microsPerDay + n ∧ form = .reading ⟨wall, some 0⟩ := by
  rw [readingOf]
  cases k.minute with
  | none =>
    refine iff_of_false (fun h => ?_) (by simp)
    cases h
  | some minute =>
    change (dateOf c >>= _) = .ok form ↔ _
    simp only [bind_eq_ok, dateOf_eq_ok_iff]
    constructor
    · rintro ⟨d, hd, n, hn, h⟩
      split at h
      · rename_i wall hwall
        exact ⟨minute, d, n, wall, rfl, hd, hn, Instant.ofMicros?_eq_some.mp hwall,
          (pure_eq_ok.mp h).symm⟩
      · cases h
    · rintro ⟨_, d, n, wall, hminute, hd, hn, hwall, rfl⟩
      cases hminute
      refine ⟨d, hd, n, hn, ?_⟩
      rw [Instant.ofMicros?_eq_some.mpr hwall]
      rfl

inductive PointForm where
  | stamp (f : StampForm)
  | time (f : ClockForm)

namespace PointForm

def text : PointForm → List Char
  | stamp f => f.text
  | time f => f.text

def IsRead : PointForm → Prop
  | stamp f => f.IsRead
  | time f => ∀ g : StampForm, g.text ≠ f.text

/-- The instant that a form denotes, in microseconds of universal time. A time of day is of
today. -/
def Denotes [Present] (micros : Int) : PointForm → Prop
  | stamp f => f.Denotes micros
  | time f => ∃ n, f.Denotes n ∧ micros = Present.today.day * microsPerDay + n

end PointForm

theorem stamp_of_parts? [Present] {c : Civil} {k : Option Clock} {cs : List Char} {form : Iso.Form}
    {t : Instant} (hparts : parts? cs = some (some c, k))
    (h : read? cs = some (.ok form)) (hat : form.IsAt t) :
    ∃ f : StampForm, f.text = cs ∧ f.IsRead ∧ f.Denotes t.micros := by
  obtain ⟨f, rfl, hread, rfl, rfl⟩ := parts?_eq_some_iff.mp hparts
  rw [read?, hparts] at h
  cases hclock : f.clock with
  | none =>
    rw [hclock] at h
    obtain ⟨d, hd, rfl⟩ := map_eq_ok.mp (Option.some.inj h)
    refine ⟨f, rfl, hread, d, 0, dateOf_eq_ok_iff.mp hd, by rw [hclock], ?_⟩
    rw [Iso.eq_startOf_iff.mp hat]
    simp
  | some kf =>
    rw [hclock] at h
    obtain ⟨minute, d, n, wall, hminute, hd, hn, hwall, rfl⟩ :=
      readingOf_eq_ok_iff.mp (Option.some.inj h)
    refine ⟨f, rfl, hread, d, n, hd, ?_, ?_⟩
    · rw [hclock]
      exact ⟨minute, hminute, timeOfDay_eq_ok_iff.mp hn⟩
    · rw [← hat.2, ← hwall]
      simp [DateTime.universalMicros]

theorem read?_of_stamp [Present] {f : StampForm} {t : Instant} (hread : f.IsRead)
    (h : f.Denotes t.micros) : ∃ form, read? f.text = some (.ok form) ∧ form.IsAt t := by
  obtain ⟨d, n, hd, hclock, hmicros⟩ := h
  have hparts := parts?_eq_some_iff.mpr ⟨f, rfl, hread, rfl, rfl⟩
  cases hk : f.clock with
  | none =>
    rw [hk] at hclock hparts
    subst hclock
    refine ⟨.date d, ?_, Iso.eq_startOf_iff.mpr (by simpa using hmicros)⟩
    rw [read?, hparts]
    exact congrArg some (map_eq_ok.mpr ⟨d, dateOf_eq_ok_iff.mpr hd, rfl⟩)
  | some k =>
    rw [hk] at hclock hparts
    obtain ⟨minute, hminute, hn⟩ := hclock
    refine ⟨.reading ⟨t, some 0⟩, ?_, rfl, ?_⟩
    · rw [read?, hparts]
      exact congrArg some (readingOf_eq_ok_iff.mpr
        ⟨minute, d, n, t, hminute, hd, timeOfDay_eq_ok_iff.mpr hn, hmicros, rfl⟩)
    · simp [DateTime.universalMicros]

theorem read?_time_iff {cs : List Char} {k : Clock} {form : Iso.Form}
    (hparts : parts? cs = some (none, some k)) : read? cs = some (.ok form) ↔
      ∃ minute n, k.minute = some minute ∧ k.timeOfDay minute = .ok n ∧ form = .clock n := by
  rw [read?, hparts]
  dsimp only
  cases k.minute with
  | none => simp
  | some minute =>
    cases htime : k.timeOfDay minute with
    | error f => simp [htime]
    | ok n => simp [htime, eq_comm]

theorem exists_isAt_iff [Present] {cs : List Char} {t : Instant} :
    (∃ form, read? cs = some (.ok form) ∧ form.IsAt t) ↔
      ∃ f : PointForm, f.text = cs ∧ f.IsRead ∧ f.Denotes t.micros := by
  constructor
  · rintro ⟨form, h, hat⟩
    cases hparts : parts? cs with
    | none =>
      rw [read?, hparts] at h
      cases h
    | some parts =>
      obtain ⟨_ | c, k⟩ := parts
      · cases k with
        | none =>
          rw [read?, hparts] at h
          cases h
        | some k =>
          obtain ⟨f, rfl, hdate, rfl⟩ := parts?_eq_time_iff.mp hparts
          obtain ⟨minute, n, hminute, hn, rfl⟩ := (read?_time_iff hparts).mp h
          have hdenotes : f.Denotes n := ⟨minute, hminute, timeOfDay_eq_ok_iff.mp hn⟩
          exact ⟨.time f, rfl, hdate, n, hdenotes, (Iso.eq_within_iff hdenotes.lt).mp hat⟩
      · obtain ⟨f, hf, hread, hdenotes⟩ := stamp_of_parts? hparts h hat
        exact ⟨.stamp f, hf, hread, hdenotes⟩
  · rintro ⟨f, rfl, hread, hdenotes⟩
    cases f with
    | stamp f => exact read?_of_stamp hread hdenotes
    | time f =>
      obtain ⟨n, hn, hmicros⟩ := hdenotes
      have hlt := hn.lt
      obtain ⟨minute, hminute, htime⟩ := hn
      have hparts := parts?_eq_time_iff.mpr ⟨f, rfl, hread, rfl⟩
      refine ⟨.clock n, (read?_time_iff hparts).mpr ?_, (Iso.eq_within_iff hlt).mpr hmicros⟩
      exact ⟨minute, n, hminute, timeOfDay_eq_ok_iff.mpr htime, rfl⟩

/-! ### Texts that are no intervals -/

theorem form?_of_year {y : Numeral} (hy : y.digits.length = 4) (rest : List Char) :
    Iso.form? (y.digits ++ rest) = Iso.stamp? (y.digits ++ rest) := by
  obtain ⟨a, b, c, d, hdigits⟩ := List.length_eq_four.mp hy
  have hne {e m : Char} (he : e ∈ y.digits) (hm : Text.decimalValue? m = none) : e ≠ m := by
    rintro rfl
    exact y.not_mem hm he
  have ha : a ∈ y.digits := by simp [hdigits]
  have hc : c ∈ y.digits := by simp [hdigits]
  rw [hdigits]
  exact Iso.form?_of_ne (hne ha rfl) (hne ha rfl) (hne hc rfl)

theorem StampForm.exists_year (f : StampForm) : ∃ (y : Numeral) (rest : List Char),
    y.digits.length = 4 ∧ f.text = y.digits ++ rest := by
  cases f with
  | full d k => exact ⟨d.year, _, d.length_year, by rw [text, DateForm.text, List.append_assoc]⟩
  | yearly y hy k => exact ⟨y, _, hy, rfl⟩

theorem PointForm.head_ne (f : PointForm) : f.text.head? ≠ some 'P' := by
  have hnumeral {m : Numeral} (hm : m.digits ≠ []) (rest : List Char) :
      (m.digits ++ rest).head? ≠ some 'P' := by
    rw [List.head?_append_of_ne_nil _ hm]
    exact fun h => m.not_mem rfl (List.mem_of_head? h)
  cases f with
  | stamp f =>
    obtain ⟨y, rest, hy, htext⟩ := f.exists_year
    rw [text, htext]
    exact hnumeral (List.ne_nil_of_length_eq_add_one hy) rest
  | time f =>
    rw [text, ClockForm.text]
    cases f.gap with
    | true => exact fun h => absurd (Option.some.inj h) (by decide)
    | false => exact hnumeral f.hour.ne_nil _

theorem form?_of_short {y : Numeral} (hy : y.digits.length = 4) {rest : List Char}
    (h : rest.length ≤ 3) (hcolon : rest.length = 3 → ':' ∈ rest) :
    Iso.form? (y.digits ++ rest) = none := by
  rw [form?_of_year hy, Option.eq_none_iff_forall_ne_some]
  intro form hform
  obtain ⟨f, hf, -⟩ := Iso.stamp?_eq_some_iff.mp hform
  have hlength := f.le_length_text
  rw [hf, List.length_append, hy] at hlength
  have hmem := hlength.2 (List.mem_append_right _ (hcolon (by omega)))
  omega

theorem ClockForm.slash_not_mem (f : ClockForm) : '/' ∉ f.text := by
  have hnumeral (m : Numeral) : '/' ∉ m.digits := m.not_mem rfl
  have hminute : '/' ∉ (f.minute.map (·.digits)).getD [] := by
    cases f.minute with
    | none => exact List.not_mem_nil
    | some m => exact hnumeral m.toNumeral
  have hsecond : '/' ∉ (f.second.map fun s => ':' :: s.digits).getD [] := by
    cases f.second with
    | none => exact List.not_mem_nil
    | some m => simp [hnumeral]
  have hfraction : '/' ∉ fractionText f.fraction := by
    cases f.fraction with
    | none => exact List.not_mem_nil
    | some g =>
      have hmark : '/' ≠ g.mark := by
        intro h
        have hmark := g.mark_eq
        rw [← h] at hmark
        revert hmark
        decide
      simp [fractionText, hnumeral, hmark]
  have hgap : '/' ∉ Iso.separator ' ' f.gap := by cases f.gap <;> decide
  simp [ClockForm.text, ClockForm.secondText, hnumeral, hminute, hsecond, hfraction, hgap]

theorem StampForm.first_piece (f : StampForm) : ∃ piece pieces,
    Text.split '/' f.text = piece :: pieces ∧ (pieces = [] ∨ Iso.form? piece = none) := by
  have hnumeral (m : Numeral) : '/' ∉ m.digits := m.not_mem rfl
  have hclock (k : Option ClockForm) : '/' ∉ clockText k := by
    cases k with
    | none => exact List.not_mem_nil
    | some k => exact k.slash_not_mem
  have hslash {cs : List Char} (rest : List Char) (hcs : '/' ∉ cs) (hform : Iso.form? cs = none) :
      ∃ piece pieces, Text.split '/' (cs ++ '/' :: rest) = piece :: pieces ∧
        (pieces = [] ∨ Iso.form? piece = none) :=
    ⟨cs, Text.split '/' rest, by rw [Text.split_append, Text.split_of_not_mem hcs]; rfl, .inr hform⟩
  cases f with
  | yearly y hy k =>
    exact ⟨_, [], Text.split_of_not_mem (by simp [text, hnumeral, hclock]), .inl rfl⟩
  | full d k =>
    obtain ⟨year, first, month, last, day, hy, hm, hd, hfirst, hlast⟩ := d
    by_cases hfirstSlash : first = some '/'
    · subst hfirstSlash
      have hyear : Iso.form? (year.digits ++ []) = none := form?_of_short hy (by decide) (by decide)
      rw [List.append_nil] at hyear
      obtain ⟨piece, pieces, h⟩ := hslash
        (month.digits ++ (last.toList ++ day.digits) ++ clockText k) (hnumeral year) hyear
      refine ⟨piece, pieces, ?_, h.2⟩
      rw [← h.1]
      simp [text, DateForm.text]
    · have hfirstMem : '/' ∉ first.toList := by
        simpa using fun h => hfirstSlash h
      by_cases hlastSlash : last = some '/'
      · subst hlastSlash
        have hmonth : Iso.form? (year.digits ++ (first.toList ++ month.digits)) = none := by
          cases first with
          | none => exact form?_of_short hy (by simp [hm]) (by simp [hm])
          | some c =>
            obtain rfl | rfl := hfirst c rfl
            · exact absurd rfl hfirstSlash
            · exact form?_of_short hy (by simp [hm]) (by simp)
        obtain ⟨piece, pieces, h⟩ := hslash (day.digits ++ clockText k)
          (by simp [hnumeral, hfirstMem]) hmonth
        refine ⟨piece, pieces, ?_, h.2⟩
        rw [← h.1]
        simp [text, DateForm.text]
      · have hlastMem : '/' ∉ last.toList := by
          simpa using fun h => hlastSlash h
        exact ⟨_, [], Text.split_of_not_mem
          (by simp [text, DateForm.text, hnumeral, hclock, hfirstMem, hlastMem]), .inl rfl⟩

theorem PointForm.first_piece (f : PointForm) : ∃ piece pieces,
    Text.split '/' f.text = piece :: pieces ∧ (pieces = [] ∨ Iso.form? piece = none) := by
  cases f with
  | stamp f => exact f.first_piece
  | time f => exact ⟨f.text, [], Text.split_of_not_mem f.slash_not_mem, .inl rfl⟩

end RecordStore.Loose
