import RecordStore.Proofs.CalendarBuckets
import RecordStore.Proofs.CanonicalText
import RecordStore.Time.Iso

/-! The forms of ISO 8601 in which a date can be written, each with the day that it denotes, apart
from how a text is read. The texts that are read are those of the forms, and are read as what they
denote. -/
namespace RecordStore

namespace Text

/-! ### Digits and pieces -/

theorem isDigit_digit : ∀ d < 10, (Char.ofNat (48 + d)).isDigit := by decide

theorem value_digit : ∀ d < 10, (Char.ofNat (48 + d)).toNat - 48 = d := by decide

theorem all_padded (width n : Nat) : (padded width n).all Char.isDigit := by
  induction width generalizing n with
  | zero => rfl
  | succ width ih =>
    rw [padded, List.all_append, ih, List.all_cons, isDigit_digit _ (Nat.mod_lt _ (by decide))]
    rfl

theorem padded_ne_nil {width : Nat} (hw : 0 < width) (n : Nat) : padded width n ≠ [] := by
  rw [← List.length_pos_iff_ne_nil, length_padded]
  exact hw

theorem foldl_padded (width n acc : Nat) :
    (padded width n).foldl (fun n c => 10 * n + (c.toNat - 48)) acc =
      acc * 10 ^ width + n % 10 ^ width := by
  induction width generalizing n with
  | zero => simp [padded, Nat.mod_one]
  | succ width ih =>
    have hmod : n % 10 ^ (width + 1) = 10 * (n / 10 % 10 ^ width) + n % 10 := by
      rw [Nat.pow_succ', Nat.mod_mul]
      omega
    rw [padded, List.foldl_append, ih, List.foldl_cons, List.foldl_nil,
      value_digit _ (Nat.mod_lt _ (by decide)), hmod, Nat.pow_succ,
      ← Nat.mul_assoc]
    omega

theorem asciiNumeral?_padded {width n : Nat} (hw : 0 < width) (hn : n < 10 ^ width) :
    asciiNumeral? (padded width n) = some n := by
  rw [asciiNumeral?.eq_2 _ (padded_ne_nil hw n), if_pos (all_padded width n), foldl_padded,
    Nat.zero_mul, Nat.zero_add, Nat.mod_eq_of_lt hn]

section
variable {marks cs ds : List Char} {c : Char}

def MadeOf (marks cs : List Char) : Prop := ∀ c ∈ cs, c.isDigit ∨ c ∈ marks

theorem madeOf_nil : MadeOf marks [] := by
  intro c hc
  cases hc

theorem madeOf_padded (width n : Nat) : MadeOf marks (padded width n) :=
  fun _ hc => .inl (List.all_eq_true.mp (all_padded width n) _ hc)

theorem MadeOf.append (h : MadeOf marks cs) (h' : MadeOf marks ds) : MadeOf marks (cs ++ ds) := by
  intro c hc
  exact (List.mem_append.mp hc).elim (h c) (h' c)

theorem MadeOf.cons (hc : c ∈ marks) (h : MadeOf marks cs) : MadeOf marks (c :: cs) := by
  intro d hd
  rcases List.mem_cons.mp hd with rfl | hd
  · exact .inr hc
  · exact h d hd

theorem MadeOf.not_mem (h : MadeOf marks cs) (hc : c.isDigit = false) (hm : c ∉ marks) :
    c ∉ cs := by
  intro hmem
  rcases h c hmem with hd | hd
  · rw [hc] at hd
    cases hd
  · exact hm hd

theorem MadeOf.none {p : Char → Bool} (h : MadeOf marks cs)
    (hp : ∀ c, p c = true → c.isDigit = false ∧ c ∉ marks) : ∀ c ∈ cs, p c = false := by
  intro c hc
  refine Bool.eq_false_iff.mpr fun hpc => ?_
  obtain ⟨hd, hm⟩ := hp c hpc
  exact h.not_mem hd hm hc

end

theorem breakAt_of_not_mem {p : Char → Bool} {cs : List Char} (h : ∀ c ∈ cs, p c = false) :
    breakAt p cs = (cs, []) := by
  have hp : ∀ c ∈ cs, (!p c) = true := fun c hc => by rw [h c hc, Bool.not_false]
  rw [breakAt, List.takeWhile_eq_self_iff.mpr hp, List.dropWhile_eq_nil_iff.mpr hp]

theorem breakAt_append {p : Char → Bool} {cs : List Char} {c : Char} (h : ∀ c ∈ cs, p c = false)
    (hc : p c = true) (ds : List Char) : breakAt p (cs ++ c :: ds) = (cs, c :: ds) := by
  have hp : ∀ c ∈ cs, (!p c) = true := fun c hc => by rw [h c hc, Bool.not_false]
  rw [breakAt, List.takeWhile_append_of_pos hp, List.dropWhile_append_of_pos hp,
    List.takeWhile_cons_of_neg (by simp [hc]), List.dropWhile_cons_of_neg (by simp [hc]),
    List.append_nil]

section
variable {cs : List Char}

def numeralValue (ds : List Char) : Nat := ds.foldl (fun n c => 10 * n + (c.toNat - 48)) 0

theorem digit_value {c : Char} (h : c.isDigit) :
    c.toNat - 48 < 10 ∧ Char.ofNat (48 + (c.toNat - 48)) = c := by
  have hbounds : 48 ≤ c.toNat ∧ c.toNat ≤ 57 := by
    simpa [Char.isDigit, UInt32.le_iff_toNat_le] using h
  have hsum : 48 + (c.toNat - 48) = c.toNat := by omega
  rw [hsum, Char.ofNat_toNat]
  exact ⟨by omega, rfl⟩

theorem padded_numeralValue (h : cs.all Char.isDigit) :
    padded cs.length (numeralValue cs) = cs ∧ numeralValue cs < 10 ^ cs.length := by
  induction cs using List.reverseRecOn with
  | nil => exact ⟨rfl, Nat.one_pos⟩
  | append_singleton cs c ih =>
    simp only [List.all_append, List.all_cons, List.all_nil, Bool.and_true, Bool.and_eq_true] at h
    obtain ⟨htext, hbound⟩ := ih h.1
    obtain ⟨hdigit, hchar⟩ := digit_value h.2
    have hvalue : numeralValue (cs ++ [c]) = 10 * numeralValue cs + (c.toNat - 48) := by
      rw [numeralValue, List.foldl_append]
      rfl
    have hdiv : (10 * numeralValue cs + (c.toNat - 48)) / 10 = numeralValue cs := by omega
    have hmod : (10 * numeralValue cs + (c.toNat - 48)) % 10 = c.toNat - 48 := by omega
    rw [hvalue, List.length_append, List.length_singleton, padded, hdiv, hmod, htext, hchar,
      Nat.pow_succ]
    exact ⟨rfl, by omega⟩

theorem eq_of_split {separator : Char} {piece : List Char} {pieces : List (List Char)}
    (h : split separator cs = piece :: pieces) :
    cs = piece ++ pieces.flatMap (separator :: ·) := by
  induction cs generalizing piece pieces with
  | nil =>
    cases h
    rfl
  | cons c rest ih =>
    rw [split] at h
    split at h
    · rename_i hc
      cases h
      obtain ⟨p, ps, hrest⟩ := List.exists_cons_of_ne_nil (split_ne_nil separator rest)
      rw [hrest, List.nil_append, List.flatMap_cons, hc, ih hrest]
      rfl
    · split at h
      · exact absurd ‹_› (split_ne_nil separator rest)
      · rename_i hrest
        cases h
        rw [ih hrest]
        rfl

theorem eq_of_breakAt {p : Char → Bool} {before after : List Char}
    (h : breakAt p cs = (before, after)) : cs = before ++ after := by
  cases h
  exact (List.takeWhile_append_dropWhile).symm

theorem head_of_breakAt {p : Char → Bool} {before after : List Char} {c : Char}
    (h : breakAt p cs = (before, c :: after)) : p c := by
  have hdrop : cs.dropWhile (fun c => !p c) = c :: after := (Prod.mk.inj h).2
  have hhead := List.head_dropWhile_not (fun c => !p c) (l := cs) (by simp [hdrop])
  simpa [hdrop] using hhead

end

end Text

namespace Instant

theorem ofMicros?_micros (t : Instant) : ofMicros? t.micros = some t := by
  rw [ofMicros?, dif_pos ⟨Int.natCast_nonneg _, t.inRange⟩]
  rfl

theorem ofMicros?_eq_some {micros : Int} {t : Instant} :
    ofMicros? micros = some t ↔ (t.micros : Int) = micros := by
  constructor
  · intro h
    rw [ofMicros?] at h
    split at h
    · rename_i hin
      cases h
      exact Int.toNat_of_nonneg hin.1
    · cases h
  · intro h
    rw [← h, ofMicros?_micros]

theorem eq_of_micros {t u : Instant} (h : (t.micros : Int) = u.micros) : t = u := by
  rw [← Option.some_inj, ← t.ofMicros?_micros, h, u.ofMicros?_micros]

end Instant

namespace Iso
open Text (padded numeralValue)

theorem digits?_padded {width n : Nat} (hw : 0 < width) (hn : n < 10 ^ width) :
    digits? width (Text.padded width n) = some n := by
  rw [digits?, if_pos (Text.length_padded width n), Text.asciiNumeral?_padded hw hn]

theorem digits?_eq_some_iff {width n : Nat} {cs : List Char} (hw : 0 < width) :
    digits? width cs = some n ↔ cs = padded width n ∧ n < 10 ^ width := by
  constructor
  · intro h
    rw [digits?] at h
    split at h
    · rename_i hlength
      cases cs with
      | nil => cases h
      | cons c cs =>
        rw [Text.asciiNumeral?] at h
        · split at h
          · rename_i hdigits
            cases h
            obtain ⟨htext, hbound⟩ := Text.padded_numeralValue hdigits
            rw [hlength] at htext hbound
            exact ⟨htext.symm, hbound⟩
          · cases h
        · simp
    · cases h
  · rintro ⟨rfl, hn⟩
    exact digits?_padded hw hn

theorem bind_digits?_eq_some_iff {α : Type} {width : Nat} {cs : List Char} {f : Nat → Option α}
    {a : α} (hw : 0 < width) : (digits? width cs >>= f) = some a ↔
      ∃ n, cs = padded width n ∧ n < 10 ^ width ∧ f n = some a := by
  simp only [Option.bind_eq_bind, Option.bind_eq_some_iff, digits?_eq_some_iff hw, and_assoc]

/-! ### Forms of a date -/

/-- A date as it is written, with dashes between its numbers or without. -/
inductive DateForm where
  | civil (dashed : Bool) (year month day : Nat)
  | month (year month : Nat)
  | ordinal (dashed : Bool) (year day : Nat)
  | week (dashed : Bool) (year week : Nat)
  | weekday (dashed : Bool) (year week weekday : Nat)

def separator (mark : Char) (isThere : Bool) : List Char := if isThere then [mark] else []

namespace DateForm

def isDashed : DateForm → Bool
  | civil dashed .. | ordinal dashed .. | week dashed .. | weekday dashed .. => dashed
  | month .. => true

def text : DateForm → List Char
  | civil dashed y m d => padded 4 y ++ (separator '-' dashed ++
      (padded 2 m ++ (separator '-' dashed ++ padded 2 d)))
  | month y m => padded 4 y ++ '-' :: padded 2 m
  | ordinal dashed y n => padded 4 y ++ (separator '-' dashed ++ padded 3 n)
  | week dashed y w => padded 4 y ++ (separator '-' dashed ++ 'W' :: padded 2 w)
  | weekday dashed y w n => padded 4 y ++ (separator '-' dashed ++
      'W' :: (padded 2 w ++ (separator '-' dashed ++ padded 1 n)))

def Fits : DateForm → Prop
  | civil _ y m d => y < 10 ^ 4 ∧ m < 10 ^ 2 ∧ d < 10 ^ 2
  | month y m => y < 10 ^ 4 ∧ m < 10 ^ 2
  | ordinal _ y n => y < 10 ^ 4 ∧ n < 10 ^ 3
  | week _ y w => y < 10 ^ 4 ∧ w < 10 ^ 2
  | weekday _ y w n => y < 10 ^ 4 ∧ w < 10 ^ 2 ∧ n < 10 ^ 1

def date? : DateForm → Option Date
  | civil _ y m d => Date.ofCivil? ⟨y, m, d⟩
  | month y m => Date.ofCivil? ⟨y, m, 1⟩
  | ordinal _ y n => Date.ofOrdinal? y n
  | week _ y w => Date.ofWeek? y w 1
  | weekday _ y w n => Date.ofWeek? y w n

end DateForm

theorem madeOf_separator {marks : List Char} {mark : Char} (h : mark ∈ marks) (isThere : Bool) :
    Text.MadeOf marks (separator mark isThere) := by
  cases isThere with
  | false => exact Text.madeOf_nil
  | true => exact Text.madeOf_nil.cons h

theorem DateForm.madeOf_text (f : DateForm) : Text.MadeOf ['-', 'W'] f.text := by
  have hdash (dashed : Bool) : Text.MadeOf ['-', 'W'] (separator '-' dashed) :=
    madeOf_separator (by decide) dashed
  have hnumber (width n : Nat) : Text.MadeOf ['-', 'W'] (padded width n) :=
    Text.madeOf_padded width n
  have hmark : '-' ∈ ['-', 'W'] ∧ 'W' ∈ ['-', 'W'] := by decide
  cases f with
  | civil dashed y m d =>
    exact (hnumber 4 y).append ((hdash dashed).append
      ((hnumber 2 m).append ((hdash dashed).append (hnumber 2 d))))
  | month y m => exact (hnumber 4 y).append ((hnumber 2 m).cons hmark.1)
  | ordinal dashed y n => exact (hnumber 4 y).append ((hdash dashed).append (hnumber 3 n))
  | week dashed y w =>
    exact (hnumber 4 y).append ((hdash dashed).append ((hnumber 2 w).cons hmark.2))
  | weekday dashed y w n =>
    exact (hnumber 4 y).append ((hdash dashed).append
      (((hnumber 2 w).append ((hdash dashed).append (hnumber 1 n))).cons hmark.2))

theorem form_of_compactDate {year : Nat} {cs : List Char} {d : Date} (hy : year < 10 ^ 4)
    (h : compactDate? year cs = some d) :
    ∃ f : DateForm, f.text = padded 4 year ++ cs ∧ f.isDashed = false ∧ f.Fits ∧
      f.date? = some d := by
  unfold compactDate? at h
  split at h
  · split at h
    · obtain ⟨week, hweek, hw, h⟩ := (bind_digits?_eq_some_iff (by decide)).mp h
      exact ⟨.week false year week, by rw [hweek]; rfl, rfl, ⟨hy, hw⟩, h⟩
    · obtain ⟨week, hweek, hw, h⟩ := (bind_digits?_eq_some_iff (by decide)).mp h
      obtain ⟨weekday, hweekday, hd, h⟩ := (bind_digits?_eq_some_iff (by decide)).mp h
      refine ⟨.weekday false year week weekday, ?_, rfl, ⟨hy, hw, hd⟩, h⟩
      rw [DateForm.text, ← hweek, ← hweekday]
      rfl
    · cases h
  · obtain ⟨day, hday, hd, h⟩ := (bind_digits?_eq_some_iff (by decide)).mp h
    exact ⟨.ordinal false year day, by rw [hday]; rfl, rfl, ⟨hy, hd⟩, h⟩
  · obtain ⟨month, hmonth, hm, h⟩ := (bind_digits?_eq_some_iff (by decide)).mp h
    obtain ⟨day, hday, hd, h⟩ := (bind_digits?_eq_some_iff (by decide)).mp h
    refine ⟨.civil false year month day, ?_, rfl, ⟨hy, hm, hd⟩, h⟩
    rw [DateForm.text, ← hmonth, ← hday]
    rfl
  · cases h

theorem form_of_dashedDate {year : Nat} {pieces : List (List Char)} {d : Date}
    (hy : year < 10 ^ 4) (h : dashedDate? year pieces = some d) :
    ∃ f : DateForm, f.text = padded 4 year ++ pieces.flatMap ('-' :: ·) ∧ f.isDashed = true ∧
      f.Fits ∧ f.date? = some d := by
  unfold dashedDate? at h
  split at h
  · obtain ⟨week, hweek, hw, h⟩ := (bind_digits?_eq_some_iff (by decide)).mp h
    exact ⟨.week true year week, by simp [DateForm.text, separator, hweek], rfl, ⟨hy, hw⟩, h⟩
  · obtain ⟨week, hweek, hw, h⟩ := (bind_digits?_eq_some_iff (by decide)).mp h
    obtain ⟨weekday, hweekday, hd, h⟩ := (bind_digits?_eq_some_iff (by decide)).mp h
    exact ⟨.weekday true year week weekday,
      by simp [DateForm.text, separator, hweek, hweekday], rfl, ⟨hy, hw, hd⟩, h⟩
  · obtain ⟨month, hmonth, hm, h⟩ := (bind_digits?_eq_some_iff (by decide)).mp h
    exact ⟨.month year month, by simp [DateForm.text, hmonth], rfl, ⟨hy, hm⟩, h⟩
  · obtain ⟨day, hday, hd, h⟩ := (bind_digits?_eq_some_iff (by decide)).mp h
    exact ⟨.ordinal true year day, by simp [DateForm.text, separator, hday], rfl, ⟨hy, hd⟩, h⟩
  · obtain ⟨month, hmonth, hm, h⟩ := (bind_digits?_eq_some_iff (by decide)).mp h
    obtain ⟨day, hday, hd, h⟩ := (bind_digits?_eq_some_iff (by decide)).mp h
    exact ⟨.civil true year month day, by simp [DateForm.text, separator, hmonth, hday], rfl,
      ⟨hy, hm, hd⟩, h⟩
  · cases h

theorem form_of_date {cs : List Char} {d : Date} {compact : Bool}
    (h : date? cs = some (d, compact)) :
    ∃ f : DateForm, f.text = cs ∧ (!f.isDashed) = compact ∧ f.Fits ∧ f.date? = some d := by
  rw [date?] at h
  split at h
  · rename_i piece hpieces
    obtain ⟨y, hyear, hy, h⟩ := (bind_digits?_eq_some_iff (by decide)).mp h
    obtain ⟨e, hdate, h⟩ := Option.bind_eq_some_iff.mp h
    cases h
    obtain ⟨f, htext, hdashed, hfits, hf⟩ := form_of_compactDate hy hdate
    have hcs := Text.eq_of_split hpieces
    rw [List.flatMap_nil, List.append_nil] at hcs
    refine ⟨f, ?_, congrArg not hdashed, hfits, hf⟩
    rw [htext, ← hyear, List.take_append_drop, hcs]
  · rename_i piece pieces hpieces
    obtain ⟨y, hyear, hy, h⟩ := (bind_digits?_eq_some_iff (by decide)).mp h
    obtain ⟨e, hdate, h⟩ := Option.bind_eq_some_iff.mp h
    cases h
    obtain ⟨f, htext, hdashed, hfits, hf⟩ := form_of_dashedDate hy hdate
    refine ⟨f, ?_, congrArg not hdashed, hfits, hf⟩
    rw [htext, ← hyear, ← Text.eq_of_split hpieces]
  · cases h

/-! ### Reading a form -/

theorem dash_not_mem (width n : Nat) : '-' ∉ padded width n :=
  (Text.madeOf_padded width n).not_mem rfl List.not_mem_nil

theorem split_padded (width n : Nat) : Text.split '-' (padded width n) = [padded width n] :=
  Text.split_of_not_mem (dash_not_mem width n)

theorem date?_dashed {y : Nat} (hy : y < 10 ^ 4) (rest : List Char) :
    date? (padded 4 y ++ '-' :: rest) =
      (dashedDate? y (Text.split '-' rest)).map fun d => (d, false) := by
  obtain ⟨piece, pieces, hpieces⟩ := List.exists_cons_of_ne_nil (Text.split_ne_nil '-' rest)
  rw [date?, Text.split_append, split_padded, hpieces, List.singleton_append]
  dsimp only
  rw [digits?_padded (by decide) hy, Option.bind_eq_bind, Option.bind_some]
  cases dashedDate? y (piece :: pieces) <;> rfl

theorem date?_compact {y : Nat} (hy : y < 10 ^ 4) {rest : List Char} (hrest : '-' ∉ rest) :
    date? (padded 4 y ++ rest) = (compactDate? y rest).map fun d => (d, true) := by
  have hdash : '-' ∉ padded 4 y ++ rest := by
    simp [dash_not_mem, hrest]
  rw [date?, Text.split_of_not_mem hdash]
  dsimp only
  rw [List.take_left' (Text.length_padded 4 y), List.drop_left' (Text.length_padded 4 y),
    digits?_padded (by decide) hy, Option.bind_eq_bind, Option.bind_some]
  cases compactDate? y rest <;> rfl

theorem padded_digits (n : Nat) : padded 1 n = [Char.ofNat (48 + n % 10)] ∧
    padded 2 n = [Char.ofNat (48 + n / 10 % 10), Char.ofNat (48 + n % 10)] ∧
    padded 3 n = [Char.ofNat (48 + n / 10 / 10 % 10), Char.ofNat (48 + n / 10 % 10),
      Char.ofNat (48 + n % 10)] := ⟨rfl, rfl, rfl⟩

theorem digit_ne {c : Char} (h : c.isDigit = false) (n : Nat) : Char.ofNat (48 + n % 10) ≠ c := by
  rintro rfl
  rw [Text.isDigit_digit (n % 10) (Nat.mod_lt _ (by decide))] at h
  cases h

theorem dashedDate?_padded (year month day : Nat) :
    dashedDate? year [Text.padded 2 month, Text.padded 2 day] = (do
      Date.ofCivil?
        ⟨year, ← digits? 2 (Text.padded 2 month), ← digits? 2 (Text.padded 2 day)⟩) := by
  have hweek : ∀ week, Text.padded 2 month ≠ 'W' :: week := by
    intro week h
    have hmem : 'W' ∈ Text.padded 2 month := h ▸ List.mem_cons_self
    exact (Text.madeOf_padded 2 month).not_mem rfl List.not_mem_nil hmem
  rw [dashedDate?]
  · exact fun week h => hweek week h

theorem compactDate?_civil (y m d : Nat) : compactDate? y (padded 2 m ++ padded 2 d) = (do
    Date.ofCivil? ⟨y, ← digits? 2 (padded 2 m), ← digits? 2 (padded 2 d)⟩) := by
  have hweek := digit_ne (rfl : 'W'.isDigit = false) (m / 10)
  simp only [padded_digits, List.cons_append, List.nil_append]
  rw [compactDate?]
  exact hweek

theorem compactDate?_ordinal (y n : Nat) : compactDate? y (padded 3 n) = (do
    Date.ofOrdinal? y (← digits? 3 (padded 3 n))) := by
  have hweek := digit_ne (rfl : 'W'.isDigit = false) (n / 10 / 10)
  simp only [padded_digits]
  rw [compactDate?]
  exact hweek

theorem dashedDate?_month (y m : Nat) : dashedDate? y [padded 2 m] = (do
    Date.ofCivil? ⟨y, ← digits? 2 (padded 2 m), 1⟩) := by
  have hweek := digit_ne (rfl : 'W'.isDigit = false) (m / 10)
  simp only [padded_digits]
  rw [dashedDate?]
  exact hweek

theorem dashedDate?_ordinal (y n : Nat) : dashedDate? y [padded 3 n] = (do
    Date.ofOrdinal? y (← digits? 3 (padded 3 n))) := by
  have hweek := digit_ne (rfl : 'W'.isDigit = false) (n / 10 / 10)
  simp only [padded_digits]
  rw [dashedDate?]
  exact hweek

theorem date?_of_dashed {f : DateForm} (hf : f.Fits) (h : f.isDashed = true) :
    date? f.text = f.date?.map fun d => (d, false) := by
  cases f with
  | civil dashed y m d =>
    obtain rfl : dashed = true := h
    obtain ⟨hy, hm, hd⟩ := hf
    have hsplit : Text.split '-' (padded 2 m ++ '-' :: padded 2 d) =
        [padded 2 m, padded 2 d] := by
      rw [Text.split_append, split_padded, split_padded, List.singleton_append]
    have hread := date?_dashed hy (padded 2 m ++ '-' :: padded 2 d)
    rw [hsplit, dashedDate?_padded, digits?_padded (by decide) hm,
      digits?_padded (by decide) hd] at hread
    exact hread
  | month y m =>
    obtain ⟨hy, hm⟩ := hf
    have hread := date?_dashed hy (padded 2 m)
    rw [split_padded, dashedDate?_month, digits?_padded (by decide) hm] at hread
    exact hread
  | ordinal dashed y n =>
    obtain rfl : dashed = true := h
    obtain ⟨hy, hn⟩ := hf
    have hread := date?_dashed hy (padded 3 n)
    rw [split_padded, dashedDate?_ordinal, digits?_padded (by decide) hn] at hread
    exact hread
  | week dashed y w =>
    obtain rfl : dashed = true := h
    obtain ⟨hy, hw⟩ := hf
    have hdash : '-' ∉ 'W' :: padded 2 w := by simp [dash_not_mem]
    have hread := date?_dashed hy ('W' :: padded 2 w)
    rw [Text.split_of_not_mem hdash, dashedDate?, digits?_padded (by decide) hw] at hread
    exact hread
  | weekday dashed y w n =>
    obtain rfl : dashed = true := h
    obtain ⟨hy, hw, hn⟩ := hf
    have hdash : '-' ∉ 'W' :: padded 2 w := by simp [dash_not_mem]
    have hsplit : Text.split '-' ('W' :: padded 2 w ++ '-' :: padded 1 n) =
        ['W' :: padded 2 w, padded 1 n] := by
      rw [Text.split_append, Text.split_of_not_mem hdash, split_padded, List.singleton_append]
    have hread := date?_dashed hy ('W' :: padded 2 w ++ '-' :: padded 1 n)
    rw [hsplit, dashedDate?, digits?_padded (by decide) hw, digits?_padded (by decide) hn] at hread
    exact hread

theorem date?_of_compact {f : DateForm} (hf : f.Fits) (h : f.isDashed = false) :
    date? f.text = f.date?.map fun d => (d, true) := by
  cases f with
  | civil dashed y m d =>
    obtain rfl : dashed = false := h
    obtain ⟨hy, hm, hd⟩ := hf
    have hread := date?_compact hy (by simp [dash_not_mem] : '-' ∉ padded 2 m ++ padded 2 d)
    rw [compactDate?_civil, digits?_padded (by decide) hm, digits?_padded (by decide) hd] at hread
    exact hread
  | month y m => cases h
  | ordinal dashed y n =>
    obtain rfl : dashed = false := h
    obtain ⟨hy, hn⟩ := hf
    have hread := date?_compact hy (dash_not_mem 3 n)
    rw [compactDate?_ordinal, digits?_padded (by decide) hn] at hread
    exact hread
  | week dashed y w =>
    obtain rfl : dashed = false := h
    obtain ⟨hy, hw⟩ := hf
    have hweek := digits?_padded (by decide : 0 < 2) hw
    have hread := date?_compact hy (by simp [dash_not_mem] : '-' ∉ 'W' :: padded 2 w)
    simp only [padded_digits] at hread hweek
    rw [compactDate?, hweek] at hread
    exact hread
  | weekday dashed y w n =>
    obtain rfl : dashed = false := h
    obtain ⟨hy, hw, hn⟩ := hf
    have hweek := digits?_padded (by decide : 0 < 2) hw
    have hday := digits?_padded (by decide : 0 < 1) hn
    have hread := date?_compact hy
      (by simp [dash_not_mem] : '-' ∉ 'W' :: padded 2 w ++ padded 1 n)
    simp only [padded_digits, List.cons_append, List.nil_append] at hread hweek hday
    rw [compactDate?, hweek, hday] at hread
    exact hread

theorem date?_of_form {f : DateForm} (hf : f.Fits) :
    date? f.text = f.date?.map fun d => (d, !f.isDashed) := by
  cases h : f.isDashed with
  | true => exact date?_of_dashed hf h
  | false => exact date?_of_compact hf h

end Iso

/-! ### Days that forms denote -/

namespace Calendar

theorem yearOf_eq_iff {day year : Nat} (hy : 1 ≤ year) :
    yearOf day = year ↔ daysBeforeYear year ≤ day ∧ day < daysBeforeYear (year + 1) := by
  constructor
  · rintro rfl
    exact ⟨daysBeforeYear_yearOf day, lt_daysBeforeYear_yearOf day⟩
  · rintro ⟨hlow, hhigh⟩
    have hlow' := daysBeforeYear_yearOf day
    have hhigh' := lt_daysBeforeYear_yearOf day
    rcases Nat.lt_trichotomy (yearOf day) year with h | h | h
    · have := daysBeforeYear_mono (Nat.le_add_left 1 _) (by omega : yearOf day + 1 ≤ year)
      omega
    · exact h
    · have := daysBeforeYear_mono (Nat.le_add_left 1 _) (by omega : year + 1 ≤ yearOf day)
      omega

theorem daysInYear_le (year : Nat) : daysInYear year ≤ 366 := by
  unfold daysInYear
  split <;> omega

theorem weeksInYear_le {year : Nat} (hy : 1 ≤ year) : weeksInYear year ≤ 53 := by
  have hnext := daysBeforeYear_succ hy
  have hdays := daysInYear_le year
  simp only [weeksInYear, firstMonday]
  omega

end Calendar

namespace Date
variable {d : Date}

theorem ofDay?_eq_some_iff {day : Nat} : ofDay? day = some d ↔ day = d.day := by
  constructor
  · intro h
    rw [ofDay?] at h
    split at h <;> cases h
    rfl
  · rintro rfl
    rw [ofDay?, dif_pos d.inRange]

theorem ofCivil?_civil (d : Date) : ofCivil? d.civil = some d := by
  have hday : Calendar.dayNumber d.civil = d.day := Calendar.dayNumber_civilOf d.day
  have hvalid : Calendar.Valid d.civil := Calendar.valid_civilOf d.inRange
  rw [ofCivil?, if_pos hvalid, hday, ofDay?, dif_pos d.inRange]

theorem ofCivil?_eq_some_iff {c : Civil} : ofCivil? c = some d ↔ d.civil = c := by
  refine ⟨civil_of_ofCivil, ?_⟩
  rintro rfl
  exact d.ofCivil?_civil

def IsOrdinal (d : Date) (year n : Nat) : Prop :=
  d.civil.year = year ∧ d.day + 1 = Calendar.daysBeforeYear year + n

theorem ofOrdinal?_eq_some_iff {year n : Nat} :
    ofOrdinal? year n = some d ↔ d.IsOrdinal year n := by
  have hyear : d.civil.year = Calendar.yearOf d.day := rfl
  rw [IsOrdinal, hyear, ofOrdinal?]
  constructor
  · intro h
    split at h
    · rename_i hfits
      obtain ⟨hy, hn, hdays⟩ := hfits
      have hday := ofDay?_eq_some_iff.mp h
      rw [Calendar.yearOf_eq_iff hy, Calendar.daysBeforeYear_succ hy]
      omega
    · cases h
  · rintro ⟨rfl, hn⟩
    have hy := Calendar.yearOf_pos d.day
    have hlow := Calendar.daysBeforeYear_yearOf d.day
    have hhigh := Calendar.lt_daysBeforeYear_yearOf d.day
    rw [Calendar.daysBeforeYear_succ hy] at hhigh
    rw [if_pos (by omega), ofDay?_eq_some_iff]
    omega

/-- The weekday that is counted so, from Monday as 1, in a week of a year of weeks, the first of
which is week 1. The week and the day before the first are numbered too. -/
def IsWeekday (d : Date) (year week weekday : Nat) : Prop :=
  1 ≤ year ∧ week ≤ Calendar.weeksInYear year ∧ weekday ≤ 7 ∧
    d.day + 8 = Calendar.firstMonday year + 7 * week + weekday

theorem ofWeek?_eq_some_iff {year week weekday : Nat} :
    ofWeek? year week weekday = some d ↔ d.IsWeekday year week weekday := by
  rw [IsWeekday, ofWeek?]
  constructor
  · intro h
    split at h
    · rename_i hfits
      have hday := ofDay?_eq_some_iff.mp h
      omega
    · cases h
  · intro h
    rw [if_pos (by omega), ofDay?_eq_some_iff]
    omega

theorem IsOrdinal.le {year n : Nat} (h : d.IsOrdinal year n) : n ≤ 366 := by
  obtain ⟨rfl, hn⟩ := h
  have hhigh := Calendar.lt_daysBeforeYear_yearOf d.day
  have hdays := Calendar.daysInYear_le (Calendar.yearOf d.day)
  rw [Calendar.daysBeforeYear_succ (Calendar.yearOf_pos d.day)] at hhigh
  change d.day + 1 = Calendar.daysBeforeYear (Calendar.yearOf d.day) + n at hn
  omega

theorem IsWeekday.le {year week weekday : Nat} (h : d.IsWeekday year week weekday) :
    week ≤ 53 ∧ weekday ≤ 7 :=
  ⟨h.2.1.trans (Calendar.weeksInYear_le h.1), h.2.2.1⟩

end Date

namespace Iso

/-- The date that a form denotes. A year of weeks has to be one of four digits. -/
def DateForm.Denotes (d : Date) : DateForm → Prop
  | civil _ y m n => d.civil = ⟨y, m, n⟩
  | month y m => d.civil = ⟨y, m, 1⟩
  | ordinal _ y n => d.IsOrdinal y n
  | week _ y w => y < 10 ^ 4 ∧ d.IsWeekday y w 1
  | weekday _ y w n => y < 10 ^ 4 ∧ d.IsWeekday y w n

theorem DateForm.denotes_iff {f : DateForm} {d : Date} :
    f.Denotes d ↔ f.Fits ∧ f.date? = some d := by
  obtain ⟨hyear, hmonth, hday⟩ := d.civil_bounds
  cases f with
  | civil dashed y m n =>
    rw [Denotes, DateForm.date?, Date.ofCivil?_eq_some_iff, iff_and_self]
    intro h
    rw [h] at hyear hmonth hday
    exact ⟨hyear, hmonth, hday⟩
  | month y m =>
    rw [Denotes, DateForm.date?, Date.ofCivil?_eq_some_iff, iff_and_self]
    intro h
    rw [h] at hyear hmonth
    exact ⟨hyear, hmonth⟩
  | ordinal dashed y n =>
    rw [Denotes, DateForm.date?, Date.ofOrdinal?_eq_some_iff, iff_and_self]
    intro h
    have hn := h.le
    rw [h.1] at hyear
    exact ⟨hyear, by omega⟩
  | week dashed y w =>
    rw [Denotes, DateForm.date?, Date.ofWeek?_eq_some_iff, Fits, and_assoc]
    refine and_congr_right fun _ => iff_and_self.mpr fun h => ?_
    have hw := h.le
    omega
  | weekday dashed y w n =>
    rw [Denotes, DateForm.date?, Date.ofWeek?_eq_some_iff, Fits, and_assoc]
    refine and_congr_right fun _ => iff_and_self.mpr fun h => ?_
    have hw := h.le
    omega

/-- The texts of dates are those of the forms, with the dates that these denote. -/
theorem date?_eq_some_iff {cs : List Char} {d : Date} {compact : Bool} :
    date? cs = some (d, compact) ↔
      ∃ f : DateForm, f.text = cs ∧ (!f.isDashed) = compact ∧ f.Denotes d := by
  simp only [DateForm.denotes_iff]
  refine ⟨form_of_date, ?_⟩
  rintro ⟨f, rfl, rfl, hfits, hf⟩
  rw [date?_of_form hfits, hf]
  rfl

end Iso
end RecordStore
