import RecordStore.Proofs.DateForms
import RecordStore.Time.Present

/-! The forms of ISO 8601 in which a time of day, an offset from universal time and a whole
timestamp can be written, each with what it denotes. A text is read as a timestamp if and only if it
is one of a form, and is read as what the form denotes. -/
namespace RecordStore
namespace Text

/-! ### Digits of a fraction -/

theorem foldl_digits (vs : List Nat) :
    vs.foldl (fun n d => 10 * n + d) 0 = Nat.ofDigits 10 vs.reverse := by
  rw [Nat.ofDigits_eq_foldr, List.foldr_reverse]
  simp [Nat.add_comm]

theorem foldl_six {vs : List Nat} (h : ∀ v ∈ vs, v < 10) :
    ((vs ++ List.replicate 6 0).take 6).foldl (fun n d => 10 * n + d) 0 =
      vs.foldl (fun n d => 10 * n + d) 0 * 10 ^ 6 / 10 ^ vs.length := by
  have hall : ∀ v ∈ (vs ++ List.replicate 6 0).reverse, v < 10 := by
    intro v hv
    rcases List.mem_append.mp (List.mem_reverse.mp hv) with hv | hv
    · exact h v hv
    · rw [List.eq_of_mem_replicate hv]
      decide
  have hzeros : Nat.ofDigits 10 (vs ++ List.replicate 6 0).reverse =
      Nat.ofDigits 10 vs.reverse * 10 ^ 6 := by
    rw [List.reverse_append, Nat.ofDigits_append, List.reverse_replicate,
      Nat.ofDigits_replicate_zero, List.length_replicate, Nat.zero_add, Nat.mul_comm]
  rw [foldl_digits, foldl_digits, List.reverse_take, List.length_append, List.length_replicate,
    Nat.add_sub_cancel, ← hzeros,
    Nat.ofDigits_div_pow_eq_ofDigits_drop vs.length (by decide) _ hall]

theorem numeralValue_eq (cs : List Char) :
    numeralValue cs = (cs.map fun c => c.toNat - 48).foldl (fun n d => 10 * n + d) 0 := by
  rw [numeralValue, List.foldl_map]

end Text

namespace Iso
open Text (padded numeralValue)

/-! ### Times of day -/

structure FractionForm where
  mark : Char
  digits : List Char
  mark_eq : mark = '.' ∨ mark = ','
  ne_nil : digits ≠ []
  all_digits : digits.all Char.isDigit

namespace FractionForm

def text (f : FractionForm) : List Char := f.mark :: f.digits

def micros (f : FractionForm) : Nat :=
  numeralValue f.digits * microsPerSecond / 10 ^ f.digits.length

end FractionForm

def fractionText (f : Option FractionForm) : List Char := (f.map FractionForm.text).getD []

def fractionMicros (f : Option FractionForm) : Nat := (f.map FractionForm.micros).getD 0

/-- A time of day as it is written, with colons between its numbers or without. -/
inductive ClockForm where
  | hour (hour : Nat)
  | minute (colons : Bool) (hour minute : Nat)
  | second (colons : Bool) (hour minute second : Nat) (fraction : Option FractionForm)

namespace ClockForm

def text : ClockForm → List Char
  | hour h => padded 2 h
  | minute colons h m => padded 2 h ++ (separator ':' colons ++ padded 2 m)
  | second colons h m s f => padded 2 h ++ (separator ':' colons ++
      (padded 2 m ++ (separator ':' colons ++ (padded 2 s ++ fractionText f))))

/-- What may stand behind a date: seconds have colons before them if and only if the date has
dashes, and minutes have one if it has. -/
def Follows (dashed : Bool) : ClockForm → Prop
  | hour _ => True
  | minute colons .. => dashed → colons
  | second colons .. => colons = dashed

def Denotes (n : Nat) : ClockForm → Prop
  | hour h => h < 24 ∧ n = h * 3600 * microsPerSecond
  | minute _ h m => h < 24 ∧ m < 60 ∧ n = (h * 3600 + m * 60) * microsPerSecond
  | second _ h m s f => h < 24 ∧ m < 60 ∧ s < 60 ∧
      n = (h * 3600 + m * 60 + s) * microsPerSecond + fractionMicros f

end ClockForm

theorem fractionMicros?_eq_some_iff {ds : List Char} {n : Nat} :
    fractionMicros? ds = some n ↔ ds ≠ [] ∧ ds.all Char.isDigit ∧
      n = numeralValue ds * microsPerSecond / 10 ^ ds.length := by
  have hvalue (hdigits : ds.all Char.isDigit) :
      Text.asciiNumeral? ((ds ++ List.replicate 6 '0').take 6) =
        some (numeralValue ds * microsPerSecond / 10 ^ ds.length) := by
    have hfirst : ((ds ++ List.replicate 6 '0').take 6).all Char.isDigit := by
      refine List.all_eq_true.mpr fun c hc => ?_
      rcases List.mem_append.mp (List.mem_of_mem_take hc) with hc | hc
      · exact List.all_eq_true.mp hdigits c hc
      · rw [List.eq_of_mem_replicate hc]
        rfl
    have hsmall : ∀ v ∈ ds.map (fun c => c.toNat - 48), v < 10 :=
      List.forall_mem_map.mpr fun c hc => (Text.digit_value (List.all_eq_true.mp hdigits c hc)).1
    have hsix : numeralValue ((ds ++ List.replicate 6 '0').take 6) =
        numeralValue ds * 10 ^ 6 / 10 ^ ds.length := by
      have hplaces := Text.foldl_six hsmall
      rw [List.length_map, ← Text.numeralValue_eq] at hplaces
      rw [Text.numeralValue_eq, List.map_take, List.map_append, List.map_replicate]
      exact hplaces
    rw [Text.asciiNumeral?.eq_2, if_pos hfirst]
    · exact congrArg some hsix
    · simp
  rw [fractionMicros?]
  constructor
  · intro h
    split at h
    · rename_i hgood
      rw [hvalue hgood.2] at h
      exact ⟨hgood.1, hgood.2, (Option.some.inj h).symm⟩
    · cases h
  · rintro ⟨hne, hdigits, rfl⟩
    rw [if_pos ⟨hne, hdigits⟩, hvalue hdigits]

theorem seconds?_eq_some_iff {cs : List Char} {n : Nat} : seconds? cs = some n ↔
    ∃ s f, cs = padded 2 s ++ fractionText f ∧ s < 60 ∧
      n = s * microsPerSecond + fractionMicros f := by
  constructor
  · intro h
    rw [seconds?] at h
    split at h
    · rename_i whole hbreak
      have hcs := Text.eq_of_breakAt hbreak
      obtain ⟨s, hwhole, -, h⟩ := (bind_digits?_eq_some_iff (by decide)).mp h
      split at h
      · cases h
        exact ⟨s, none, by rw [hcs, hwhole]; rfl, ‹_›, (Nat.add_zero _).symm⟩
      · cases h
    · rename_i whole mark ds hbreak
      have hcs := Text.eq_of_breakAt hbreak
      have hmark := Text.head_of_breakAt hbreak
      obtain ⟨s, hwhole, -, h⟩ := (bind_digits?_eq_some_iff (by decide)).mp h
      split at h
      · obtain ⟨m, hfraction, h⟩ := Option.bind_eq_some_iff.mp h
        cases h
        obtain ⟨hne, hdigits, rfl⟩ := fractionMicros?_eq_some_iff.mp hfraction
        exact ⟨s, some ⟨mark, ds, by simpa using hmark, hne, hdigits⟩, by rw [hcs, hwhole]; rfl,
          ‹_›, rfl⟩
      · cases h
  · rintro ⟨s, f, rfl, hs, rfl⟩
    have hnumber : digits? 2 (padded 2 s) = some s := digits?_padded (by decide) (by omega)
    have hmark : ∀ c ∈ padded 2 s, (decide (c = '.') || decide (c = ',')) = false :=
      Text.MadeOf.none (Text.madeOf_padded 2 s : Text.MadeOf [] _) (by simp +contextual [or_imp])
    rw [seconds?]
    cases f with
    | none =>
      rw [show fractionText none = [] from rfl, List.append_nil, Text.breakAt_of_not_mem hmark]
      simp [hnumber, hs, fractionMicros]
    | some f =>
      obtain ⟨mark, ds, hmarkEq, hne, hdigits⟩ := f
      have hfraction := fractionMicros?_eq_some_iff.mpr ⟨hne, hdigits, rfl⟩
      have htext : fractionText (some ⟨mark, ds, hmarkEq, hne, hdigits⟩) = mark :: ds := rfl
      rw [htext, Text.breakAt_append hmark (by simpa using hmarkEq)]
      simp [hnumber, hs, hfraction, fractionMicros, FractionForm.micros]

theorem hourMinute?_padded {hour minute : Nat} (hh : hour < 24) (hm : minute < 60) :
    hourMinute? (Text.padded 2 hour) (Text.padded 2 minute) =
      some ((hour * 3600 + minute * 60) * microsPerSecond) := by
  rw [hourMinute?, digits?_padded (by decide) (by omega), digits?_padded (by decide) (by omega)]
  simp [hh, hm]

theorem hourMinute?_eq_some_iff {hour minute : List Char} {n : Nat} :
    hourMinute? hour minute = some n ↔ ∃ h m, hour = padded 2 h ∧ minute = padded 2 m ∧ h < 24 ∧
      m < 60 ∧ n = (h * 3600 + m * 60) * microsPerSecond := by
  constructor
  · intro h
    obtain ⟨a, hhour, -, h⟩ := (bind_digits?_eq_some_iff (by decide)).mp h
    obtain ⟨b, hminute, -, h⟩ := (bind_digits?_eq_some_iff (by decide)).mp h
    split at h
    · rename_i hfits
      cases h
      exact ⟨a, b, hhour, hminute, hfits.1, hfits.2, rfl⟩
    · cases h
  · rintro ⟨h, m, rfl, rfl, hh, hm, rfl⟩
    exact hourMinute?_padded hh hm

theorem take_two_two (cs : List Char) :
    cs = cs.take 2 ++ ((cs.drop 2).take 2 ++ cs.drop 4) := by
  have hdrop : cs.drop (2 + 2) = (cs.drop 2).drop 2 := List.drop_drop.symm
  rw [show cs.drop 4 = _ from hdrop, List.take_append_drop, List.take_append_drop]

theorem form_of_timeOfDay {cs : List Char} {dashed : Bool} {n : Nat}
    (h : timeOfDay? (!dashed) cs = some n) :
    ∃ f : ClockForm, f.text = cs ∧ f.Follows dashed ∧ f.Denotes n := by
  rw [timeOfDay?] at h
  split at h
  · rename_i hour minute hpieces
    obtain ⟨a, b, rfl, rfl, ha, hb, rfl⟩ := hourMinute?_eq_some_iff.mp h
    refine ⟨.minute true a b, ?_, fun _ => rfl, ha, hb, rfl⟩
    rw [Text.eq_of_split hpieces]
    simp [ClockForm.text, separator]
  · rename_i hour minute second hpieces
    split at h
    · cases h
    · rename_i hcompact
      obtain ⟨k, hhour, h⟩ := Option.bind_eq_some_iff.mp h
      obtain ⟨l, hsecond, h⟩ := Option.bind_eq_some_iff.mp h
      cases h
      obtain ⟨a, b, rfl, rfl, ha, hb, rfl⟩ := hourMinute?_eq_some_iff.mp hhour
      obtain ⟨c, f, rfl, hc, rfl⟩ := seconds?_eq_some_iff.mp hsecond
      refine ⟨.second true a b c f, ?_, (by simpa using hcompact : dashed = true).symm, ha, hb, hc,
        by ring⟩
      rw [Text.eq_of_split hpieces]
      simp [ClockForm.text, separator]
  · rename_i hour hpieces
    have hcs := Text.eq_of_split hpieces
    rw [List.flatMap_nil, List.append_nil] at hcs
    subst hcs
    split at h
    · obtain ⟨a, b, ha, hb, hlt, hblt, rfl⟩ := hourMinute?_eq_some_iff.mp h
      have hzero : b = 0 := Text.padded_injective (by omega) (by decide)
        (hb.symm.trans (rfl : ['0', '0'] = padded 2 0))
      exact ⟨.hour a, ha.symm, trivial, hlt, by rw [hzero, Nat.zero_mul, Nat.add_zero]⟩
    · split at h
      · rename_i hcompact
        have hdashed : dashed = false := by simpa using hcompact
        have hparts := take_two_two cs
        dsimp only at h
        split at h
        · rename_i hnone
          obtain ⟨a, b, ha, hb, hlt, hblt, rfl⟩ := hourMinute?_eq_some_iff.mp h
          refine ⟨.minute false a b, ?_, by simp [ClockForm.Follows, hdashed], hlt, hblt, rfl⟩
          rw [ha, hb, hnone, List.append_nil] at hparts
          exact hparts.symm
        · obtain ⟨k, hhour, h⟩ := Option.bind_eq_some_iff.mp h
          obtain ⟨l, hsecond, h⟩ := Option.bind_eq_some_iff.mp h
          cases h
          obtain ⟨a, b, ha, hb, hlt, hblt, rfl⟩ := hourMinute?_eq_some_iff.mp hhour
          obtain ⟨c, f, hrest, hc, rfl⟩ := seconds?_eq_some_iff.mp hsecond
          refine ⟨.second false a b c f, ?_, by simp [ClockForm.Follows, hdashed], hlt, hblt, hc,
            by ring⟩
          rw [ha, hb, hrest] at hparts
          exact hparts.symm
      · cases h
  · cases h

theorem madeOf_fractionText {marks : List Char} (h : '.' ∈ marks) (h' : ',' ∈ marks)
    (f : Option FractionForm) : Text.MadeOf marks (fractionText f) := by
  cases f with
  | none => exact Text.madeOf_nil
  | some f =>
    have hdigits : Text.MadeOf marks f.digits :=
      fun c hc => .inl (List.all_eq_true.mp f.all_digits c hc)
    refine hdigits.cons ?_
    obtain hmark | hmark := f.mark_eq
    · exact hmark ▸ h
    · exact hmark ▸ h'

theorem ClockForm.madeOf_text (f : ClockForm) : Text.MadeOf [':', '.', ','] f.text := by
  have hcolon (colons : Bool) : Text.MadeOf [':', '.', ','] (separator ':' colons) :=
    madeOf_separator (by decide) colons
  have hnumber (n : Nat) : Text.MadeOf [':', '.', ','] (padded 2 n) := Text.madeOf_padded 2 n
  cases f with
  | hour h => exact hnumber h
  | minute colons h m => exact (hnumber h).append ((hcolon colons).append (hnumber m))
  | second colons h m s f =>
    exact (hnumber h).append ((hcolon colons).append ((hnumber m).append
      ((hcolon colons).append ((hnumber s).append
        (madeOf_fractionText (by decide) (by decide) f)))))

theorem timeOfDay?_compact {a b : Nat} {rest : List Char} (hrest : ':' ∉ rest) :
    timeOfDay? true (padded 2 a ++ (padded 2 b ++ rest)) =
      if rest = [] then hourMinute? (padded 2 a) (padded 2 b)
      else do return (← hourMinute? (padded 2 a) (padded 2 b)) + (← seconds? rest) := by
  have hlength (n : Nat) : (padded 2 n).length = 2 := Text.length_padded 2 n
  have hnumber (n : Nat) : ':' ∉ padded 2 n :=
    (Text.madeOf_padded 2 n).not_mem rfl List.not_mem_nil
  have hcolon : ':' ∉ padded 2 a ++ (padded 2 b ++ rest) := by simp [hnumber, hrest]
  have hlong : (padded 2 a ++ (padded 2 b ++ rest)).length ≠ 2 := by simp [hlength]
  have hdrop : (padded 2 a ++ (padded 2 b ++ rest)).drop 2 = padded 2 b ++ rest :=
    List.drop_left' (hlength a)
  have hbehind : (padded 2 a ++ (padded 2 b ++ rest)).drop 4 = rest := by
    rw [show (4 : Nat) = 2 + 2 from rfl, ← List.drop_drop, hdrop, List.drop_left' (hlength b)]
  rw [timeOfDay?, Text.split_of_not_mem hcolon]
  dsimp only
  rw [if_neg hlong, if_pos rfl, hdrop, hbehind, List.take_left' (hlength a),
    List.take_left' (hlength b)]

theorem timeOfDay?_of_form {f : ClockForm} {dashed : Bool} {n : Nat} (hf : f.Follows dashed)
    (h : f.Denotes n) : timeOfDay? (!dashed) f.text = some n := by
  have hnone {cs : List Char} (hcs : Text.MadeOf ['.', ','] cs) : Text.split ':' cs = [cs] :=
    Text.split_of_not_mem (hcs.not_mem rfl (by decide))
  have hnumber (n : Nat) : Text.MadeOf ['.', ','] (padded 2 n) := Text.madeOf_padded 2 n
  cases f with
  | hour a =>
    obtain ⟨ha, rfl⟩ := h
    rw [ClockForm.text, timeOfDay?, hnone (hnumber a)]
    dsimp only
    rw [if_pos (Text.length_padded 2 a), hourMinute?_eq_some_iff]
    exact ⟨a, 0, rfl, rfl, ha, by decide, by rw [Nat.zero_mul, Nat.add_zero]⟩
  | minute colons a b =>
    obtain ⟨ha, hb, rfl⟩ := h
    have hread := hourMinute?_padded ha hb
    cases colons with
    | true =>
      have hsplit : Text.split ':' (padded 2 a ++ ':' :: padded 2 b) =
          [padded 2 a, padded 2 b] := by
        rw [Text.split_append, hnone (hnumber a), hnone (hnumber b), List.singleton_append]
      change timeOfDay? (!dashed) (padded 2 a ++ ':' :: padded 2 b) = _
      rw [timeOfDay?, hsplit]
      exact hread
    | false =>
      have hdashed : dashed = false := by simpa [ClockForm.Follows] using hf
      have hcompact := timeOfDay?_compact (a := a) (b := b) (List.not_mem_nil : ':' ∉ [])
      rw [if_pos rfl, List.append_nil, hread] at hcompact
      rw [hdashed]
      exact hcompact
  | second colons a b c f =>
    obtain ⟨ha, hb, hc, rfl⟩ := h
    have hread := hourMinute?_padded ha hb
    have hseconds : seconds? (padded 2 c ++ fractionText f) = _ :=
      seconds?_eq_some_iff.mpr ⟨c, f, rfl, hc, rfl⟩
    have hrest : Text.MadeOf ['.', ','] (padded 2 c ++ fractionText f) :=
      (hnumber c).append (madeOf_fractionText (by decide) (by decide) f)
    have hcolon := hrest.not_mem (rfl : ':'.isDigit = false) (by decide)
    have hsum : (a * 3600 + b * 60) * microsPerSecond + (c * microsPerSecond + fractionMicros f) =
        (a * 3600 + b * 60 + c) * microsPerSecond + fractionMicros f := by ring
    obtain rfl : colons = dashed := hf
    cases colons with
    | true =>
      have hsplit : Text.split ':' (padded 2 a ++ ':' :: (padded 2 b ++ ':' ::
          (padded 2 c ++ fractionText f))) =
          [padded 2 a, padded 2 b, padded 2 c ++ fractionText f] := by
        rw [Text.split_append, Text.split_append, hnone (hnumber a), hnone (hnumber b),
          hnone hrest]
        rfl
      change timeOfDay? false (padded 2 a ++ ':' :: (padded 2 b ++ ':' ::
          (padded 2 c ++ fractionText f))) = _
      rw [timeOfDay?, hsplit, ← hsum]
      simp [hread, hseconds]
    | false =>
      have hsome : padded 2 c ++ fractionText f ≠ [] := by
        simp [Text.padded_ne_nil (by decide : 0 < 2)]
      have hcompact := timeOfDay?_compact (a := a) (b := b) hcolon
      rw [if_neg hsome, hread, hseconds] at hcompact
      rw [← hsum]
      exact hcompact

theorem timeOfDay?_eq_some_iff {cs : List Char} {dashed : Bool} {n : Nat} :
    timeOfDay? (!dashed) cs = some n ↔
      ∃ f : ClockForm, f.text = cs ∧ f.Follows dashed ∧ f.Denotes n := by
  refine ⟨form_of_timeOfDay, ?_⟩
  rintro ⟨f, rfl, hf, h⟩
  exact timeOfDay?_of_form hf h

/-! ### Offsets -/

/-- An offset as it is written, of hours or of hours and minutes. -/
inductive OffsetForm where
  | unwritten
  | universal
  | hours (ahead colon : Bool) (hour : Nat)
  | minutes (ahead colon : Bool) (hour minute : Nat)

namespace OffsetForm

def sign (ahead : Bool) : Char := if ahead then '+' else '-'

def text : OffsetForm → List Char
  | unwritten => []
  | universal => ['Z']
  | hours ahead colon h => sign ahead :: (padded 2 h ++ separator ':' colon)
  | minutes ahead colon h m => sign ahead :: (padded 2 h ++ (separator ':' colon ++ padded 2 m))

def signed (ahead : Bool) (n : Nat) : Int := if ahead then n else -n

/-- The microseconds ahead of universal time that a form denotes. -/
def Denotes (offset : Int) : OffsetForm → Prop
  | unwritten | universal => offset = 0
  | hours ahead _ h => h < 10 ^ 2 ∧ offset = signed ahead (h * 3600 * microsPerSecond)
  | minutes ahead _ h m => h < 10 ^ 2 ∧ m < 10 ^ 2 ∧
      offset = signed ahead ((h * 3600 + m * 60) * microsPerSecond)

end OffsetForm

def boundedOffset? (sign : Char) (micros : Int) : Option Int :=
  if sign = '-' then some (-micros)
  else if micros ≤ microsPerDay then some micros
  else none

def signedOffset? (sign : Char) (hour minute : List Char) : Option Int := do
  boundedOffset? sign
    (((← digits? 2 hour) * 3600 + (← digits? 2 minute) * 60 : Nat) * microsPerSecond)

theorem boundedOffset?_eq_some_iff {ahead : Bool} {n : Nat} {offset : Int} :
    boundedOffset? (OffsetForm.sign ahead) n = some offset ↔
      offset = OffsetForm.signed ahead n ∧ offset ≤ microsPerDay := by
  rw [boundedOffset?]
  cases ahead with
  | true =>
    rw [if_neg (by decide)]
    change _ ↔ offset = n ∧ offset ≤ microsPerDay
    grind
  | false =>
    have hday : -(n : Int) ≤ microsPerDay := by omega
    rw [if_pos (by decide)]
    change _ ↔ offset = -n ∧ offset ≤ microsPerDay
    grind

theorem signedOffset?_eq_some_iff {ahead : Bool} {hour minute : List Char} {offset : Int} :
    signedOffset? (OffsetForm.sign ahead) hour minute = some offset ↔
      ∃ h m, hour = padded 2 h ∧ minute = padded 2 m ∧ h < 10 ^ 2 ∧ m < 10 ^ 2 ∧
        offset = OffsetForm.signed ahead ((h * 3600 + m * 60) * microsPerSecond) ∧
        offset ≤ microsPerDay := by
  constructor
  · intro h
    obtain ⟨a, hhour, halt, h⟩ := (bind_digits?_eq_some_iff (by decide)).mp h
    obtain ⟨b, hminute, hblt, h⟩ := (bind_digits?_eq_some_iff (by decide)).mp h
    rw [← Nat.cast_mul, boundedOffset?_eq_some_iff] at h
    exact ⟨a, b, hhour, hminute, halt, hblt, h⟩
  · rintro ⟨a, b, rfl, rfl, ha, hb, hoffset⟩
    rw [signedOffset?, digits?_padded (by decide) ha, digits?_padded (by decide) hb,
      Option.bind_eq_bind, Option.bind_some, Option.bind_some, ← Nat.cast_mul,
      boundedOffset?_eq_some_iff]
    exact hoffset

theorem form_of_offset {cs : List Char} {offset : Int} (h : offset? cs = some offset) :
    ∃ f : OffsetForm, f.text = cs ∧ f.Denotes offset ∧ offset ≤ microsPerDay := by
  have hzero (n : Nat) (hn : n < 10 ^ 2) (hzero : ['0', '0'] = padded 2 n) : n = 0 :=
    Text.padded_injective hn (by decide) (hzero.symm.trans (rfl : ['0', '0'] = padded 2 0))
  unfold offset? at h
  split at h
  · cases h
    exact ⟨.unwritten, rfl, rfl, by decide⟩
  · cases h
    exact ⟨.universal, rfl, rfl, by decide⟩
  · rename_i sign body _
    split at h
    · rename_i hsign
      obtain ⟨ahead, rfl⟩ : ∃ ahead, OffsetForm.sign ahead = sign := by
        obtain rfl | rfl := hsign
        · exact ⟨true, rfl⟩
        · exact ⟨false, rfl⟩
      dsimp only at h
      split at h
      · rename_i a b _
        change signedOffset? _ [a, b] ['0', '0'] = some offset at h
        obtain ⟨h, m, hhour, hminute, hh, hm, hoffset, hday⟩ := signedOffset?_eq_some_iff.mp h
        rw [hzero m hm hminute, Nat.zero_mul, Nat.add_zero] at hoffset
        exact ⟨.hours ahead false h, by rw [hhour]; rfl, ⟨hh, hoffset⟩, hday⟩
      · rename_i a b _
        change signedOffset? _ [a, b] ['0', '0'] = some offset at h
        obtain ⟨h, m, hhour, hminute, hh, hm, hoffset, hday⟩ := signedOffset?_eq_some_iff.mp h
        rw [hzero m hm hminute, Nat.zero_mul, Nat.add_zero] at hoffset
        refine ⟨.hours ahead true h, ?_, ⟨hh, hoffset⟩, hday⟩
        rw [OffsetForm.text, ← hhour]
        rfl
      · rename_i a b c d _
        change signedOffset? _ [a, b] [c, d] = some offset at h
        obtain ⟨h, m, hhour, hminute, hh, hm, hoffset, hday⟩ := signedOffset?_eq_some_iff.mp h
        refine ⟨.minutes ahead false h m, ?_, ⟨hh, hm, hoffset⟩, hday⟩
        rw [OffsetForm.text, ← hhour, ← hminute]
        rfl
      · rename_i a b c d _
        change signedOffset? _ [a, b] [c, d] = some offset at h
        obtain ⟨h, m, hhour, hminute, hh, hm, hoffset, hday⟩ := signedOffset?_eq_some_iff.mp h
        refine ⟨.minutes ahead true h m, ?_, ⟨hh, hm, hoffset⟩, hday⟩
        rw [OffsetForm.text, ← hhour, ← hminute]
        rfl
      · cases h
    · cases h

theorem offset?_of_four {sign a b c d : Char} (hsign : sign = '+' ∨ sign = '-') :
    offset? [sign, a, b, c, d] = signedOffset? sign [a, b] [c, d] := by
  simp [offset?, signedOffset?, boundedOffset?, hsign]

theorem offset?_of_form {f : OffsetForm} {offset : Int} (h : f.Denotes offset)
    (hday : offset ≤ microsPerDay) : offset? f.text = some offset := by
  cases f with
  | unwritten =>
    cases h
    rfl
  | universal =>
    cases h
    rfl
  | hours ahead colon a =>
    obtain ⟨ha, hoffset⟩ := h
    have hread : signedOffset? (OffsetForm.sign ahead) (padded 2 a) ['0', '0'] = some offset :=
      signedOffset?_eq_some_iff.mpr ⟨a, 0, rfl, rfl, ha, by decide,
        by rw [Nat.zero_mul, Nat.add_zero]; exact hoffset, hday⟩
    rw [← hread]
    cases ahead <;> cases colon <;> rfl
  | minutes ahead colon a b =>
    obtain ⟨ha, hb, hoffset⟩ := h
    have hread : signedOffset? (OffsetForm.sign ahead) (padded 2 a) (padded 2 b) = some offset :=
      signedOffset?_eq_some_iff.mpr ⟨a, b, rfl, rfl, ha, hb, hoffset, hday⟩
    rw [← hread]
    cases colon with
    | true => cases ahead <;> rfl
    | false => exact offset?_of_four (by cases ahead <;> decide)

theorem offset?_eq_some_iff {cs : List Char} {offset : Int} : offset? cs = some offset ↔
    ∃ f : OffsetForm, f.text = cs ∧ f.Denotes offset ∧ offset ≤ microsPerDay := by
  refine ⟨form_of_offset, ?_⟩
  rintro ⟨f, rfl, h, hday⟩
  exact offset?_of_form h hday

/-! ### Clocks -/

theorem breakAt_eq {p : Char → Bool} {before after : List Char} (h : ∀ c ∈ before, p c = false)
    (hafter : ∀ c ∈ after.head?, p c = true) :
    Text.breakAt p (before ++ after) = (before, after) := by
  cases after with
  | nil => rw [List.append_nil, Text.breakAt_of_not_mem h]
  | cons c after => exact Text.breakAt_append h (hafter c rfl) after

theorem OffsetForm.head_text (f : OffsetForm) :
    ∀ c ∈ f.text.head?, (c = 'Z' || c = '+' || c = '-') = true := by
  cases f with
  | unwritten => simp [text]
  | universal => simp [text]
  | hours ahead colon h => cases ahead <;> simp [text, sign]
  | minutes ahead colon h m => cases ahead <;> simp [text, sign]

theorem clock?_eq_some_iff {cs : List Char} {dashed : Bool} {n : Nat} {offset : Int} :
    clock? (!dashed) cs = some (n, offset) ↔ ∃ (f : ClockForm) (z : OffsetForm),
      f.text ++ z.text = cs ∧ f.Follows dashed ∧ f.Denotes n ∧ z.Denotes offset ∧
        offset ≤ microsPerDay := by
  constructor
  · intro h
    rw [clock?] at h
    split at h
    rename_i time zone hbreak
    obtain ⟨k, htime, h⟩ := Option.bind_eq_some_iff.mp h
    obtain ⟨o, hzone, h⟩ := Option.bind_eq_some_iff.mp h
    cases h
    obtain ⟨f, rfl, hfollows, hf⟩ := timeOfDay?_eq_some_iff.mp htime
    obtain ⟨z, rfl, hz, hday⟩ := offset?_eq_some_iff.mp hzone
    exact ⟨f, z, (Text.eq_of_breakAt hbreak).symm, hfollows, hf, hz, hday⟩
  · rintro ⟨f, z, rfl, hfollows, hf, hz, hday⟩
    have hnone : ∀ c ∈ f.text, (c = 'Z' || c = '+' || c = '-') = false :=
      f.madeOf_text.none (by simp +contextual [or_imp])
    have htime := timeOfDay?_eq_some_iff.mpr ⟨f, rfl, hfollows, hf⟩
    have hzone := offset?_eq_some_iff.mpr ⟨z, rfl, hz, hday⟩
    rw [clock?, breakAt_eq hnone z.head_text]
    dsimp only
    rw [htime, hzone]
    rfl

/-! ### Timestamps -/

/-- A timestamp as it is written: a date alone, or with a time of day behind a mark. -/
inductive StampForm where
  | date (date : DateForm)
  | reading (date : DateForm) (mark : Char) (clock : ClockForm) (offset : OffsetForm)

namespace StampForm

def text : StampForm → List Char
  | date f => f.text
  | reading f mark c z => f.text ++ mark :: (c.text ++ z.text)

/-- What a form comes to: a date, or what a clock shows with its offset. -/
def Reads : StampForm → Form → Prop
  | date f, .date d => f.Denotes d
  | reading f mark c z, .reading t => (mark = 'T' ∨ mark = ' ') ∧ c.Follows f.isDashed ∧
      ∃ d n offset, f.Denotes d ∧ c.Denotes n ∧ z.Denotes offset ∧ offset ≤ microsPerDay ∧
        t.wall.micros = d.day * microsPerDay + n ∧ t.offset = some offset
  | _, _ => False

end StampForm

theorem stamp?_eq_some_iff {cs : List Char} {form : Form} :
    stamp? cs = some form ↔ ∃ f : StampForm, f.text = cs ∧ f.Reads form := by
  constructor
  · intro h
    rw [stamp?] at h
    split at h
    · rename_i date hbreak
      obtain ⟨⟨d, compact⟩, hdate, rfl⟩ := Option.map_eq_some_iff.mp h
      obtain ⟨f, rfl, -, hf⟩ := date?_eq_some_iff.mp hdate
      exact ⟨.date f, by rw [Text.eq_of_breakAt hbreak, List.append_nil]; rfl, hf⟩
    · rename_i date mark rest hbreak
      obtain ⟨⟨d, compact⟩, hdate, h⟩ := Option.bind_eq_some_iff.mp h
      obtain ⟨⟨n, offset⟩, hclock, h⟩ := Option.bind_eq_some_iff.mp h
      obtain ⟨wall, hwall, h⟩ := Option.bind_eq_some_iff.mp h
      cases h
      obtain ⟨f, rfl, rfl, hf⟩ := date?_eq_some_iff.mp hdate
      obtain ⟨c, z, rfl, hfollows, hc, hz, hday⟩ := clock?_eq_some_iff.mp hclock
      have hmark := Text.head_of_breakAt hbreak
      have hshown := Instant.ofMicros?_eq_some.mp hwall
      exact ⟨.reading f mark c z, (Text.eq_of_breakAt hbreak).symm, by simpa using hmark,
        hfollows, d, n, offset, hf, hc, hz, hday, by exact_mod_cast hshown, rfl⟩
  · rintro ⟨f, rfl, hf⟩
    have hnone (g : DateForm) : ∀ c ∈ g.text, (c = 'T' || c = ' ') = false :=
      g.madeOf_text.none (by simp +contextual [or_imp])
    cases f with
    | date f =>
      cases form with
      | date d =>
        have hdate := date?_eq_some_iff.mpr ⟨f, rfl, rfl, hf⟩
        rw [StampForm.text, stamp?, Text.breakAt_of_not_mem (hnone f)]
        dsimp only
        rw [hdate]
        rfl
      | _ => cases hf
    | reading f mark c z =>
      cases form with
      | reading t =>
        obtain ⟨hmark, hfollows, d, n, offset, hd, hc, hz, hday, hwall, hoffset⟩ := hf
        have hdate := date?_eq_some_iff.mpr ⟨f, rfl, rfl, hd⟩
        have hclock := clock?_eq_some_iff.mpr ⟨c, z, rfl, hfollows, hc, hz, hday⟩
        have hshown : Instant.ofMicros? (d.day * microsPerDay + n) = some t.wall :=
          Instant.ofMicros?_eq_some.mpr (by exact_mod_cast hwall)
        rw [StampForm.text, stamp?, Text.breakAt_append (hnone f) (by simpa using hmark)]
        dsimp only
        rw [hdate, Option.bind_eq_bind, Option.bind_some]
        dsimp only
        rw [hclock, Option.bind_eq_bind, Option.bind_some]
        dsimp only
        rw [hshown, Option.bind_eq_bind, Option.bind_some, ← hoffset]
        rfl
      | _ => cases hf

theorem form?_of_ne {a b c : Char} {rest : List Char} (hp : a ≠ 'P') (ht : a ≠ 'T')
    (hcolon : c ≠ ':') : form? (a :: b :: c :: rest) = stamp? (a :: b :: c :: rest) := by
  simp [form?, hp, ht, hcolon]

theorem form?_of_digits {a b c : Char} {rest : List Char} (ha : a.isDigit) (hc : c.isDigit) :
    form? (a :: b :: c :: rest) = stamp? (a :: b :: c :: rest) := by
  refine form?_of_ne ?_ ?_ ?_
  · rintro rfl
    cases ha
  · rintro rfl
    cases ha
  · rintro rfl
    cases hc

theorem exists_digits_year (year : Nat) (cs : List Char) : ∃ a b c rest,
    Text.padded 4 year ++ cs = a :: b :: c :: rest ∧ a.isDigit ∧ c.isDigit :=
  ⟨_, _, _, _, rfl, Text.isDigit_digit _ (Nat.mod_lt _ (by decide)),
    Text.isDigit_digit _ (Nat.mod_lt _ (by decide))⟩

theorem StampForm.exists_digits_text (f : StampForm) :
    ∃ a b c rest, f.text = a :: b :: c :: rest ∧ a.isDigit ∧ c.isDigit := by
  have hyear (g : DateForm) (after : List Char) :
      ∃ a b c rest, g.text ++ after = a :: b :: c :: rest ∧ a.isDigit ∧ c.isDigit := by
    cases g <;>
    · rw [DateForm.text, List.append_assoc]
      exact exists_digits_year _ _
  cases f with
  | date g =>
    have hdigits := hyear g []
    rwa [List.append_nil] at hdigits
  | reading g mark c z => exact hyear g _

theorem form?_of_stamp {f : StampForm} {form : Form} (h : f.Reads form) :
    form? f.text = some form := by
  obtain ⟨a, b, c, rest, htext, ha, hc⟩ := f.exists_digits_text
  rw [htext, form?_of_digits ha hc, ← htext, stamp?_eq_some_iff]
  exact ⟨f, rfl, h⟩

/-- The instant that a form denotes, in microseconds of universal time: a date is its midnight, and
a clock that is ahead shows a later time. Offsets of a day and more denote nothing. -/
def StampForm.Denotes (micros : Int) : StampForm → Prop
  | date f => ∃ d, f.Denotes d ∧ micros = d.day * microsPerDay
  | reading f mark c z => (mark = 'T' ∨ mark = ' ') ∧ c.Follows f.isDashed ∧
      ∃ d n offset, f.Denotes d ∧ c.Denotes n ∧ z.Denotes offset ∧ offset.natAbs < microsPerDay ∧
        micros = d.day * microsPerDay + n - offset

theorem FractionForm.micros_lt (f : FractionForm) : f.micros < microsPerSecond := by
  have hvalue := (Text.padded_numeralValue f.all_digits).2
  rw [micros, Nat.div_lt_iff_lt_mul (by positivity), Nat.mul_comm]
  exact Nat.mul_lt_mul_of_pos_left hvalue (by decide)

theorem ClockForm.Denotes.lt {f : ClockForm} {n : Nat} (h : f.Denotes n) : n < microsPerDay := by
  cases f with
  | hour a =>
    obtain ⟨ha, rfl⟩ := h
    simp only [microsPerDay, microsPerSecond]
    omega
  | minute colons a b =>
    obtain ⟨ha, hb, rfl⟩ := h
    simp only [microsPerDay, microsPerSecond]
    omega
  | second colons a b c f =>
    obtain ⟨ha, hb, hc, rfl⟩ := h
    have hfraction : fractionMicros f < microsPerSecond := by
      cases f with
      | none => exact Nat.zero_lt_succ _
      | some f => exact f.micros_lt
    simp only [microsPerDay, microsPerSecond] at *
    omega

/-- A form denotes an instant if it is read as a date, of its midnight, or as a clock whose offset
is less than a day, of its universal time. -/
theorem StampForm.denotes_iff {f : StampForm} {micros : Int} : f.Denotes micros ↔
    (∃ d, f.Reads (.date d) ∧ micros = d.day * microsPerDay) ∨
      ∃ t, f.Reads (.reading t) ∧ t.hasClock ∧ micros = t.universalMicros := by
  cases f with
  | date g => simp [Denotes, Reads]
  | reading g mark c z =>
    constructor
    · rintro ⟨hmark, hfollows, d, n, offset, hd, hc, hz, hoffset, rfl⟩
      have hrange := Instant.lt_of_timeOfDay d hc.lt
      refine .inr ⟨⟨⟨_, hrange⟩, some offset⟩, ⟨hmark, hfollows, d, n, offset, hd, hc, hz, ?_, rfl,
        rfl⟩, ?_, ?_⟩
      · omega
      · simpa [DateTime.hasClock] using hoffset
      · simp [DateTime.universalMicros]
    · rintro (⟨d, hf, -⟩ | ⟨t, hf, hclock, rfl⟩)
      · cases hf
      · obtain ⟨hmark, hfollows, d, n, offset, hd, hc, hz, -, hwall, hoffset⟩ := hf
        rw [DateTime.hasClock, hoffset] at hclock
        refine ⟨hmark, hfollows, d, n, offset, hd, hc, hz, of_decide_eq_true hclock, ?_⟩
        rw [DateTime.universalMicros, hwall, hoffset]
        push_cast
        rfl

theorem DateForm.le_length_text (f : DateForm) : 7 ≤ f.text.length := by
  cases f with
  | month y m => simp [text, Text.length_padded]
  | civil dashed y m d => cases dashed <;> simp [text, separator, Text.length_padded]
  | ordinal dashed y n => cases dashed <;> simp [text, separator, Text.length_padded]
  | week dashed y w => cases dashed <;> simp [text, separator, Text.length_padded]
  | weekday dashed y w n => cases dashed <;> simp [text, separator, Text.length_padded]

theorem StampForm.le_length_text (f : StampForm) :
    7 ≤ f.text.length ∧ (':' ∈ f.text → 8 ≤ f.text.length) := by
  cases f with
  | date g =>
    exact ⟨g.le_length_text, fun h => absurd h (g.madeOf_text.not_mem rfl (by decide))⟩
  | reading g mark c z =>
    have hdate := g.le_length_text
    simp only [text, List.length_append, List.length_cons]
    omega

/-! ### Times of day alone -/

/-- A time of day as it is written without a date: behind a `T`, or with a colon behind its hour. -/
structure TimeForm where
  marked : Bool
  clock : ClockForm
  offset : OffsetForm

namespace TimeForm

def text (f : TimeForm) : List Char :=
  separator 'T' f.marked ++ (f.clock.text ++ f.offset.text)

/-- The microseconds since midnight that a form denotes; its offset counts for nothing. -/
structure Denotes (n : Nat) (f : TimeForm) : Prop where
  colons : f.clock.Follows (!f.marked)
  minutes : f.marked ∨ ∀ h, f.clock ≠ .hour h
  clock : f.clock.Denotes n
  offset : ∃ offset, f.offset.Denotes offset ∧ offset ≤ microsPerDay

end TimeForm

theorem exists_digits_hour (h : Nat) : ∃ a b, padded 2 h = [a, b] ∧ a.isDigit ∧ b.isDigit :=
  ⟨_, _, rfl, Text.isDigit_digit _ (Nat.mod_lt _ (by decide)),
    Text.isDigit_digit _ (Nat.mod_lt _ (by decide))⟩

theorem ClockForm.exists_colon {f : ClockForm} (h : f.Follows true) (hf : ∀ h, f ≠ .hour h) :
    ∃ a b rest, f.text = a :: b :: ':' :: rest ∧ a.isDigit := by
  have hhour (h : Nat) (rest : List Char) :
      ∃ a b rest', padded 2 h ++ ':' :: rest = a :: b :: ':' :: rest' ∧ a.isDigit := by
    obtain ⟨a, b, hdigits, ha, -⟩ := exists_digits_hour h
    exact ⟨a, b, rest, by rw [hdigits]; rfl, ha⟩
  cases f with
  | hour n => exact absurd rfl (hf n)
  | minute colons n m =>
    obtain rfl : colons = true := h rfl
    exact hhour n _
  | second colons n m s f =>
    obtain rfl : colons = true := h
    exact hhour n _

theorem form?_of_colon {a b : Char} {rest : List Char} (ha : a.isDigit) :
    form? (a :: b :: ':' :: rest) =
      (clock? (!true) (a :: b :: ':' :: rest)).map fun (micros, _) => .clock micros := by
  have hp : a ≠ 'P' := by
    rintro rfl
    cases ha
  have ht : a ≠ 'T' := by
    rintro rfl
    cases ha
  rw [form?]
  · rfl
  · exact hp
  · exact ht

theorem form?_of_time {f : TimeForm} {n : Nat} (h : f.Denotes n) :
    form? f.text = some (.clock n) := by
  obtain ⟨marked, c, z⟩ := f
  obtain ⟨hfollows, hminutes, hn, offset, hz, hday⟩ := h
  have hclock := clock?_eq_some_iff.mpr ⟨c, z, rfl, hfollows, hn, hz, hday⟩
  cases marked with
  | true =>
    change (clock? true (c.text ++ z.text)).map _ = _
    exact congrArg (Option.map fun (micros, _) => Form.clock micros) hclock
  | false =>
    obtain ⟨a, b, rest, htext, ha⟩ :=
      c.exists_colon hfollows (hminutes.resolve_left Bool.false_ne_true)
    have hall : c.text ++ z.text = a :: b :: ':' :: (rest ++ z.text) := by rw [htext]; rfl
    change form? (c.text ++ z.text) = _
    rw [hall, form?_of_colon ha, ← hall]
    exact congrArg (Option.map fun (micros, _) => Form.clock micros) hclock

theorem time_of_clock? (dashed : Bool) {cs : List Char} {form : Form}
    (h : (clock? (!dashed) cs).map (fun (micros, _) => Form.clock micros) = some form) :
    ∃ (c : ClockForm) (z : OffsetForm) (n : Nat), c.text ++ z.text = cs ∧ form = .clock n ∧
      c.Follows dashed ∧ c.Denotes n ∧ ∃ offset, z.Denotes offset ∧ offset ≤ microsPerDay := by
  obtain ⟨⟨n, offset⟩, hclock, rfl⟩ := Option.map_eq_some_iff.mp h
  obtain ⟨c, z, hcs, hfollows, hn, hz, hday⟩ := clock?_eq_some_iff.mp hclock
  exact ⟨c, z, n, hcs, rfl, hfollows, hn, offset, hz, hday⟩

/-! ### Points of time -/

inductive PointForm where
  | stamp (f : StampForm)
  | time (f : TimeForm)

namespace PointForm

def text : PointForm → List Char
  | stamp f => f.text
  | time f => f.text

def Reads : PointForm → Form → Prop
  | stamp f, form => f.Reads form
  | time f, .clock n => f.Denotes n
  | _, _ => False

/-- The instant that a form denotes, in microseconds of universal time. A time of day is of
today. -/
def Denotes [Present] (micros : Int) : PointForm → Prop
  | stamp f => f.Denotes micros
  | time f => ∃ n, f.Denotes n ∧ micros = Present.today.day * microsPerDay + n

end PointForm

theorem form?_of_point {f : PointForm} {form : Form} (h : f.Reads form) :
    form? f.text = some form := by
  cases f with
  | stamp f => exact form?_of_stamp h
  | time f =>
    cases form with
    | clock n => exact form?_of_time h
    | _ => cases h

/-- What is read otherwise than as a point of time is a duration. -/
theorem point_of_form? {cs : List Char} {form : Form} (h : form? cs = some form) :
    (∃ f : PointForm, f.text = cs ∧ f.Reads form) ∨
      cs.head? = some 'P' ∧ ∃ s, form = .span s := by
  unfold form? at h
  split at h
  · obtain ⟨s, -, rfl⟩ := Option.map_eq_some_iff.mp h
    exact .inr ⟨rfl, s, rfl⟩
  · obtain ⟨c, z, n, rfl, rfl, hfollows, hn, hz⟩ := time_of_clock? false h
    exact .inl ⟨.time ⟨true, c, z⟩, rfl, hfollows, .inl rfl, hn, hz⟩
  · rename_i a b rest _ _
    obtain ⟨c, z, n, htext, rfl, hfollows, hn, hz⟩ := time_of_clock? true h
    refine .inl ⟨.time ⟨false, c, z⟩, htext, hfollows, .inr ?_, hn, hz⟩
    -- Behind an hour alone there could only be an offset.
    rintro k rfl
    obtain ⟨d, e, hdigits, -, -⟩ := exists_digits_hour k
    rw [ClockForm.text, hdigits] at htext
    have hoffset : z.text = ':' :: rest := (List.cons.inj (List.cons.inj htext).2).2
    have hhead := z.head_text ':'
    rw [hoffset] at hhead
    exact absurd (hhead rfl) (by decide)
  · obtain ⟨f, hf, hreads⟩ := stamp?_eq_some_iff.mp h
    exact .inl ⟨.stamp f, hf, hreads⟩

theorem form?_eq_none_iff {cs : List Char} (hcs : cs.head? ≠ some 'P') :
    form? cs = none ↔ ¬ ∃ (f : PointForm) (form : Form), f.text = cs ∧ f.Reads form := by
  constructor
  · rintro h ⟨f, form, rfl, hreads⟩
    rw [form?_of_point hreads] at h
    cases h
  · intro h
    refine Option.eq_none_iff_forall_ne_some.mpr fun form hform => ?_
    obtain ⟨f, hf, hreads⟩ | ⟨hhead, -⟩ := point_of_form? hform
    · exact h ⟨f, form, hf, hreads⟩
    · exact hcs hhead

/-! ### Instants of forms -/

def Form.IsAt [Present] (t : Instant) : Form → Prop
  | .date d => t = .startOf d
  | .reading u => u.hasClock ∧ u.universalMicros = t.micros
  | .clock n => t = .within Present.today n
  | .span _ => False

theorem eq_startOf_iff {t : Instant} {d : Date} :
    t = .startOf d ↔ (t.micros : Int) = d.day * microsPerDay := by
  rw [← Nat.cast_mul, Nat.cast_inj]
  exact ⟨fun h => congrArg Instant.micros h, fun h => Instant.eq_of_micros (congrArg _ h)⟩

theorem eq_within_iff {t : Instant} {d : Date} {n : Nat} (hn : n < microsPerDay) :
    t = .within d n ↔ (t.micros : Int) = d.day * microsPerDay + n := by
  have hwithin : (Instant.within d n).micros = d.day * microsPerDay + n :=
    congrArg (_ + ·) (Nat.mod_eq_of_lt hn)
  rw [← Nat.cast_mul, ← Nat.cast_add, ← hwithin, Nat.cast_inj]
  exact ⟨fun h => congrArg Instant.micros h, fun h => Instant.eq_of_micros (congrArg _ h)⟩

theorem StampForm.isAt_iff [Present] {f : StampForm} {t : Instant} :
    (∃ form, f.Reads form ∧ form.IsAt t) ↔ f.Denotes t.micros := by
  rw [denotes_iff]
  constructor
  · rintro ⟨form, hreads, hat⟩
    cases form with
    | date d => exact .inl ⟨d, hreads, eq_startOf_iff.mp hat⟩
    | reading u => exact .inr ⟨u, hreads, hat.1, hat.2.symm⟩
    | clock n => cases f <;> cases hreads
    | span s => cases hat
  · rintro (⟨d, hreads, hmicros⟩ | ⟨u, hreads, hclock, hmicros⟩)
    · exact ⟨.date d, hreads, eq_startOf_iff.mpr hmicros⟩
    · exact ⟨.reading u, hreads, hclock, hmicros.symm⟩

theorem PointForm.isAt_iff [Present] {f : PointForm} {t : Instant} :
    (∃ form, f.Reads form ∧ form.IsAt t) ↔ f.Denotes t.micros := by
  cases f with
  | stamp f => exact f.isAt_iff
  | time f =>
    constructor
    · rintro ⟨form, hreads, hat⟩
      cases form with
      | clock n => exact ⟨n, hreads, (eq_within_iff hreads.clock.lt).mp hat⟩
      | _ => cases hreads
    · rintro ⟨n, hreads, hmicros⟩
      exact ⟨.clock n, hreads, (eq_within_iff hreads.clock.lt).mpr hmicros⟩

theorem exists_isAt_iff [Present] {cs : List Char} {t : Instant} :
    (∃ form, form? cs = some form ∧ form.IsAt t) ↔
      ∃ f : PointForm, f.text = cs ∧ f.Denotes t.micros := by
  constructor
  · rintro ⟨form, hform, hat⟩
    obtain ⟨f, hf, hreads⟩ | ⟨-, s, rfl⟩ := point_of_form? hform
    · exact ⟨f, hf, PointForm.isAt_iff.mp ⟨form, hreads, hat⟩⟩
    · cases hat
  · rintro ⟨f, rfl, hf⟩
    obtain ⟨form, hreads, hat⟩ := PointForm.isAt_iff.mpr hf
    exact ⟨form, form?_of_point hreads, hat⟩

end Iso
end RecordStore
