import Mathlib
import RecordStore.Number.Binary64

/-! Where the quotients of integers lie among the binary64 numbers, and from what size on they lie
beyond them. -/
namespace RecordStore.Binary64

def bounded? : Binary64 → Option Binary64
  | infinite _ => none
  | x => some x

-- The quotient is kept out of sight: reducing it would count up to the largest numbers.
theorem ofInt?_eq : ofInt? = fun i => (ofRatio (i < 0) i.natAbs 1).bounded? := by
  delta ofInt?
  funext i
  generalize ofRatio (i < 0) i.natAbs 1 = x
  cases x <;> rfl

theorem ofQuotient?_eq :
    ofQuotient? = fun num den => (ofRatio (num < 0) num.natAbs den).bounded? := by
  delta ofQuotient?
  funext num den
  generalize ofRatio (num < 0) num.natAbs den = x
  cases x <;> rfl

theorem ofUnits_isNaN (negative : Bool) (units : Nat) : (ofUnits negative units).isNaN = false := by
  unfold ofUnits
  split <;> rfl

theorem ofRatio_isNaN (negative : Bool) (num den : Nat) :
    (ofRatio negative num den).isNaN = false := by
  unfold ofRatio nearest
  exact ofUnits_isNaN negative _

theorem isNaN_of_bounded {x y : Binary64} (hx : x.isNaN = false) (h : x.bounded? = some y) :
    y.isNaN = false := by
  cases x with
  | nan payload => cases hx
  | infinite s => cases h
  | finite s u fits =>
    cases h
    rfl

theorem ofQuotient?_isNaN {num : Int} {den : Nat} {x : Binary64}
    (h : ofQuotient? num den = some x) : x.isNaN = false := by
  rw [ofQuotient?_eq] at h
  exact isNaN_of_bounded (ofRatio_isNaN (num < 0) num.natAbs den) h

/-! ### Rounding to 53 bits -/

theorem le_roundDiv (a b : Nat) : a / b ≤ roundDiv a b := by
  simp only [roundDiv]
  repeat' split
  all_goals omega

theorem roundDiv_le (a b : Nat) : roundDiv a b ≤ a / b + 1 := by
  simp only [roundDiv]
  repeat' split
  all_goals omega

theorem roundDiv_lt_iff {a b k : Nat} (hb : 0 < b) (heven : k % 2 = 0) :
    roundDiv a b < k ↔ 2 * a < (2 * k - 1) * b := by
  have hlow := le_roundDiv a b
  have hhigh := roundDiv_le a b
  have hsplit := Nat.div_add_mod a b
  have hrest := Nat.mod_lt a hb
  rw [Nat.sub_mul, one_mul]
  rcases Nat.lt_trichotomy (a / b + 1) k with h | h | h
  · have hle : b * (a / b + 1 + 1) ≤ b * k := Nat.mul_le_mul_left b h
    rw [Nat.mul_add, Nat.mul_add] at hle
    refine iff_of_true (by omega) ?_
    rw [Nat.mul_assoc, Nat.mul_comm k b]
    omega
  · have hodd : a / b % 2 = 1 := by omega
    have hup : roundDiv a b < k ↔ 2 * (a % b) < b := by
      simp only [roundDiv, hodd, Nat.one_ne_zero, if_false]
      split
      · omega
      · split <;> omega
    rw [hup, ← h, Nat.mul_assoc, Nat.add_mul, Nat.mul_comm (a / b) b]
    omega
  · have hle : b * k ≤ b * (a / b) := Nat.mul_le_mul_left b (by omega)
    refine iff_of_false (by omega) ?_
    rw [Nat.mul_assoc, Nat.mul_comm k b]
    omega

theorem spacing_eq (units : Nat) : spacing units = 2 ^ (units.log2 - 52) := rfl

/-- Rounded to 53 bits, a number is a multiple of the distance to its neighbours. -/
theorem mod_spacing {q s : Nat} (h : s = 0 ∨ 2 ^ 52 ≤ q) (hq : q ≤ 2 ^ 53) :
    q * 2 ^ s % spacing (q * 2 ^ s) = 0 := by
  rw [spacing_eq]
  rcases Nat.eq_zero_or_pos q with rfl | hpos
  · rw [Nat.zero_mul, Nat.zero_mod]
  have hne : q * 2 ^ s ≠ 0 := by positivity
  rcases Nat.lt_or_ge q (2 ^ 53) with hlt | hge
  · have hlog : (q * 2 ^ s).log2 < s + 53 := by
      rw [Nat.log2_lt hne, Nat.pow_add, Nat.mul_comm (2 ^ s)]
      exact Nat.mul_lt_mul_of_pos_right hlt (Nat.two_pow_pos s)
    have hdvd : 2 ^ ((q * 2 ^ s).log2 - 52) ∣ 2 ^ s := Nat.pow_dvd_pow 2 (by omega)
    exact Nat.mod_eq_zero_of_dvd (hdvd.mul_left q)
  · have heq : q = 2 ^ 53 := by omega
    rw [heq, ← Nat.pow_add, Nat.log2_two_pow]
    exact Nat.mod_eq_zero_of_dvd (Nat.pow_dvd_pow 2 (by omega))

section
variable {a b : Nat}

def scale (a b : Nat) : Nat := (a / b).log2 - 52

theorem quotient_lt (a b : Nat) : a / b < 2 ^ ((a / b).log2 + 1) := Nat.lt_log2_self

theorem rounded_le (a b : Nat) :
    (a / b / 2 ^ scale a b + 1) * 2 ^ scale a b ≤ 2 ^ ((a / b).log2 + 1) := by
  have hscale : scale a b ≤ (a / b).log2 + 1 := by
    rw [scale]
    omega
  have hpow := Nat.pow_sub_mul_pow 2 hscale
  have hlt : a / b / 2 ^ scale a b < 2 ^ ((a / b).log2 + 1 - scale a b) := by
    rw [Nat.div_lt_iff_lt_mul (Nat.two_pow_pos _), hpow]
    exact quotient_lt a b
  calc (a / b / 2 ^ scale a b + 1) * 2 ^ scale a b
    _ ≤ 2 ^ ((a / b).log2 + 1 - scale a b) * 2 ^ scale a b := Nat.mul_le_mul_right _ hlt
    _ = 2 ^ ((a / b).log2 + 1) := hpow

theorem le_rounded (h : a / b ≠ 0) : 2 ^ (a / b).log2 ≤ a / b / 2 ^ scale a b * 2 ^ scale a b := by
  have hpow := Nat.pow_sub_mul_pow 2 (by rw [scale]; omega : scale a b ≤ (a / b).log2)
  rw [← hpow]
  refine Nat.mul_le_mul_right _ ?_
  rw [Nat.le_div_iff_mul_le (Nat.two_pow_pos _), hpow]
  exact Nat.log2_self_le h

theorem nearest_bounds (a b : Nat) :
    a / b / 2 ^ scale a b ≤ roundDiv a (b * 2 ^ scale a b) ∧
      roundDiv a (b * 2 ^ scale a b) ≤ a / b / 2 ^ scale a b + 1 := by
  rw [Nat.div_div_eq_div_mul]
  exact ⟨le_roundDiv _ _, roundDiv_le _ _⟩

theorem ne_zero_of_lt_log2 {n k : Nat} (h : k < n.log2) : n ≠ 0 := by
  rintro rfl
  rw [Nat.log2_zero] at h
  omega

theorem nearest_lt_iff (hb : 0 < b) {limit : Nat} (hlimit : 53 ≤ limit) :
    roundDiv a (b * 2 ^ scale a b) * 2 ^ scale a b < 2 ^ limit ↔
      2 * a < (2 * 2 ^ 53 - 1) * (2 ^ (limit - 53) * b) := by
  obtain ⟨hlow, hhigh⟩ := nearest_bounds a b
  have hpow : 2 ^ limit = 2 ^ 53 * 2 ^ (limit - 53) := by
    rw [← Nat.pow_add, Nat.add_sub_cancel' hlimit]
  have hcomm : b * 2 ^ limit = 2 ^ 53 * (2 ^ (limit - 53) * b) := by
    rw [hpow]
    ring
  have hquotient := Nat.div_add_mod a b
  have hrest := Nat.mod_lt a hb
  rcases Nat.lt_trichotomy ((a / b).log2 + 1) limit with h | h | h
  · -- Even rounded up, it has fewer places.
    have hhalf : 2 * 2 ^ ((a / b).log2 + 1) ≤ 2 ^ limit := by
      rw [← Nat.pow_succ']
      exact Nat.pow_le_pow_right Nat.two_pos h
    have hround := (Nat.mul_le_mul_right (2 ^ scale a b) hhigh).trans (rounded_le a b)
    have hpos := Nat.two_pow_pos ((a / b).log2 + 1)
    refine iff_of_true (by omega) ?_
    have hb' : b * (a / b + 1) ≤ b * 2 ^ ((a / b).log2 + 1) :=
      Nat.mul_le_mul_left b (quotient_lt a b)
    have hb'' : b * (2 * 2 ^ ((a / b).log2 + 1)) ≤ b * 2 ^ limit := Nat.mul_le_mul_left b hhalf
    rw [Nat.mul_add, Nat.mul_one] at hb'
    rw [Nat.mul_left_comm] at hb''
    omega
  · have hscale : scale a b = limit - 53 := by
      rw [scale]
      omega
    rw [hscale, hpow, Nat.mul_lt_mul_right (Nat.two_pow_pos _), ← hscale, Nat.mul_comm _ b]
    exact roundDiv_lt_iff (Nat.mul_pos hb (Nat.two_pow_pos _)) rfl
  · have hne : a / b ≠ 0 := ne_zero_of_lt_log2 (by omega : 51 < (a / b).log2)
    have hbig := Nat.pow_le_pow_right Nat.two_pos (Nat.le_of_lt_succ h)
    have hround := (le_rounded hne).trans (Nat.mul_le_mul_right (2 ^ scale a b) hlow)
    refine iff_of_false (by omega) ?_
    have hself := hbig.trans (Nat.log2_self_le hne)
    have hb' : b * 2 ^ limit ≤ b * (a / b) := Nat.mul_le_mul_left b hself
    omega

theorem nearest_mod_spacing :
    roundDiv a (b * 2 ^ scale a b) * 2 ^ scale a b %
      spacing (roundDiv a (b * 2 ^ scale a b) * 2 ^ scale a b) = 0 := by
  obtain ⟨hlow, hhigh⟩ := nearest_bounds a b
  have hround := (Nat.mul_le_mul_right (2 ^ scale a b) hhigh).trans (rounded_le a b)
  refine mod_spacing ?_ ?_
  · rcases Nat.lt_or_ge (a / b).log2 52 with h | h
    · exact .inl (by rw [scale]; omega)
    · have hne : a / b ≠ 0 := ne_zero_of_lt_log2 (by omega : 51 < (a / b).log2)
      have hpow : 2 ^ (a / b).log2 = 2 ^ 52 * 2 ^ scale a b := by
        rw [← Nat.pow_add, scale, Nat.add_sub_cancel' h]
      have hle := le_rounded hne
      rw [hpow] at hle
      exact .inr ((Nat.le_of_mul_le_mul_right hle (Nat.two_pow_pos _)).trans hlow)
  · have hpow : 2 ^ ((a / b).log2 + 1) ≤ 2 ^ 53 * 2 ^ scale a b := by
      rw [← Nat.pow_add]
      refine Nat.pow_le_pow_right Nat.two_pos ?_
      rw [scale]
      omega
    exact Nat.le_of_mul_le_mul_right (hround.trans hpow) (Nat.two_pow_pos _)

end

/-- The least integer that is rounded beyond the finite numbers: half a unit of their last place
above the greatest. -/
def leastInfinite : Nat := (2 ^ 54 - 1) * 2 ^ 970

theorem bounded?_ofUnits {negative : Bool} {units : Nat} (h : units % spacing units = 0) :
    (ofUnits negative units).bounded? = none ↔ ¬ units < Nat.pow 2 2098 := by
  rw [ofUnits]
  split
  · rename_i hfits
    exact iff_of_false (Option.some_ne_none _) (fun hn => hn hfits.1)
  · rename_i hfits
    exact iff_of_true rfl fun hlt => hfits ⟨hlt, h⟩

theorem bounded?_ofRatio {negative : Bool} {num den : Nat} (h : 0 < den) :
    (ofRatio negative num den).bounded? = none ↔ leastInfinite * den ≤ num := by
  have hround : ofRatio negative num den =
      ofUnits negative (roundDiv (num * one) (den * 2 ^ scale (num * one) den) *
        2 ^ scale (num * one) den) := rfl
  -- The exponents are kept out of sight, so that no power of theirs is worked out.
  obtain ⟨fraction, hfraction⟩ : ∃ n, n = 1074 := ⟨_, rfl⟩
  obtain ⟨limit, hlimit⟩ : ∃ n, n = 2098 := ⟨_, rfl⟩
  obtain ⟨room, hroom⟩ : ∃ n, n = 970 := ⟨_, rfl⟩
  have hone : one = 2 ^ fraction := by
    delta one
    rw [← hfraction, Nat.pow_eq]
  have hexponent : limit - 53 = room + 1 + fraction := by omega
  have hpow : 2 ^ (limit - 53) = 2 * 2 ^ room * 2 ^ fraction := by
    rw [hexponent, Nat.pow_add, Nat.pow_succ']
  rw [hround, bounded?_ofUnits nearest_mod_spacing, ← hlimit, Nat.pow_eq,
    nearest_lt_iff h (by omega), hpow, hone, leastInfinite, ← hroom, Nat.not_lt]
  generalize hunit : 2 ^ fraction = unit
  have hpos : 0 < 2 * unit := by
    rw [← hunit]
    exact Nat.mul_pos Nat.two_pos (Nat.two_pow_pos fraction)
  have hleft : (2 * 2 ^ 53 - 1) * (2 * 2 ^ room * unit * den) =
      2 * unit * ((2 ^ 54 - 1) * 2 ^ room * den) := by ring
  have hright : 2 * (num * unit) = 2 * unit * num := by ring
  rw [hleft, hright]
  exact Nat.mul_le_mul_left_iff hpos

theorem ofInt?_eq_none {i : Int} : ofInt? i = none ↔ leastInfinite ≤ i.natAbs := by
  rw [ofInt?_eq, bounded?_ofRatio Nat.one_pos, Nat.mul_one]

theorem ofQuotient?_eq_none {num : Int} {den : Nat} (h : 0 < den) :
    ofQuotient? num den = none ↔ leastInfinite * den ≤ num.natAbs := by
  rw [ofQuotient?_eq, bounded?_ofRatio h]

end RecordStore.Binary64
