import RecordStore.Aggregate.GroupKey
import RecordStore.Proofs.Binary64Range

/-! Arithmetic of numbers that has no result: an integer beyond the binary64 numbers meets one of
them. -/
namespace RecordStore

namespace Num

def TooLarge : Num → Prop
  | int i => Binary64.leastInfinite ≤ i.natAbs
  | float _ => False

def Overflows (a b : Num) : Prop := ¬ (a.isInt ∧ b.isInt) ∧ (a.TooLarge ∨ b.TooLarge)

theorem toBinary64?_eq_none {n : Num} : n.toBinary64? = none ↔ n.TooLarge := by
  cases n with
  | int i => rw [toBinary64?, Binary64.ofInt?_eq_none, TooLarge]
  | float x => exact iff_of_false (by simp [toBinary64?]) not_false

theorem isInt_of_tooLarge {n : Num} (h : n.TooLarge) : n.isInt := by
  cases n with
  | int i => rfl
  | float x => exact absurd h not_false

section
variable {onInt : Int → Int → Int} {onFloat : Binary64 → Binary64 → Binary64} {a b c : Num}

theorem lift_of_float (h : ¬ (a.isInt ∧ b.isInt)) : lift onInt onFloat a b = (do
    return float (onFloat (← a.toBinary64?) (← b.toBinary64?))) := by
  cases a with
  | int i =>
    cases b with
    | int j => exact absurd ⟨rfl, rfl⟩ h
    | float y => rfl
  | float x => cases b <;> rfl

theorem lift_eq_none : lift onInt onFloat a b = none ↔ Overflows a b := by
  by_cases h : a.isInt ∧ b.isInt
  · cases a with
    | int i =>
      cases b with
      | int j => exact iff_of_false (by simp [lift]) fun ho => ho.1 h
      | float y => cases h.2
    | float x => cases h.1
  · rw [lift_of_float h, Overflows, ← toBinary64?_eq_none, ← toBinary64?_eq_none]
    cases a.toBinary64? <;> cases b.toBinary64? <;> simp [h]

theorem isInt_lift (h : lift onInt onFloat a b = some c) : c.isInt ↔ a.isInt ∧ b.isInt := by
  by_cases hint : a.isInt ∧ b.isInt
  · cases a with
    | int i =>
      cases b with
      | int j =>
        cases h
        exact iff_of_true rfl hint
      | float y => cases hint.2
    | float x => cases hint.1
  · rw [lift_of_float hint] at h
    obtain ⟨x, -, h⟩ := Option.bind_eq_some_iff.mp h
    obtain ⟨y, -, h⟩ := Option.bind_eq_some_iff.mp h
    cases h
    exact iff_of_false (by simp [isInt]) hint

theorem of_lift (h : lift onInt onFloat a b = some c) :
    ¬ Overflows a b ∧ (c.isInt ↔ a.isInt ∧ b.isInt) ∧ (c.TooLarge → c.isInt) :=
  ⟨fun ho => Option.some_ne_none c (h.symm.trans (lift_eq_none.mpr ho)), isInt_lift h,
    isInt_of_tooLarge⟩

theorem exists_lift (h : ¬ Overflows a b) : ∃ c, lift onInt onFloat a b = some c :=
  Option.ne_none_iff_exists'.mp fun hn => h (lift_eq_none.mp hn)

end

end Num

namespace Aggregate

open RecordStore.Num (Overflows lift_eq_none of_lift exists_lift)

/-- What has to be turned into a binary64 number of a value in finding its bucket is too large: the
distance from the base if both are integers, and else the value. -/
def DistanceTooLarge : Num → Num → Prop
  | .int base, .int value => (Num.int (value - base)).TooLarge
  | _, value => value.TooLarge

/-- Not all are integers, and an integer that is too large comes up in finding the bucket. -/
def BucketOverflows (base step value : Num) : Prop :=
  ¬ (base.isInt ∧ step.isInt ∧ value.isInt) ∧
    (base.TooLarge ∨ step.TooLarge ∨ DistanceTooLarge base value)

theorem distanceTooLarge_of_float {base value : Num} (h : ¬ (base.isInt ∧ value.isInt)) :
    DistanceTooLarge base value ↔ value.TooLarge := by
  cases base with
  | int b =>
    cases value with
    | int v => exact absurd ⟨rfl, rfl⟩ h
    | float y => exact Iff.rfl
  | float x => exact Iff.rfl

theorem distanceTooLarge_of_sub {base value d : Num} (hd : value.sub base = some d)
    (h : base.isInt ∧ value.isInt) : DistanceTooLarge base value ↔ d.TooLarge := by
  cases base with
  | int b =>
    cases value with
    | int v =>
      cases hd
      exact Iff.rfl
    | float y => cases h.2
  | float x => cases h.1

/-- A bucket is found unless one of four operations fails; after them the correction cannot. -/
theorem bucketNumber?_eq_none {base step value : Num} :
    bucketNumber? base step value = none ↔ BucketOverflows base step value := by
  have hbase := @Num.isInt_of_tooLarge base
  have hstep := @Num.isInt_of_tooLarge step
  have hdistance := @distanceTooLarge_of_float base value
  rw [bucketNumber?, BucketOverflows]
  cases hd : value.sub base with
  | none =>
    have hfails := lift_eq_none.mp hd
    rw [Overflows] at hfails
    exact iff_of_true rfl (by grind)
  | some d =>
    have hdistance' := distanceTooLarge_of_sub hd
    obtain ⟨hsub, hint, hlarge⟩ := of_lift hd
    rw [Overflows] at hsub
    cases hi : d.floorDiv step with
    | none =>
      have hfails := lift_eq_none.mp hi
      rw [Overflows] at hfails
      exact iff_of_true (by simp [hi]) (by grind)
    | some i =>
      obtain ⟨hdiv, hint', hlarge'⟩ := of_lift hi
      rw [Overflows] at hdiv
      obtain ⟨p, hp⟩ : ∃ p, i.mul step = some p := exists_lift (by rw [Overflows]; grind)
      obtain ⟨-, hint'', hlarge''⟩ := of_lift hp
      cases hk : base.add p with
      | none =>
        have hfails := lift_eq_none.mp hk
        rw [Overflows] at hfails
        exact iff_of_true (by simp [hi, hp, hk]) (by grind)
      | some key =>
        obtain ⟨hadd, hint₃, hlarge₃⟩ := of_lift hk
        rw [Overflows] at hadd
        have hlast : ¬ Overflows key step := by
          rw [Overflows]
          grind
        obtain ⟨below, hbelow⟩ : ∃ n, key.sub step = some n := exists_lift hlast
        obtain ⟨above, habove⟩ : ∃ n, key.add step = some n := exists_lift hlast
        refine iff_of_false ?_ (by grind)
        simp only [hi, hp, hk, hbelow, habove, Option.bind_eq_bind, Option.bind_some]
        split <;> simp

/-! ### Sums and averages -/

def total? (ns : List Num) : Option Num := ns.foldlM Num.add (.int 0)

/-- The integers up to the first other number have too large a sum, or too large an integer comes
after it. -/
def SumOverflows (ns : List Num) : Prop :=
  ∃ (is : List Int) (x : Binary64) (rest : List Num), ns = is.map Num.int ++ .float x :: rest ∧
    (Binary64.leastInfinite ≤ is.sum.natAbs ∨ ∃ n ∈ rest, n.TooLarge)

/-- Integers whose average is too large, or too many numbers for the average of others. -/
def AverageOverflows (ns : List Num) : Prop :=
  (∃ is : List Int, is ≠ [] ∧ ns = is.map Num.int ∧
    Binary64.leastInfinite * is.length ≤ is.sum.natAbs) ∨
  (∃ x, Num.float x ∈ ns) ∧ Binary64.leastInfinite ≤ ns.length

theorem add_of_float {a b : Num} (h : ¬ (a.isInt ∧ b.isInt)) :
    a.add b = none ∧ (a.TooLarge ∨ b.TooLarge) ∨
      ∃ x, a.add b = some (.float x) ∧ ¬ (a.TooLarge ∨ b.TooLarge) := by
  cases hsum : a.add b with
  | none => exact .inl ⟨rfl, (lift_eq_none.mp hsum).2⟩
  | some sum =>
    obtain ⟨hfits, hint, -⟩ := of_lift hsum
    cases sum with
    | int i => exact absurd (hint.mp rfl) h
    | float x => exact .inr ⟨x, rfl, fun hlarge => hfits ⟨h, hlarge⟩⟩

theorem addAll_float {x : Binary64} {ns : List Num} :
    ns.foldlM Num.add (.float x) = none ↔ ∃ n ∈ ns, n.TooLarge := by
  induction ns generalizing x with
  | nil => exact iff_of_false (by simp) (by simp)
  | cons n ns ih =>
    have hlarge : (Num.float x).TooLarge ∨ n.TooLarge ↔ n.TooLarge := or_iff_right not_false
    rw [List.foldlM_cons]
    have hmixed : ¬ ((Num.float x).isInt ∧ n.isInt) := by simp [Num.isInt]
    rcases add_of_float hmixed with ⟨hn, h⟩ | ⟨y, hn, h⟩
    · rw [hn]
      exact iff_of_true rfl ⟨n, List.mem_cons_self, hlarge.mp h⟩
    · rw [hn]
      simpa [hlarge.not.mp h] using ih

theorem addAll_int {i : Int} {ns : List Num} : ns.foldlM Num.add (.int i) = none ↔
    ∃ (is : List Int) (x : Binary64) (rest : List Num), ns = is.map Num.int ++ .float x :: rest ∧
      (Binary64.leastInfinite ≤ (i + is.sum).natAbs ∨ ∃ n ∈ rest, n.TooLarge) := by
  induction ns generalizing i with
  | nil => exact iff_of_false (by simp) (by simp)
  | cons n ns ih =>
    rw [List.foldlM_cons]
    cases n with
    | int j =>
      have hsum : (Num.int i).add (.int j) = some (.int (i + j)) := rfl
      rw [hsum]
      refine ih.trans ?_
      constructor
      · intro h
        obtain ⟨is, x, rest, rfl, h⟩ := h
        exact ⟨j :: is, x, rest, rfl, by rwa [List.sum_cons, ← Int.add_assoc]⟩
      · intro h
        obtain ⟨is, x, rest, hns, h⟩ := h
        cases is with
        | nil => cases hns
        | cons j' is =>
          cases hns
          exact ⟨is, x, rest, rfl, by rwa [List.sum_cons, ← Int.add_assoc] at h⟩
    | float y =>
      have hsplit : (∃ (is : List Int) (x : Binary64) (rest : List Num),
          Num.float y :: ns = is.map Num.int ++ .float x :: rest ∧
            (Binary64.leastInfinite ≤ (i + is.sum).natAbs ∨ ∃ n ∈ rest, n.TooLarge)) ↔
          (Num.int i).TooLarge ∨ ∃ n ∈ ns, n.TooLarge := by
        constructor
        · intro h
          obtain ⟨is, x, rest, hns, h⟩ := h
          cases is with
          | nil =>
            cases hns
            rwa [List.sum_nil, Int.add_zero] at h
          | cons j is => cases hns
        · intro h
          exact ⟨[], y, ns, rfl, by rwa [List.sum_nil, Int.add_zero]⟩
      have hlarge : (Num.int i).TooLarge ∨ (Num.float y).TooLarge ↔ (Num.int i).TooLarge :=
        or_iff_left not_false
      rw [hsplit]
      have hmixed : ¬ ((Num.int i).isInt ∧ (Num.float y).isInt) := by simp [Num.isInt]
      rcases add_of_float hmixed with ⟨hn, h⟩ | ⟨z, hn, h⟩
      · rw [hn]
        exact iff_of_true rfl (.inl (hlarge.mp h))
      · rw [hn]
        simpa [hlarge.not.mp h] using addAll_float

/-- Numbers have a sum unless too large an integer meets a binary64 number. -/
theorem total?_eq_none {ns : List Num} : total? ns = none ↔ SumOverflows ns := by
  refine addAll_int.trans ?_
  simp only [Int.zero_add, SumOverflows]

theorem isInt_addAll {a sum : Num} {ns : List Num} (h : ns.foldlM Num.add a = some sum) :
    sum.isInt ↔ a.isInt ∧ ∀ n ∈ ns, n.isInt := by
  induction ns generalizing a with
  | nil =>
    cases h
    simp
  | cons n ns ih =>
    rw [List.foldlM_cons] at h
    obtain ⟨b, hb, h⟩ := Option.bind_eq_some_iff.mp h
    rw [ih h, (of_lift hb).2.1, List.forall_mem_cons, and_assoc]

theorem total?_ints (is : List Int) : total? (is.map Num.int) = some (.int is.sum) := by
  have hfrom (i : Int) : (is.map Num.int).foldlM Num.add (.int i) = some (.int (i + is.sum)) := by
    induction is generalizing i with
    | nil => simp
    | cons j is ih =>
      rw [List.sum_cons, ← Int.add_assoc]
      exact ih (i + j)
  rw [total?, hfrom, Int.zero_add]

theorem eq_map_int {ns : List Num} (h : ∀ n ∈ ns, n.isInt) : ∃ is : List Int, ns = is.map .int := by
  induction ns with
  | nil => exact ⟨[], rfl⟩
  | cons n ns ih =>
    obtain ⟨hn, hns⟩ := List.forall_mem_cons.mp h
    obtain ⟨is, rfl⟩ := ih hns
    cases n with
    | int i => exact ⟨i :: is, rfl⟩
    | float x => cases hn

theorem divCount_eq_none {ns : List Num} {sum : Num} (hne : ns ≠ []) (h : total? ns = some sum) :
    sum.divCount ns.length = none ↔ AverageOverflows ns := by
  have hkind := isInt_addAll h
  cases sum with
  | int i =>
    obtain ⟨is, rfl⟩ := eq_map_int (hkind.mp rfl).2
    rw [total?_ints] at h
    cases h
    have hpos : 0 < is.length := by
      rw [← List.length_map (f := Num.int)]
      exact List.length_pos_iff.mpr hne
    rw [Num.divCount, List.length_map, Binary64.ofQuotient?_eq_none hpos]
    constructor
    · intro h
      exact .inl ⟨is, List.length_pos_iff.mp hpos, rfl, h⟩
    · intro h
      rcases h with ⟨js, -, hjs, h⟩ | ⟨⟨x, hx⟩, -⟩
      · rw [List.map_inj_right (fun _ _ h => Num.int.inj h)] at hjs
        rwa [hjs]
      · simp at hx
  | float y =>
    have hfloat : ∃ x, Num.float x ∈ ns := by
      by_contra hno
      refine Bool.false_ne_true (hkind.mpr ⟨rfl, fun n hn => ?_⟩)
      cases n with
      | int i => rfl
      | float x => exact absurd ⟨x, hn⟩ hno
    have hcount : (Num.float y).divCount ns.length = none ↔
        Binary64.leastInfinite ≤ ns.length := by
      have hlength := Binary64.ofInt?_eq_none (i := ns.length)
      rw [Int.natAbs_natCast] at hlength
      rw [← hlength, Num.divCount]
      cases Binary64.ofInt? ns.length <;> simp
    rw [hcount, AverageOverflows]
    constructor
    · intro h
      exact .inr ⟨hfloat, h⟩
    · intro h
      rcases h with ⟨is, -, rfl, -⟩ | ⟨-, h⟩
      · obtain ⟨x, hx⟩ := hfloat
        simp at hx
      · exact h

end Aggregate

end RecordStore
