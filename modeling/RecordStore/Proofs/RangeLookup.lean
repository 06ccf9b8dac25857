import RecordStore.Aggregate.GroupKey
import RecordStore.Proofs.AcceptedClauses
import RecordStore.Proofs.RangeOrder
import RecordStore.Proofs.TotalOrder

/-! The range of a value. It is found by halving the row of ends and confirmed by its start, which
for ranges in a row gives the one range that holds the value, if any does. -/
namespace RecordStore

namespace Num

def rank (n : Num) : WithBot (WithTop ℤ) := n.place?.elim ⊥ Place.rank

variable {n m : Num}

theorem lt_eq_decide (hn : n.isNaN = false) (hm : m.isNaN = false) :
    n.lt m = decide (n.rank < m.rank) := by
  obtain ⟨p, hp⟩ := place?_of_not_isNaN hn
  obtain ⟨q, hq⟩ := place?_of_not_isNaN hm
  rw [lt, rank, rank, hp, hq]
  exact p.lt_eq q

theorem le_iff (hn : n.isNaN = false) (hm : m.isNaN = false) : n.le m ↔ n.rank ≤ m.rank := by
  obtain ⟨p, hp⟩ := place?_of_not_isNaN hn
  obtain ⟨q, hq⟩ := place?_of_not_isNaN hm
  rw [le, rank, rank, hp, hq]
  exact p.le_iff q

end Num

namespace Aggregate

/-! ### Halving -/

section
variable {α : Type} {lt : α → α → Bool} {point : α}

/-- In a row in which all behind an entry above the point are above it too, halving ends at the
first entry above the point. -/
theorem bisect_eq_findIdx {row : Array α} {low high : Nat}
    (hrow : row.toList.Pairwise fun a b => lt point a → lt point b) (hhigh : high ≤ row.size)
    (hfrom : low ≤ row.toList.findIdx (lt point)) (hupto : row.toList.findIdx (lt point) ≤ high) :
    bisect lt row point low high = row.toList.findIdx (lt point) := by
  -- The first entry above the point stays between the two ends of what is left.
  fun_induction bisect lt row point low high with
  | case1 low high hless middle entry hentry habove ih =>
    obtain ⟨hmiddle, rfl⟩ := Array.getElem?_eq_some_iff.mp hentry
    apply ih (by omega) hfrom
    by_contra hlater
    have hnot := List.not_of_lt_findIdx (Nat.lt_of_not_le hlater)
    rw [Array.getElem_toList, habove] at hnot
    cases hnot
  | case2 low high hless middle entry hentry hbelow ih =>
    obtain ⟨hmiddle, rfl⟩ := Array.getElem?_eq_some_iff.mp hentry
    apply ih hhigh _ hupto
    by_contra hearlier
    have hin : row.toList.findIdx (lt point) < row.toList.length := by
      rw [Array.length_toList]
      omega
    have hfound : lt point row.toList[row.toList.findIdx (lt point)] := List.findIdx_getElem
    by_cases hsame : row.toList.findIdx (lt point) = middle
    · simp only [hsame, Array.getElem_toList] at hfound
      exact hbelow hfound
    · apply hbelow
      have hmiddle : middle < row.toList.length := by simpa using hmiddle
      exact List.pairwise_iff_getElem.mp hrow _ middle hin hmiddle (by omega) hfound
  | case3 low high hless middle hnone =>
    rw [Array.getElem?_eq_none_iff] at hnone
    omega
  | case4 low high hless => omega

/-! ### Ranges in a row -/

def Range.bounds (r : Range α) : List α := r.start.toList ++ r.finish.toList

theorem Range.mem_bounds {r : Range α} {b : α} : b ∈ r.bounds ↔ b ∈ r.start ∨ b ∈ r.finish := by
  simp [bounds]

def Range.admits (lt : α → α → Bool) (r : Range α) (point : α) : Bool :=
  !r.start.any (lt point) && r.finish.all (lt point)

variable {β : Type} [LinearOrder β] (rank : α → β)

def Range.Proper (r : Range α) : Prop := ∀ s ∈ r.start, ∀ f ∈ r.finish, rank s < rank f

def Range.Precedes (r next : Range α) : Prop :=
  next.Proper rank ∧ ∃ f ∈ r.finish, ∃ s ∈ next.start, rank f ≤ rank s

instance : Trans (Range.Precedes rank) (Range.Precedes rank) (Range.Precedes rank) where
  trans := by
    rintro a b c ⟨hproper, f, hf, s, hs, hle⟩ ⟨hproper', f', hf', s', hs', hle'⟩
    exact ⟨hproper', f, hf, s', hs', hle.trans ((hproper s hs f' hf').le.trans hle')⟩

def InRow (rs : List (Range α)) : Prop := rs.Pairwise (Range.Precedes rank)

variable {rank}

theorem InRow.ends {rs : List (Range α)} (h : InRow rank rs) :
    (rs.filterMap (·.finish)).Pairwise fun a b => rank a ≤ rank b := by
  rw [List.pairwise_filterMap]
  refine h.imp fun hprecedes f hf f' hf' => ?_
  obtain ⟨hproper, g, hg, s, hs, hle⟩ := hprecedes
  cases hf.symm.trans hg
  exact hle.trans (hproper s hs f' hf').le

def Ranks (rank : α → β) (lt : α → α → Bool) (point : α) (rs : List (Range α)) : Prop :=
  ∀ r ∈ rs, ∀ b ∈ r.bounds, lt point b = decide (rank point < rank b)

theorem Ranks.ends {rs : List (Range α)} (h : Ranks rank lt point rs) :
    ∀ f ∈ rs.filterMap (·.finish), lt point f = decide (rank point < rank f) := by
  intro f hf
  obtain ⟨r, hr, hf⟩ := List.mem_filterMap.mp hf
  exact h r hr f (Range.mem_bounds.mpr (.inr hf))

def confirmed (lt : α → α → Bool) (rs : List (Range α)) (point : α) (index : Nat) : Option Nat :=
  (rs[index]?).bind fun r => if r.start.any (lt point) then none else some index

theorem lookup_eq (rs : List (Range α)) : lookup lt rs point = confirmed lt rs point
    (bisect lt (rs.filterMap (·.finish)).toArray point 0 (rs.filterMap (·.finish)).length) := by
  rw [lookup, confirmed, List.size_toArray]
  generalize bisect lt (rs.filterMap (·.finish)).toArray point 0 _ = index
  cases rs[index]? with
  | none => rfl
  | some r =>
    obtain ⟨_ | s, f⟩ := r
    · rfl
    · cases h : lt point s <;> simp [h]

theorem confirmed_succ (r : Range α) (rest : List (Range α)) (index : Nat) :
    confirmed lt (r :: rest) point (index + 1) = (confirmed lt rest point index).map (· + 1) := by
  rw [confirmed, confirmed, List.getElem?_cons_succ]
  cases rest[index]? with
  | none => rfl
  | some r => cases h : r.start.any (lt point) <;> simp [h]

theorem not_admits_behind {r next : Range α} {f : α} (h : r.Precedes rank next)
    (hranks : Ranks rank lt point [r, next]) (hf : f ∈ r.finish) (habove : lt point f) :
    next.admits lt point = false := by
  obtain ⟨-, g, hg, s, hs, hle⟩ := h
  cases hf.symm.trans hg
  have hend := hranks r (by simp) f (Range.mem_bounds.mpr (.inr hf))
  have hstart := hranks next (by simp) s (Range.mem_bounds.mpr (.inl hs))
  rw [habove] at hend
  have hless : rank point < rank f := of_decide_eq_true hend.symm
  rw [decide_eq_true (hless.trans_le hle)] at hstart
  rw [Range.admits, hs, Option.any_some, hstart]
  rfl

theorem confirmed_findIdx {rs : List (Range α)} (h : InRow rank rs)
    (hranks : Ranks rank lt point rs) :
    confirmed lt rs point ((rs.filterMap (·.finish)).findIdx (lt point)) =
      rs.findIdx? (·.admits lt point) := by
  induction rs with
  | nil => rfl
  | cons r rest ih =>
    obtain ⟨hbehind, hrest⟩ := List.pairwise_cons.mp h
    have ih := ih hrest fun r' hr' => hranks r' (List.mem_cons_of_mem r hr')
    cases hf : r.finish with
    | none =>
      -- Only the last range lacks an end.
      have hlast : rest = [] := by
        apply List.eq_nil_iff_forall_not_mem.mpr
        intro next hnext
        obtain ⟨-, f, hf', -⟩ := hbehind next hnext
        cases hf.symm.trans hf'
      subst hlast
      cases hs : r.start.any (lt point) <;> simp [confirmed, Range.admits, hf, hs]
    | some f =>
      rw [List.filterMap_cons_some hf, List.findIdx_cons, List.findIdx?_cons]
      cases habove : lt point f with
      | false =>
        have hno : r.admits lt point = false := by
          simp [Range.admits, hf, habove]
        rw [cond_false, confirmed_succ, ih, hno, if_neg Bool.false_ne_true]
      | true =>
        have hnone : rest.findIdx? (·.admits lt point) = none := by
          rw [List.findIdx?_eq_none_iff]
          intro next hnext
          have hpair : Ranks rank lt point [r, next] := by
            intro r' hr'
            apply hranks r'
            grind
          exact not_admits_behind (hbehind next hnext) hpair hf habove
        rw [cond_true, hnone]
        cases hs : r.start.any (lt point) <;>
          simp [confirmed, Range.admits, hf, hs, habove]

/-- Halving finds the range that a search from the first one on finds. -/
theorem lookup_eq_findIdx? {rs : List (Range α)} (h : InRow rank rs)
    (hranks : Ranks rank lt point rs) :
    lookup lt rs point = rs.findIdx? (·.admits lt point) := by
  have hends : (rs.filterMap (·.finish)).Pairwise fun a b => lt point a → lt point b := by
    refine h.ends.imp_of_mem fun ha hb hle habove => ?_
    rw [hranks.ends _ ha, decide_eq_true_iff] at habove
    rw [hranks.ends _ hb, decide_eq_true_iff]
    exact habove.trans_le hle
  rw [lookup_eq, ← confirmed_findIdx h hranks]
  congr 1
  exact bisect_eq_findIdx hends (Nat.le_refl _) (Nat.zero_le _) List.findIdx_le_length

theorem lookup_eq_none_iff {rs : List (Range α)} (h : InRow rank rs)
    (hranks : Ranks rank lt point rs) :
    lookup lt rs point = none ↔ ∀ r ∈ rs, r.admits lt point = false := by
  rw [lookup_eq_findIdx? h hranks, List.findIdx?_eq_none_iff]

/-- The range that is found is the only one that admits the point. -/
theorem lookup_eq_some_iff {rs : List (Range α)} (h : InRow rank rs)
    (hranks : Ranks rank lt point rs) {index : Nat} :
    lookup lt rs point = some index ↔ ∃ r ∈ rs[index]?, r.admits lt point := by
  rw [lookup_eq_findIdx? h hranks, List.findIdx?_eq_some_iff_getElem]
  constructor
  · rintro ⟨hindex, hadmits, -⟩
    exact ⟨_, List.getElem?_eq_getElem hindex, hadmits⟩
  · rintro ⟨r, hr, hadmits⟩
    obtain ⟨hindex, rfl⟩ := List.getElem?_eq_some_iff.mp hr
    refine ⟨hindex, hadmits, fun j hj hearlier => ?_⟩
    have hprecedes := List.pairwise_iff_getElem.mp h j index (by omega) hindex hj
    have hpair : Ranks rank lt point [rs[j], rs[index]] := by
      intro r' hr'
      apply hranks r'
      grind
    obtain ⟨-, f, hf, -⟩ := id hprecedes
    rw [Range.admits, Bool.and_eq_true, hf, Option.all_some] at hearlier
    rw [not_admits_behind hprecedes hpair hf hearlier.2] at hadmits
    cases hadmits

/-- A range holds what is not before its start and before its end. -/
def Range.Holds (le lt : α → α → Prop) (r : Range α) (x : α) : Prop :=
  (∀ s ∈ r.start, le s x) ∧ ∀ f ∈ r.finish, lt x f

end

namespace Range

def HoldsNumber (r : Range Num) (n : Num) : Prop :=
  r.Holds (fun a b => a.le b) (fun a b => a.lt b) n

def HoldsInstant (r : Range Instant) (t : Instant) : Prop :=
  r.Holds (fun a b => a.micros ≤ b.micros) (fun a b => a.micros < b.micros) t

end Range

/-! ### Ranges of numbers -/

def numbered (r : Range Num) : Range Boundary := ⟨r.start.map .number, r.finish.map .number⟩

def HasNoNaN (rs : List (Range Num)) : Prop := ∀ r ∈ rs, ∀ n ∈ r.bounds, n.isNaN = false

theorem numbered_only {r : Range Boundary}
    (h : ∀ b ∈ r.start.toList ++ r.finish.toList, b.number?.isSome) :
    numbered (r.only Boundary.number?) = r := by
  have hback {b? : Option Boundary} (hb : ∀ b ∈ b?.toList, b.number?.isSome) :
      (b?.bind Boundary.number?).map .number = b? := by
    cases b? with
    | none => rfl
    | some b =>
      have hb := hb b List.mem_cons_self
      cases b with
      | number n => rfl
      | time t => cases hb
  rw [List.forall_mem_append] at h
  rw [numbered, Range.only, hback h.1, hback h.2]

theorem eq_numbered_of_unmixed {place : Location} {rs : List (Range Boundary)}
    {numbers : List (Range Num)} (h : unmixed place rs = .ok (.numberRanges numbers)) :
    rs = numbers.map numbered := by
  obtain ⟨-, htimes⟩ | ⟨hall, hnumbers⟩ := unmixed_eq_ok h
  · cases htimes
  · cases hnumbers
    rw [List.map_map]
    refine ((List.map_congr_left fun r hr => ?_).trans (List.map_id rs)).symm
    exact numbered_only fun b hb => hall b (List.mem_flatMap.mpr ⟨r, hr, hb⟩)

theorem precedes_of_inOrder {r next : Range Num} (h : InOrder (some (numbered r)) (numbered next))
    (hfinish : r.finish.isSome) (hnan : HasNoNaN [r, next]) : r.Precedes Num.rank next := by
  have hbound {b : Num} {q : Range Num} (hq : q ∈ [r, next]) (hb : b ∈ q.start ∨ b ∈ q.finish) :
      b.isNaN = false := hnan q hq b (Range.mem_bounds.mpr hb)
  have hstart : next.start.isSome := by
    have hgiven := h.start.resolve_right nofun
    rwa [numbered, Option.isSome_map] at hgiven
  obtain ⟨f, hf⟩ := Option.isSome_iff_exists.mp hfinish
  obtain ⟨s, hs⟩ := Option.isSome_iff_exists.mp hstart
  refine ⟨fun s hs f hf => ?_, f, hf, s, hs, ?_⟩
  · have hless : f.le s = false :=
      h.within _ (Option.mem_map_of_mem _ hs) _ (Option.mem_map_of_mem _ hf)
    rw [← not_le, ← Num.le_iff (hbound (by simp) (.inr hf)) (hbound (by simp) (.inl hs)), hless]
    exact Bool.false_ne_true
  · have hnot : s.lt f = false :=
      h.across _ (Option.mem_map_of_mem _ hf) _ (Option.mem_map_of_mem _ hs)
    rw [Num.lt_eq_decide (hbound (by simp) (.inl hs)) (hbound (by simp) (.inr hf)),
      decide_eq_false_iff_not] at hnot
    exact not_lt.mp hnot

theorem inRow_of_checkRanges {place : Location} {rs : List (Range Num)} (hnan : HasNoNaN rs)
    (h : checkRanges place none (rs.map numbered) = .ok ()) : InRow Num.rank rs := by
  -- Each range is the one before the next, so that the range before stays general.
  have hchain {r : Range Num} {rest : List (Range Num)} (hnan : HasNoNaN (r :: rest))
      (hfinish : r.finish.isSome ∨ rest = [])
      (h : checkRanges place (some (numbered r)) (rest.map numbered) = .ok ()) :
      (r :: rest).IsChain (Range.Precedes Num.rank) := by
    induction rest generalizing r with
    | nil => exact List.isChain_singleton r
    | cons next rest ih =>
      obtain ⟨horder, hnext, hrest⟩ := checkRanges_cons_eq_ok.mp h
      rw [numbered, Option.isSome_map, List.map_eq_nil_iff] at hnext
      have hpair : HasNoNaN [r, next] := fun q hq => hnan q (by grind)
      have hbehind : HasNoNaN (next :: rest) := fun q hq => hnan q (List.mem_cons_of_mem r hq)
      apply List.IsChain.cons_cons
      · exact precedes_of_inOrder horder (hfinish.resolve_right (List.cons_ne_nil _ _)) hpair
      · exact ih hbehind hnext hrest
  rw [InRow, ← List.isChain_iff_pairwise]
  cases rs with
  | nil => exact List.isChain_nil
  | cons r rest =>
    obtain ⟨-, hfinish, hrest⟩ := checkRanges_cons_eq_ok.mp h
    rw [numbered, Option.isSome_map, List.map_eq_nil_iff] at hfinish
    exact hchain hnan hfinish hrest

theorem ranks_numbers {rs : List (Range Num)} {n : Num} (hnan : HasNoNaN rs)
    (hn : n.isNaN = false) : Ranks Num.rank Num.lt n rs :=
  fun r hr b hb => Num.lt_eq_decide hn (hnan r hr b hb)

theorem admits_number {r : Range Num} {n : Num} (hnan : ∀ b ∈ r.bounds, b.isNaN = false)
    (hn : n.isNaN = false) : r.admits Num.lt n ↔ r.HoldsNumber n := by
  obtain ⟨start, finish⟩ := r
  have hstart : (!start.any n.lt) = true ↔ ∀ s ∈ start, s.le n := by
    cases start with
    | none => simp
    | some s =>
      have hs := hnan s (by simp [Range.bounds])
      simp [Num.lt_eq_decide hn hs, Num.le_iff hs hn]
  rw [Range.admits, Bool.and_eq_true, Range.HoldsNumber, Range.Holds, hstart]
  cases finish <;> simp

/-! ### Ranges of time -/

namespace TimeRanges

theorem precedes_of_steps {r next : Range Instant} (hfinish : r.finish.isSome)
    (hstart : next.start.isSome) (hacross : ∀ p ∈ across r next, p.Rises InTime)
    (hwithin : ∀ p ∈ within next, p.Rises InTime) : r.Precedes Instant.micros next := by
  obtain ⟨f, hf⟩ := Option.isSome_iff_exists.mp hfinish
  obtain ⟨s, hs⟩ := Option.isSome_iff_exists.mp hstart
  refine ⟨fun s hs f hf => ?_, f, hf, s, hs, ?_⟩
  · rw [Option.mem_def] at hs hf
    rw [within, hs, hf, List.forall_mem_singleton] at hwithin
    exact hwithin
  · rw [across, hf, hs, List.forall_mem_singleton] at hacross
    exact not_lt.mp hacross

theorem inRow_of_ascend {rs : List (Range Instant)} (h : (bounds rs).Ascend InTime) :
    InRow Instant.micros rs := by
  have hchain {r : Range Instant} {rest : List (Range Instant)}
      (hstarts : ∀ q ∈ rest, q.start.isSome) (hends : ∀ q ∈ (r :: rest).dropLast, q.finish.isSome)
      (hsteps : ∀ p ∈ after r rest, p.Rises InTime) :
      (r :: rest).IsChain (Range.Precedes Instant.micros) := by
    induction rest generalizing r with
    | nil => exact List.isChain_singleton r
    | cons next rest ih =>
      rw [List.forall_mem_cons] at hstarts
      rw [List.dropLast_cons_cons, List.forall_mem_cons] at hends
      rw [after, List.forall_mem_append, List.forall_mem_append] at hsteps
      apply List.IsChain.cons_cons
      · exact precedes_of_steps hends.1 hstarts.1 hsteps.1.1 hsteps.1.2
      · exact ih hstarts.2 hends.2 hsteps.2
  obtain ⟨⟨hstarts, hends⟩, hsteps⟩ := h
  rw [InRow, ← List.isChain_iff_pairwise]
  cases rs with
  | nil => exact List.isChain_nil
  | cons r rest => exact hchain hstarts hends (List.forall_mem_append.mp hsteps).2

theorem admits_instant {r : Range Instant} {t : Instant} :
    r.admits (fun t u => t.micros < u.micros) t ↔ r.HoldsInstant t := by
  obtain ⟨start, finish⟩ := r
  rw [Range.admits, Bool.and_eq_true, Range.HoldsInstant, Range.Holds]
  cases start <;> cases finish <;> simp

end TimeRanges

/-! ### Keys -/

/-- What a key says of the ranges that hold a value: the index of the one that does, of which there
are no two, or no group if there is none. -/
structure Locates {α : Type} (rs : List (Range α)) (holds : Range α → Prop)
    (key : Except RecordError (Option Value)) : Prop where
  found : ∀ index : Nat, key = .ok (some (.int index)) ↔ ∃ r ∈ rs[index]?, holds r
  unique : ∀ i j : Nat, (∃ r ∈ rs[i]?, holds r) → (∃ r ∈ rs[j]?, holds r) → i = j
  nowhere : key = .ok none ↔ ∀ r ∈ rs, ¬ holds r

theorem indexKey_eq_some_iff {found : Option Nat} {index : Nat} :
    Clause.indexKey found = some (Value.int index) ↔ found = some index := by
  cases found <;> simp [Clause.indexKey, Value.int]

theorem indexKey_eq_none_iff {found : Option Nat} :
    Clause.indexKey found = none ↔ found = none := by
  cases found <;> simp [Clause.indexKey]

theorem locates_of_lookup {α β : Type} [LinearOrder β] {rank : α → β} {lt : α → α → Bool}
    {point : α} {rs : List (Range α)} {holds : Range α → Prop} (h : InRow rank rs)
    (hranks : Ranks rank lt point rs) (hholds : ∀ r ∈ rs, r.admits lt point ↔ holds r) :
    Locates rs holds (.ok (Clause.indexKey (lookup lt rs point))) := by
  have hfound (index : Nat) : lookup lt rs point = some index ↔ ∃ r ∈ rs[index]?, holds r := by
    rw [lookup_eq_some_iff h hranks]
    refine exists_congr fun r => and_congr_right fun hr => ?_
    exact hholds r (List.mem_of_getElem? hr)
  refine ⟨fun index => ?_, fun i j hi hj => ?_, ?_⟩
  · rw [Except.ok.injEq, indexKey_eq_some_iff, hfound]
  · have hsame := ((hfound i).mpr hi).symm.trans ((hfound j).mpr hj)
    exact Option.some.inj hsame
  · rw [Except.ok.injEq, indexKey_eq_none_iff, lookup_eq_none_iff h hranks]
    refine forall₂_congr fun r hr => ?_
    rw [← hholds r hr, Bool.not_eq_true]

theorem readRanges_of_groupingOf [Present] {place : Location} {ms : Record} {rs : List (Range Num)}
    (h : groupingOf place ms = .ok (.numberRanges rs)) :
    ∃ v, readRanges place v = .ok (.numberRanges rs) := by
  rw [groupingOf] at h
  split at h
  · exact ⟨_, h⟩
  · obtain ⟨w, b, hw, -⟩ := readInterval_toWire h
    simp [Grouping.toWire] at hw
  · obtain ⟨w, n, hw, -⟩ := readUnit_toWire h
    simp [Grouping.toWire] at hw
  · cases h

theorem inRow_of_accepted [Present] {options : RequestOptions} {v : Value} {spec : Spec}
    {cs : List Clause}
    {c : Clause} {rs : List (Range Num)} (haccepted : Spec.ofRequest options v = .ok spec)
    (hcs : spec.clauses = some cs) (hc : c ∈ cs) (hg : c.grouping = .numberRanges rs)
    (hnan : HasNoNaN rs) : InRow Num.rank rs := by
  obtain ⟨i, ms, hms⟩ := clauseOf_of_accepted haccepted hcs c hc
  have hread := (clauseOf_eq_ok.mp hms).2.2
  rw [hg] at hread
  obtain ⟨w, hw⟩ := readRanges_of_groupingOf hread
  obtain ⟨bounds, -, hcheck, hunmixed⟩ := readRanges_eq_ok hw
  rw [eq_numbered_of_unmixed hunmixed] at hcheck
  exact inRow_of_checkRanges hnan hcheck

/-- In a clause of an accepted request, the key of a value is the index of the one range that holds
it, and a value that no range holds belongs to no group: for numbers in ranges of numbers, and for
instants in ranges that ascend in time. -/
theorem range_keys_locate [Present] {options : RequestOptions} {v : Value} {spec : Spec}
    {cs : List Clause}
    {c : Clause} (haccepted : Spec.ofRequest options v = .ok spec) (hcs : spec.clauses = some cs)
    (hc : c ∈ cs) (index : Value) :
    (∀ rs, c.grouping = .numberRanges rs → HasNoNaN rs → ∀ n : Num, n.isNaN = false →
      Locates rs (·.HoldsNumber n) (c.resolve index (.num n))) ∧
    ∀ rs, c.grouping = .timeRanges rs → (TimeRanges.bounds rs).Ascend TimeRanges.InTime →
      ∀ (w : Value) (t : Instant), w.toInstant = .ok t →
      Locates rs (·.HoldsInstant t) (c.resolve index w) := by
  refine ⟨fun rs hg hnan n hn => ?_, fun rs hg hascend w t ht => ?_⟩
  · have hrow := inRow_of_accepted haccepted hcs hc hg hnan
    have hkey : c.resolve index (.num n) = .ok (Clause.indexKey (lookup Num.lt rs n)) := by
      rw [Clause.resolve, hg]
      rfl
    rw [hkey]
    exact locates_of_lookup hrow (ranks_numbers hnan hn) fun r hr => admits_number (hnan r hr) hn
  · have hrow := TimeRanges.inRow_of_ascend hascend
    have hpresent : w.isAbsent = false := by
      rcases TimeRanges.dateLike_of_toInstant ht with ⟨s, rfl⟩ | ⟨d, rfl⟩ | ⟨u, rfl⟩ <;> rfl
    have hkey : c.resolve index w =
        .ok (Clause.indexKey (lookup (fun t u => t.micros < u.micros) rs t)) := by
      rw [Clause.resolve, if_neg (by simp [hpresent]), hg, Clause.keyOf, Clause.instant, ht]
      rfl
    rw [hkey]
    exact locates_of_lookup hrow (fun _ _ _ _ => rfl) fun r _ => TimeRanges.admits_instant

/-- An age that starts the last range, and the noon of the day between two others. -/
theorem range_keys_locate_of_age_and_day :
    let ages : List (Range Num) := [⟨none, some (.int 9)⟩, ⟨some (.int 9), none⟩]
    let first : Instant := ⟨63460972800000000, by decide⟩
    let second : Instant := ⟨63461059200000000, by decide⟩
    let noon : Instant := ⟨63461016000000000, by decide⟩
    let days := [⟨none, some first⟩, ⟨some first, some second⟩, ⟨some second, none⟩]
    let age : Clause := ⟨"age", .numberRanges ages⟩
    let day : Clause := ⟨"day", .timeRanges days⟩
    let dates := [.str "2012-01-01", .str "2012-01-02"]
    let request := requestWith [] [rangesClause "day" (.list dates)] []
      (rangesClause "age" (.list [.int 9]))
    Spec.ofRequest {} request = .ok ⟨some [age, day], [], false, []⟩ ∧ HasNoNaN ages ∧
      (TimeRanges.bounds days).Ascend TimeRanges.InTime ∧
      age.resolve (.int 0) (.int 9) = .ok (some (.int 1)) ∧
      (Value.str "2012-01-01T12:00:00Z").toInstant = .ok noon ∧
      day.resolve (.int 1) (.str "2012-01-01T12:00:00Z") = .ok (some (.int 1)) := by
  intro ages first second noon days age day dates request
  have haccepted : Spec.ofRequest {} request = .ok ⟨some [age, day], [], false, []⟩ := by rfl
  have hnan : HasNoNaN ages := by
    intro r hr n hn
    have hnine : n = .int 9 := by
      simp only [ages, List.mem_cons, List.not_mem_nil, or_false] at hr
      obtain rfl | rfl := hr <;> simpa [Range.bounds] using hn
    rw [hnine]
    rfl
  have hascend : (TimeRanges.bounds days).Ascend TimeRanges.InTime := by
    have hstep : (⟨first, second, true⟩ : Step).Rises TimeRanges.InTime :=
      (by decide : first.micros < second.micros)
    have hsame (t : Instant) : (⟨t, t, false⟩ : Step).Rises TimeRanges.InTime := lt_irrefl _
    have hsteps : (TimeRanges.bounds days).steps =
      [⟨first, first, false⟩, ⟨first, second, true⟩, ⟨second, second, false⟩] := rfl
    refine ⟨by simp [TimeRanges.Complete, days], ?_⟩
    rw [hsteps]
    simp [hstep, hsame]
  have hnoon : (Value.str "2012-01-01T12:00:00Z").toInstant = .ok noon := by decide +kernel
  obtain ⟨hnumbers, -⟩ := range_keys_locate haccepted rfl (c := age) (by simp) (.int 0)
  obtain ⟨-, htimes⟩ := range_keys_locate haccepted rfl (c := day) (by simp) (.int 1)
  refine ⟨haccepted, hnan, hascend, ?_, hnoon, ?_⟩
  · have hnine : (Num.int 9).le (.int 9) := by
      rw [Num.le_iff rfl rfl]
    apply ((hnumbers ages rfl hnan (.int 9) rfl).found 1).mpr
    refine ⟨_, rfl, ?_, by simp⟩
    rintro _ ⟨⟩
    exact hnine
  · apply ((htimes days rfl hascend _ noon hnoon).found 1).mpr
    refine ⟨_, rfl, ?_, ?_⟩
    · rintro _ ⟨⟩
      decide
    · rintro _ ⟨⟩
      decide

end Aggregate
end RecordStore
