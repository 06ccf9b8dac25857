import RecordStore.Proofs.Inversion
import RecordStore.Value.Sort

/-! Sorting loses nothing and adds nothing. Whatever the comparison, a sort that does not fail gives
the elements that it was given, in some order. -/
namespace RecordStore

namespace Sorting
open scoped List

variable {α : Type} {less? : α → α → Option Bool}

/-! ### Runs and insertion -/

theorem append_of_runAfter {falling : Bool} {last : α} {xs run rest : List α}
    (h : runAfter less? falling last xs = some (run, rest)) : run ++ rest = xs := by
  induction xs generalizing last run with
  | nil =>
    cases h
    rfl
  | cons x xs ih =>
    obtain ⟨smaller, -, h⟩ := Option.bind_eq_some_iff.mp h
    split at h
    · obtain ⟨⟨run, rest⟩, hrun, h⟩ := Option.bind_eq_some_iff.mp h
      cases h
      rw [List.cons_append, ih hrun]
    · cases h
      rfl

theorem leadingRun_perm {xs run rest : List α} (h : leadingRun less? xs = some (run, rest)) :
    (run ++ rest).Perm xs := by
  match xs with
  | [] | [x] =>
    cases h
    exact .refl _
  | x :: y :: xs =>
    obtain ⟨falling, -, h⟩ := Option.bind_eq_some_iff.mp h
    obtain ⟨⟨run, rest⟩, hrun, h⟩ := Option.bind_eq_some_iff.mp h
    cases h
    rw [← append_of_runAfter hrun]
    cases falling with
    | true => exact (List.reverse_perm (x :: y :: run)).append_right rest
    | false => exact .refl _

theorem insert_perm {x : α} {row longer : List α} (h : insert less? x row = some longer) :
    longer.Perm (x :: row) := by
  induction hn : row.length using Nat.strongRecOn generalizing row longer with
  | ind n ih =>
  subst hn
  have hrow := List.take_append_drop (row.length / 2) row
  rw [insert] at h
  split at h
  · cases h
    exact List.perm_append_singleton x row
  · rename_i y right hright
    have hlength := congrArg List.length hright
    rw [List.length_drop, List.length_cons] at hlength
    rw [hright] at hrow
    obtain ⟨smaller, -, h⟩ := Option.bind_eq_some_iff.mp h
    split at h
    · obtain ⟨left, hleft, h⟩ := Option.bind_eq_some_iff.mp h
      cases h
      have hshorter : (row.take (row.length / 2)).length < row.length := by
        rw [List.length_take]
        omega
      calc left ++ y :: right
        _ ~ x :: row.take (row.length / 2) ++ y :: right :=
          (ih _ hshorter hleft rfl).append_right _
        _ = x :: row := by rw [List.cons_append, hrow]
    · obtain ⟨right', hright', h⟩ := Option.bind_eq_some_iff.mp h
      cases h
      calc row.take (row.length / 2) ++ y :: right'
        _ ~ row.take (row.length / 2) ++ y :: x :: right :=
          ((ih _ (by omega) hright' rfl).cons y).append_left _
        _ ~ row.take (row.length / 2) ++ x :: y :: right := (List.Perm.swap x y right).append_left _
        _ ~ x :: (row.take (row.length / 2) ++ y :: right) := List.perm_middle
        _ = x :: row := by rw [hrow]

theorem insertAll_perm {xs row longer : List α}
    (h : xs.foldlM (fun row x => insert less? x row) row = some longer) :
    longer.Perm (row ++ xs) := by
  induction xs generalizing row with
  | nil =>
    cases h
    rw [List.append_nil]
  | cons x xs ih =>
    rw [List.foldlM_cons] at h
    obtain ⟨next, hnext, h⟩ := Option.bind_eq_some_iff.mp h
    calc longer
      _ ~ next ++ xs := ih h
      _ ~ x :: row ++ xs := (insert_perm hnext).append_right xs
      _ ~ row ++ x :: xs := List.perm_middle.symm

theorem leadingRow_perm {least : Nat} {xs row rest : List α}
    (h : leadingRow less? least xs = some (row, rest)) : (row ++ rest).Perm xs := by
  obtain ⟨⟨run, after⟩, hrun, h⟩ := Option.bind_eq_some_iff.mp h
  obtain ⟨row', hrow, h⟩ := Option.bind_eq_some_iff.mp h
  cases h
  let count := least - run.length
  calc row ++ after.drop count
    _ ~ (run ++ after.take count) ++ after.drop count := (insertAll_perm hrow).append_right _
    _ = run ++ after := by rw [List.append_assoc, List.take_append_drop]
    _ ~ xs := leadingRun_perm hrun

theorem leadingRun_ne_nil {x : α} {xs run rest : List α}
    (h : leadingRun less? (x :: xs) = some (run, rest)) : run ≠ [] := by
  cases xs with
  | nil =>
    cases h
    exact List.cons_ne_nil x []
  | cons y xs =>
    obtain ⟨falling, -, h⟩ := Option.bind_eq_some_iff.mp h
    obtain ⟨⟨run, rest⟩, -, h⟩ := Option.bind_eq_some_iff.mp h
    cases h
    cases falling <;> simp

theorem length_lt_of_leadingRow {least : Nat} {x : α} {xs row rest : List α}
    (h : leadingRow less? least (x :: xs) = some (row, rest)) : rest.length < (x :: xs).length := by
  have hall := (leadingRow_perm h).length_eq
  obtain ⟨⟨run, after⟩, hrun, h⟩ := Option.bind_eq_some_iff.mp h
  obtain ⟨row', hrow, h⟩ := Option.bind_eq_some_iff.mp h
  cases h
  have hlonger := (insertAll_perm hrow).length_eq
  have hpos := List.length_pos_iff.mpr (leadingRun_ne_nil hrun)
  rw [List.length_append] at hall hlonger
  omega

/-! ### Merging -/

namespace Merge

def elements (m : Merge α) : List α := m.placed ++ (m.left ++ m.right)

theorem row_perm (m : Merge α) : m.row.Perm m.elements := by
  rw [row, elements]
  refine (List.reverse_perm m.placed).append ?_
  split
  · exact List.perm_append_comm
  · exact .refl _

theorem takeLeft_perm (m : Merge α) (n : Nat) : (m.takeLeft n).elements.Perm m.elements := by
  rw [elements, elements, takeLeft]
  calc ((m.left.take n).reverse ++ m.placed) ++ (m.left.drop n ++ m.right)
    _ ~ (m.left.take n ++ m.placed) ++ (m.left.drop n ++ m.right) :=
      ((List.reverse_perm _).append_right _).append_right _
    _ ~ (m.placed ++ m.left.take n) ++ (m.left.drop n ++ m.right) :=
      List.perm_append_comm.append_right _
    _ = m.placed ++ (m.left ++ m.right) := by
      rw [List.append_assoc, ← List.append_assoc (m.left.take n), List.take_append_drop]

theorem takeRight_perm (m : Merge α) (n : Nat) : (m.takeRight n).elements.Perm m.elements := by
  have hswap (m : Merge α) : m.elements.Perm (m.placed ++ (m.right ++ m.left)) :=
    List.perm_append_comm.append_left _
  refine (hswap _).trans (.trans ?_ (hswap m).symm)
  exact takeLeft_perm ⟨m.placed, m.right, m.left, m.pace, m.patience⟩ n

@[simp] theorem elements_afterLeap (second : Bool) (first n : Nat) (m : Merge α) :
    (m.afterLeap second first n).elements = m.elements := by
  rw [afterLeap]
  split
  · rfl
  · split
    · rfl
    · split <;> rfl

theorem step_perm {backwards : Bool} {m next : Merge α}
    (h : m.step backwards less? = some next) : next.elements.Perm m.elements := by
  rw [step] at h
  split at h
  · split at h
    · obtain ⟨smaller, -, h⟩ := Option.bind_eq_some_iff.mp h
      cases h
      cases smaller with
      | true => exact takeRight_perm m 1
      | false => exact takeLeft_perm m 1
    · split at h
      · obtain ⟨n, -, h⟩ := Option.bind_eq_some_iff.mp h
        cases h
        rw [elements_afterLeap]
        split
        · exact takeLeft_perm m n
        · exact (takeRight_perm _ 1).trans (takeLeft_perm m n)
      · obtain ⟨n, -, h⟩ := Option.bind_eq_some_iff.mp h
        cases h
        rw [elements_afterLeap]
        split
        · exact takeRight_perm m n
        · exact (takeLeft_perm _ 1).trans (takeRight_perm m n)
  · cases h
    exact .refl _

theorem run_perm {backwards : Bool} {n : Nat} {m last : Merge α}
    (h : m.run backwards less? n = some last) : last.elements.Perm m.elements := by
  induction n generalizing m with
  | zero =>
    cases h
    exact .refl _
  | succ n ih =>
    rw [run] at h
    split at h
    · cases h
      exact .refl _
    · obtain ⟨next, hnext, h⟩ := Option.bind_eq_some_iff.mp h
      exact (ih h).trans (step_perm hnext)

theorem ofRows_perm {backwards : Bool} {patience : Nat} {left right : List α} {last : Merge α}
    (h : ofRows backwards less? patience left right = some last) :
    last.row.Perm (left ++ right) :=
  (row_perm last).trans ((run_perm h).trans (takeRight_perm _ 1))

end Merge

theorem overlap_perm {patience patience' : Nat} {left right row : List α}
    (h : overlap less? patience left right = some (row, patience')) :
    row.Perm (left ++ right) := by
  rw [overlap] at h
  split at h
  · obtain ⟨m, hm, h⟩ := Option.bind_eq_some_iff.mp h
    cases h
    exact Merge.ofRows_perm hm
  · obtain ⟨m, hm, h⟩ := Option.bind_eq_some_iff.mp h
    cases h
    calc m.row.reverse
      _ ~ m.row := List.reverse_perm _
      _ ~ right.reverse ++ left.reverse := Merge.ofRows_perm hm
      _ = (left ++ right).reverse := List.reverse_append.symm
      _ ~ left ++ right := List.reverse_perm _

theorem join_perm {patience patience' : Nat} {left right row : List α}
    (h : join less? patience left right = some (row, patience')) :
    row.Perm (left ++ right) := by
  unfold join at h
  split at h
  · rename_i x y rest _
    obtain ⟨low, -, h⟩ := Option.bind_eq_some_iff.mp h
    split at h
    · cases h
      exact .refl _
    · obtain ⟨high, -, h⟩ := Option.bind_eq_some_iff.mp h
      obtain ⟨⟨middle, _⟩, hmiddle, h⟩ := Option.bind_eq_some_iff.mp h
      cases h
      let stay := (y :: rest).length - high
      calc left.take low ++ middle ++ (y :: rest).drop stay
        _ ~ left.take low ++ (left.drop low ++ (y :: rest).take stay) ++ (y :: rest).drop stay :=
          ((overlap_perm hmiddle).append_left _).append_right _
        _ = (left.take low ++ left.drop low) ++
            ((y :: rest).take stay ++ (y :: rest).drop stay) := by simp only [List.append_assoc]
        _ = left ++ y :: rest := by rw [List.take_append_drop, List.take_append_drop]
  · cases h
    exact .refl _

/-! ### Joining all rows -/

theorem joinRows_perm {patience patience' : Nat} {r s joined : Row α}
    (h : joinRows less? patience r s = some (joined, patience')) :
    joined.elements.Perm (r.elements ++ s.elements) := by
  obtain ⟨⟨elements, _⟩, hjoin, h⟩ := Option.bind_eq_some_iff.mp h
  cases h
  exact join_perm hjoin

def together (earlier : List (Row α)) (last : Row α) : List α :=
  match earlier with
  | [] => last.elements
  | r :: earlier => together earlier r ++ last.elements

theorem together_joined {earlier : List (Row α)} {r s joined : Row α}
    (h : joined.elements.Perm (r.elements ++ s.elements)) :
    (together earlier joined).Perm (together (r :: earlier) s) := by
  cases earlier with
  | nil => exact h
  | cons first earlier =>
    rw [together, together, together, List.append_assoc]
    exact h.append_left _

def Pending.elements (p : Pending α) : List α := together (p.earlier.map Prod.fst) p.last

theorem closeDeeper_perm {level patience : Nat} {last : Row α} {earlier : List (Row α × Nat)}
    {p : Pending α} (h : closeDeeper less? level last patience earlier = some p) :
    p.elements.Perm (together (earlier.map Prod.fst) last) := by
  induction earlier generalizing last patience with
  | nil =>
    cases h
    exact .refl _
  | cons r earlier ih =>
    obtain ⟨r, seam⟩ := r
    rw [closeDeeper] at h
    split at h
    · obtain ⟨⟨joined, _⟩, hjoined, h⟩ := Option.bind_eq_some_iff.mp h
      exact (ih h).trans (together_joined (joinRows_perm hjoined))
    · cases h
      exact .refl _

theorem Pending.add_perm {n : Nat} {p next : Pending α} {r : Row α}
    (h : p.add less? n r = some next) : next.elements.Perm (p.elements ++ r.elements) := by
  obtain ⟨q, hq, h⟩ := Option.bind_eq_some_iff.mp h
  cases h
  exact (closeDeeper_perm hq).append_right r.elements

theorem addRows_perm {n fuel : Nat} {p last : Pending α} {xs : List α}
    (h : addRows less? n fuel p xs = some last) (hxs : xs.length ≤ fuel) :
    last.elements.Perm (p.elements ++ xs) := by
  induction fuel generalizing p xs with
  | zero =>
    rw [List.eq_nil_of_length_eq_zero (Nat.le_zero.mp hxs)] at h ⊢
    cases h
    rw [List.append_nil]
  | succ fuel ih =>
    cases xs with
    | nil =>
      cases h
      rw [List.append_nil]
    | cons x xs =>
      obtain ⟨⟨row, rest⟩, hrow, h⟩ := Option.bind_eq_some_iff.mp h
      obtain ⟨next, hnext, h⟩ := Option.bind_eq_some_iff.mp h
      have hrest := length_lt_of_leadingRow hrow
      calc last.elements
        _ ~ next.elements ++ rest := ih h (by omega)
        _ ~ (p.elements ++ row) ++ rest := (Pending.add_perm hnext).append_right rest
        _ = p.elements ++ (row ++ rest) := List.append_assoc ..
        _ ~ p.elements ++ x :: xs := (leadingRow_perm hrow).append_left _

theorem joinAll_perm {patience : Nat} {last : Row α} {earlier : List (Row α)} {sorted : List α}
    (h : joinAll less? patience last earlier = some sorted) :
    sorted.Perm (together earlier last) := by
  match earlier with
  | [] =>
    rw [joinAll] at h
    cases h
    exact .refl _
  | [r] =>
    rw [joinAll] at h
    obtain ⟨⟨joined, _⟩, hjoined, h⟩ := Option.bind_eq_some_iff.mp h
    cases h
    exact joinRows_perm hjoined
  | s :: r :: earlier =>
    rw [joinAll] at h
    split at h
    · obtain ⟨⟨joined, _⟩, hjoined, h⟩ := Option.bind_eq_some_iff.mp h
      exact (joinAll_perm h).trans ((together_joined (joinRows_perm hjoined)).append_right _)
    · obtain ⟨⟨joined, _⟩, hjoined, h⟩ := Option.bind_eq_some_iff.mp h
      exact (joinAll_perm h).trans (together_joined (joinRows_perm hjoined))
termination_by earlier.length

theorem sort?_perm {xs sorted : List α} (h : sort? less? xs = some sorted) : sorted.Perm xs := by
  obtain ⟨⟨row, rest⟩, hrow, h⟩ := Option.bind_eq_some_iff.mp h
  obtain ⟨p, hp, h⟩ := Option.bind_eq_some_iff.mp h
  have hrest : rest.length ≤ xs.length := by
    rw [← (leadingRow_perm hrow).length_eq, List.length_append]
    omega
  calc sorted
    _ ~ p.elements := joinAll_perm h
    _ ~ row ++ rest := addRows_perm hp hrest
    _ ~ xs := leadingRow_perm hrow

end Sorting

/-! ### Sorting by paths -/

section
open scoped List

variable {α : Type} {get : α → String → Except Path.Fault Value}

theorem sortKeyed_perm {descending : Bool} {items sorted : List (Value × α)}
    (h : sortKeyed descending items = .ok sorted) : sorted.Perm items := by
  unfold sortKeyed at h
  split at h
  · cases h
    exact List.mergeSort_perm items _
  · dsimp only at h
    split at h
    · rename_i found hfound
      cases h
      split at hfound
      · obtain ⟨row, hrow, rfl⟩ := Option.map_eq_some_iff.mp hfound
        calc row.reverse
          _ ~ row := List.reverse_perm row
          _ ~ items.reverse := Sorting.sort?_perm hrow
          _ ~ items := List.reverse_perm items
      · exact Sorting.sort?_perm hfound
    · cases h

theorem items_of_keyed {key : SortKey} {items : List α} {keyed : List (Value × α)}
    (h : (items.mapM fun item => match get item key.path with
      | .ok v => .ok (v, item)
      | .error f => .error (.path f) : Except SortFault (List (Value × α))) = .ok keyed) :
    keyed.map Prod.snd = items := by
  rw [mapM_eq_ok] at h
  induction h with
  | nil => rfl
  | cons hitem _ ih =>
    split at hitem
    · cases hitem
      rw [List.map_cons, ih]
    · cases hitem

theorem sortByKey_perm {key : SortKey} {items sorted : List α}
    (h : sortByKey get key items = .ok sorted) : sorted.Perm items := by
  obtain ⟨keyed, hkeyed, h⟩ := bind_eq_ok.mp h
  rw [List.partition_eq_filter_filter] at h
  obtain ⟨present, hpresent, h⟩ := bind_eq_ok.mp h
  cases h
  let absent (item : Value × α) : Bool := item.1.isAbsent
  rw [← items_of_keyed hkeyed]
  refine List.Perm.map Prod.snd ?_
  calc present ++ keyed.filter absent
    _ ~ keyed.filter (not ∘ absent) ++ keyed.filter absent :=
      (sortKeyed_perm hpresent).append_right _
    _ ~ keyed.filter absent ++ keyed.filter (not ∘ absent) := List.perm_append_comm
    _ ~ keyed := List.filter_append_perm absent keyed

theorem sortByKeys_perm {keys : List SortKey} {items sorted : List α}
    (h : sortByKeys get keys items = .ok sorted) : sorted.Perm items := by
  induction keys generalizing sorted with
  | nil =>
    cases h
    exact .refl _
  | cons key keys ih =>
    obtain ⟨later, hlater, h⟩ := bind_eq_ok.mp h
    exact (sortByKey_perm h).trans (ih hlater)

end

end RecordStore
