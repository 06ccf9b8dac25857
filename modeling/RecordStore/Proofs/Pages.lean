import Mathlib.Data.List.Permutation
import Mathlib.Data.Nat.Find
import RecordStore.Proofs.Matching
import RecordStore.Proofs.Rearrangement

/-! Pages of a search. Each page is found, sorted and cut by a search of its own; one after the
other they are what a search without a limit finds, up to the first page that is empty. -/
namespace RecordStore

theorem sortByValues_perm {α : Type} {get : α → String → Except Path.Fault Value} {keys : Value}
    {items sorted : List α} (h : sortByValues get keys items = .ok sorted) : sorted.Perm items := by
  obtain ⟨ks, -, h⟩ := bind_eq_ok.mp h
  refine foldlM_keeps (P := fun sorted => sorted.Perm items) (fun hperm hstep => ?_) (.refl _) h
  obtain ⟨name, -, hsort⟩ := bind_eq_ok.mp hstep
  exact (sortByKey_perm hsort).trans hperm

theorem Store.sorted_perm {sort : Value} {found sorted : List Value}
    (h : Store.sorted sort found = .ok sorted) : sorted.Perm found := by
  unfold Store.sorted at h
  dsimp only at h
  split at h
  · cases h
    exact .refl _
  · split at h
    · rename_i hsort
      cases h
      exact sortByValues_perm hsort
    · cases h
    · cases h
    · cases h

namespace Paging

theorem limit_int {size : Nat} {maximum : Int} (h : 1 ≤ size) (hmax : size ≤ maximum) :
    limit (.int maximum) (.int size) = .ok (.int size) := by
  have hleast : atLeast 1 .limitTooSmall (.int size) = .ok (.int size) := by
    rw [atLeast, Value.lt_int, decide_eq_false (by omega)]
  have habove : (Value.int maximum).lt? (.int size) = some false := by
    rw [Value.lt_int, decide_eq_false (by omega)]
  change atLeast 1 .limitTooSmall (.int size) >>= _ = _
  rw [hleast, ok_bind, habove]
  rfl

theorem page_int {α : Type} (skip size : Nat) (xs : List α) :
    page (.int skip) (.int size) xs = .ok ((xs.drop skip).take size) := by
  have hplaces : page (.int skip) (.int size) xs =
      .ok ((xs.drop skip).take (((skip : Int) + size).toNat - skip)) := rfl
  have hlast : ((skip : Int) + size).toNat - skip = size := by omega
  rw [hplaces, hlast]

end Paging

/-- The page of a list that lies behind so many of the same size. -/
def pageOf {α : Type} (size i : Nat) (xs : List α) : List α := (xs.drop (i * size)).take size

section
variable {α : Type} {size : Nat}

theorem flatMap_pageOf (size n : Nat) (xs : List α) :
    ((List.range n).flatMap fun i => pageOf size i xs) = xs.take (n * size) := by
  induction n with
  | zero => rw [Nat.zero_mul, List.take_zero]; rfl
  | succ n ih =>
    rw [List.range_succ, List.flatMap_append, List.flatMap_singleton, ih, Nat.succ_mul,
      List.take_add]
    rfl

theorem pageOf_eq_nil (h : 1 ≤ size) {i : Nat} {xs : List α} :
    pageOf size i xs = [] ↔ xs.length ≤ i * size := by
  rw [pageOf, List.take_eq_nil_iff, List.drop_eq_nil_iff]
  omega

/-- The pages before the first empty one are the whole list. -/
theorem exists_pages (h : 1 ≤ size) (xs : List α) : ∃ n, (∀ i < n, pageOf size i xs ≠ []) ∧
    pageOf size n xs = [] ∧ ((List.range n).flatMap fun i => pageOf size i xs) = xs := by
  have hsome : ∃ n, xs.length ≤ n * size := ⟨xs.length, Nat.le_mul_of_pos_right _ h⟩
  classical
  refine ⟨Nat.find hsome, fun i hi => ?_, (pageOf_eq_nil h).mpr (Nat.find_spec hsome), ?_⟩
  · exact mt (pageOf_eq_nil h).mp (Nat.find_min hsome hi)
  · rw [flatMap_pageOf, List.take_of_length_le (Nat.find_spec hsome)]

end

namespace Collection
variable {c : Collection} {store : Store} {query : Query}
  {found sorted page : List Value} {skip limit : Value}

theorem matching_of_page (options : FindOptions) (hh : c.hooks = [])
    (hfields : options.fields = .null) (hskip : Paging.skip options.skip = .ok skip)
    (hlimit : Paging.limit (.int c.options.maxQueryLimit) options.limit = .ok limit)
    (hfound : store.filterOf query >>= store.select = .ok found)
    (hsorted : Store.sorted options.sort found = .ok sorted)
    (hpage : Paging.page skip limit sorted = .ok page) :
    (matching store query options).run.run c = (.ok (page.map shown, found.length), c) := by
  unfold matching
  rw [run_get]
  dsimp only
  rw [run_ofExcept hskip, run_ofExcept hlimit, run_ofStore hfound, run_ofStore hsorted,
    run_ofExcept hpage, hfields, run_bind_ok (documents_run hh page),
    ← (Store.sorted_perm hsorted).length_eq]
  rfl

/-- A search without a limit finds what matches in its order, and a page of it that part of the
order. The pages, from the first on up to the first that is empty, are together what is found
without a limit. Each of them tells the number of all matches if it is asked for. -/
theorem pages_make_whole {sort : Value} {size : Nat} (hc : c.backend = .memory store)
    (hh : c.hooks = []) (hfound : store.filterOf query >>= store.select = .ok found)
    (hsorted : Store.sorted sort found = .ok sorted) (hsize : 1 ≤ size)
    (hmax : size ≤ c.options.maxQueryLimit) :
    let whole := sorted.map shown
    let page (i : Nat) := (pageOf size i sorted).map shown
    (∀ total : Value, (find query { sort } total).run.run c =
      (.ok ⟨whole, if total.truthy then .int found.length else .null⟩, c)) ∧
    (count query).run.run c = (.ok (.int found.length), c) ∧
    (∀ (i : Nat) (total : Value),
      (find query { skip := .int (i * size : Nat), limit := .int size, sort } total).run.run c =
        (.ok ⟨page i, if total.truthy then .int found.length else .null⟩, c)) ∧
    ∃ n, (∀ i < n, page i ≠ []) ∧ page n = [] ∧ (List.range n).flatMap page = whole := by
  intro whole page
  obtain ⟨n, hsome, hnone, hwhole⟩ := exists_pages hsize sorted
  have hcount : store.count query = .ok found.length := by
    obtain ⟨filter, hfilter, hselect⟩ := bind_eq_ok.mp hfound
    rw [Store.count, hfilter, ok_bind, hselect]
    rfl
  refine ⟨?_, ?_, fun i total => ?_, n, fun i hi => ?_, ?_, ?_⟩
  · exact find_of_matching hc (matching_of_page { sort } hh rfl (Paging.skip_int 0) rfl hfound
      hsorted (page_all sorted))
  · rw [count_of_memory hc, hcount]
    rfl
  · let options : FindOptions := { skip := .int (i * size : Nat), limit := .int size, sort }
    have hpage : Paging.page options.skip options.limit sorted = .ok (pageOf size i sorted) :=
      Paging.page_int _ _ _
    exact find_of_matching hc (matching_of_page options hh rfl (Paging.skip_int _)
      (Paging.limit_int hsize hmax) hfound hsorted hpage) total
  · exact mt List.map_eq_nil_iff.mp (hsome i hi)
  · exact congrArg (List.map shown) hnone
  · dsimp only [page, whole]
    rw [← List.map_flatMap, hwhole]

/-- Three dogs, the last name first, on pages of two. -/
theorem pages_make_whole_of_three :
    let dog (name : String) : Value := .object [("id", .str name), ("kind", .str "dog")]
    let cat : Value := .object [("id", .str "d"), ("kind", .str "cat")]
    let store : Store := { records := [dog "a", cat, dog "b", dog "c"] }
    let c : Collection := { name := .str "animals", backend := .memory store }
    let query : Query := .object [("kind", .str "dog")]
    let sort : Value := .list [.str "-id"]
    let found := [dog "a", dog "b", dog "c"]
    let sorted := [dog "c", dog "b", dog "a"]
    let whole := sorted.map shown
    let page (i : Nat) :=
      (find query { skip := .int i, limit := .int 2, sort } (.bool true)).run.run c
    (store.filterOf query >>= store.select) = .ok found ∧ Store.sorted sort found = .ok sorted ∧
      (find query { sort } .null).run.run c = (.ok ⟨whole, .null⟩, c) ∧
      page 0 = (.ok ⟨[shown (dog "c"), shown (dog "b")], .int 3⟩, c) ∧
      page 2 = (.ok ⟨[shown (dog "a")], .int 3⟩, c) ∧ page 4 = (.ok ⟨[], .int 3⟩, c) ∧
      (List.range 2).flatMap (fun i => (pageOf 2 i sorted).map shown) = whole := by
  intro dog cat store c query sort found sorted whole page
  have hfound : store.filterOf query >>= store.select = .ok found := by cbv
  have hsorted : Store.sorted sort found = .ok sorted := by cbv
  have hsize : 1 ≤ 2 := by decide
  have hmax : ((2 : Nat) : Int) ≤ c.options.maxQueryLimit := by decide
  obtain ⟨hwhole, -, hpage, n, hsome, hlast, hpages⟩ :=
    pages_make_whole (c := c) rfl rfl hfound hsorted hsize hmax
  have hn : n = 2 := by
    have hle : n ≤ 2 := by
      by_contra h
      exact hsome 2 (by omega) rfl
    obtain rfl | rfl | rfl : n = 0 ∨ n = 1 ∨ n = 2 := by omega
    · cases hlast
    · cases hlast
    · rfl
  subst hn
  exact ⟨hfound, hsorted, hwhole .null, hpage 0 (.bool true), hpage 1 (.bool true),
    hpage 2 (.bool true), hpages⟩

end Collection

end RecordStore
