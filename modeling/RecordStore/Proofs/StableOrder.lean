import RecordStore.Proofs.Rearrangement
import RecordStore.Proofs.TotalOrder

/-! Sorting by paths is stable. The first path at which two items differ decides which of them comes
first, in either direction with what is present before what is absent, and items that no path tells
apart stay in the order in which they stood. -/
namespace RecordStore
open scoped List

section
variable {α β : Type}

/-- The items in order, and those that are tied as they stood: the places that they had before go
with them. -/
def StablySorted (before tied : α → α → Prop) (items sorted : List α) : Prop :=
  ∃ placed : List (α × Nat), placed ~ items.zipIdx ∧ placed.map Prod.fst = sorted ∧
    placed.Pairwise fun a b => before a.1 b.1 ∨ tied a.1 b.1 ∧ a.2 < b.2

namespace StablySorted
variable {before tied : α → α → Prop} {items sorted : List α}

theorem perm (h : StablySorted before tied items sorted) : sorted ~ items := by
  obtain ⟨placed, hperm, rfl, -⟩ := h
  have hfst := hperm.map Prod.fst
  rwa [List.zipIdx_map_fst] at hfst

theorem pairwise (h : StablySorted before tied items sorted) :
    sorted.Pairwise fun a b => before a b ∨ tied a b := by
  obtain ⟨placed, -, rfl, hpairs⟩ := h
  exact List.pairwise_map.mpr (hpairs.imp fun hab => hab.imp id And.left)

theorem unique {other : List α} (h : StablySorted before tied items sorted)
    (h' : StablySorted before tied items other)
    (hstrict : ∀ a ∈ items, ∀ b ∈ items, before a b → ¬ before b a ∧ ¬ tied b a) :
    other = sorted := by
  obtain ⟨placed, hperm, rfl, hpairs⟩ := h
  obtain ⟨placed', hperm', rfl, hpairs'⟩ := h'
  refine congrArg (List.map Prod.fst) ((hperm'.trans hperm.symm).eq_of_pairwise ?_ hpairs' hpairs)
  intro a b ha hb hab hba
  have ha := List.fst_mem_of_mem_zipIdx (hperm'.subset ha)
  have hb := List.fst_mem_of_mem_zipIdx (hperm.subset hb)
  rcases hab with hab | ⟨hab, hlt⟩
  · obtain ⟨hbefore, htied⟩ := hstrict _ ha _ hb hab
    rcases hba with hba | ⟨hba, -⟩
    · exact absurd hba hbefore
    · exact absurd hba htied
  · rcases hba with hba | ⟨-, hgt⟩
    · exact absurd hab (hstrict _ hb _ ha hba).2
    · omega

theorem imp_of_mem {before' tied' : α → α → Prop} (h : StablySorted before tied items sorted)
    (hbefore : ∀ a ∈ items, ∀ b ∈ items, before a b → before' a b)
    (htied : ∀ a ∈ items, ∀ b ∈ items, tied a b → tied' a b) :
    StablySorted before' tied' items sorted := by
  obtain ⟨placed, hperm, hsorted, hpairs⟩ := h
  refine ⟨placed, hperm, hsorted, hpairs.imp_of_mem fun {a b} ha hb hab => ?_⟩
  have ha := List.fst_mem_of_mem_zipIdx (hperm.subset ha)
  have hb := List.fst_mem_of_mem_zipIdx (hperm.subset hb)
  exact hab.imp (hbefore _ ha _ hb) (And.imp_left (htied _ ha _ hb))

end StablySorted

theorem pairwise_zipIdx (items : List α) : items.zipIdx.Pairwise fun a b => a.2 < b.2 := by
  rw [← List.pairwise_map, List.zipIdx_map_snd]
  exact List.pairwise_lt_range'

theorem stablySorted_self {before tied : α → α → Prop} {items : List α}
    (h : ∀ a ∈ items, ∀ b ∈ items, tied a b) : StablySorted before tied items items := by
  refine ⟨items.zipIdx, .refl _, List.zipIdx_map_fst 0 items, ?_⟩
  refine (pairwise_zipIdx items).imp_of_mem fun {a b} ha hb hlt => .inr ⟨?_, hlt⟩
  exact h _ (List.fst_mem_of_mem_zipIdx ha) _ (List.fst_mem_of_mem_zipIdx hb)

theorem stablySorted_swap {before tied : α → α → Prop} {a b : α} (h : before b a) :
    StablySorted before tied [a, b] [b, a] := by
  refine ⟨[(b, 1), (a, 0)], .swap _ _ _, rfl, ?_⟩
  rw [List.pairwise_pair]
  exact .inl h

/-! ### Merging by ranks -/

theorem getElem?_of_mem_zipIdx {l : List β} {a : β × Nat} (ha : a ∈ l.zipIdx) :
    l[a.2]? = some a.1 := by
  simpa using List.mem_zipIdx_iff_getElem?.mp ha

theorem pairwise_mergeSort_of_rank {γ : Type} [LinearOrder γ] {rank : β → γ} {le : β → β → Bool}
    {R : β → β → Prop} {l : List β}
    (hle : ∀ a ∈ l, ∀ b ∈ l, le a b = decide (rank a ≤ rank b)) (hR : l.Pairwise R) :
    (l.mergeSort le).Pairwise fun a b => rank a < rank b ∨ rank a = rank b ∧ R a b := by
  let byRank (a b : β) : Bool := decide (rank a ≤ rank b)
  have hsame : l.mergeSort le = l.mergeSort byRank := by
    simpa using List.map_mergeSort (f := id) hle
  have htrans (a b c : β) (hab : byRank a b) (hbc : byRank b c) : byRank a c :=
    decide_eq_true ((of_decide_eq_true hab).trans (of_decide_eq_true hbc))
  have htotal (a b : β) : byRank a b || byRank b a := by
    simpa [byRank] using le_total (rank a) (rank b)
  let placed := l.zipIdx.mergeSort (List.zipIdxLE byRank)
  have hperm : placed ~ l.zipIdx := List.mergeSort_perm _ _
  have hsorted : placed.Pairwise (List.zipIdxLE byRank · ·) :=
    List.pairwise_mergeSort (List.zipIdxLE_trans htrans) (List.zipIdxLE_total htotal) _
  have hplaces : (placed.map Prod.snd).Nodup := by
    rw [(hperm.map Prod.snd).nodup_iff, List.zipIdx_map_snd]
    exact List.nodup_range'
  rw [hsame, ← List.mergeSort_zipIdx, List.pairwise_map]
  refine (hsorted.and (List.pairwise_map.mp hplaces)).imp_of_mem fun {a b} ha hb h => ?_
  obtain ⟨hab, hne⟩ := h
  have hatA := getElem?_of_mem_zipIdx (hperm.subset ha)
  have hatB := getElem?_of_mem_zipIdx (hperm.subset hb)
  simp only [List.zipIdxLE, byRank, decide_eq_true_eq] at hab
  split at hab
  · rename_i hle
    split at hab
    · rename_i hge
      -- Of two places that differ, the smaller one was the first before.
      have hlt : a.2 < b.2 := lt_of_le_of_ne (of_decide_eq_true hab) hne
      obtain ⟨hi, ha⟩ := List.getElem?_eq_some_iff.mp hatA
      obtain ⟨hj, hb⟩ := List.getElem?_eq_some_iff.mp hatB
      have := List.pairwise_iff_getElem.mp hR _ _ hi hj hlt
      rw [ha, hb] at this
      exact .inr ⟨le_antisymm hle hge, this⟩
    · rename_i hge
      exact .inl (lt_of_not_ge hge)
  · cases hab

end

namespace Value

/-- The first value belongs before the second: what is present comes before what is absent, also
when descending. -/
def Before (descending : Bool) (v w : Value) : Prop :=
  ¬ v.isAbsent ∧ (w.isAbsent ∨ (if descending then w.lt? v else v.lt? w) = some true)

def Tied (v w : Value) : Prop := v.isAbsent ∧ w.isAbsent ∨ v.eq w

/-- Of the values those that are present are all numbers but NaN, or all texts. -/
def OneKind (vs : List Value) : Prop :=
  (∀ v ∈ vs, ¬ v.isAbsent → ∃ n, v.asNum? = some n ∧ n.isNaN = false) ∨
    ∀ v ∈ vs, ¬ v.isAbsent → ∃ s, v = str s

theorem OneKind.inTotalOrder {vs present : List Value} (h : OneKind vs) (hsub : present ⊆ vs)
    (hpresent : ∀ v ∈ present, ¬ v.isAbsent) : inTotalOrder present := by
  rw [RecordStore.inTotalOrder, Bool.or_eq_true, List.all_eq_true, List.all_eq_true]
  refine h.imp (fun h v hv => ?_) (fun h v hv => ?_)
  · obtain ⟨n, hn, hnan⟩ := h v (hsub hv) (hpresent v hv)
    simp [hn, hnan]
  · obtain ⟨s, rfl⟩ := h v (hsub hv) (hpresent v hv)
    rfl

theorem not_lt_of_eq {v w : Value} (hv : v.asNum?.isSome ∨ v.isStr) (h : v.eq w) :
    v.lt? w ≠ some true ∧ w.lt? v ≠ some true := by
  rcases hv with hv | hv
  · obtain ⟨n, hn⟩ := Option.isSome_iff_exists.mp hv
    obtain ⟨m, hm, hnm⟩ := (eq_of_asNum hn).mp h
    obtain ⟨p, hp, hq⟩ := Num.eq_iff.mp hnm
    simp [lt?_of_asNum hn, lt?_of_asNum hm, hn, hm, Num.lt, hp, hq, Place.lt_eq]
  · cases v with
    | str s =>
      cases (eq_atom_iff rfl).mp h
      simp [lt?]
    | _ => cases hv

theorem OneKind.strict {vs : List Value} (h : OneKind vs) {descending : Bool} {v w : Value}
    (hv : v ∈ vs) (hw : w ∈ vs) (hvw : Before descending v w) :
    ¬ Before descending w v ∧ ¬ Tied w v := by
  obtain ⟨hpresent, hafter⟩ := hvw
  by_cases hw' : w.isAbsent
  · refine ⟨fun h => h.1 hw', fun h => ?_⟩
    rcases h with ⟨-, hv'⟩ | heq
    · exact hpresent hv'
    · cases w with
      | null | missing => exact hpresent ((eq_atom_iff rfl).mp heq ▸ hw')
      | _ => cases hw'
  · have hless := hafter.resolve_left hw'
    have hsub : [v, w] ⊆ vs := by simp [hv, hw]
    have hall : ∀ u ∈ [v, w], ¬ u.isAbsent := by simp [hpresent, hw']
    obtain ⟨γ, _, rank, hrank⟩ := exists_ranked (h.inTotalOrder hsub hall)
    have hvw := hrank.lt v (by simp) w (by simp)
    have hwv := hrank.lt w (by simp) v (by simp)
    refine ⟨fun hback => ?_, fun hback => ?_⟩
    · have hless' := hback.2.resolve_left hpresent
      rw [hvw, hwv] at hless hless'
      cases descending <;> simp at hless hless' <;> exact lt_asymm hless hless'
    · have heq := hback.resolve_left fun h => hw' h.1
      have hkind : w.asNum?.isSome ∨ w.isStr := by
        refine h.imp (fun h => ?_) (fun h => ?_)
        · obtain ⟨n, hn, -⟩ := h w hw hw'
          rw [hn]
          rfl
        · obtain ⟨s, rfl⟩ := h w hw hw'
          rfl
      obtain ⟨hnlt, hngt⟩ := not_lt_of_eq hkind heq
      cases descending with
      | false => exact hngt hless
      | true => exact hnlt hless

theorem OneKind.subset {vs ws : List Value} (h : OneKind ws) (hsub : vs ⊆ ws) : OneKind vs :=
  h.imp (fun h v hv => h v (hsub hv)) (fun h v hv => h v (hsub hv))

end Value

/-! ### One pass -/

section
variable {α β : Type} {get : α → String → Except Path.Fault Value}

namespace SortKey

theorem ofText_minus (path : String) : ofText ("-" ++ path) = ⟨path, true⟩ := by
  have hlist : ("-" ++ path).toList = '-' :: path.toList := by simp
  simp only [ofText, hlist, String.ofList_toList]

theorem ofText_plain {path : String} (h : path.toList.head? ≠ some '-') :
    ofText path = ⟨path, false⟩ := by
  rw [ofText]
  split
  · rename_i hlist
    rw [hlist] at h
    exact absurd rfl h
  · rfl

def held (get : α → String → Except Path.Fault Value) (key : SortKey) (item : α) : Value :=
  match get item key.path with
  | .ok v => v
  | .error _ => .missing

/-- A key by which items can be ordered: each can be looked up, and what they have is of one
kind. -/
structure Orders (get : α → String → Except Path.Fault Value) (items : List α) (key : SortKey) :
    Prop where
  lookup : ∀ item ∈ items, ∃ v, get item key.path = .ok v
  oneKind : Value.OneKind (items.map (key.held get))

def Before (get : α → String → Except Path.Fault Value) (key : SortKey) (a b : α) : Prop :=
  Value.Before key.descending (key.held get a) (key.held get b)

def Tied (get : α → String → Except Path.Fault Value) (key : SortKey) (a b : α) : Prop :=
  Value.Tied (key.held get a) (key.held get b)

theorem Orders.of_subset {key : SortKey} {items others : List α} (h : key.Orders get others)
    (hsub : items ⊆ others) : key.Orders get items where
  lookup item hitem := h.lookup item (hsub hitem)
  oneKind := h.oneKind.subset (List.map_subset _ hsub)

end SortKey

theorem keyed_of_lookup {key : SortKey} {items : List α}
    (h : ∀ item ∈ items, ∃ v, get item key.path = .ok v) :
    (items.mapM fun item => match get item key.path with
      | .ok v => .ok (v, item)
      | .error f => .error (.path f) : Except SortFault (List (Value × α))) =
      .ok (items.map fun item => (key.held get item, item)) := by
  rw [mapM_eq_ok, List.forall₂_map_right_iff, List.forall₂_same]
  intro item hitem
  obtain ⟨v, hv⟩ := h item hitem
  simp only [hv, SortKey.held]

/-- Sorting what is present by one key: the lesser come first, or last when descending, and equal
ones stay in the order that they had. -/
theorem sortKeyed_stable (descending : Bool) (f : β → α) {key : β → Value} {row : List β}
    {R : β → β → Prop} (hR : row.Pairwise R) (hone : inTotalOrder (row.map key))
    (hpresent : ∀ b ∈ row, ¬ (key b).isAbsent) :
    ∃ sorted : List β, sorted ~ row ∧
      sortKeyed descending (row.map fun b => (key b, f b)) =
        .ok (sorted.map fun b => (key b, f b)) ∧
      sorted.Pairwise fun a b => Value.Before descending (key a) (key b) ∨
        Value.Tied (key a) (key b) ∧ R a b := by
  obtain ⟨γ, _, rank, hrank⟩ := Value.exists_ranked hone
  have hmem {b} (hb : b ∈ row) : key b ∈ row.map key := List.mem_map_of_mem hb
  let le (v w : Value) : Bool := (if descending then v.lt? w else w.lt? v) != some true
  have hsorted : sortKeyed descending (row.map fun b => (key b, f b)) =
      .ok ((row.mergeSort fun a b => le (key a) (key b)).map fun b => (key b, f b)) := by
    have hkeys : (row.map fun b => (key b, f b)).map Prod.fst = row.map key := by simp
    rw [sortKeyed, hkeys, if_pos hone]
    refine congrArg Except.ok (Eq.symm ?_)
    exact List.map_mergeSort fun _ _ _ _ => rfl
  refine ⟨_, List.mergeSort_perm _ _, hsorted, ?_⟩
  have hlt {a b} (ha : a ∈ row) (hb : b ∈ row) (h : rank (key a) < rank (key b)) :
      (key a).lt? (key b) = some true := by rw [hrank.lt _ (hmem ha) _ (hmem hb), decide_eq_true h]
  have hnot (less : Bool) : (some less != some true) = !less := by cases less <;> rfl
  cases descending with
  | false =>
    have hle : ∀ a ∈ row, ∀ b ∈ row,
        le (key a) (key b) = decide (rank (key a) ≤ rank (key b)) := by
      intro a ha b hb
      simp [le, hrank.lt _ (hmem hb) _ (hmem ha), hnot, ← not_lt]
    refine (pairwise_mergeSort_of_rank hle hR).imp_of_mem fun {a b} ha hb h => ?_
    rw [List.mem_mergeSort] at ha hb
    exact h.imp (fun h => ⟨hpresent a ha, .inr (hlt ha hb h)⟩)
      (And.imp_left fun h => .inr (hrank.eq _ (hmem ha) _ (hmem hb) h))
  | true =>
    have hle : ∀ a ∈ row, ∀ b ∈ row, le (key a) (key b) =
        decide (OrderDual.toDual (rank (key a)) ≤ OrderDual.toDual (rank (key b))) := by
      intro a ha b hb
      simp [le, hrank.lt _ (hmem ha) _ (hmem hb), hnot, ← not_lt]
    refine (pairwise_mergeSort_of_rank hle hR).imp_of_mem fun {a b} ha hb h => ?_
    rw [List.mem_mergeSort] at ha hb
    exact h.imp (fun h => ⟨hpresent a ha, .inr (hlt hb ha h)⟩)
      (And.imp_left fun h => .inr (hrank.eq _ (hmem ha) _ (hmem hb) (OrderDual.toDual_inj.mp h)))

theorem sortByKey_stable {key : SortKey} {f : β → α} {row : List β} {R : β → β → Prop}
    (hR : row.Pairwise R) (horders : key.Orders get (row.map f)) :
    ∃ sorted : List β, sorted ~ row ∧ sortByKey get key (row.map f) = .ok (sorted.map f) ∧
      sorted.Pairwise fun a b => key.Before get (f a) (f b) ∨ key.Tied get (f a) (f b) ∧ R a b := by
  let value (b : β) : Value := key.held get (f b)
  let absent (b : β) : Bool := (value b).isAbsent
  let present := row.filter (!absent ·)
  have hpresent : ∀ b ∈ present, ¬ (value b).isAbsent := by
    intro b hb
    simpa [absent] using (List.mem_filter.mp hb).2
  have hone : inTotalOrder (present.map value) := by
    refine horders.oneKind.inTotalOrder ?_ (List.forall_mem_map.mpr hpresent)
    rw [List.map_map]
    exact List.map_subset _ (List.filter_subset_self row)
  obtain ⟨sorted, hperm, hsorted, hpairs⟩ :=
    sortKeyed_stable key.descending f (hR.sublist List.filter_sublist) hone hpresent
  refine ⟨sorted ++ row.filter absent, ?_, ?_, ?_⟩
  · calc sorted ++ row.filter absent
      _ ~ present ++ row.filter absent := hperm.append_right _
      _ ~ row.filter absent ++ present := List.perm_append_comm
      _ ~ row := List.filter_append_perm absent row
  · refine bind_eq_ok.mpr ⟨_, keyed_of_lookup horders.lookup, ?_⟩
    rw [List.partition_eq_filter_filter]
    refine bind_eq_ok.mpr ⟨sorted.map fun b => (value b, f b), ?_, ?_⟩
    · rw [List.map_map, List.filter_map]
      exact hsorted
    · rw [List.map_map, List.filter_map, pure_eq_ok]
      simp only [List.map_append, List.map_map]
      rfl
  · refine List.pairwise_append.mpr ⟨hpairs, ?_, ?_⟩
    · refine (hR.sublist List.filter_sublist).imp_of_mem fun ha hb h => .inr ⟨.inl ?_, h⟩
      exact ⟨(List.mem_filter.mp ha).2, (List.mem_filter.mp hb).2⟩
    · intro a ha b hb
      exact .inl ⟨hpresent a (hperm.subset ha), .inl (List.mem_filter.mp hb).2⟩

/-! ### All passes -/

/-- The first key by which the two differ puts the first before the second. -/
def Precedes (get : α → String → Except Path.Fault Value) (keys : List SortKey) (a b : α) : Prop :=
  ∃ earlier key later, keys = earlier ++ key :: later ∧
    (∀ k ∈ earlier, k.Tied get a b) ∧ key.Before get a b

def TiedThroughout (get : α → String → Except Path.Fault Value) (keys : List SortKey) (a b : α) :
    Prop := ∀ key ∈ keys, key.Tied get a b

theorem precedes_cons {key : SortKey} {keys : List SortKey} {a b : α} :
    Precedes get (key :: keys) a b ↔
      key.Before get a b ∨ key.Tied get a b ∧ Precedes get keys a b := by
  constructor
  · intro h
    obtain ⟨earlier, k, later, hkeys, hearlier, hk⟩ := h
    cases earlier with
    | nil =>
      cases hkeys
      exact .inl hk
    | cons first earlier =>
      cases hkeys
      obtain ⟨hfirst, hearlier⟩ := List.forall_mem_cons.mp hearlier
      exact .inr ⟨hfirst, earlier, k, later, rfl, hearlier, hk⟩
  · intro h
    rcases h with hk | ⟨htied, earlier, k, later, rfl, hearlier, hk⟩
    · exact ⟨[], key, keys, rfl, fun _ hk => (nomatch hk), hk⟩
    · exact ⟨key :: earlier, k, later, rfl, List.forall_mem_cons.mpr ⟨htied, hearlier⟩, hk⟩

theorem Precedes.strict {keys : List SortKey} {items : List α}
    (horders : ∀ key ∈ keys, key.Orders get items) {a b : α} (ha : a ∈ items) (hb : b ∈ items)
    (hab : Precedes get keys a b) : ¬ Precedes get keys b a ∧ ¬ TiedThroughout get keys b a := by
  induction keys with
  | nil =>
    obtain ⟨earlier, key, later, hkeys, -⟩ := hab
    simp at hkeys
  | cons key keys ih =>
    obtain ⟨hkey, hkeys⟩ := List.forall_mem_cons.mp horders
    have hstrict {a b} (ha : a ∈ items) (hb : b ∈ items) (h : key.Before get a b) :
        ¬ key.Before get b a ∧ ¬ key.Tied get b a :=
      hkey.oneKind.strict (List.mem_map_of_mem ha) (List.mem_map_of_mem hb) h
    rw [precedes_cons] at hab ⊢
    rw [TiedThroughout, List.forall_mem_cons]
    rcases hab with hbefore | ⟨htied, hab⟩
    · obtain ⟨hback, htied⟩ := hstrict ha hb hbefore
      exact ⟨fun h => h.elim hback fun h => htied h.1, fun h => htied h.1⟩
    · obtain ⟨hback, hthroughout⟩ := ih hkeys hab
      exact ⟨fun h => h.elim (fun h => (hstrict hb ha h).2 htied) fun h => hback h.2,
        fun h => hthroughout h.2⟩

/-- The passes from the last key to the first, on items that carry more than what is sorted by. -/
theorem sortByKeys_pairwise {keys : List SortKey} {f : β → α} {row : List β} {R : β → β → Prop}
    (hR : row.Pairwise R) (horders : ∀ key ∈ keys, key.Orders get (row.map f)) :
    ∃ sorted : List β, sorted ~ row ∧ sortByKeys get keys (row.map f) = .ok (sorted.map f) ∧
      sorted.Pairwise fun a b =>
        Precedes get keys (f a) (f b) ∨ TiedThroughout get keys (f a) (f b) ∧ R a b := by
  induction keys with
  | nil => exact ⟨row, .refl _, rfl, hR.imp fun h => .inr ⟨fun _ hk => (nomatch hk), h⟩⟩
  | cons key keys ih =>
    obtain ⟨hkey, hkeys⟩ := List.forall_mem_cons.mp horders
    obtain ⟨later, hlater, hsort, hpairs⟩ := ih hkeys
    obtain ⟨sorted, hsorted, hpass, hpairs⟩ :=
      sortByKey_stable hpairs (hkey.of_subset (hlater.map f).subset)
    refine ⟨sorted, hsorted.trans hlater, bind_eq_ok.mpr ⟨_, hsort, hpass⟩, hpairs.imp ?_⟩
    intro a b h
    rw [precedes_cons]
    rcases h with hbefore | ⟨htied, hprecedes | ⟨hthroughout, hR⟩⟩
    · exact .inl (.inl hbefore)
    · exact .inl (.inr ⟨htied, hprecedes⟩)
    · exact .inr ⟨List.forall_mem_cons.mpr ⟨htied, hthroughout⟩, hR⟩

/-- Sorting by keys that order the items does not fail, and gives their one stable order. -/
theorem sortByKeys_stable {keys : List SortKey} {items : List α}
    (horders : ∀ key ∈ keys, key.Orders get items) :
    ∃ sorted, sortByKeys get keys items = .ok sorted ∧
      StablySorted (Precedes get keys) (TiedThroughout get keys) items sorted := by
  have hfst := List.zipIdx_map_fst 0 items
  have hplaced : ∀ key ∈ keys, key.Orders get (items.zipIdx.map Prod.fst) := by rwa [hfst]
  obtain ⟨placed, hperm, hsort, hpairs⟩ := sortByKeys_pairwise (pairwise_zipIdx items) hplaced
  rw [hfst] at hsort
  exact ⟨_, hsort, placed, hperm, rfl, hpairs⟩

def StablySortedBy (descending : Bool) (value : α → Value) : List α → List α → Prop :=
  StablySorted (fun a b => Value.Before descending (value a) (value b))
    fun a b => Value.Tied (value a) (value b)

theorem sortByKeys_singleton (key : SortKey) {value : α → Value} {items : List α}
    (hvalue : ∀ a ∈ items, get a key.path = .ok (value a))
    (hone : Value.OneKind (items.map value)) :
    ∃ sorted, sortByKeys get [key] items = .ok sorted ∧
      ∀ other, other = sorted ↔ StablySortedBy key.descending value items other := by
  have hheld (a) (ha : a ∈ items) : key.held get a = value a := by
    rw [SortKey.held, hvalue a ha]
  have horders : key.Orders get items :=
    ⟨fun a ha => ⟨_, hvalue a ha⟩, by rwa [List.map_congr_left hheld]⟩
  have hkeys : ∀ k ∈ [key], k.Orders get items := List.forall_mem_singleton.mpr horders
  obtain ⟨sorted, hsort, hstable⟩ := sortByKeys_stable hkeys
  have hby : StablySortedBy key.descending value items sorted := by
    refine hstable.imp_of_mem (fun a ha b hb h => ?_) fun a ha b hb h => ?_
    · rcases precedes_cons.mp h with h | ⟨-, earlier, k, later, hkeys, -⟩
      · rwa [SortKey.Before, hheld a ha, hheld b hb] at h
      · simp at hkeys
    · have h := h key (List.mem_singleton_self key)
      rwa [SortKey.Tied, hheld a ha, hheld b hb] at h
  refine ⟨sorted, hsort, fun other => ⟨fun h => h ▸ hby, fun h => hby.unique h ?_⟩⟩
  exact fun a ha b hb => hone.strict (List.mem_map_of_mem ha) (List.mem_map_of_mem hb)

theorem exists_stablySortedBy (descending : Bool) {value : α → Value} {items : List α}
    (hone : Value.OneKind (items.map value)) :
    ∃ sorted, ∀ other, other = sorted ↔ StablySortedBy descending value items other := by
  let get (a : α) (_ : String) : Except Path.Fault Value := .ok (value a)
  have hvalue : ∀ a ∈ items, get a "" = .ok (value a) := fun _ _ => rfl
  obtain ⟨sorted, -, hsorted⟩ := sortByKeys_singleton ⟨"", descending⟩ hvalue hone
  exact ⟨sorted, hsorted⟩

theorem sortByValues_texts {paths : List String} {items : List α} :
    sortByValues get (.list (paths.map .str)) items =
      sortByKeys get (paths.map SortKey.ofText) items := by
  have hback : sortByValues.ofSort (Value.list (paths.map .str)).backwards =
      .ok (paths.map Value.str).reverse := rfl
  rw [sortByValues, hback, ok_bind, List.foldlM_reverse]
  induction paths with
  | nil => rfl
  | cons path paths ih =>
    rw [List.map_cons, List.foldrM_cons, ih rfl]
    rfl

end

def Value.getAt (v : Value) (path : String) : Except Path.Fault Value := v.get (Path.ofText path)

/-- Sorting by paths that order the items gives their stable order by the paths: the first path at
which two items differ decides, and items that no path tells apart stay as they stood. There is no
other such order. -/
theorem sortByPaths_stable {paths : List String} {items : List Value}
    (horders : ∀ path ∈ paths, (SortKey.ofText path).Orders Value.getAt items) :
    ∃ sorted, sortByPaths (.list (paths.map .str)) items = .ok sorted ∧
      ∀ other, other = sorted ↔
        StablySorted (Precedes Value.getAt (paths.map SortKey.ofText))
          (TiedThroughout Value.getAt (paths.map SortKey.ofText)) items other := by
  have hkeys : ∀ key ∈ paths.map SortKey.ofText, key.Orders Value.getAt items :=
    List.forall_mem_map.mpr horders
  obtain ⟨sorted, hsort, hstable⟩ := sortByKeys_stable hkeys
  refine ⟨sorted, sortByValues_texts.trans hsort, fun other => ⟨fun h => h ▸ hstable, fun h => ?_⟩⟩
  exact hstable.unique h fun a ha b hb => Precedes.strict hkeys ha hb

/-- Descending, with one name that is there, one that is null and one that is missing. -/
theorem sortByPaths_stable_of_absent_names :
    let blank : Value := .object [("name", .null)]
    let rex : Value := .object [("name", .str "Rex")]
    let bare : Value := .object []
    (SortKey.ofText "-name").Orders Value.getAt [blank, rex, bare] ∧
      sortByPaths (.list [.str "-name"]) [blank, rex, bare] = .ok [rex, blank, bare] := by
  intro blank rex bare
  have horders : (SortKey.ofText "-name").Orders Value.getAt [blank, rex, bare] := by
    constructor
    · simp only [List.forall_mem_cons]
      exact ⟨⟨_, rfl⟩, ⟨_, rfl⟩, ⟨_, rfl⟩, nofun⟩
    · right
      simp only [List.map_cons, List.map_nil, List.forall_mem_cons]
      exact ⟨fun h => absurd rfl h, fun _ => ⟨_, rfl⟩, fun h => absurd rfl h, nofun⟩
  have hpaths : ∀ path ∈ ["-name"], (SortKey.ofText path).Orders Value.getAt [blank, rex, bare] :=
    List.forall_mem_singleton.mpr horders
  obtain ⟨sorted, hsort, hunique⟩ := sortByPaths_stable hpaths
  have hfirst (item : Value) (habsent : ((SortKey.ofText "-name").held Value.getAt item).isAbsent) :
      Precedes Value.getAt [SortKey.ofText "-name"] rex item :=
    precedes_cons.mpr (.inl ⟨Bool.false_ne_true, .inl habsent⟩)
  have htied : TiedThroughout Value.getAt [SortKey.ofText "-name"] blank bare :=
    List.forall_mem_singleton.mpr (.inl ⟨rfl, rfl⟩)
  refine ⟨horders, ?_⟩
  rw [(hunique [rex, blank, bare]).mpr ⟨[(rex, 1), (blank, 0), (bare, 2)], .swap _ _ _, rfl, ?_⟩]
  · exact hsort
  · simp only [List.pairwise_cons, List.forall_mem_cons]
    exact ⟨⟨.inl (hfirst blank rfl), .inl (hfirst bare rfl), nofun⟩,
      ⟨.inr ⟨htied, by decide⟩, nofun⟩, nofun, .nil⟩

end RecordStore
