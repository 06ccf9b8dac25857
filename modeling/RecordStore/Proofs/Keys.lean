import Mathlib.Data.List.Perm.Subperm
import RecordStore.Proofs.Inversion
import RecordStore.Proofs.Members
import RecordStore.Value.Equality
import RecordStore.Value.Path

/-! Being the same key is symmetric and transitive, for values in which no object has a name twice
and no set an element. It is reflexive as well where there is no NaN and no document. -/
namespace RecordStore

theorem Num.eq_iff {n m : Num} : n.eq m ↔ ∃ p, n.place? = some p ∧ m.place? = some p := by
  rw [Num.eq]
  cases n.place? with
  | none => simp
  | some p =>
    cases m.place? with
    | none => simp
    | some q =>
      rw [beq_iff_eq, eq_comm]
      simp

namespace Value

/-- Induction over what a value holds. -/
@[elab_as_elim]
theorem nested {P : Value → Prop} (null : P null) (bool : ∀ b, P (bool b)) (num : ∀ n, P (num n))
    (str : ∀ s, P (str s)) (bytes : ∀ bs, P (bytes bs)) (byteArray : ∀ bs, P (byteArray bs))
    (date : ∀ d, P (date d)) (datetime : ∀ t, P (datetime t))
    (list : ∀ xs, (∀ x ∈ xs, P x) → P (list xs)) (tuple : ∀ xs, (∀ x ∈ xs, P x) → P (tuple xs))
    (set : ∀ xs, (∀ x ∈ xs, P x) → P (set xs))
    (object : ∀ ms, (∀ m ∈ ms, P m.2) → P (object ms)) (document : ∀ v, P v → P (document v))
    (missing : P missing) (v : Value) : P v := by
  have inside (x : Value) (hx : sizeOf x < sizeOf v) : P x :=
    nested null bool num str bytes byteArray date datetime list tuple set object document missing x
  have element {xs : List Value} (hv : sizeOf xs < sizeOf v) : ∀ x ∈ xs, P x := by
    intro x hx
    exact inside x (Nat.lt_trans (List.sizeOf_lt_of_mem hx) hv)
  cases v with
  | null => exact null
  | missing => exact missing
  | bool b => exact bool b
  | num n => exact num n
  | str s => exact str s
  | bytes bs => exact bytes bs
  | byteArray bs => exact byteArray bs
  | date d => exact date d
  | datetime t => exact datetime t
  | list xs => exact list xs (element (by simp))
  | tuple xs => exact tuple xs (element (by simp))
  | set xs => exact set xs (element (by simp))
  | document v => exact document v (inside v (by simp))
  | object ms =>
    refine object ms fun m hm => inside m.2 ?_
    have := List.sizeOf_lt_of_mem hm
    obtain ⟨k, v⟩ := m
    simp only [Prod.mk.sizeOf_spec, Value.object.sizeOf_spec] at this ⊢
    omega
termination_by sizeOf v

/-! ### Part by part -/

theorem sameKeys_iff {xs ys : List Value} :
    sameKeys xs ys ↔ List.Forall₂ (fun x y => x.sameKey y) xs ys := by
  induction xs generalizing ys with
  | nil => cases ys <;> simp [sameKeys]
  | cons x xs ih => cases ys <;> simp [sameKeys, ih]

theorem keySubset_iff {xs ys : List Value} :
    keySubset xs ys ↔ ∀ x ∈ xs, ∃ y ∈ ys, x.sameKey y := by
  induction xs with
  | nil => simp [keySubset]
  | cons x xs ih => simp [keySubset, ih]

theorem keySubRecord_iff {ms ns : Record} :
    keySubRecord ms ns ↔ ∀ m ∈ ms, ∃ w, Record.get? m.1 ns = some w ∧ m.2.sameKey w := by
  induction ms with
  | nil => simp [keySubRecord]
  | cons m ms ih =>
    obtain ⟨k, v⟩ := m
    rw [keySubRecord, Bool.and_eq_true, ih, List.forall_mem_cons]
    cases Record.get? k ns <;> simp

theorem eqList_iff {xs ys : List Value} :
    eqList xs ys ↔ List.Forall₂ (fun x y => x.isElement y) xs ys := by
  induction xs generalizing ys with
  | nil => cases ys <;> simp [eqList]
  | cons x xs ih => cases ys <;> simp [eqList, ih, isElement]

theorem areKeys_iff {xs : List Value} : areKeys xs ↔ ∀ x ∈ xs, x.isKey := by
  induction xs with
  | nil => simp [areKeys]
  | cons x xs ih => simp [areKeys, ih]

theorem sameKey_of_elements {v w : Value} {xs : List Value} (h : v.elements? = some xs) :
    v.sameKey w ↔ ∃ ys, w.elements? = some ys ∧ List.Forall₂ (fun x y => x.sameKey y) xs ys := by
  cases v <;> cases h <;> cases hw : w.elements? <;> simp [sameKey, hw, sameKeys_iff]

theorem sameKey_set_iff {xs : List Value} {w : Value} :
    (set xs).sameKey w ↔ ∃ ys, w = set ys ∧ xs.length = ys.length ∧
      ∀ x ∈ xs, ∃ y ∈ ys, x.sameKey y := by
  cases w <;> simp [sameKey, keySubset_iff]

theorem sameKey_object_iff {ms : Record} {w : Value} :
    (object ms).sameKey w ↔ ∃ ns : Record, w = object ns ∧ ms.length = ns.length ∧
      ∀ m ∈ ms, ∃ u, Record.get? m.1 ns = some u ∧ m.2.sameKey u := by
  cases w <;> simp [sameKey, keySubRecord_iff]

theorem isSameNaN_iff {n m : Num} : (num n).isSameNaN (num m) ↔
    ∃ p, n = .float (.nan (some p)) ∧ m = .float (.nan (some p)) := by
  constructor
  · intro h
    unfold isSameNaN at h
    split at h
    · rename_i p q hn hm
      cases hn
      cases hm
      rw [beq_iff_eq] at h
      exact ⟨p, rfl, h ▸ rfl⟩
    · cases h
  · intro h
    obtain ⟨p, rfl, rfl⟩ := h
    simp [isSameNaN]

theorem sameKey_num_iff {n : Num} {w : Value} :
    (num n).sameKey w ↔ ∃ m, w = num m ∧
      ((∃ p, n = .float (.nan (some p)) ∧ m = .float (.nan (some p))) ∨
        ∃ p, n.place? = some p ∧ m.place? = some p) := by
  cases w with
  | num m =>
    simp only [sameKey, Bool.or_eq_true, num.injEq, exists_eq_left', Num.eq_iff, isSameNaN_iff]
  | _ => simp [sameKey]

theorem sameKey_datetime_iff {t : DateTime} {w : Value} :
    (datetime t).sameKey w ↔ ∃ u, w = datetime u ∧ t.offset.isSome = u.offset.isSome ∧
      t.universalMicros = u.universalMicros := by
  cases w <;> simp [sameKey, DateTime.eq]

theorem sameKey_atom_iff {v w : Value} (h : v matches .null | .missing | .bool _ | .str _ |
    .bytes _ | .byteArray _ | .date _) : v.sameKey w ↔ v = w := by
  cases v <;> simp at h <;> cases w <;> simp [sameKey]

/-! ### Transitivity -/

theorem forall₂_sameKey_trans {xs ys zs : List Value}
    (ih : ∀ x ∈ xs, ∀ {v w : Value}, x.sameKey v → v.sameKey w → x.sameKey w)
    (hxy : List.Forall₂ (fun x y => x.sameKey y) xs ys)
    (hyz : List.Forall₂ (fun x y => x.sameKey y) ys zs) :
    List.Forall₂ (fun x y => x.sameKey y) xs zs := by
  induction hxy generalizing zs with
  | nil => exact hyz
  | cons h _ hrest =>
    obtain ⟨z, zs, hz, hzs, rfl⟩ := List.forall₂_cons_left_iff.mp hyz
    exact .cons (ih _ List.mem_cons_self h hz)
      (hrest (fun x hx => ih x (List.mem_cons_of_mem _ hx)) hzs)

theorem sameKey_trans {u v w : Value} (huv : u.sameKey v) (hvw : v.sameKey w) : u.sameKey w := by
  induction u using nested generalizing v w with
  | list xs ih | tuple xs ih =>
    obtain ⟨ys, hv, hxy⟩ := (sameKey_of_elements rfl).mp huv
    obtain ⟨zs, hw, hyz⟩ := (sameKey_of_elements hv).mp hvw
    exact (sameKey_of_elements rfl).mpr ⟨zs, hw, forall₂_sameKey_trans @ih hxy hyz⟩
  | set xs ih =>
    obtain ⟨ys, rfl, hl, hxy⟩ := sameKey_set_iff.mp huv
    obtain ⟨zs, rfl, hm, hyz⟩ := sameKey_set_iff.mp hvw
    refine sameKey_set_iff.mpr ⟨zs, rfl, hl.trans hm, fun x hx => ?_⟩
    obtain ⟨y, hy, hxy⟩ := hxy x hx
    obtain ⟨z, hz, hyz⟩ := hyz y hy
    exact ⟨z, hz, ih x hx hxy hyz⟩
  | object ms ih =>
    obtain ⟨ns, rfl, hl, hmn⟩ := sameKey_object_iff.mp huv
    obtain ⟨ks, rfl, hm, hnk⟩ := sameKey_object_iff.mp hvw
    refine sameKey_object_iff.mpr ⟨ks, rfl, hl.trans hm, fun m hm => ?_⟩
    obtain ⟨x, hx, hmx⟩ := hmn m hm
    obtain ⟨y, hy, hxy⟩ := hnk (m.1, x) (Record.mem_of_get? hx)
    exact ⟨y, hy, ih m hm hmx hxy⟩
  | num n =>
    obtain ⟨m, rfl, hnm⟩ := sameKey_num_iff.mp huv
    obtain ⟨k, rfl, hmk⟩ := sameKey_num_iff.mp hvw
    refine sameKey_num_iff.mpr ⟨k, rfl, ?_⟩
    rcases hnm with ⟨p, rfl, rfl⟩ | ⟨p, hn, hm⟩
    · exact hmk
    · rcases hmk with ⟨q, rfl, -⟩ | ⟨q, hm', hk⟩
      · cases hm
      · rw [hm] at hm'
        cases hm'
        exact .inr ⟨p, hn, hk⟩
  | datetime t =>
    obtain ⟨_, rfl, ho, hm⟩ := sameKey_datetime_iff.mp huv
    obtain ⟨_, rfl, ho', hm'⟩ := sameKey_datetime_iff.mp hvw
    exact sameKey_datetime_iff.mpr ⟨_, rfl, ho.trans ho', hm.trans hm'⟩
  | document v => simp [sameKey] at huv
  | _ => rwa [(sameKey_atom_iff rfl).mp huv]

/-! ### Symmetry -/

section
variable {α β : Type} {R : α → β → Prop} {xs : List α} {ys : List β}

/-- A relation that leads from different places of one list to different places of another matches
them one to one. -/
theorem exists_match (hd : xs.Pairwise fun x x' => ∀ y, R x y → ¬ R x' y)
    (hr : ∀ x ∈ xs, ∃ y ∈ ys, R x y) : ∃ zs, zs.Subperm ys ∧ List.Forall₂ R xs zs := by
  induction xs generalizing ys with
  | nil => exact ⟨[], (List.nil_sublist ys).subperm, .nil⟩
  | cons x xs ih =>
    obtain ⟨hx, hd⟩ := List.pairwise_cons.mp hd
    obtain ⟨y, hy, hxy⟩ := hr x List.mem_cons_self
    obtain ⟨before, after, rfl⟩ := List.append_of_mem hy
    -- What the first element reaches is left to it alone.
    have hr' : ∀ x' ∈ xs, ∃ z ∈ before ++ after, R x' z := by
      intro x' hx'
      obtain ⟨z, hz, hxz⟩ := hr x' (List.mem_cons_of_mem x hx')
      refine ⟨z, ?_, hxz⟩
      rcases List.mem_append.mp hz with hz | hz
      · exact List.mem_append_left after hz
      · rcases List.mem_cons.mp hz with rfl | hz
        · exact absurd hxz (hx x' hx' z hxy)
        · exact List.mem_append_right before hz
    obtain ⟨zs, hzs, hmatch⟩ := ih hd hr'
    have hsub := (List.subperm_cons y).mpr hzs
    exact ⟨y :: zs, hsub.trans List.perm_middle.symm.subperm, .cons hxy hmatch⟩

theorem length_le_of_reaches (hd : xs.Pairwise fun x x' => ∀ y, R x y → ¬ R x' y)
    (hr : ∀ x ∈ xs, ∃ y ∈ ys, R x y) : xs.length ≤ ys.length := by
  obtain ⟨zs, hzs, hmatch⟩ := exists_match hd hr
  rw [hmatch.length_eq]
  exact hzs.length_le

theorem reaches_all (hd : xs.Pairwise fun x x' => ∀ y, R x y → ¬ R x' y)
    (hr : ∀ x ∈ xs, ∃ y ∈ ys, R x y) (hl : ys.length ≤ xs.length) :
    ∀ y ∈ ys, ∃ x ∈ xs, R x y := by
  obtain ⟨zs, hzs, hmatch⟩ := exists_match hd hr
  rw [hmatch.length_eq] at hl
  intro y hy
  have hy := (hzs.perm_of_length_le hl).mem_iff.mpr hy
  exact exists_of_forall₂ hmatch.flip hy

end

theorem members_reach_all {R : Value → Value → Bool} {ms ns : Record}
    (hms : (ms.map Prod.fst).Nodup) (hl : ns.length ≤ ms.length)
    (h : ∀ m ∈ ms, ∃ u, Record.get? m.1 ns = some u ∧ R m.2 u) :
    ∀ n ∈ ns, ∃ m ∈ ms, m.1 = n.1 ∧ R m.2 n.2 := by
  let same (m n : Name × Value) : Prop := m.1 = n.1 ∧ R m.2 n.2
  have hd : ms.Pairwise fun m m' => ∀ n, same m n → ¬ same m' n := by
    refine (List.pairwise_map.mp hms).imp fun hne n hm hm' => ?_
    exact hne (hm.1.trans hm'.1.symm)
  have hr : ∀ m ∈ ms, ∃ n ∈ ns, same m n := by
    intro m hm
    obtain ⟨u, hu, hR⟩ := h m hm
    exact ⟨(m.1, u), Record.mem_of_get? hu, rfl, hR⟩
  exact reaches_all hd hr hl

theorem isElement_of_sameKey {v w : Value} (hv : v.isKey) (hw : w.isKey) (h : v.sameKey w) :
    v.isElement w := by
  rw [isElement, Bool.or_eq_true]
  induction v using nested generalizing w with
  | tuple xs ih =>
    obtain ⟨ys, hys, hxy⟩ := (sameKey_of_elements rfl).mp h
    cases w with
    | tuple ys =>
      cases hys
      right
      rw [isKey, areKeys_iff] at hv hw
      rw [eq, eqList_iff]
      clear h
      induction hxy with
      | nil => exact .nil
      | @cons x y xs ys hxy _ hrest =>
        obtain ⟨hx, hxs⟩ := List.forall_mem_cons.mp hv
        obtain ⟨hy, hys⟩ := List.forall_mem_cons.mp hw
        obtain ⟨ihx, ihxs⟩ := List.forall_mem_cons.mp ih
        refine .cons ?_ (hrest @ihxs hxs hys)
        rw [isElement, Bool.or_eq_true]
        exact ihx hx hy hxy
    | list ys => simp [isKey] at hw
    | _ => cases hys
  | num n =>
    obtain ⟨m, rfl, hnm⟩ := sameKey_num_iff.mp h
    refine hnm.imp isSameNaN_iff.mpr fun hnm => ?_
    rw [eq]
    exact Num.eq_iff.mpr hnm
  | datetime t =>
    obtain ⟨u, rfl, ho, hm⟩ := sameKey_datetime_iff.mp h
    simp [eq, DateTime.eq, ho, hm]
  | bool b =>
    cases (sameKey_atom_iff rfl).mp h
    right
    rw [eq]
    exact Num.eq_iff.mpr ⟨_, rfl, rfl⟩
  | bytes bs =>
    cases (sameKey_atom_iff rfl).mp h
    simp [eq, bytes?]
  | list | set | object | byteArray => simp [isKey] at hv
  | document v => simp [sameKey] at h
  | _ =>
    cases (sameKey_atom_iff rfl).mp h
    simp [eq]

mutual

/-- Whether objects have each name once and sets each element once, at any depth. -/
def isWellFormed : Value → Bool
  | list xs => areWellFormed xs
  | tuple xs => areWellFormed xs
  | set xs =>
    areKeys xs && decide (xs.Pairwise fun x y => x.isElement y = false) && areWellFormed xs
  | object ms => decide (ms.map Prod.fst).Nodup && membersWellFormed ms
  | document data => data.isWellFormed
  | _ => true

def areWellFormed : List Value → Bool
  | [] => true
  | x :: xs => x.isWellFormed && areWellFormed xs

def membersWellFormed : Record → Bool
  | [] => true
  | (_, v) :: ms => v.isWellFormed && membersWellFormed ms

end

theorem areWellFormed_iff {xs : List Value} :
    areWellFormed xs ↔ ∀ x ∈ xs, x.isWellFormed := by
  induction xs with
  | nil => simp [areWellFormed]
  | cons x xs ih => simp [areWellFormed, ih]

theorem membersWellFormed_iff {ms : Record} :
    membersWellFormed ms ↔ ∀ m ∈ ms, m.2.isWellFormed := by
  induction ms with
  | nil => simp [membersWellFormed]
  | cons m ms ih =>
    obtain ⟨k, v⟩ := m
    rw [membersWellFormed, Bool.and_eq_true, ih, List.forall_mem_cons]

theorem unwrap_wellFormed {v : Value} (hv : v.isWellFormed) : v.unwrap.isWellFormed := by
  cases v <;> exact hv

theorem getD_missing_or_mem (xs : List Value) (i : Nat) :
    xs.getD i .missing = .missing ∨ xs.getD i .missing ∈ xs := by
  rw [List.getD_eq_getElem?_getD]
  cases h : xs[i]? with
  | none => exact .inl rfl
  | some x => exact .inr (List.mem_of_getElem? h)

theorem child_missing_or_mem {v w : Value} {xs : List Value} {name : String}
    (hv : v = .list xs ∨ v = .tuple xs ∨ ∃ bs, v = .byteArray bs ∧ xs = byteValues bs)
    (h : v.child name = .ok w) : w = .missing ∨ w ∈ xs := by
  obtain rfl | rfl | ⟨bs, rfl, rfl⟩ := hv
  all_goals
    obtain ⟨position, -, h⟩ := bind_eq_ok.mp h
    cases position with
    | none =>
      cases h
      exact .inl rfl
    | some i =>
      cases h
      exact getD_missing_or_mem _ i

theorem child_wellFormed {v w : Value} {name : String} (hv : v.isWellFormed)
    (h : v.child name = .ok w) : w.isWellFormed := by
  cases v with
  | object ms =>
    cases h
    rw [isWellFormed, Bool.and_eq_true, membersWellFormed_iff] at hv
    cases hm : Record.get? name ms with
    | none => rfl
    | some x => exact hv.2 _ (Record.mem_of_get? hm)
  | list xs =>
    obtain rfl | hw := child_missing_or_mem (.inl rfl) h
    · rfl
    · exact areWellFormed_iff.mp hv w hw
  | tuple xs =>
    obtain rfl | hw := child_missing_or_mem (.inr (.inl rfl)) h
    · rfl
    · exact areWellFormed_iff.mp hv w hw
  | byteArray bs =>
    obtain rfl | hw := child_missing_or_mem (.inr (.inr ⟨bs, rfl, rfl⟩)) h
    · rfl
    · obtain ⟨b, -, rfl⟩ := List.mem_map.mp hw
      rfl
  | _ =>
    cases h
    rfl

theorem get_wellFormed {v w : Value} {path : Path} (hv : v.isWellFormed)
    (h : v.get path = .ok w) : w.isWellFormed := by
  rw [get] at h
  replace hv := unwrap_wellFormed hv
  generalize v.unwrap = u at hv h
  induction path generalizing u with
  | nil =>
    cases h
    exact hv
  | cons name rest ih =>
    rw [follow, bind_eq_ok] at h
    obtain ⟨x, hc, h⟩ := h
    have hx := child_wellFormed (unwrap_wellFormed hv) hc
    split at h
    · cases h
      rfl
    · exact ih x hx h

theorem apart_of_wellFormed {xs : List Value} (hxs : (set xs).isWellFormed)
    (hsymm : ∀ x ∈ xs, ∀ y, x.sameKey y → y.sameKey x) :
    xs.Pairwise fun x x' => ∀ y, x.sameKey y → ¬ x'.sameKey y := by
  rw [isWellFormed, Bool.and_eq_true, Bool.and_eq_true, areKeys_iff, decide_eq_true_iff] at hxs
  obtain ⟨⟨hkeys, hdistinct⟩, -⟩ := hxs
  -- Two elements that are the key of one would be one element.
  refine hdistinct.imp_of_mem fun {x x'} hx hx' hne y hxy hxy' => ?_
  have hyx := hsymm x' hx' y hxy'
  have := isElement_of_sameKey (hkeys x hx) (hkeys x' hx') (sameKey_trans hxy hyx)
  rw [this] at hne
  cases hne

theorem sameKey_symm {u v : Value} (hu : u.isWellFormed) (huv : u.sameKey v) : v.sameKey u := by
  induction u using nested generalizing v with
  | list xs ih | tuple xs ih =>
    obtain ⟨ys, hv, hxy⟩ := (sameKey_of_elements rfl).mp huv
    refine (sameKey_of_elements hv).mpr ⟨xs, rfl, ?_⟩
    rw [isWellFormed, areWellFormed_iff] at hu
    clear huv hv
    induction hxy with
    | nil => exact .nil
    | @cons x y xs ys hxy _ hrest =>
      obtain ⟨hx, hxs⟩ := List.forall_mem_cons.mp hu
      obtain ⟨ihx, ihxs⟩ := List.forall_mem_cons.mp ih
      exact .cons (ihx hx hxy) (hrest @ihxs hxs)
  | set xs ih =>
    obtain ⟨ys, rfl, hl, hxy⟩ := sameKey_set_iff.mp huv
    have hwf : ∀ x ∈ xs, x.isWellFormed := by
      rw [isWellFormed, Bool.and_eq_true, areWellFormed_iff] at hu
      exact hu.2
    have hd := apart_of_wellFormed hu fun x hx y hxy => ih x hx (hwf x hx) hxy
    refine sameKey_set_iff.mpr ⟨xs, rfl, hl.symm, ?_⟩
    intro y hy
    obtain ⟨x, hx, h⟩ := reaches_all hd hxy (Nat.le_of_eq hl.symm) y hy
    exact ⟨x, hx, ih x hx (hwf x hx) h⟩
  | object ms ih =>
    obtain ⟨ns, rfl, hl, hmn⟩ := sameKey_object_iff.mp huv
    rw [isWellFormed, Bool.and_eq_true, decide_eq_true_iff, membersWellFormed_iff] at hu
    obtain ⟨hnames, hwf⟩ := hu
    refine sameKey_object_iff.mpr ⟨ms, rfl, hl.symm, fun n hn => ?_⟩
    obtain ⟨m, hm, hk, h⟩ := members_reach_all hnames (Nat.le_of_eq hl.symm) hmn n hn
    exact ⟨m.2, hk ▸ Record.get?_of_mem hnames hm, ih m hm (hwf m hm) h⟩
  | num n =>
    obtain ⟨m, rfl, h⟩ := sameKey_num_iff.mp huv
    refine sameKey_num_iff.mpr ⟨n, rfl, ?_⟩
    rcases h with ⟨p, hn, hm⟩ | ⟨p, hn, hm⟩
    · exact .inl ⟨p, hm, hn⟩
    · exact .inr ⟨p, hm, hn⟩
  | datetime t =>
    obtain ⟨u, rfl, ho, hm⟩ := sameKey_datetime_iff.mp huv
    exact sameKey_datetime_iff.mpr ⟨t, rfl, ho.symm, hm.symm⟩
  | document v => simp [sameKey] at huv
  | _ =>
    cases (sameKey_atom_iff rfl).mp huv
    exact huv

/-! ### Reflexivity -/

mutual

def isPlain : Value → Bool
  | num n => !n.isNaN
  | list xs => arePlain xs
  | tuple xs => arePlain xs
  | set xs => arePlain xs
  | object ms => membersPlain ms
  | document _ => false
  | _ => true

def arePlain : List Value → Bool
  | [] => true
  | x :: xs => x.isPlain && arePlain xs

def membersPlain : Record → Bool
  | [] => true
  | (_, v) :: ms => v.isPlain && membersPlain ms

end

theorem arePlain_iff {xs : List Value} : arePlain xs ↔ ∀ x ∈ xs, x.isPlain := by
  induction xs with
  | nil => simp [arePlain]
  | cons x xs ih => simp [arePlain, ih]

theorem membersPlain_iff {ms : Record} : membersPlain ms ↔ ∀ m ∈ ms, m.2.isPlain := by
  induction ms with
  | nil => simp [membersPlain]
  | cons m ms ih =>
    obtain ⟨k, v⟩ := m
    rw [membersPlain, Bool.and_eq_true, ih, List.forall_mem_cons]

theorem sameKey_refl {v : Value} (hv : v.isWellFormed) (hp : v.isPlain) : v.sameKey v := by
  induction v using nested with
  | list xs ih | tuple xs ih =>
    refine (sameKey_of_elements rfl).mpr ⟨xs, rfl, List.forall₂_same.mpr fun x hx => ?_⟩
    exact ih x hx (areWellFormed_iff.mp hv x hx) (arePlain_iff.mp hp x hx)
  | set xs ih =>
    rw [isWellFormed, Bool.and_eq_true, areWellFormed_iff] at hv
    refine sameKey_set_iff.mpr ⟨xs, rfl, rfl, fun x hx => ⟨x, hx, ?_⟩⟩
    exact ih x hx (hv.2 x hx) (arePlain_iff.mp hp x hx)
  | object ms ih =>
    rw [isWellFormed, Bool.and_eq_true, decide_eq_true_iff, membersWellFormed_iff] at hv
    refine sameKey_object_iff.mpr ⟨ms, rfl, rfl, fun m hm => ?_⟩
    exact ⟨m.2, Record.get?_of_mem hv.1 hm, ih m hm (hv.2 m hm) (membersPlain_iff.mp hp m hm)⟩
  | num n =>
    refine sameKey_num_iff.mpr ⟨n, rfl, .inr ?_⟩
    cases n with
    | int i => exact ⟨_, rfl, rfl⟩
    | float x =>
      cases x with
      | nan p => cases hp
      | _ => exact ⟨_, rfl, rfl⟩
  | datetime t => exact sameKey_datetime_iff.mpr ⟨t, rfl, rfl, rfl⟩
  | document v => cases hp
  | _ => exact (sameKey_atom_iff rfl).mpr rfl

/-! ### Keys of several parts -/

theorem sameKeys_trans {xs ys zs : List Value} (hxy : sameKeys xs ys) (hyz : sameKeys ys zs) :
    sameKeys xs zs := by
  rw [sameKeys_iff] at hxy hyz ⊢
  exact forall₂_sameKey_trans (fun _ _ => sameKey_trans) hxy hyz

theorem sameKeys_symm {xs ys : List Value} (hxs : ∀ x ∈ xs, x.isWellFormed)
    (hxy : sameKeys xs ys) : sameKeys ys xs := by
  rw [sameKeys_iff] at hxy ⊢
  have h := (List.forall₂_and_left xs ys).mpr ⟨hxs, hxy⟩
  exact (h.imp fun x y h => sameKey_symm h.1 h.2).flip

theorem sameKeys_refl {xs : List Value} (hw : ∀ x ∈ xs, x.isWellFormed)
    (hp : ∀ x ∈ xs, x.isPlain) : sameKeys xs xs := by
  rw [sameKeys_iff, List.forall₂_same]
  exact fun x hx => sameKey_refl (hw x hx) (hp x hx)

end Value
end RecordStore
