import RecordStore.Proofs.Keys
import RecordStore.Value.Order

/-! The equality of values by which a store finds a key is transitive, and symmetric for values in
which no object has a name twice and no set an element. -/
namespace RecordStore

theorem Binary64.one_pos : 0 < Binary64.one := by
  unfold Binary64.one
  generalize 1074 = k
  exact Nat.two_pow_pos k

theorem Num.lt_int (m n : Int) : Num.lt (.int m) (.int n) = decide (m < n) := by
  have hone : (0 : Int) < Binary64.one := Int.natCast_pos.mpr Binary64.one_pos
  have hle : n * Binary64.one ≤ m * Binary64.one ↔ n ≤ m := Int.mul_le_mul_right hone
  have hlt : (m < n) = ¬ n ≤ m := by simp
  simp only [Num.lt, Num.place?, Place.lt, Place.le, hle, hlt, decide_not]

theorem Num.eq_int {m n : Int} : Num.eq (.int m) (.int n) ↔ m = n := by
  have hone : (Binary64.one : Int) ≠ 0 := Int.natCast_ne_zero.mpr (Nat.ne_of_gt Binary64.one_pos)
  simp only [Num.eq_iff, Num.place?, Option.some.injEq, exists_eq_left', Place.point.injEq,
    Int.mul_eq_mul_right_iff hone]
  exact eq_comm

namespace Value

theorem lt_int (m n : Int) : (Value.int m).lt? (.int n) = some (decide (m < n)) := by
  simp [Value.lt?, Value.int, Value.asNum?, Num.lt_int]

theorem eq_int {m n : Int} : (Value.int m).eq (.int n) ↔ m = n := by
  simp [Value.eq, Value.int, Value.asNum?, Num.eq_int]

theorem eq_of_isSameNaN {v w : Value} (h : v.isSameNaN w) : v = w := by
  unfold isSameNaN at h
  split at h
  · rw [eq_of_beq h]
  · cases h

/-! ### Part by part -/

theorem subset_iff {xs ys : List Value} :
    subset xs ys ↔ ∀ x ∈ xs, ∃ y ∈ ys, x.isElement y := by
  induction xs with
  | nil => simp [subset]
  | cons x xs ih => simp [subset, ih, isElement]

theorem subRecord_iff {ms ns : Record} :
    subRecord ms ns ↔ ∀ m ∈ ms, ∃ w, Record.get? m.1 ns = some w ∧ m.2.isElement w := by
  induction ms with
  | nil => simp [subRecord]
  | cons m ms ih =>
    obtain ⟨k, v⟩ := m
    rw [subRecord, Bool.and_eq_true, ih, List.forall_mem_cons]
    cases Record.get? k ns <;> simp [isElement]

theorem eq_of_asNum {v w : Value} {n : Num} (h : v.asNum? = some n) :
    v.eq w ↔ ∃ m, w.asNum? = some m ∧ n.eq m := by
  cases v <;> cases h <;> cases hw : w.asNum? <;> simp [eq, hw]

theorem eq_of_bytes {v w : Value} {bs : List UInt8} (h : v.bytes? = some bs) :
    v.eq w ↔ w.bytes? = some bs := by
  cases v <;> cases h <;> simp [eq]

theorem eq_list_iff {xs : List Value} {w : Value} :
    (list xs).eq w ↔ ∃ ys, w = list ys ∧ List.Forall₂ (fun x y => x.isElement y) xs ys := by
  cases w <;> simp [eq, eqList_iff]

theorem eq_tuple_iff {xs : List Value} {w : Value} :
    (tuple xs).eq w ↔ ∃ ys, w = tuple ys ∧ List.Forall₂ (fun x y => x.isElement y) xs ys := by
  cases w <;> simp [eq, eqList_iff]

theorem eq_set_iff {xs : List Value} {w : Value} :
    (set xs).eq w ↔ ∃ ys, w = set ys ∧ xs.length = ys.length ∧
      ∀ x ∈ xs, ∃ y ∈ ys, x.isElement y := by
  cases w <;> simp [eq, subset_iff]

theorem eq_object_iff {ms : Record} {w : Value} :
    (object ms).eq w ↔ ∃ ns : Record, w = object ns ∧ ms.length = ns.length ∧
      ∀ m ∈ ms, ∃ u, Record.get? m.1 ns = some u ∧ m.2.isElement u := by
  cases w <;> simp [eq, subRecord_iff]

theorem eq_datetime_iff {t : DateTime} {w : Value} :
    (datetime t).eq w ↔ ∃ u, w = datetime u ∧ t.offset.isSome = u.offset.isSome ∧
      t.universalMicros = u.universalMicros := by
  cases w <;> simp [eq, DateTime.eq]

theorem eq_atom_iff {v w : Value} (h : v matches .null | .missing | .str _ | .date _) :
    v.eq w ↔ v = w := by
  cases v <;> simp at h <;> cases w <;> simp [eq]

/-! ### Transitivity -/

theorem eq_trans_of_asNum {u v w : Value} {n : Num} (hu : u.asNum? = some n) (huv : u.eq v)
    (hvw : v.eq w) : u.eq w := by
  obtain ⟨m, hv, hnm⟩ := (eq_of_asNum hu).mp huv
  obtain ⟨k, hw, hmk⟩ := (eq_of_asNum hv).mp hvw
  obtain ⟨p, hn, hm⟩ := Num.eq_iff.mp hnm
  obtain ⟨q, hm', hk⟩ := Num.eq_iff.mp hmk
  rw [hm] at hm'
  cases hm'
  exact (eq_of_asNum hu).mpr ⟨k, hw, Num.eq_iff.mpr ⟨p, hn, hk⟩⟩

theorem eq_trans_of_bytes {u v w : Value} {bs : List UInt8} (hu : u.bytes? = some bs)
    (huv : u.eq v) (hvw : v.eq w) : u.eq w := by
  have hv := (eq_of_bytes hu).mp huv
  exact (eq_of_bytes hu).mpr ((eq_of_bytes hv).mp hvw)

section
variable {x : Value} (ih : ∀ {v w : Value}, x.eq v → v.eq w → x.eq w)
include ih

theorem isElement_trans_of {v w : Value} (hxv : x.isElement v) (hvw : v.isElement w) :
    x.isElement w := by
  rw [isElement, Bool.or_eq_true] at hxv hvw ⊢
  rcases hxv with hxv | hxv
  · rw [eq_of_isSameNaN hxv]
    exact hvw
  · rcases hvw with hvw | hvw
    · rw [← eq_of_isSameNaN hvw]
      exact .inr hxv
    · exact .inr (ih hxv hvw)

end

theorem forall₂_isElement_trans {xs ys zs : List Value}
    (ih : ∀ x ∈ xs, ∀ {v w : Value}, x.eq v → v.eq w → x.eq w)
    (hxy : List.Forall₂ (fun x y => x.isElement y) xs ys)
    (hyz : List.Forall₂ (fun x y => x.isElement y) ys zs) :
    List.Forall₂ (fun x y => x.isElement y) xs zs := by
  induction hxy generalizing zs with
  | nil => exact hyz
  | cons h _ hrest =>
    obtain ⟨z, zs, hz, hzs, rfl⟩ := List.forall₂_cons_left_iff.mp hyz
    exact .cons (isElement_trans_of (ih _ List.mem_cons_self) h hz)
      (hrest (fun x hx => ih x (List.mem_cons_of_mem _ hx)) hzs)

theorem eq_trans {u v w : Value} (huv : u.eq v) (hvw : v.eq w) : u.eq w := by
  induction u using nested generalizing v w with
  | num n | bool b => exact eq_trans_of_asNum rfl huv hvw
  | bytes bs | byteArray bs => exact eq_trans_of_bytes rfl huv hvw
  | list xs ih =>
    obtain ⟨ys, rfl, hxy⟩ := eq_list_iff.mp huv
    obtain ⟨zs, rfl, hyz⟩ := eq_list_iff.mp hvw
    exact eq_list_iff.mpr ⟨zs, rfl, forall₂_isElement_trans @ih hxy hyz⟩
  | tuple xs ih =>
    obtain ⟨ys, rfl, hxy⟩ := eq_tuple_iff.mp huv
    obtain ⟨zs, rfl, hyz⟩ := eq_tuple_iff.mp hvw
    exact eq_tuple_iff.mpr ⟨zs, rfl, forall₂_isElement_trans @ih hxy hyz⟩
  | set xs ih =>
    obtain ⟨ys, rfl, hl, hxy⟩ := eq_set_iff.mp huv
    obtain ⟨zs, rfl, hm, hyz⟩ := eq_set_iff.mp hvw
    refine eq_set_iff.mpr ⟨zs, rfl, hl.trans hm, fun x hx => ?_⟩
    obtain ⟨y, hy, hxy⟩ := hxy x hx
    obtain ⟨z, hz, hyz⟩ := hyz y hy
    exact ⟨z, hz, isElement_trans_of (ih x hx) hxy hyz⟩
  | object ms ih =>
    obtain ⟨ns, rfl, hl, hmn⟩ := eq_object_iff.mp huv
    obtain ⟨ks, rfl, hm, hnk⟩ := eq_object_iff.mp hvw
    refine eq_object_iff.mpr ⟨ks, rfl, hl.trans hm, fun m hm => ?_⟩
    obtain ⟨x, hx, hmx⟩ := hmn m hm
    obtain ⟨y, hy, hxy⟩ := hnk (m.1, x) (Record.mem_of_get? hx)
    exact ⟨y, hy, isElement_trans_of (ih m hm) hmx hxy⟩
  | datetime t =>
    obtain ⟨_, rfl, ho, hm⟩ := eq_datetime_iff.mp huv
    obtain ⟨_, rfl, ho', hm'⟩ := eq_datetime_iff.mp hvw
    exact eq_datetime_iff.mpr ⟨_, rfl, ho.trans ho', hm.trans hm'⟩
  | document v => simp [eq] at huv
  | _ => rwa [(eq_atom_iff rfl).mp huv]

/-! ### Symmetry -/

section
variable {x : Value} (ih : ∀ {v : Value}, x.eq v → v.eq x)
include ih

theorem isElement_symm_of {v : Value} (hxv : x.isElement v) : v.isElement x := by
  rw [isElement, Bool.or_eq_true] at hxv ⊢
  rcases hxv with hxv | hxv
  · cases eq_of_isSameNaN hxv
    exact .inl hxv
  · exact .inr (ih hxv)

end

theorem forall₂_isElement_symm {xs ys : List Value}
    (ih : ∀ x ∈ xs, ∀ {v : Value}, x.eq v → v.eq x)
    (hxy : List.Forall₂ (fun x y => x.isElement y) xs ys) :
    List.Forall₂ (fun y x => y.isElement x) ys xs := by
  induction hxy with
  | nil => exact .nil
  | cons h _ hrest =>
    exact .cons (isElement_symm_of (ih _ List.mem_cons_self) h)
      (hrest fun x hx => ih x (List.mem_cons_of_mem _ hx))

theorem eq_symm {u v : Value} (hu : u.isWellFormed) (huv : u.eq v) : v.eq u := by
  induction u using nested generalizing v with
  | num n | bool b =>
    obtain ⟨m, hv, hnm⟩ := (eq_of_asNum rfl).mp huv
    obtain ⟨p, hn, hm⟩ := Num.eq_iff.mp hnm
    exact (eq_of_asNum hv).mpr ⟨_, rfl, Num.eq_iff.mpr ⟨p, hm, hn⟩⟩
  | bytes bs | byteArray bs => exact (eq_of_bytes ((eq_of_bytes rfl).mp huv)).mpr rfl
  | list xs ih =>
    obtain ⟨ys, rfl, hxy⟩ := eq_list_iff.mp huv
    rw [isWellFormed, areWellFormed_iff] at hu
    exact eq_list_iff.mpr ⟨xs, rfl, forall₂_isElement_symm (fun x hx => ih x hx (hu x hx)) hxy⟩
  | tuple xs ih =>
    obtain ⟨ys, rfl, hxy⟩ := eq_tuple_iff.mp huv
    rw [isWellFormed, areWellFormed_iff] at hu
    exact eq_tuple_iff.mpr ⟨xs, rfl, forall₂_isElement_symm (fun x hx => ih x hx (hu x hx)) hxy⟩
  | set xs ih =>
    obtain ⟨ys, rfl, hl, hxy⟩ := eq_set_iff.mp huv
    rw [isWellFormed, Bool.and_eq_true, Bool.and_eq_true, decide_eq_true_iff,
      areWellFormed_iff] at hu
    obtain ⟨⟨-, hdistinct⟩, hwf⟩ := hu
    refine eq_set_iff.mpr ⟨xs, rfl, hl.symm, ?_⟩
    have hsymm (x) (hx : x ∈ xs) {y} (h : x.isElement y) : y.isElement x :=
      isElement_symm_of (ih x hx (hwf x hx)) h
    -- Two elements that are equal to one would be equal themselves.
    have hd : xs.Pairwise fun x x' => ∀ y, x.isElement y → ¬ x'.isElement y := by
      refine hdistinct.imp_of_mem fun {x x'} hx hx' hne y hxy hxy' => ?_
      have := isElement_trans_of eq_trans hxy (hsymm x' hx' hxy')
      rw [this] at hne
      cases hne
    intro y hy
    obtain ⟨x, hx, h⟩ := reaches_all hd hxy (Nat.le_of_eq hl.symm) y hy
    exact ⟨x, hx, hsymm x hx h⟩
  | object ms ih =>
    obtain ⟨ns, rfl, hl, hmn⟩ := eq_object_iff.mp huv
    rw [isWellFormed, Bool.and_eq_true, decide_eq_true_iff, membersWellFormed_iff] at hu
    obtain ⟨hnames, hwf⟩ := hu
    refine eq_object_iff.mpr ⟨ms, rfl, hl.symm, fun n hn => ?_⟩
    obtain ⟨m, hm, hk, h⟩ := members_reach_all hnames (Nat.le_of_eq hl.symm) hmn n hn
    exact ⟨m.2, hk ▸ Record.get?_of_mem hnames hm, isElement_symm_of (ih m hm (hwf m hm)) h⟩
  | datetime t =>
    obtain ⟨u, rfl, ho, hm⟩ := eq_datetime_iff.mp huv
    exact eq_datetime_iff.mpr ⟨t, rfl, ho.symm, hm.symm⟩
  | document v => simp [eq] at huv
  | _ =>
    cases (eq_atom_iff rfl).mp huv
    exact huv

/-! ### Reflexivity -/

theorem isElement_of_eq {v w : Value} (h : v.eq w) : v.isElement w := by
  rw [isElement, h, Bool.or_true]

theorem eq_refl {v : Value} (hv : v.isWellFormed) (hp : v.isPlain) : v.eq v := by
  induction v using nested with
  | bool b => exact (eq_of_asNum rfl).mpr ⟨_, rfl, Num.eq_iff.mpr ⟨_, rfl, rfl⟩⟩
  | num n =>
    refine (eq_of_asNum rfl).mpr ⟨n, rfl, ?_⟩
    cases n with
    | int i => exact Num.eq_int.mpr rfl
    | float x =>
      cases x with
      | nan p => cases hp
      | _ => exact Num.eq_iff.mpr ⟨_, rfl, rfl⟩
  | bytes bs | byteArray bs => exact (eq_of_bytes rfl).mpr rfl
  | list xs ih =>
    refine eq_list_iff.mpr ⟨xs, rfl, List.forall₂_same.mpr fun x hx => isElement_of_eq ?_⟩
    exact ih x hx (areWellFormed_iff.mp hv x hx) (arePlain_iff.mp hp x hx)
  | tuple xs ih =>
    refine eq_tuple_iff.mpr ⟨xs, rfl, List.forall₂_same.mpr fun x hx => isElement_of_eq ?_⟩
    exact ih x hx (areWellFormed_iff.mp hv x hx) (arePlain_iff.mp hp x hx)
  | set xs ih =>
    rw [isWellFormed, Bool.and_eq_true, areWellFormed_iff] at hv
    refine eq_set_iff.mpr ⟨xs, rfl, rfl, fun x hx => ⟨x, hx, isElement_of_eq ?_⟩⟩
    exact ih x hx (hv.2 x hx) (arePlain_iff.mp hp x hx)
  | object ms ih =>
    rw [isWellFormed, Bool.and_eq_true, decide_eq_true_iff, membersWellFormed_iff] at hv
    refine eq_object_iff.mpr ⟨ms, rfl, rfl, fun m hm => ?_⟩
    refine ⟨m.2, Record.get?_of_mem hv.1 hm, isElement_of_eq ?_⟩
    exact ih m hm (hv.2 m hm) (membersPlain_iff.mp hp m hm)
  | datetime t => exact eq_datetime_iff.mpr ⟨t, rfl, rfl, rfl⟩
  | document v => cases hp
  | _ => exact (eq_atom_iff rfl).mpr rfl

end Value

end RecordStore
