import Mathlib.Data.List.Pairwise
import RecordStore.Proofs.ValueEquality

/-! Where the equality that queries use and the one that groups use come apart. Of two values that
are equal, a boolean of one that is a number in the other makes them two keys; of two values that
are one key, a list of one that is a tuple in the other makes them different. Elsewhere they agree,
at any depth. -/
namespace RecordStore.Value

def boolWithNum : Value → Value → Bool
  | bool _, num _ => true
  | num _, bool _ => true
  | _, _ => false

def listWithTuple : Value → Value → Bool
  | list _, tuple _ => true
  | tuple _, list _ => true
  | _, _ => false

mutual

/-- Whether a relation holds of two values or of what they have at one place inside: at a position,
under a name, or as equal elements of sets. -/
def somewhere (p : Value → Value → Bool) : Value → Value → Bool
  | list xs, w => p (list xs) w || match w.elements? with
    | some ys => somewhereIn p xs ys
    | none => false
  | tuple xs, w => p (tuple xs) w || match w.elements? with
    | some ys => somewhereIn p xs ys
    | none => false
  | set xs, set ys => p (set xs) (set ys) || somewhereAmong p xs ys
  | object ms, object ns => p (object ms) (object ns) || somewhereInRecord p ms ns
  | v, w => p v w

def somewhereIn (p : Value → Value → Bool) : List Value → List Value → Bool
  | x :: xs, y :: ys => x.somewhere p y || somewhereIn p xs ys
  | _, _ => false

def somewhereAmong (p : Value → Value → Bool) : List Value → List Value → Bool
  | [], _ => false
  | x :: xs, ys => (ys.any fun y => x.isElement y && x.somewhere p y) || somewhereAmong p xs ys

def somewhereInRecord (p : Value → Value → Bool) : Record → Record → Bool
  | [], _ => false
  | (k, v) :: ms, ns =>
    (match Record.get? k ns with
      | some w => v.somewhere p w
      | none => false) || somewhereInRecord p ms ns

end

/-! ### Part by part -/

section
variable {p : Value → Value → Bool}

theorem somewhere_of_elements {v w : Value} {xs ys : List Value} (hv : v.elements? = some xs)
    (hw : w.elements? = some ys) : v.somewhere p w = (p v w || somewhereIn p xs ys) := by
  cases v <;> cases hv <;> rw [somewhere, hw]

theorem somewhereIn_eq_false {xs ys : List Value} (h : xs.length = ys.length) :
    somewhereIn p xs ys = false ↔ List.Forall₂ (fun x y => x.somewhere p y = false) xs ys := by
  induction xs generalizing ys with
  | nil =>
    cases ys with
    | nil => simp [somewhereIn]
    | cons => cases h
  | cons x xs ih =>
    cases ys with
    | nil => cases h
    | cons y ys => simp [somewhereIn, ih (Nat.succ.inj h)]

theorem somewhereAmong_eq_false {xs ys : List Value} :
    somewhereAmong p xs ys = false ↔
      ∀ x ∈ xs, ∀ y ∈ ys, x.isElement y → x.somewhere p y = false := by
  induction xs with
  | nil => simp [somewhereAmong]
  | cons x xs ih => simp [somewhereAmong, ih]

theorem somewhereInRecord_eq_false {ms ns : Record} :
    somewhereInRecord p ms ns = false ↔
      ∀ m ∈ ms, ∀ w, Record.get? m.1 ns = some w → m.2.somewhere p w = false := by
  induction ms with
  | nil => simp [somewhereInRecord]
  | cons m ms ih =>
    obtain ⟨k, v⟩ := m
    rw [somewhereInRecord, Bool.or_eq_false_iff, ih, List.forall_mem_cons]
    cases Record.get? k ns <;> simp

end

/-! ### Values that can be keys -/

theorem anyHoldsByteArray_eq_false {xs : List Value} :
    anyHoldsByteArray xs = false ↔ ∀ x ∈ xs, x.holdsByteArray = false := by
  induction xs with
  | nil => simp [anyHoldsByteArray]
  | cons x xs ih => simp [anyHoldsByteArray, ih]

theorem memberHoldsByteArray_eq_false {ms : Record} :
    memberHoldsByteArray ms = false ↔ ∀ m ∈ ms, m.2.holdsByteArray = false := by
  induction ms with
  | nil => simp [memberHoldsByteArray]
  | cons m ms ih =>
    obtain ⟨k, v⟩ := m
    rw [memberHoldsByteArray, Bool.or_eq_false_iff, ih, List.forall_mem_cons]

/-- A value that can be a key of a group, and is one key with itself and equal to itself. -/
structure Groupable (v : Value) : Prop where
  wellFormed : v.isWellFormed
  plain : v.isPlain
  lasting : v.holdsByteArray = false

namespace Groupable

theorem element {v x : Value} {xs : List Value} (hv : v.Groupable) (h : v.elements? = some xs)
    (hx : x ∈ xs) : x.Groupable := by
  obtain ⟨hw, hp, hl⟩ := hv
  cases v with
  | list _ | tuple _ =>
    cases h
    exact ⟨areWellFormed_iff.mp hw x hx, arePlain_iff.mp hp x hx,
      anyHoldsByteArray_eq_false.mp hl x hx⟩
  | _ => cases h

theorem ofSet {x : Value} {xs : List Value} (hv : (set xs).Groupable) (hx : x ∈ xs) :
    x.Groupable := by
  obtain ⟨hw, hp, hl⟩ := hv
  rw [isWellFormed, Bool.and_eq_true] at hw
  exact ⟨areWellFormed_iff.mp hw.2 x hx, arePlain_iff.mp hp x hx,
    anyHoldsByteArray_eq_false.mp hl x hx⟩

theorem isKey {x : Value} {xs : List Value} (hv : (set xs).Groupable) (hx : x ∈ xs) : x.isKey := by
  have hw := hv.wellFormed
  rw [isWellFormed, Bool.and_eq_true, Bool.and_eq_true, areKeys_iff] at hw
  exact hw.1.1 x hx

theorem member {m : Name × Value} {ms : Record} (hv : (object ms).Groupable) (hm : m ∈ ms) :
    m.2.Groupable := by
  obtain ⟨hw, hp, hl⟩ := hv
  rw [isWellFormed, Bool.and_eq_true] at hw
  exact ⟨membersWellFormed_iff.mp hw.2 m hm, membersPlain_iff.mp hp m hm,
    memberHoldsByteArray_eq_false.mp hl m hm⟩

end Groupable

theorem isSameNaN_of_plain {v w : Value} (hp : v.isPlain) : v.isSameNaN w = false := by
  unfold isSameNaN
  split
  · cases hp
  · rfl

theorem eq_of_isElement {v w : Value} (hp : v.isPlain) (h : v.isElement w) : v.eq w := by
  rwa [isElement, isSameNaN_of_plain hp, Bool.false_or] at h

theorem eq_of_isElement_of_mem {xs : List Value} (hxs : (set xs).isWellFormed) :
    ∀ x ∈ xs, ∀ y ∈ xs, x.isElement y → x = y := by
  rw [isWellFormed, Bool.and_eq_true, Bool.and_eq_true, decide_eq_true_iff,
    areWellFormed_iff] at hxs
  obtain ⟨⟨-, hdistinct⟩, hwf⟩ := hxs
  have hno {x y : Value} (hne : x.isElement y = false) (h : x.isElement y) : x = y := by
    rw [hne] at h
    cases h
  refine List.Pairwise.forall_of_forall_of_flip (fun x _ _ => rfl) (hdistinct.imp hno) ?_
  exact hdistinct.imp_of_mem fun hx hy hne h =>
    (hno hne (isElement_symm_of (eq_symm (hwf _ hy)) h)).symm

theorem sameKey_of_isElement {xs ys : List Value} (hxs : (set xs).Groupable)
    (hys : (set ys).Groupable) (h : ∀ x ∈ xs, ∃ y ∈ ys, x.sameKey y) {x y : Value}
    (hx : x ∈ xs) (hy : y ∈ ys) (hxy : x.isElement y) : x.sameKey y := by
  obtain ⟨z, hz, hxz⟩ := h x hx
  have hyx := isElement_symm_of (eq_symm (hxs.ofSet hx).wellFormed) hxy
  have hxz' := isElement_of_sameKey (hxs.isKey hx) (hys.isKey hz) hxz
  have hsame : y = z :=
    eq_of_isElement_of_mem hys.wellFormed y hy z hz (isElement_trans_of eq_trans hyx hxz')
  exact hsame ▸ hxz

/-! ### Where the two equalities agree -/

theorem forall₂_iff {R S T : Value → Value → Prop} {xs ys : List Value} (h : List.Forall₂ R xs ys)
    (hST : ∀ x ∈ xs, ∀ y ∈ ys, R x y → (S x y ↔ T x y)) :
    List.Forall₂ S xs ys ↔ List.Forall₂ T xs ys := by
  induction h with
  | nil => simp
  | cons hR _ ih =>
    rw [List.forall₂_cons, List.forall₂_cons, hST _ List.mem_cons_self _ List.mem_cons_self hR,
      ih fun x hx y hy => hST x (List.mem_cons_of_mem _ hx) y (List.mem_cons_of_mem _ hy)]

theorem named_iff {R S T : Value → Value → Bool} {ms ns : Record}
    (h : ∀ m ∈ ms, ∃ u, Record.get? m.1 ns = some u ∧ R m.2 u)
    (hST : ∀ m ∈ ms, ∀ n ∈ ns, R m.2 n.2 → (S m.2 n.2 ↔ T m.2 n.2 = false)) :
    (∀ m ∈ ms, ∃ u, Record.get? m.1 ns = some u ∧ S m.2 u) ↔
      ∀ m ∈ ms, ∀ u, Record.get? m.1 ns = some u → T m.2 u = false := by
  refine forall₂_congr fun m hm => ?_
  obtain ⟨u, hu, hR⟩ := h m hm
  simpa [hu] using hST m hm (m.1, u) (Record.mem_of_get? hu) hR

theorem isElement_iff {v w : Value} (hp : v.isPlain) : v.isElement w ↔ v.eq w :=
  ⟨eq_of_isElement hp, isElement_of_eq⟩

theorem boolWithNum_of_elements {v w : Value} {xs : List Value} (hv : v.elements? = some xs) :
    boolWithNum v w = false := by
  cases v <;> cases hv <;> rfl

theorem elements_of_eq {v w : Value} {xs : List Value} (hv : v.elements? = some xs) (h : v.eq w) :
    ∃ ys, w.elements? = some ys ∧ List.Forall₂ (fun x y => x.isElement y) xs ys := by
  cases v with
  | list _ =>
    cases hv
    obtain ⟨ys, rfl, hxy⟩ := eq_list_iff.mp h
    exact ⟨ys, rfl, hxy⟩
  | tuple _ =>
    cases hv
    obtain ⟨ys, rfl, hxy⟩ := eq_tuple_iff.mp h
    exact ⟨ys, rfl, hxy⟩
  | _ => cases hv

/-- Equal values are one key unless a boolean of one is a number in the other. -/
theorem sameKey_iff_of_eq {v w : Value} (hv : v.Groupable) (hw : w.Groupable) (h : v.eq w) :
    v.sameKey w ↔ v.somewhere boolWithNum w = false := by
  induction v using nested generalizing w with
  | list xs ih | tuple xs ih =>
    obtain ⟨ys, hys, hxy⟩ := elements_of_eq rfl h
    rw [sameKey_of_elements rfl, somewhere_of_elements rfl hys, boolWithNum_of_elements rfl,
      Bool.false_or, somewhereIn_eq_false hxy.length_eq]
    simp only [hys, Option.some.injEq, exists_eq_left']
    refine forall₂_iff hxy fun x hx y hy hxy => ?_
    have hx' := hv.element rfl hx
    exact ih x hx hx' (hw.element hys hy) ((isElement_iff hx'.plain).mp hxy)
  | set xs ih =>
    obtain ⟨ys, rfl, hl, hxy⟩ := eq_set_iff.mp h
    have hhere : boolWithNum (set xs) (set ys) = false := rfl
    have hiff {x y} (hx : x ∈ xs) (hy : y ∈ ys) (hxy : x.isElement y) :
        x.sameKey y ↔ x.somewhere boolWithNum y = false :=
      ih x hx (hv.ofSet hx) (hw.ofSet hy) ((isElement_iff (hv.ofSet hx).plain).mp hxy)
    rw [somewhere, hhere, Bool.false_or, somewhereAmong_eq_false, sameKey_set_iff]
    constructor
    · intro h x hx y hy hxy
      obtain ⟨_, ⟨⟩, -, h⟩ := h
      exact (hiff hx hy hxy).mp (sameKey_of_isElement hv hw h hx hy hxy)
    · intro h
      refine ⟨ys, rfl, hl, fun x hx => ?_⟩
      obtain ⟨y, hy, hxy⟩ := hxy x hx
      exact ⟨y, hy, (hiff hx hy hxy).mpr (h x hx y hy hxy)⟩
  | object ms ih =>
    obtain ⟨ns, rfl, hl, hmn⟩ := eq_object_iff.mp h
    have hhere : boolWithNum (object ms) (object ns) = false := rfl
    rw [somewhere, hhere, Bool.false_or, somewhereInRecord_eq_false, sameKey_object_iff]
    simp only [object.injEq, exists_eq_left', hl, true_and]
    refine named_iff hmn fun m hm n hn hmn => ?_
    exact ih m hm (hv.member hm) (hw.member hn) ((isElement_iff (hv.member hm).plain).mp hmn)
  | num n =>
    obtain ⟨m, hm, hnm⟩ := (eq_of_asNum rfl).mp h
    cases w with
    | num m =>
      cases hm
      simp [sameKey, hnm, somewhere, boolWithNum]
    | bool b => simp [sameKey, somewhere, boolWithNum]
    | _ => cases hm
  | bool b =>
    obtain ⟨m, hm, hnm⟩ := (eq_of_asNum rfl).mp h
    cases w with
    | num m => simp [sameKey, somewhere, boolWithNum]
    | bool c =>
      cases hm
      rw [Num.eq_int] at hnm
      cases b <;> cases c <;> simp at hnm <;> simp [sameKey, somewhere, boolWithNum]
    | _ => cases hm
  | bytes bs =>
    have hbytes := (eq_of_bytes rfl).mp h
    cases w with
    | bytes cs =>
      cases hbytes
      simp [sameKey, somewhere, boolWithNum]
    | byteArray cs => cases hw.lasting
    | _ => cases hbytes
  | byteArray bs => cases hv.lasting
  | datetime t =>
    obtain ⟨u, rfl, ht⟩ := eq_datetime_iff.mp h
    have hsame : (datetime t).sameKey (datetime u) := sameKey_datetime_iff.mpr ⟨u, rfl, ht⟩
    simp [hsame, somewhere, boolWithNum]
  | document v => cases hv.plain
  | _ =>
    cases (eq_atom_iff rfl).mp h
    simp [sameKey, somewhere, boolWithNum]

theorem eq_iff_of_elements {v w : Value} {xs ys : List Value} (hv : v.elements? = some xs)
    (hw : w.elements? = some ys) :
    v.eq w ↔ listWithTuple v w = false ∧ List.Forall₂ (fun x y => x.isElement y) xs ys := by
  cases v <;> cases hv <;> cases w <;> cases hw <;> simp [eq, listWithTuple, eqList_iff]

/-- Values that are one key are equal unless a list of one is a tuple in the other. -/
theorem eq_iff_of_sameKey {v w : Value} (hv : v.Groupable) (hw : w.Groupable) (h : v.sameKey w) :
    v.eq w ↔ v.somewhere listWithTuple w = false := by
  induction v using nested generalizing w with
  | list xs ih | tuple xs ih =>
    obtain ⟨ys, hys, hxy⟩ := (sameKey_of_elements rfl).mp h
    rw [eq_iff_of_elements rfl hys, somewhere_of_elements rfl hys, Bool.or_eq_false_iff,
      somewhereIn_eq_false hxy.length_eq]
    refine and_congr_right fun _ => forall₂_iff hxy fun x hx y hy hxy => ?_
    have hx' := hv.element rfl hx
    rw [isElement_iff hx'.plain]
    exact ih x hx hx' (hw.element hys hy) hxy
  | set xs ih =>
    obtain ⟨ys, rfl, hl, hxy⟩ := sameKey_set_iff.mp h
    have hhere : listWithTuple (set xs) (set ys) = false := rfl
    rw [somewhere, hhere, Bool.false_or, somewhereAmong_eq_false, eq_set_iff]
    constructor
    · intro _ x hx y hy helement
      have heq := (isElement_iff (hv.ofSet hx).plain).mp helement
      have hsame := sameKey_of_isElement hv hw hxy hx hy helement
      exact (ih x hx (hv.ofSet hx) (hw.ofSet hy) hsame).mp heq
    · -- Elements of sets cannot change, so that they hold no list.
      intro _
      refine ⟨ys, rfl, hl, fun x hx => ?_⟩
      obtain ⟨y, hy, hsame⟩ := hxy x hx
      exact ⟨y, hy, isElement_of_sameKey (hv.isKey hx) (hw.isKey hy) hsame⟩
  | object ms ih =>
    obtain ⟨ns, rfl, hl, hmn⟩ := sameKey_object_iff.mp h
    have hhere : listWithTuple (object ms) (object ns) = false := rfl
    rw [somewhere, hhere, Bool.false_or, somewhereInRecord_eq_false, eq_object_iff]
    simp only [object.injEq, exists_eq_left', hl, true_and]
    refine named_iff hmn fun m hm n hn hmn => ?_
    rw [isElement_iff (hv.member hm).plain]
    exact ih m hm (hv.member hm) (hw.member hn) hmn
  | num n =>
    obtain ⟨m, rfl, hnm⟩ := sameKey_num_iff.mp h
    have heq : (num n).eq (num m) := by
      refine (eq_of_asNum rfl).mpr ⟨m, rfl, Num.eq_iff.mpr (hnm.resolve_left ?_)⟩
      rintro ⟨p, rfl, -⟩
      cases hv.plain
    simp [heq, somewhere, listWithTuple]
  | datetime t =>
    obtain ⟨u, rfl, ht⟩ := sameKey_datetime_iff.mp h
    have heq : (datetime t).eq (datetime u) := eq_datetime_iff.mpr ⟨u, rfl, ht⟩
    simp [heq, somewhere, listWithTuple]
  | document v => cases hv.plain
  | _ =>
    cases (sameKey_atom_iff rfl).mp h
    have heq := eq_refl hv.wellFormed hv.plain
    simp [heq, somewhere, listWithTuple]

/-! ### Keys of several parts -/

theorem Groupable.list {xs : List Value} (h : ∀ x ∈ xs, x.Groupable) :
    (Value.list xs).Groupable where
  wellFormed := areWellFormed_iff.mpr fun x hx => (h x hx).wellFormed
  plain := arePlain_iff.mpr fun x hx => (h x hx).plain
  lasting := anyHoldsByteArray_eq_false.mpr fun x hx => (h x hx).lasting

section
variable {xs ys : List Value}

theorem eq_lists : (Value.list xs).eq (Value.list ys) = eqList xs ys := by rw [eq]

theorem sameKey_lists : (Value.list xs).sameKey (Value.list ys) = sameKeys xs ys := by
  rw [sameKey, elements?]

variable (hxs : ∀ x ∈ xs, x.Groupable) (hys : ∀ y ∈ ys, y.Groupable)
include hxs hys

theorem sameKeys_iff_of_eqList (h : eqList xs ys) :
    sameKeys xs ys ↔ somewhereIn boolWithNum xs ys = false := by
  rw [← eq_lists] at h
  rw [← sameKey_lists, sameKey_iff_of_eq (.list hxs) (.list hys) h, somewhere_of_elements rfl rfl,
    boolWithNum_of_elements rfl, Bool.false_or]

theorem eqList_iff_of_sameKeys (h : sameKeys xs ys) :
    eqList xs ys ↔ somewhereIn listWithTuple xs ys = false := by
  have hhere : listWithTuple (Value.list xs) (Value.list ys) = false := rfl
  rw [← sameKey_lists] at h
  rw [← eq_lists, eq_iff_of_sameKey (.list hxs) (.list hys) h, somewhere_of_elements rfl rfl,
    hhere, Bool.false_or]

end

end RecordStore.Value
