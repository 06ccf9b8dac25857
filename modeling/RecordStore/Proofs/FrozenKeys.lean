import RecordStore.Proofs.KeyAgreement
import RecordStore.Proofs.KeyClasses

/-! Values frozen into what a table of groups can hold. Booleans, objects, sequences and sets go in
under tags, everything else as it is, all in one space. Two values are one key if and only if they
freeze to the same, and then they are alike at every depth; a value freezes to something that cannot
be held if and only if there are bytes that can change somewhere in it. -/
namespace RecordStore

/-! ### Tuples and frozen sets -/

/-- A value as it is, the name of a member that is no text, a tuple, or a frozen set. -/
inductive Frozen where
  | plain (v : Value)
  | name (n : Name)
  | tuple (parts : List Frozen)
  | frozenset (parts : List Frozen)

namespace Frozen

def isSameNaN : Frozen → Frozen → Bool
  | plain v, plain w => v.isSameNaN w
  | _, _ => false

mutual

/-- Tuples by their parts in order, frozen sets by having the same elements. -/
def eq : Frozen → Frozen → Bool
  | plain v, plain w => v.eq w
  | name n, name m => n == m
  | tuple xs, tuple ys => eqTuple xs ys
  | frozenset xs, frozenset ys => within xs ys && ys.all fun y => among xs y
  | _, _ => false

def eqTuple : List Frozen → List Frozen → Bool
  | [], [] => true
  | x :: xs, y :: ys => (x.isSameNaN y || x.eq y) && eqTuple xs ys
  | _, _ => false

def within : List Frozen → List Frozen → Bool
  | [], _ => true
  | x :: xs, ys => (ys.any fun y => x.isSameNaN y || x.eq y) && within xs ys

def among : List Frozen → Frozen → Bool
  | [], _ => false
  | x :: xs, y => x.isSameNaN y || x.eq y || among xs y

end

def isElement (x y : Frozen) : Bool := x.isSameNaN y || x.eq y

mutual

def isHashable : Frozen → Bool
  | plain v => v.isKey
  | name _ => true
  | tuple xs => areHashable xs
  | frozenset xs => areHashable xs

def areHashable : List Frozen → Bool
  | [] => true
  | x :: xs => x.isHashable && areHashable xs

end

/-- The name of a member, in one space with the texts of values. -/
def ofName : Name → Frozen
  | .text s => plain (.str s)
  | n => name n

def tagged (tag : String) (x : Frozen) : Frozen := tuple [plain (.str tag), x]

theorem eqTuple_iff {xs ys : List Frozen} :
    eqTuple xs ys ↔ List.Forall₂ (fun x y => x.isElement y) xs ys := by
  induction xs generalizing ys with
  | nil => cases ys <;> simp [eqTuple]
  | cons x xs ih => cases ys <;> simp [eqTuple, ih, isElement]

theorem within_iff {xs ys : List Frozen} : within xs ys ↔ ∀ x ∈ xs, ∃ y ∈ ys, x.isElement y := by
  induction xs with
  | nil => simp [within]
  | cons x xs ih => simp [within, ih, isElement]

theorem among_iff {xs : List Frozen} {y : Frozen} : among xs y ↔ ∃ x ∈ xs, x.isElement y := by
  induction xs with
  | nil => simp [among]
  | cons x xs ih => simp [among, ih, isElement]

theorem areHashable_iff {xs : List Frozen} : areHashable xs ↔ ∀ x ∈ xs, x.isHashable := by
  induction xs with
  | nil => simp [areHashable]
  | cons x xs ih => simp [areHashable, ih]

theorem isHashable_tagged (tag : String) (x : Frozen) :
    (tagged tag x).isHashable = x.isHashable := by
  simp [tagged, isHashable, areHashable, Value.isKey]

theorem isHashable_pair (n : Name) (x : Frozen) :
    (tuple [ofName n, x]).isHashable = x.isHashable := by
  cases n <;> simp [ofName, isHashable, areHashable, Value.isKey]

@[simp]
theorem isElement_plain (v w : Value) : (plain v).isElement (plain w) = v.isElement w := by
  simp [isElement, isSameNaN, eq, Value.isElement]

@[simp]
theorem isElement_tagged_plain (tag : String) (x : Frozen) (v : Value) :
    (tagged tag x).isElement (plain v) = false := by
  simp [isElement, isSameNaN, tagged, eq]

@[simp]
theorem isElement_plain_tagged (tag : String) (x : Frozen) (v : Value) :
    (plain v).isElement (tagged tag x) = false := by
  simp [isElement, isSameNaN, tagged, eq]

/-- Under different tags nothing is the same. -/
@[simp]
theorem isElement_tagged (tag tag' : String) (x y : Frozen) :
    (tagged tag x).isElement (tagged tag' y) = (tag == tag' && x.isElement y) := by
  simp [isElement, isSameNaN, tagged, eq, eqTuple, Value.isSameNaN, Value.eq]

theorem isElement_tagged_same (tag : String) (x y : Frozen) :
    (tagged tag x).isElement (tagged tag y) = x.isElement y := by
  rw [isElement_tagged, beq_self_eq_true, Bool.true_and]

theorem isElement_tuple_iff {xs ys : List Frozen} :
    (tuple xs).isElement (tuple ys) ↔ List.Forall₂ (fun x y => x.isElement y) xs ys := by
  rw [← eqTuple_iff, isElement, eq]
  rfl

theorem isElement_frozenset_iff {xs ys : List Frozen} :
    (frozenset xs).isElement (frozenset ys) ↔
      (∀ x ∈ xs, ∃ y ∈ ys, x.isElement y) ∧ ∀ y ∈ ys, ∃ x ∈ xs, x.isElement y := by
  rw [← within_iff, isElement, eq]
  simp [isSameNaN, among_iff]

theorem isElement_frozenset_map_iff {α : Type} {f : α → Frozen} {xs ys : List α} :
    (frozenset (xs.map f)).isElement (frozenset (ys.map f)) ↔
      (∀ x ∈ xs, ∃ y ∈ ys, (f x).isElement (f y)) ∧ ∀ y ∈ ys, ∃ x ∈ xs, (f x).isElement (f y) := by
  rw [isElement_frozenset_iff]
  simp

theorem isElement_ofName {n m : Name} : (ofName n).isElement (ofName m) ↔ n = m := by
  cases n <;> cases m <;> simp [ofName, isElement, isSameNaN, eq, Value.isSameNaN, Value.eq]

end Frozen

namespace Value

mutual

def freeze : Value → Frozen
  | bool b => .tagged "__bool__" (.plain (bool b))
  | object ms => .tagged "__map__" (.frozenset (freezeMembers ms))
  | list xs => .tagged "__seq__" (.tuple (freezeAll xs))
  | tuple xs => .tagged "__seq__" (.tuple (freezeAll xs))
  | set xs => .tagged "__set__" (.frozenset (freezeAll xs))
  | v => .plain v

def freezeAll : List Value → List Frozen
  | [] => []
  | x :: xs => x.freeze :: freezeAll xs

def freezeMembers : Record → List Frozen
  | [] => []
  | (k, v) :: ms => .tuple [.ofName k, v.freeze] :: freezeMembers ms

end

theorem freezeAll_eq (xs : List Value) : freezeAll xs = xs.map freeze := by
  induction xs with
  | nil => rfl
  | cons x xs ih => rw [freezeAll, ih, List.map_cons]

theorem freezeMembers_eq (ms : Record) :
    freezeMembers ms = ms.map fun m => .tuple [.ofName m.1, m.2.freeze] := by
  induction ms with
  | nil => rfl
  | cons m ms ih => rw [freezeMembers, ih, List.map_cons]

theorem freeze_of_elements {v : Value} {xs : List Value} (h : v.elements? = some xs) :
    v.freeze = .tagged "__seq__" (.tuple (xs.map freeze)) := by
  cases v <;> cases h <;> rw [freeze, freezeAll_eq]

theorem freeze_set (xs : List Value) :
    (set xs).freeze = .tagged "__set__" (.frozenset (xs.map freeze)) := by
  rw [freeze, freezeAll_eq]

theorem freeze_object (ms : Record) : (object ms).freeze =
    .tagged "__map__" (.frozenset (ms.map fun m => .tuple [.ofName m.1, m.2.freeze])) := by
  rw [freeze, freezeMembers_eq]

/-! ### Values that freeze to the same -/

theorem forall₂_congr_of_mem {R S : Value → Value → Prop} {xs ys : List Value}
    (h : ∀ x ∈ xs, ∀ y ∈ ys, (R x y ↔ S x y)) :
    List.Forall₂ R xs ys ↔ List.Forall₂ S xs ys := by
  induction xs generalizing ys with
  | nil => cases ys <;> simp
  | cons x xs ih =>
    cases ys with
    | nil => simp
    | cons y ys =>
      rw [List.forall₂_cons, List.forall₂_cons, h x List.mem_cons_self y List.mem_cons_self,
        ih fun x hx y hy => h x (List.mem_cons_of_mem _ hx) y (List.mem_cons_of_mem _ hy)]

theorem symm_of_set {xs : List Value} (hxs : (set xs).isWellFormed) :
    ∀ x ∈ xs, ∀ y, x.sameKey y → y.sameKey x := by
  rw [isWellFormed, Bool.and_eq_true, areWellFormed_iff] at hxs
  exact fun x hx y => sameKey_symm (hxs.2 x hx)

theorem apart_of_set {xs : List Value} (hxs : (set xs).isWellFormed) :
    xs.Pairwise fun x x' => ∀ y, x.sameKey y → ¬ x'.sameKey y :=
  apart_of_wellFormed hxs (symm_of_set hxs)

theorem sameKey_sets_iff {xs ys : List Value} (hxs : (set xs).isWellFormed)
    (hys : (set ys).isWellFormed) : (set xs).sameKey (set ys) ↔
      (∀ x ∈ xs, ∃ y ∈ ys, x.sameKey y) ∧ ∀ y ∈ ys, ∃ x ∈ xs, x.sameKey y := by
  constructor
  · intro h
    obtain ⟨_, ⟨⟩, hl, hxy⟩ := sameKey_set_iff.mp h
    exact ⟨hxy, reaches_all (apart_of_set hxs) hxy (Nat.le_of_eq hl.symm)⟩
  · rintro ⟨hxy, hyx⟩
    have hyx' : ∀ y ∈ ys, ∃ x ∈ xs, y.sameKey x := by
      intro y hy
      obtain ⟨x, hx, h⟩ := hyx y hy
      exact ⟨x, hx, symm_of_set hxs x hx y h⟩
    have hle := length_le_of_reaches (apart_of_set hxs) hxy
    have hge := length_le_of_reaches (apart_of_set hys) hyx'
    exact sameKey_set_iff.mpr ⟨ys, rfl, Nat.le_antisymm hle hge, hxy⟩

theorem exists_get?_iff {P : Value → Prop} {name : Name} {ns : Record}
    (hns : (ns.map Prod.fst).Nodup) :
    (∃ u, Record.get? name ns = some u ∧ P u) ↔ ∃ n ∈ ns, name = n.1 ∧ P n.2 := by
  constructor
  · rintro ⟨u, hu, h⟩
    exact ⟨(name, u), Record.mem_of_get? hu, rfl, h⟩
  · rintro ⟨n, hn, rfl, h⟩
    exact ⟨n.2, Record.get?_of_mem hns hn, h⟩

theorem length_le_of_names {ms ns : Record} (hms : (ms.map Prod.fst).Nodup)
    (h : ∀ m ∈ ms, ∃ n ∈ ns, m.1 = n.1) : ms.length ≤ ns.length := by
  have hd : ms.Pairwise fun m m' => ∀ n : Name × Value, m.1 = n.1 → ¬ m'.1 = n.1 :=
    (List.pairwise_map.mp hms).imp fun hne n hm hm' => hne (hm.trans hm'.symm)
  exact length_le_of_reaches hd h

theorem nodup_names {ms : Record} (hms : (object ms).isWellFormed) : (ms.map Prod.fst).Nodup := by
  rw [isWellFormed, Bool.and_eq_true, decide_eq_true_iff] at hms
  exact hms.1

theorem sameKey_objects_iff {ms ns : Record} (hms : (object ms).isWellFormed)
    (hns : (object ns).isWellFormed) : (object ms).sameKey (object ns) ↔
      (∀ m ∈ ms, ∃ n ∈ ns, m.1 = n.1 ∧ m.2.sameKey n.2) ∧
        ∀ n ∈ ns, ∃ m ∈ ms, m.1 = n.1 ∧ m.2.sameKey n.2 := by
  have hlookup (m : Name × Value) : (∃ u, Record.get? m.1 ns = some u ∧ m.2.sameKey u) ↔
      ∃ n ∈ ns, m.1 = n.1 ∧ m.2.sameKey n.2 := exists_get?_iff (nodup_names hns)
  constructor
  · intro h
    obtain ⟨_, ⟨⟩, hl, hmn⟩ := sameKey_object_iff.mp h
    have hnm := members_reach_all (nodup_names hms) (Nat.le_of_eq hl.symm) hmn
    exact ⟨fun m hm => (hlookup m).mp (hmn m hm), hnm⟩
  · rintro ⟨hmn, hnm⟩
    have hle := length_le_of_names (nodup_names hms)
      fun m hm => (hmn m hm).imp fun n hn => ⟨hn.1, hn.2.1⟩
    have hge := length_le_of_names (nodup_names hns)
      fun n hn => (hnm n hn).imp fun m hm => ⟨hm.1, hm.2.1.symm⟩
    refine sameKey_object_iff.mpr ⟨ns, rfl, Nat.le_antisymm hle hge, fun m hm => ?_⟩
    exact (hlookup m).mpr (hmn m hm)

theorem has_of_members {ms ns : Record} {k : Name}
    (h : ∀ m ∈ ms, ∃ u, Record.get? m.1 ns = some u ∧ m.2.sameKey u) (hk : Record.has k ms) :
    Record.has k ns := by
  obtain ⟨v, hv⟩ := Option.isSome_iff_exists.mp hk
  obtain ⟨u, hu, -⟩ := h _ (Record.mem_of_get? hv)
  exact Option.isSome_iff_exists.mpr ⟨u, hu⟩

theorem sameKey_objects_iff_lookups {ms ns : Record} (hms : (object ms).isWellFormed)
    (hns : (object ns).isWellFormed) : (object ms).sameKey (object ns) ↔
      (∀ k, Record.has k ms = Record.has k ns) ∧
        ∀ k v w, Record.get? k ms = some v → Record.get? k ns = some w → v.sameKey w := by
  constructor
  · intro h
    obtain ⟨_, ⟨⟩, -, hmn⟩ := sameKey_object_iff.mp h
    obtain ⟨_, ⟨⟩, -, hnm⟩ := sameKey_object_iff.mp (sameKey_symm hms h)
    refine ⟨fun k => Bool.eq_iff_iff.mpr ⟨has_of_members hmn, has_of_members hnm⟩, ?_⟩
    intro k v w hv hw
    obtain ⟨u, hu, hsame⟩ := hmn _ (Record.mem_of_get? hv)
    cases hw.symm.trans hu
    exact hsame
  · rintro ⟨hnames, hmembers⟩
    refine (sameKey_objects_iff hms hns).mpr ⟨fun m hm => ?_, fun n hn => ?_⟩
    · have hv := Record.get?_of_mem (nodup_names hms) hm
      have hhas : Record.has m.1 ns := by
        rw [← hnames, Record.has, hv, Option.isSome_some]
      obtain ⟨w, hw⟩ := Option.isSome_iff_exists.mp hhas
      exact ⟨_, Record.mem_of_get? hw, rfl, hmembers _ _ _ hv hw⟩
    · have hw := Record.get?_of_mem (nodup_names hns) hn
      have hhas : Record.has n.1 ms := by
        rw [hnames, Record.has, hw, Option.isSome_some]
      obtain ⟨v, hv⟩ := Option.isSome_iff_exists.mp hhas
      exact ⟨_, Record.mem_of_get? hv, rfl, hmembers _ _ _ hv hw⟩

theorem bool_isElement_iff (b c : Bool) : (bool b).isElement (bool c) ↔ b = c := by
  have hnan : (bool b).isSameNaN (bool c) = false := rfl
  rw [isElement, hnan, Bool.false_or, eq, asNum?, Num.eq_int]
  cases b <;> cases c <;> simp

theorem isElement_pair_iff {m n : Name × Value} :
    (Frozen.tuple [.ofName m.1, m.2.freeze]).isElement (.tuple [.ofName n.1, n.2.freeze]) ↔
      m.1 = n.1 ∧ m.2.freeze.isElement n.2.freeze := by
  rw [Frozen.isElement_tuple_iff]
  simp [Frozen.isElement_ofName]

theorem isElement_freeze_iff {v w : Value} (hv : v.Groupable) (hw : w.Groupable) :
    v.freeze.isElement w.freeze ↔ v.sameKey w := by
  induction v using nested generalizing w with
  | list xs ih | tuple xs ih =>
    cases w with
    | list ys | tuple ys =>
      rw [freeze_of_elements rfl, freeze_of_elements rfl, Frozen.isElement_tagged_same,
        Frozen.isElement_tuple_iff, List.forall₂_map_left_iff, List.forall₂_map_right_iff,
        sameKey_of_elements rfl]
      simp only [elements?, Option.some.injEq, exists_eq_left']
      refine forall₂_congr_of_mem fun x hx y hy => ?_
      exact ih x hx (hv.element rfl hx) (hw.element rfl hy)
    | _ => simp [freeze, sameKey, elements?]
  | set xs ih =>
    cases w with
    | set ys =>
      have hiff {x y : Value} (hx : x ∈ xs) (hy : y ∈ ys) :=
        ih x hx (hv.ofSet hx) (hw.ofSet hy)
      rw [sameKey_sets_iff hv.wellFormed hw.wellFormed, freeze_set, freeze_set,
        Frozen.isElement_tagged_same, Frozen.isElement_frozenset_map_iff]
      refine and_congr (forall₂_congr fun x hx => ?_) (forall₂_congr fun y hy => ?_)
      · exact exists_congr fun y => and_congr_right fun hy => hiff hx hy
      · exact exists_congr fun x => and_congr_right fun hx => hiff hx hy
    | _ => simp [freeze, sameKey]
  | object ms ih =>
    cases w with
    | object ns =>
      have hiff {m n : Name × Value} (hm : m ∈ ms) (hn : n ∈ ns) :=
        ih m hm (hv.member hm) (hw.member hn)
      rw [sameKey_objects_iff hv.wellFormed hw.wellFormed, freeze_object, freeze_object,
        Frozen.isElement_tagged_same, Frozen.isElement_frozenset_map_iff]
      simp only [isElement_pair_iff]
      refine and_congr (forall₂_congr fun m hm => ?_) (forall₂_congr fun n hn => ?_)
      · exact exists_congr fun n => and_congr_right fun hn => and_congr_right fun _ => hiff hm hn
      · exact exists_congr fun m => and_congr_right fun hm => and_congr_right fun _ => hiff hm hn
    | _ => simp [freeze, sameKey]
  | bool b =>
    cases w with
    | bool c => simp [freeze, sameKey, bool_isElement_iff]
    | _ => simp [freeze, sameKey]
  | num n =>
    cases w with
    | num m => simp [freeze, sameKey, isElement, eq, asNum?]
    | _ => simp [freeze, sameKey, isElement, isSameNaN, eq, asNum?]
  | bytes bs =>
    cases w with
    | byteArray cs => cases hw.lasting
    | bytes cs => simp [freeze, sameKey, isElement, isSameNaN, eq, bytes?, @eq_comm _ cs]
    | _ => simp [freeze, sameKey, isElement, isSameNaN, eq, bytes?]
  | byteArray bs => cases hv.lasting
  | document v => cases hv.plain
  | _ => cases w <;> simp [freeze, sameKey, isElement, isSameNaN, eq]

theorem eq_of_freeze {v w : Value} (h : v.freeze = .plain w) : v = w := by
  cases v with
  | bool | list | tuple | set | object => simp [freeze, Frozen.tagged] at h
  | _ => simpa [freeze] using h

theorem eq_freeze_iff {v w : Value} (hv : v.Groupable) (hw : w.Groupable) :
    v.freeze.eq w.freeze ↔ v.sameKey w := by
  have hnan : v.freeze.isSameNaN w.freeze = false := by
    unfold Frozen.isSameNaN
    split
    · rename_i hfreeze _
      rw [← eq_of_freeze hfreeze, isSameNaN_of_plain hv.plain]
    · rfl
  rw [← isElement_freeze_iff hv hw, Frozen.isElement, hnan, Bool.false_or]

/-! ### Values that are alike -/

/-- Alike at every depth: a boolean is only itself, numbers count by their place on the line of
numbers, clock readings by their instants if both or neither has an offset, a list may stand for a
tuple, and neither elements of a set nor members of an object have an order. -/
inductive Alike : Value → Value → Prop
  | null : Alike null null
  | missing : Alike missing missing
  | bool (b : Bool) : Alike (bool b) (bool b)
  | str (s : String) : Alike (str s) (str s)
  | bytes (bs : List UInt8) : Alike (bytes bs) (bytes bs)
  | date (d : Date) : Alike (date d) (date d)
  | num {n m : Num} {p : Place} (hn : n.place? = some p) (hm : m.place? = some p) :
      Alike (num n) (num m)
  | datetime {t u : DateTime} (hoffset : t.offset.isSome = u.offset.isSome)
      (hmicros : t.universalMicros = u.universalMicros) : Alike (datetime t) (datetime u)
  | sequence {v w : Value} {xs ys : List Value} (hv : v.elements? = some xs)
      (hw : w.elements? = some ys) (hxy : List.Forall₂ Alike xs ys) : Alike v w
  | set {xs ys zs : List Value} (hzs : zs.Perm ys) (hxz : List.Forall₂ Alike xs zs) :
      Alike (set xs) (set ys)
  | object {ms ns : Record} (hnames : ∀ k, Record.has k ms = Record.has k ns)
      (hmembers : ∀ k v w, Record.get? k ms = some v → Record.get? k ns = some w → Alike v w) :
      Alike (object ms) (object ns)

/-- Values are one key if and only if they are alike at every depth. -/
theorem sameKey_iff_alike {v w : Value} (hv : v.Groupable) (hw : w.Groupable) :
    v.sameKey w ↔ v.Alike w := by
  induction v using nested generalizing w with
  | list xs ih | tuple xs ih =>
    have hiff {ys : List Value} (hys : w.elements? = some ys) :
        List.Forall₂ (fun x y => x.sameKey y) xs ys ↔ List.Forall₂ Alike xs ys :=
      forall₂_congr_of_mem fun x hx y hy => ih x hx (hv.element rfl hx) (hw.element hys hy)
    rw [sameKey_of_elements rfl]
    constructor
    · rintro ⟨ys, hys, hxy⟩
      exact .sequence rfl hys ((hiff hys).mp hxy)
    · intro h
      cases h with
      | sequence hxs hys hxy =>
        cases hxs
        exact ⟨_, hys, (hiff hys).mpr hxy⟩
  | set xs ih =>
    constructor
    · intro h
      obtain ⟨ys, rfl, hl, hxy⟩ := sameKey_set_iff.mp h
      obtain ⟨zs, hzs, hxz⟩ := exists_match (apart_of_set hv.wellFormed) hxy
      have hperm := hzs.perm_of_length_le (by rw [← hxz.length_eq, hl])
      refine .set hperm ((forall₂_congr_of_mem fun x hx z hz => ?_).mp hxz)
      exact ih x hx (hv.ofSet hx) (hw.ofSet (hperm.subset hz))
    · intro h
      cases h with
      | sequence hxs => cases hxs
      | set hzs hxz =>
        refine sameKey_set_iff.mpr ⟨_, rfl, hxz.length_eq.trans hzs.length_eq, fun x hx => ?_⟩
        obtain ⟨z, hz, hxz⟩ := exists_of_forall₂ hxz hx
        have hy := hzs.subset hz
        exact ⟨z, hy, (ih x hx (hv.ofSet hx) (hw.ofSet hy)).mpr hxz⟩
  | object ms ih =>
    constructor
    · intro h
      obtain ⟨ns, rfl, -, -⟩ := sameKey_object_iff.mp h
      obtain ⟨hnames, hmembers⟩ :=
        (sameKey_objects_iff_lookups hv.wellFormed hw.wellFormed).mp h
      refine .object hnames fun k x y hx hy => ?_
      have hm := Record.mem_of_get? hx
      have hn := Record.mem_of_get? hy
      exact (ih _ hm (hv.member hm) (hw.member hn)).mp (hmembers k x y hx hy)
    · intro h
      cases h with
      | sequence hxs => cases hxs
      | object hnames hmembers =>
        refine (sameKey_objects_iff_lookups hv.wellFormed hw.wellFormed).mpr
          ⟨hnames, fun k x y hx hy => ?_⟩
        have hm := Record.mem_of_get? hx
        have hn := Record.mem_of_get? hy
        exact (ih _ hm (hv.member hm) (hw.member hn)).mpr (hmembers k x y hx hy)
  | num n =>
    rw [sameKey_num_iff]
    constructor
    · rintro ⟨m, rfl, ⟨p, rfl, -⟩ | ⟨p, hn, hm⟩⟩
      · cases hv.plain
      · exact .num hn hm
    · intro h
      cases h with
      | sequence hxs => cases hxs
      | num hn hm => exact ⟨_, rfl, .inr ⟨_, hn, hm⟩⟩
  | datetime t =>
    rw [sameKey_datetime_iff]
    constructor
    · rintro ⟨u, rfl, ho, hm⟩
      exact .datetime ho hm
    · intro h
      cases h with
      | sequence hxs => cases hxs
      | datetime ho hm => exact ⟨_, rfl, ho, hm⟩
  | byteArray bs => cases hv.lasting
  | document v => cases hv.plain
  | _ =>
    rw [sameKey_atom_iff rfl]
    constructor
    · rintro rfl
      constructor
    · intro h
      cases h with
      | sequence hxs => cases hxs
      | _ => rfl

/-! ### Values that cannot be held -/

/-- A value is another or a part of it at some depth; documents are not looked into. -/
inductive Inside (u : Value) : Value → Prop
  | self : Inside u u
  | element {v x : Value} {xs : List Value} (hv : v.elements? = some xs) (hx : x ∈ xs)
      (h : Inside u x) : Inside u v
  | ofSet {x : Value} {xs : List Value} (hx : x ∈ xs) (h : Inside u x) : Inside u (set xs)
  | member {m : Name × Value} {ms : Record} (hm : m ∈ ms) (h : Inside u m.2) : Inside u (object ms)

theorem anyHoldsByteArray_iff {xs : List Value} :
    anyHoldsByteArray xs ↔ ∃ x ∈ xs, x.holdsByteArray := by
  rw [← Bool.not_eq_false, anyHoldsByteArray_eq_false]
  simp

theorem memberHoldsByteArray_iff {ms : Record} :
    memberHoldsByteArray ms ↔ ∃ m ∈ ms, m.2.holdsByteArray := by
  rw [← Bool.not_eq_false, memberHoldsByteArray_eq_false]
  simp

theorem holdsByteArray_of_inside {v : Value} {bs : List UInt8} (h : (byteArray bs).Inside v) :
    v.holdsByteArray := by
  induction h with
  | self => rfl
  | @element v x xs hv hx _ ih =>
    have hany : anyHoldsByteArray xs := anyHoldsByteArray_iff.mpr ⟨x, hx, ih⟩
    cases v <;> cases hv <;> exact hany
  | ofSet hx _ ih => exact anyHoldsByteArray_iff.mpr ⟨_, hx, ih⟩
  | member hm _ ih => exact memberHoldsByteArray_iff.mpr ⟨_, hm, ih⟩

theorem holdsByteArray_iff {v : Value} : v.holdsByteArray ↔ ∃ bs, (byteArray bs).Inside v := by
  refine ⟨fun h => ?_, fun ⟨bs, h⟩ => holdsByteArray_of_inside h⟩
  induction v using nested with
  | list xs ih | tuple xs ih =>
    obtain ⟨x, hx, h⟩ := anyHoldsByteArray_iff.mp h
    obtain ⟨bs, h⟩ := ih x hx h
    exact ⟨bs, .element rfl hx h⟩
  | set xs ih =>
    obtain ⟨x, hx, h⟩ := anyHoldsByteArray_iff.mp h
    obtain ⟨bs, h⟩ := ih x hx h
    exact ⟨bs, .ofSet hx h⟩
  | object ms ih =>
    obtain ⟨m, hm, h⟩ := memberHoldsByteArray_iff.mp h
    obtain ⟨bs, h⟩ := ih m hm h
    exact ⟨bs, .member hm h⟩
  | byteArray bs => exact ⟨bs, .self⟩
  | _ => cases h

theorem isHashable_freeze_iff {v : Value} : v.freeze.isHashable ↔ v.holdsByteArray = false := by
  induction v using nested with
  | list xs ih | tuple xs ih =>
    rw [freeze_of_elements rfl, Frozen.isHashable_tagged, Frozen.isHashable, Frozen.areHashable_iff,
      List.forall_mem_map, holdsByteArray, anyHoldsByteArray_eq_false]
    exact forall₂_congr ih
  | set xs ih =>
    rw [freeze_set, Frozen.isHashable_tagged, Frozen.isHashable, Frozen.areHashable_iff,
      List.forall_mem_map, holdsByteArray, anyHoldsByteArray_eq_false]
    exact forall₂_congr ih
  | object ms ih =>
    rw [freeze_object, Frozen.isHashable_tagged, Frozen.isHashable, Frozen.areHashable_iff,
      List.forall_mem_map, holdsByteArray, memberHoldsByteArray_eq_false]
    simp only [Frozen.isHashable_pair]
    exact forall₂_congr ih
  | _ => simp [freeze, Frozen.isHashable_tagged, Frozen.isHashable, isKey, holdsByteArray]

end Value

/-! ### Keys of groups -/

namespace Aggregate

theorem resolve_discrete_eq_error [Present] {c : Clause} {index v : Value} {e : RecordError}
    (hg : c.grouping = .discrete) : c.resolve index v = .error e ↔
      v.holdsByteArray ∧ e = .mismatch (.noKey v.kind) ⟨.str c.field, index⟩ := by
  have habsent : v.isAbsent → v.holdsByteArray = false := by
    intro h
    cases v <;> cases h <;> rfl
  rw [Clause.resolve, hg, Clause.keyOf]
  cases hv : v.isAbsent with
  | true => simp [habsent hv]
  | false => cases v.holdsByteArray <;> simp [eq_comm]

/-- Keys of several parts are the same if and only if the tuples that stand for them are equal. -/
theorem sameKeys_iff_eq_frozen {xs ys : List Value} (hxs : ∀ x ∈ xs, x.Groupable)
    (hys : ∀ y ∈ ys, y.Groupable) : Value.sameKeys xs ys ↔
      (Frozen.tuple (xs.map Value.freeze)).eq (.tuple (ys.map Value.freeze)) := by
  rw [Frozen.eq, Frozen.eqTuple_iff, List.forall₂_map_left_iff, List.forall₂_map_right_iff,
    Value.sameKeys_iff]
  exact Value.forall₂_congr_of_mem fun x hx y hy =>
    (Value.isElement_freeze_iff (hxs x hx) (hys y hy)).symm

/-- Values without NaN freeze to the same if and only if they are alike at every depth. The clause
that groups by values as they are fails, with the mismatch of such a value, for those in which bytes
can change somewhere, which are those that cannot be held; so the table of groups can hold every key
that comes to it, and two keys are the same for it if and only if the frozen ones are equal. -/
theorem frozen_keys_decide [Present] :
    (∀ v w : Value, v.Groupable → w.Groupable → (v.freeze.eq w.freeze ↔ v.Alike w)) ∧
    (∀ (c : Clause) (index v : Value), c.grouping = .discrete →
      ((∃ e, c.resolve index v = .error e) ↔ ∃ bs, (Value.byteArray bs).Inside v) ∧
      ((∃ e, c.resolve index v = .error e) ↔ ¬ v.freeze.isHashable) ∧
      ∀ e, c.resolve index v = .error e → e = .mismatch (.noKey v.kind) ⟨.str c.field, index⟩) ∧
    (∀ (clauses : List Clause) (record : Value) (index : Int) (key : List Value),
      Run.keyOf record index clauses = .ok (some key) →
        (Frozen.tuple (key.map Value.freeze)).isHashable) ∧
    ∀ key key' : List Value, (∀ part ∈ key, part.Groupable) → (∀ part ∈ key', part.Groupable) →
      (Value.sameKeys key key' ↔
        (Frozen.tuple (key.map Value.freeze)).eq (.tuple (key'.map Value.freeze))) := by
  refine ⟨fun v w hv hw => ?_, fun c index v hg => ?_, fun clauses record index key hkey => ?_,
    fun key key' hkey hkey' => sameKeys_iff_eq_frozen hkey hkey'⟩
  · rw [Value.eq_freeze_iff hv hw, Value.sameKey_iff_alike hv hw]
  · simp only [resolve_discrete_eq_error hg, exists_and_left, exists_eq, and_true]
    refine ⟨Value.holdsByteArray_iff, ?_, fun e h => h.2⟩
    rw [Value.isHashable_freeze_iff, Bool.not_eq_false]
  · rw [Frozen.isHashable, Frozen.areHashable_iff, List.forall_mem_map]
    exact fun part hpart => Value.isHashable_freeze_iff.mpr (keyOf_lasting hkey part hpart)

/-- A list and a tuple of the same boolean and of sets that are written differently. -/
theorem frozen_keys_decide_of_sets :
    let v : Value := .list [.bool true, .set [.int 1, .str "a"]]
    let w : Value := .tuple [.bool true, .set [.str "a", .int 1]]
    let u : Value := .object [("a", .list [.byteArray [7]])]
    let c : Clause := ⟨"k", .discrete⟩
    v.Groupable ∧ w.Groupable ∧ v.freeze.eq w.freeze ∧ (∃ e, c.resolve (.int 0) u = .error e) ∧
      Run.keyOf (.object [("k", v)]) 0 [c] = .ok (some [v]) ∧
      (Frozen.tuple [v.freeze]).isHashable ∧ (Frozen.tuple [v.freeze]).eq (.tuple [w.freeze]) := by
  intro v w u c
  have hv : v.Groupable := ⟨by decide +kernel, rfl, rfl⟩
  have hw : w.Groupable := ⟨by decide +kernel, rfl, rfl⟩
  have hset : Value.Alike (.set [.int 1, .str "a"]) (.set [.str "a", .int 1]) :=
    .set (.swap _ _ _) (.cons (.num rfl rfl) (.cons (.str "a") .nil))
  have halike : v.Alike w := .sequence rfl rfl (.cons (.bool true) (.cons hset .nil))
  have hinside : (Value.byteArray [7]).Inside u :=
    .member (List.mem_singleton_self _) (.element rfl (List.mem_singleton_self _) .self)
  have hkey : Run.keyOf (.object [("k", v)]) 0 [c] = .ok (some [v]) := by cbv
  obtain ⟨hfrozen, hdiscrete, hheld, hkeys⟩ := frozen_keys_decide
  have hsame : Value.sameKeys [v] [w] :=
    Value.sameKeys_iff.mpr (.cons ((Value.sameKey_iff_alike hv hw).mpr halike) .nil)
  refine ⟨hv, hw, (hfrozen v w hv hw).mpr halike, ?_, hkey, hheld [c] _ 0 [v] hkey, ?_⟩
  · exact (hdiscrete c (.int 0) u rfl).1.mpr ⟨[7], hinside⟩
  · exact (hkeys [v] [w] (by simpa using hv) (by simpa using hw)).mp hsame

end Aggregate
end RecordStore
