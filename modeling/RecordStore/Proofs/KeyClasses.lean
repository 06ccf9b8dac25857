import Mathlib
import RecordStore.Aggregate.Run
import RecordStore.Proofs.Keys

/-! Records sorted into classes by their keys, in the order in which the keys first come up. Every
record that no clause leaves out is in one class, that of its key. -/
namespace RecordStore
namespace Aggregate

def keyed [Present] (clauses : List Clause) :
    List Value → Except RecordError (List (List Value × Value))
  | [] => .ok []
  | r :: rest => do
    let key ← Run.keyOf r 0 clauses
    return (key.map fun key => (key, r)).toList ++ (← keyed clauses rest)

def sharing (key : List Value) (ks : List (List Value × Value)) : List (List Value × Value) :=
  ks.filter fun p => Value.sameKeys key p.1

def others (key : List Value) (ks : List (List Value × Value)) : List (List Value × Value) :=
  ks.filter fun p => !Value.sameKeys key p.1

section
variable {key : List Value} {p : List Value × Value} {ks : List (List Value × Value)}

theorem sharing_cons_pos (h : Value.sameKeys key p.1) :
    sharing key (p :: ks) = p :: sharing key ks := List.filter_cons_of_pos h

theorem sharing_cons_neg (h : ¬ Value.sameKeys key p.1) :
    sharing key (p :: ks) = sharing key ks := List.filter_cons_of_neg h

theorem others_cons_pos (h : Value.sameKeys key p.1) :
    others key (p :: ks) = others key ks := List.filter_cons_of_neg (by simp [h])

theorem others_cons_neg (h : ¬ Value.sameKeys key p.1) :
    others key (p :: ks) = p :: others key ks := List.filter_cons_of_pos (by simp [h])

end

/-- Records with the same key, of which the first has the key that stands for them. -/
structure Class where
  key : List Value
  members : List Value

/-- The classes of records by their keys, in the order in which these first come up. -/
def classes : List (List Value × Value) → List Class
  | [] => []
  | (key, r) :: rest => ⟨key, r :: (sharing key rest).map Prod.snd⟩ :: classes (others key rest)
termination_by ks => ks.length
decreasing_by exact Nat.lt_succ_of_le (List.length_filter_le ..)

/-! ### How records fall into classes -/

theorem resolve_eq_some [Present] {c : Clause} {index v part : Value}
    (h : c.resolve index v = .ok (some part)) :
    (part = v ∧ v.holdsByteArray = false) ∨ (∃ n, part = .num n) ∨ ∃ s, part = .str s := by
  rw [Clause.resolve] at h
  split at h
  · cases h
  · cases hg : c.grouping with
    | discrete =>
      simp only [hg, Clause.keyOf] at h
      split at h
      · cases h
      · rename_i hlasting
        cases h
        exact .inl ⟨rfl, Bool.not_eq_true _ ▸ hlasting⟩
    | numberRanges rs | timeRanges rs =>
      simp only [hg, Clause.keyOf, bind_eq_ok, pure_eq_ok, Clause.indexKey,
        Option.map_eq_some_iff] at h
      obtain ⟨_, -, n, -, rfl⟩ := h
      exact .inr (.inl ⟨_, rfl⟩)
    | numberInterval step base =>
      simp only [hg, Clause.keyOf, bind_eq_ok] at h
      obtain ⟨n, -, h⟩ := h
      split at h <;> cases h
      exact .inr (.inl ⟨_, rfl⟩)
    | timeInterval text step base =>
      simp only [hg, Clause.keyOf, bind_eq_ok, Clause.instantKey] at h
      obtain ⟨t, -, h⟩ := h
      split at h <;> cases h
      exact .inr (.inr ⟨_, rfl⟩)
    | calendar unit count =>
      simp only [hg, Clause.keyOf, bind_eq_ok] at h
      obtain ⟨t, -, h⟩ := h
      split at h <;> cases h
      exact .inr (.inr ⟨_, rfl⟩)

theorem forall₂_keyOf [Present] {clauses : List Clause} {record : Value} {index : Int}
    {key : List Value} (h : Run.keyOf record index clauses = .ok (some key)) :
    List.Forall₂ (fun c part => ∃ (index v : Value), record.get (Path.ofText c.field) = .ok v ∧
      c.resolve index v = .ok (some part)) clauses key := by
  induction clauses generalizing index key with
  | nil =>
    cases h
    exact .nil
  | cons c rest ih =>
    rw [Run.keyOf] at h
    split at h
    · cases h
    · rename_i v hv
      obtain ⟨part, hp, h⟩ := bind_eq_ok.mp h
      cases part with
      | none => cases h
      | some part =>
        obtain ⟨key', hk, h⟩ := bind_eq_ok.mp h
        cases key' with
        | none => cases h
        | some key' =>
          cases h
          exact .cons ⟨_, v, hv, hp⟩ (ih hk)

theorem forall_mem_keyOf [Present] {P : Value → Prop} {clauses : List Clause} {record : Value}
    {index : Int} {key : List Value} (h : Run.keyOf record index clauses = .ok (some key))
    (hP : ∀ (c : Clause) (index v part : Value), record.get (Path.ofText c.field) = .ok v →
      c.resolve index v = .ok (some part) → P part) : ∀ part ∈ key, P part := by
  intro part hpart
  obtain ⟨c, -, index, v, hv, hresolve⟩ := exists_of_forall₂ (forall₂_keyOf h).flip hpart
  exact hP c index v part hv hresolve

theorem keyOf_wellFormed [Present] {clauses : List Clause} {record : Value} {index : Int}
    {key : List Value}
    (hr : record.isWellFormed) (h : Run.keyOf record index clauses = .ok (some key)) :
    ∀ v ∈ key, v.isWellFormed := by
  refine forall_mem_keyOf (P := fun v => v.isWellFormed) h ?_
  intro c index v part hv hpart
  obtain ⟨rfl, -⟩ | ⟨n, rfl⟩ | ⟨s, rfl⟩ := resolve_eq_some hpart
  · exact Value.get_wellFormed hr hv
  · rfl
  · rfl

theorem keyOf_lasting [Present] {clauses : List Clause} {record : Value} {index : Int}
    {key : List Value} (h : Run.keyOf record index clauses = .ok (some key)) :
    ∀ v ∈ key, v.holdsByteArray = false := by
  refine forall_mem_keyOf (P := fun v => v.holdsByteArray = false) h ?_
  intro c index v part hv hpart
  obtain ⟨rfl, hlasting⟩ | ⟨n, rfl⟩ | ⟨s, rfl⟩ := resolve_eq_some hpart
  · exact hlasting
  · rfl
  · rfl

def KeysWellFormed (ks : List (List Value × Value)) : Prop := ∀ p ∈ ks, ∀ v ∈ p.1, v.isWellFormed

theorem keyed_wellFormed [Present] {clauses : List Clause} {records : List Value}
    {ks : List (List Value × Value)} (hr : ∀ r ∈ records, r.isWellFormed)
    (h : keyed clauses records = .ok ks) : KeysWellFormed ks := by
  induction records generalizing ks with
  | nil =>
    cases h
    exact List.forall_mem_nil _
  | cons r rest ih =>
    simp only [keyed, bind_eq_ok, pure_eq_ok] at h
    obtain ⟨key, hk, ks, hks, rfl⟩ := h
    obtain ⟨hr, hrest⟩ := List.forall_mem_cons.mp hr
    cases key with
    | none => exact ih hrest hks
    | some key => exact List.forall_mem_cons.mpr ⟨keyOf_wellFormed hr hk, ih hrest hks⟩

structure Classified (ks : List (List Value × Value)) (cs : List Class) : Prop where
  /-- No record is lost or counted twice. -/
  counted : (cs.map fun c => c.members.length).sum = ks.length
  /-- No two classes have the same key. -/
  distinct : cs.Pairwise fun c d =>
    ¬ Value.sameKeys c.key d.key ∧ ¬ Value.sameKeys d.key c.key
  /-- Classes come in the order in which their keys do. -/
  ordered : cs.Pairwise fun c d => Value.sameKeys c.key c.key → Value.sameKeys d.key d.key →
    ks.findIdx (fun p => Value.sameKeys c.key p.1) < ks.findIdx fun p => Value.sameKeys d.key p.1
  /-- The key of a class is the first of those that are the same. -/
  first : ∀ c ∈ cs, Value.sameKeys c.key c.key →
    (sharing c.key ks).head?.map Prod.fst = some c.key
  /-- A class has all records with its key. -/
  whole : ∀ c ∈ cs, Value.sameKeys c.key c.key → c.members = (sharing c.key ks).map Prod.snd
  /-- A key that is not even itself stands for one record. -/
  alone : ∀ c ∈ cs, ¬ Value.sameKeys c.key c.key → c.members.length = 1
  /-- A key is itself where there is no NaN and no document. -/
  plain : ∀ c ∈ cs, (∀ v ∈ c.key, v.isPlain) → Value.sameKeys c.key c.key

section
variable {ks : List (List Value × Value)} {c : Class}

theorem KeysWellFormed.others {p : List Value × Value} {rest : List (List Value × Value)}
    (hw : KeysWellFormed (p :: rest)) (key : List Value) :
    KeysWellFormed (others key rest) :=
  fun q hq => hw q (List.mem_cons_of_mem p (List.mem_filter.mp hq).1)

theorem exists_of_mem_classes (hc : c ∈ classes ks) : ∃ p ∈ ks, p.1 = c.key := by
  induction ks using classes.induct with
  | case1 => simp [classes] at hc
  | case2 key r rest ih =>
    rw [classes, List.mem_cons] at hc
    rcases hc with rfl | hc
    · exact ⟨(key, r), List.mem_cons_self, rfl⟩
    · obtain ⟨p, hp, hk⟩ := ih hc
      exact ⟨p, List.mem_cons_of_mem _ (List.mem_filter.mp hp).1, hk⟩

theorem class_wellFormed (hw : KeysWellFormed ks) (hc : c ∈ classes ks) :
    ∀ v ∈ c.key, v.isWellFormed := by
  obtain ⟨p, hp, hk⟩ := exists_of_mem_classes hc
  exact hk ▸ hw p hp

theorem not_sameKeys_of_mem {key : List Value} {rest : List (List Value × Value)}
    (hc : c ∈ classes (others key rest)) : ¬ Value.sameKeys key c.key := by
  obtain ⟨p, hp, hk⟩ := exists_of_mem_classes hc
  simpa [hk] using (List.mem_filter.mp hp).2

theorem not_sameKeys_of_sharing {key key' k : List Value} (hw : ∀ v ∈ key', v.isWellFormed)
    (hk : ¬ Value.sameKeys key key') (h : Value.sameKeys key' k) : ¬ Value.sameKeys key k :=
  fun hn => hk (Value.sameKeys_trans hn (Value.sameKeys_symm hw h))

theorem sharing_others {key key' : List Value} {rest : List (List Value × Value)}
    (hw : ∀ v ∈ key', v.isWellFormed) (hk : ¬ Value.sameKeys key key') :
    sharing key' (others key rest) = sharing key' rest := by
  rw [sharing, others, List.filter_filter]
  refine List.filter_congr fun p _ => ?_
  cases hp : Value.sameKeys key' p.1 with
  | false => rfl
  | true => simp [not_sameKeys_of_sharing hw hk hp]

theorem counted_classes (ks : List (List Value × Value)) :
    ((classes ks).map fun c => c.members.length).sum = ks.length := by
  induction ks using classes.induct with
  | case1 => simp [classes]
  | case2 key r rest ih =>
    have hsplit : rest.length = (sharing key rest).length + (others key rest).length :=
      List.length_eq_length_filter_add _
    rw [classes, List.map_cons, List.sum_cons, ih]
    simp only [List.length_cons, List.length_map]
    omega

theorem distinct_classes (hw : KeysWellFormed ks) : (classes ks).Pairwise fun c d =>
    ¬ Value.sameKeys c.key d.key ∧ ¬ Value.sameKeys d.key c.key := by
  induction ks using classes.induct with
  | case1 => simp [classes]
  | case2 key r rest ih =>
    rw [classes, List.pairwise_cons]
    refine ⟨fun d hd => ?_, ih (hw.others key)⟩
    have hk := not_sameKeys_of_mem hd
    exact ⟨hk, fun h => hk (Value.sameKeys_symm (class_wellFormed (hw.others key) hd) h)⟩

theorem sharing_of_mem (hw : KeysWellFormed ks) (hc : c ∈ classes ks)
    (hk : Value.sameKeys c.key c.key) :
    ∃ r rest, sharing c.key ks = (c.key, r) :: rest ∧ c.members = r :: rest.map Prod.snd := by
  induction ks using classes.induct with
  | case1 => simp [classes] at hc
  | case2 key r rest ih =>
    rw [classes, List.mem_cons] at hc
    rcases hc with rfl | hc
    · exact ⟨r, sharing key rest, sharing_cons_pos hk, rfl⟩
    · have hne := not_sameKeys_of_mem hc
      have hwc := class_wellFormed (hw.others key) hc
      rw [sharing_cons_neg fun h => hne (Value.sameKeys_symm hwc h), ← sharing_others hwc hne]
      exact ih (hw.others key) hc

theorem members_of_not_self (hw : KeysWellFormed ks) (hc : c ∈ classes ks)
    (hk : ¬ Value.sameKeys c.key c.key) : c.members.length = 1 := by
  induction ks using classes.induct with
  | case1 => simp [classes] at hc
  | case2 key r rest ih =>
    rw [classes, List.mem_cons] at hc
    rcases hc with rfl | hc
    · have hnone : sharing key rest = [] := by
        refine List.filter_eq_nil_iff.mpr fun p _ h => hk ?_
        exact Value.sameKeys_trans h
          (Value.sameKeys_symm (hw (key, r) List.mem_cons_self) h)
      simp [hnone]
    · exact ih (hw.others key) hc

theorem findIdx_lt_of_filter {α : Type} {p p' q : α → Bool} {xs : List α}
    (hp : ∀ x ∈ xs, p x → q x) (hp' : ∀ x ∈ xs, p' x → q x)
    (h : (xs.filter q).findIdx p < (xs.filter q).findIdx p') : xs.findIdx p < xs.findIdx p' := by
  induction xs with
  | nil => simp at h
  | cons x xs ih =>
    obtain ⟨hpx, hp⟩ := List.forall_mem_cons.mp hp
    obtain ⟨hpx', hp'⟩ := List.forall_mem_cons.mp hp'
    have ih := ih hp hp'
    by_cases hq : q x
    · rw [List.filter_cons_of_pos hq] at h
      simp only [List.findIdx_cons] at h ⊢
      cases hx : p x with
      | true =>
        cases hx' : p' x with
        | true => simp only [hx, hx', cond_true, Nat.lt_irrefl] at h
        | false => exact Nat.succ_pos _
      | false =>
        cases hx' : p' x with
        | true => simp only [hx, hx', cond_true, Nat.not_lt_zero] at h
        | false =>
          simp only [hx, hx', cond_false] at h
          exact Nat.succ_lt_succ (ih (Nat.lt_of_succ_lt_succ h))
    · have hx : p x = false := by simpa using fun h => hq (hpx h)
      have hx' : p' x = false := by simpa using fun h => hq (hpx' h)
      rw [List.filter_cons_of_neg hq] at h
      simp only [List.findIdx_cons, hx, hx', cond_false]
      exact Nat.succ_lt_succ (ih h)

theorem ordered_classes (hw : KeysWellFormed ks) : (classes ks).Pairwise fun c d =>
    Value.sameKeys c.key c.key → Value.sameKeys d.key d.key →
    ks.findIdx (fun p => Value.sameKeys c.key p.1) <
      ks.findIdx fun p => Value.sameKeys d.key p.1 := by
  induction ks using classes.induct with
  | case1 => simp [classes]
  | case2 key r rest ih =>
    have hother : ∀ d ∈ classes (others key rest), ¬ Value.sameKeys d.key key :=
      fun d hd h => not_sameKeys_of_mem hd
        (Value.sameKeys_symm (class_wellFormed (hw.others key) hd) h)
    rw [classes, List.pairwise_cons]
    constructor
    · intro d hd hkk hdd
      simp [List.findIdx_cons, hkk, hother d hd]
    · refine (ih (hw.others key)).imp_of_mem fun {c d} hc hd h hcc hdd => ?_
      -- What shares a later key is not with the first class, and keeps its place among the others.
      have away {e : Class} (he : e ∈ classes (others key rest)) (p : List Value × Value)
          (_ : p ∈ rest) (hp : Value.sameKeys e.key p.1) : !Value.sameKeys key p.1 := by
        simpa using not_sameKeys_of_sharing (class_wellFormed (hw.others key) he)
          (not_sameKeys_of_mem he) hp
      simp only [List.findIdx_cons, hother c hc, hother d hd, cond_false]
      exact Nat.succ_lt_succ (findIdx_lt_of_filter (away hc) (away hd) (h hcc hdd))

theorem classes_classified (hw : KeysWellFormed ks) : Classified ks (classes ks) where
  counted := counted_classes ks
  distinct := distinct_classes hw
  ordered := ordered_classes hw
  first c hc hk := by
    obtain ⟨r, rest, hs, -⟩ := sharing_of_mem hw hc hk
    rw [hs]
    rfl
  whole c hc hk := by
    obtain ⟨r, rest, hs, hm⟩ := sharing_of_mem hw hc hk
    rw [hs, hm]
    rfl
  alone c hc hk := members_of_not_self hw hc hk
  plain c hc hp := Value.sameKeys_refl (class_wellFormed hw hc) hp

end

end Aggregate
end RecordStore
