import RecordStore.Proofs.KeyWrites
import RecordStore.Proofs.Matching
import RecordStore.Proofs.ValueEquality

/-! The keys of a store, and what its operations do to them: when they stay present and distinct,
and when they do not. -/
namespace RecordStore

namespace Store

def keyAt (store : Store) (v : Value) : Value :=
  (v.members?.bind (Record.get? store.keyField)).getD .null

def keys (store : Store) : List Value := store.records.map store.keyAt

/-- Keys that are there, none of which is equal to a later one. -/
def Unique (keys : List Value) : Prop :=
  (∀ k ∈ keys, k ≠ .null) ∧ keys.Pairwise fun k l => ¬ k.eq l

/-- Every record is an object with a key, and no two have the same. -/
structure Keyed (store : Store) : Prop where
  objects : store.HoldsObjects
  unique : Unique store.keys

/-! ### Lists of keys -/

theorem Unique.append_iff {keys : List Value} (h : Unique keys) (k : Value) :
    Unique (keys ++ [k]) ↔ k ≠ .null ∧ ∀ l ∈ keys, ¬ l.eq k := by
  obtain ⟨hpresent, hdistinct⟩ := h
  constructor
  · intro h
    obtain ⟨hp, hd⟩ := h
    refine ⟨hp k (by simp), fun l hl => ?_⟩
    exact (List.pairwise_append.mp hd).2.2 l hl k (by simp)
  · intro h
    obtain ⟨hk, hnew⟩ := h
    refine ⟨?_, List.pairwise_append.mpr ⟨hdistinct, by simp, by simpa using hnew⟩⟩
    intro l hl
    rcases List.mem_append.mp hl with hl | hl
    · exact hpresent l hl
    · exact List.mem_singleton.mp hl ▸ hk

theorem Unique.sublist {keys rest : List Value} (h : Unique keys) (hs : rest.Sublist keys) :
    Unique rest :=
  ⟨fun k hk => h.1 k (hs.subset hk), h.2.sublist hs⟩

theorem Unique.of_ints {ns : List Int} (h : ns.Nodup) : Unique (ns.map .int) := by
  refine ⟨by simp [Value.int], List.pairwise_map.mpr (h.imp fun hne he => ?_)⟩
  exact hne (Value.eq_int.mp he)

theorem not_eq_of_findIdx? {keys : List Value} {k : Value}
    (h : keys.findIdx? (·.eq k) = none) : ∀ l ∈ keys, ¬ l.eq k := by
  intro l hl
  rw [List.findIdx?_eq_none_iff.mp h l hl]
  simp

/-- The first key that is equal to another can give way to it: what is not equal to the one is not
equal to the other. -/
theorem Unique.set_first {keys : List Value} {k : Value} (h : Unique keys) (hk : k ≠ .null)
    {n : Nat} (hn : keys.findIdx? (·.eq k) = some n) : Unique (keys.set n k) := by
  obtain ⟨hpresent, hdistinct⟩ := h
  obtain ⟨hlt, heq, hfirst⟩ := List.findIdx?_eq_some_iff_getElem.mp hn
  refine ⟨?_, ?_⟩
  · intro l hl
    rcases List.mem_or_eq_of_mem_set hl with hl | rfl
    · exact hpresent l hl
    · exact hk
  · rw [List.pairwise_iff_getElem] at hdistinct ⊢
    intro i j hi hj hij
    rw [List.length_set] at hi hj
    have hold := hdistinct i j hi hj hij
    by_cases hni : n = i
    · subst hni
      have hnj : n ≠ j := by omega
      rw [List.getElem_set_self, List.getElem_set_ne hnj]
      exact fun h => hold (Value.eq_trans heq h)
    · rw [List.getElem_set_ne hni]
      by_cases hnj : n = j
      · subst hnj
        rw [List.getElem_set_self]
        exact hfirst i hij
      · rw [List.getElem_set_ne hnj]
        exact hold

/-! ### What the operations of a store do to its keys -/

theorem position?_eq {store : Store} {key : Value} {records : List Value}
    (ho : ∀ r ∈ records, r.isObject) : store.position? key records =
      .ok ((records.map store.keyAt).findIdx? (·.eq key)) := by
  induction records with
  | nil => rfl
  | cons v rest ih =>
    obtain ⟨hv, hrest⟩ := List.forall_mem_cons.mp ho
    obtain ⟨r, rfl⟩ := Value.isObject_iff.mp hv
    rw [position?, ih hrest, List.map_cons, List.findIdx?_cons]
    have hkey : store.keyAt (.object r) = store.keyOf r := rfl
    rw [hkey]
    by_cases h : (store.keyOf r).eq key
    · simp [h, Value.members, ok_bind, pure, Except.pure]
    · simp [h, Value.members, ok_bind, pure, Except.pure]

theorem keyed_of_ints (ns : List Int) (h : ns.Nodup) :
    Keyed { records := ns.map fun n => .object [("id", .int n)] } := by
  have hkeys : keys { records := ns.map fun n => .object [("id", .int n)] } = ns.map .int := by
    rw [keys, List.map_map]
    rfl
  refine ⟨?_, by rw [hkeys]; exact Unique.of_ints h⟩
  intro v hv
  obtain ⟨n, -, rfl⟩ := List.mem_map.mp hv
  rfl

theorem keys_append (store : Store) (r : Record) (generated : Nat) :
    keys { store with records := store.records ++ [.object r], generated } =
      store.keys ++ [store.keyOf r] := by
  rw [keys, List.map_append]
  rfl

variable {store after : Store}

theorem HoldsObjects.keyed_iff (ho : store.HoldsObjects) : store.Keyed ↔ Unique store.keys :=
  ⟨fun h => h.unique, fun h => ⟨ho, h⟩⟩

/-- The record comes without a key, and the one that it gets is there already. -/
def InsertSpoils (store : Store) (r : Record) : Prop :=
  store.keyOf r = .null ∧ ∃ k ∈ store.keys, k.eq store.freshKey

theorem insert_keyed_iff (hk : store.Keyed) {r : Record} (h : store.insert r = .ok after) :
    after.keyField = store.keyField ∧ (after.Keyed ↔ ¬ store.InsertSpoils r) := by
  rw [(insert_holdsObjects hk.objects h).keyed_iff, InsertSpoils]
  rw [insert] at h
  split at h
  · rename_i hnull
    cases h
    have hfresh : store.freshKey ≠ .null := by simp [freshKey]
    have hkey : store.keyOf (r.put store.keyField store.freshKey) = store.freshKey := by
      rw [keyOf, Record.get?_put_self]
      rfl
    have hkeys := store.keys_append (r.put store.keyField store.freshKey) (store.generated + 1)
    rw [hkey] at hkeys
    refine ⟨rfl, ?_⟩
    change Unique (keys { store with records := _, generated := _ }) ↔ _
    rw [hkeys, hk.unique.append_iff]
    simp [hnull, hfresh]
  · rename_i hkey
    obtain ⟨position, hp, h⟩ := bind_eq_ok.mp h
    rw [mapError_eq_ok, position?_eq hk.objects, Except.ok.injEq] at hp
    cases position with
    | some n => cases h
    | none =>
      cases h
      refine ⟨rfl, ?_⟩
      rw [store.keys_append r store.generated, hk.unique.append_iff]
      exact ⟨fun _ hs => hkey hs.1, fun _ => ⟨hkey, not_eq_of_findIdx? hp⟩⟩

theorem insert_refused {e : StoreError} {r : Record}
    (h : store.insert r = .error e) : ¬ store.InsertSpoils r := by
  intro hs
  obtain ⟨hnull, -⟩ := hs
  rw [insert, hnull] at h
  cases h

def withRecord (store : Store) (r : Record) : Store :=
  { store with records := match store.keys.findIdx? (·.eq (store.keyOf r)) with
    | some n => store.records.set n (.object r)
    | none => store.records ++ [.object r] }

theorem save_eq (ho : store.HoldsObjects) (r : Record) :
    store.save r = .ok (store.withRecord r) := by
  rw [save, position?_eq ho, ok_bind, withRecord, keys]
  cases (store.records.map store.keyAt).findIdx? (·.eq (store.keyOf r)) <;> rfl

theorem withRecord_keyed_iff (hk : store.Keyed) (r : Record) :
    (store.withRecord r).Keyed ↔ store.keyOf r ≠ .null := by
  rw [(save_holdsObjects hk.objects (save_eq hk.objects r)).keyed_iff, withRecord]
  cases hp : store.keys.findIdx? (·.eq (store.keyOf r)) with
  | none =>
    dsimp only
    rw [store.keys_append r store.generated, hk.unique.append_iff]
    exact ⟨fun h => h.1, fun hkey => ⟨hkey, not_eq_of_findIdx? hp⟩⟩
  | some n =>
    have hkeys : keys { store with records := store.records.set n (.object r) } =
        store.keys.set n (store.keyOf r) := by
      rw [keys, List.map_set]
      rfl
    dsimp only
    rw [hkeys]
    constructor
    · intro hu
      obtain ⟨hlt, -⟩ := List.findIdx?_eq_some_iff_getElem.mp hp
      exact hu.1 _ (List.mem_set hlt _)
    · intro hkey
      exact hk.unique.set_first hkey hp

def saving (store : Store) (r : Record) : Store :=
  (store.withKey r).2.withRecord (store.withKey r).1

theorem withKey_eq (store : Store) (r : Record) :
    ∃ generated, (store.withKey r).2 = { store with generated } := by
  rw [withKey]
  split <;> exact ⟨_, rfl⟩

theorem saving_eq (store : Store) (r : Record) :
    ∃ records generated, store.saving r = { store with records, generated } := by
  obtain ⟨generated, h⟩ := store.withKey_eq r
  rw [saving, h]
  exact ⟨_, _, rfl⟩

theorem get?_withKey (store : Store) (r : Record) :
    (store.withKey r).1.get? store.keyField = some (store.keyOf (store.withKey r).1) := by
  rw [withKey]
  split
  · rename_i h
    obtain ⟨k, hk⟩ := Option.isSome_iff_exists.mp h
    rw [keyOf, hk, Option.getD_some]
  · rw [withFreshKey, keyOf, Record.get?_put_self, Option.getD_some]

theorem keyOf_withKey (store : Store) (r : Record) :
    store.keyOf (store.withKey r).1 = .null ↔ r.get? store.keyField = some .null := by
  rw [withKey]
  by_cases h : r.has store.keyField
  · obtain ⟨k, hk⟩ := Option.isSome_iff_exists.mp h
    simp [h, keyOf, hk]
  · have hnone : r.get? store.keyField = none := by simpa [Record.has] using h
    simp [h, withFreshKey, keyOf, Record.get?_put_self, freshKey, hnone]

theorem saving_holdsObjects (ho : store.HoldsObjects) (r : Record) :
    (store.saving r).HoldsObjects := by
  obtain ⟨generated, h⟩ := store.withKey_eq r
  have hobjects : HoldsObjects { store with generated } := ho
  rw [saving, h]
  exact save_holdsObjects hobjects (save_eq hobjects _)

theorem saving_keyed_iff (hk : store.Keyed) (r : Record) :
    (store.saving r).Keyed ↔ r.get? store.keyField ≠ some .null := by
  obtain ⟨generated, h⟩ := store.withKey_eq r
  have hkeyed : Keyed { store with generated } := ⟨hk.objects, hk.unique⟩
  rw [saving, h, withRecord_keyed_iff hkeyed]
  exact (store.keyOf_withKey r).not

/-- The keys that an update leaves, told by the keys that it finds. -/
def keysAfter (store : Store) (fullReplace : Bool) (query : Query) (given : Value) : List Value :=
  store.records.map fun v =>
    if query.selects v then
      Update.newKey store.keyField fullReplace given (v.members?.getD [])
    else store.keyAt v

/-- The update is made, and a key is gone after it or equal to another. -/
def UpdateSpoils (store : Store) (fullReplace : Bool) (query : Query) (given : Value) : Prop :=
  (∃ n after, store.update fullReplace query given = (.ok n, after)) ∧
    ¬ Unique (store.keysAfter fullReplace query given)

theorem keyAt_of_update {fullReplace : Bool} {query : Query} {given old new : Value}
    (ho : old.isObject)
    (h : if query.selects old then Update.Applied store.keyField fullReplace given old new
      else new = old) :
    (if query.selects old then
      Update.newKey store.keyField fullReplace given (old.members?.getD [])
    else store.keyAt old) = store.keyAt new := by
  by_cases hs : query.selects old
  · rw [if_pos hs] at h ⊢
    obtain ⟨before, rfl⟩ := Value.isObject_iff.mp ho
    obtain ⟨now, rfl⟩ := Value.isObject_iff.mp (h.isObject ho)
    exact (Update.key_of_applied h).symm
  · rw [if_neg hs] at h ⊢
    rw [h]

theorem update_keyed_iff (hk : store.Keyed) {fullReplace : Bool} {query : Query} {given : Value}
    {outcome : Except StoreError Nat}
    (h : store.update fullReplace query given = (outcome, after)) :
    after.keyField = store.keyField ∧
      (after.Keyed ↔ ¬ store.UpdateSpoils fullReplace query given) := by
  have hspec := store.update_spec hk.objects fullReplace query given
  have hobjects := store.update_holdsObjects hk.objects fullReplace query given
  rw [UpdateSpoils]
  rw [h] at hspec hobjects ⊢
  cases outcome with
  | error e =>
    subst hspec
    simp [hk]
  | ok n =>
    obtain ⟨-, records, rfl, hmade⟩ := hspec
    have hkeys : keys { store with records } = store.keysAfter fullReplace query given := by
      rw [keys, keysAfter, eq_comm, ← List.forall₂_eq_eq_eq, List.forall₂_map_left_iff,
        List.forall₂_map_right_iff]
      refine ((List.forall₂_and_left _ _).mpr ⟨hk.objects, hmade⟩).imp fun old new hnew => ?_
      exact keyAt_of_update hnew.1 hnew.2
    rw [hobjects.keyed_iff, hkeys]
    simp

theorem keysAfter_of_spares (hk : store.Keyed) {fullReplace : Bool} {given : Value}
    (h : Update.Spares store.keyField fullReplace given) (query : Query) :
    store.keysAfter fullReplace query given = store.keys := by
  rw [keysAfter, keys, List.map_inj_left]
  intro v hv
  obtain ⟨r, rfl⟩ := Value.isObject_iff.mp (hk.objects v hv)
  by_cases hs : query.selects (.object r)
  · rw [if_pos hs]
    exact Update.newKey_of_spares h
  · rw [if_neg hs]

theorem remove_keyed (hk : store.Keyed) {query : Query} {n : Nat}
    (h : store.remove query = .ok (n, after)) :
    after.keyField = store.keyField ∧ after.Keyed := by
  have hobjects := remove_holdsObjects hk.objects h
  simp only [remove, bind_eq_ok, pure_eq_ok, Prod.mk.injEq] at h
  obtain ⟨filter, hf, marks, hm, -, rfl⟩ := h
  rw [marked_eq hf hm, unmarked_eq] at hobjects ⊢
  exact ⟨rfl, hobjects, hk.unique.sublist (List.filter_sublist.map _)⟩

end Store

end RecordStore
