import RecordStore.Proofs.GroupRun
import RecordStore.Proofs.KeyAgreement
import RecordStore.Proofs.Matching

/-! A key of values as they are, taken for a query. The query finds the records that have equal
values at the fields, the group has those that have the same key; how many each of them has beyond
the other is counted. -/
namespace RecordStore

/-- What asks for the parts of a key at the fields that it was read from. -/
def Filter.ofKey (fields : List String) (key : List Value) : Filter :=
  (fields.map Name.text).zip key

namespace Filter

theorem meets_eq {expected actual : Value} (h : ¬ expected.isAbsent) :
    meets expected actual = (!actual.isAbsent && actual.eq expected) := by
  cases actual <;> cases expected <;>
    simp_all [meets, Value.isAbsent, Value.isMissing, Value.eq, Value.asNum?]

end Filter

namespace Aggregate

def discrete (fields : List String) : List Clause := fields.map fun field => ⟨field, .discrete⟩

section
variable {r : Value} {index : Int} {fields : List String} {key : List Value}

theorem keyOf_discrete_cons [Present] {field : String} {found : Option (List Value)} :
    Run.keyOf r index (discrete (field :: fields)) = .ok found ↔
      ∃ v, r.get (Path.ofText field) = .ok v ∧
        if v.isAbsent then found = none else v.holdsByteArray = false ∧
          ∃ rest, Run.keyOf r (index + 1) (discrete fields) = .ok rest ∧
            found = rest.map (v :: ·) := by
  have hcons : discrete (field :: fields) = ⟨field, .discrete⟩ :: discrete fields := rfl
  rw [hcons, Run.keyOf]
  cases hv : r.get (Path.ofText field) with
  | error f => simp
  | ok v =>
    simp only [Except.ok.injEq, exists_eq_left', Clause.resolve, Clause.keyOf]
    by_cases ha : v.isAbsent
    · simp only [if_pos ha, ok_bind, pure_eq_ok]
      exact eq_comm
    · cases hb : v.holdsByteArray with
      | true => simp [ha, bind, Except.bind]
      | false =>
        simp only [if_neg ha, Bool.false_eq_true, if_false, ok_bind, bind_eq_ok, pure_eq_ok,
          true_and]
        exact exists_congr fun _ => and_congr_right fun _ => eq_comm

theorem keyOf_discrete_eq_ok [Present] : Run.keyOf r index (discrete fields) = .ok (some key) ↔
    List.Forall₂ (fun field v => r.get (Path.ofText field) = .ok v ∧ ¬ v.isAbsent ∧
      v.holdsByteArray = false) fields key := by
  induction fields generalizing index key with
  | nil =>
    rw [List.forall₂_nil_left_iff]
    simp only [discrete, List.map_nil, Run.keyOf, Except.ok.injEq, Option.some.injEq]
    exact eq_comm
  | cons field fields ih =>
    rw [keyOf_discrete_cons, List.forall₂_cons_left_iff]
    constructor
    · intro h
      obtain ⟨v, hv, h⟩ := h
      split at h
      · cases h
      · obtain ⟨hb, rest, hrest, hfound⟩ := h
        cases rest with
        | none => cases hfound
        | some rest =>
          cases hfound
          exact ⟨v, rest, ⟨hv, ‹_›, hb⟩, ih.mp hrest, rfl⟩
    · intro h
      obtain ⟨v, rest, ⟨hv, ha, hb⟩, hrest, rfl⟩ := h
      refine ⟨v, hv, ?_⟩
      rw [if_neg ha]
      exact ⟨hb, some rest, ih.mpr hrest, rfl⟩

/-- A record meets the query of a key if it has a key with equal parts. Reading it stops no later
than reading the record's own key. -/
theorem holds_ofKey [Present] {found : Option (List Value)}
    (hfound : Run.keyOf r index (discrete fields) = .ok found)
    (hp : ∀ field ∈ fields, ∀ v, r.get (Path.ofText field) = .ok v → v.isPlain)
    (hlength : key.length = fields.length) (hpresent : ∀ part ∈ key, ¬ part.isAbsent) :
    Filter.holds r (Filter.ofKey fields key) = .ok (found.any fun k => Value.eqList k key) := by
  induction fields generalizing index key found with
  | nil =>
    cases hfound
    rw [List.eq_nil_of_length_eq_zero hlength]
    rw [Option.any, Value.eqList]
    rfl
  | cons field fields ih =>
    obtain ⟨part, key, rfl⟩ := List.exists_cons_of_length_eq_add_one hlength
    obtain ⟨hpart, hpresent⟩ := List.forall_mem_cons.mp hpresent
    obtain ⟨hplain, hp⟩ := List.forall_mem_cons.mp hp
    obtain ⟨v, hv, hfound⟩ := keyOf_discrete_cons.mp hfound
    have hcons : Filter.ofKey (field :: fields) (part :: key) =
        (.text field, part) :: Filter.ofKey fields key := rfl
    have hread : r.get (Path.ofText (Name.text field).reading) = .ok v := hv
    rw [hcons, Filter.holds, hread, ok_bind, Filter.meets_eq hpart]
    split at hfound
    · rename_i ha
      rw [hfound, ha]
      rfl
    · rename_i ha
      obtain ⟨-, rest, hrest, rfl⟩ := hfound
      have heq : v.isElement part = v.eq part := by
        rw [Bool.eq_iff_iff]
        exact Value.isElement_iff (hplain v hv)
      have hany : (rest.map (v :: ·)).any (fun k => Value.eqList k (part :: key)) =
          (v.eq part && rest.any fun k => Value.eqList k key) := by
        rw [← heq]
        cases rest <;> simp [Value.eqList, Value.isElement]
      rw [hany, Bool.eq_false_iff.mpr ha, Bool.not_false, Bool.true_and]
      cases v.eq part with
      | true => exact ih hrest hp (Nat.succ.inj hlength) hpresent
      | false => rfl

theorem keyOf_discrete_congr [Present] {r' : Value}
    (h : ∀ field ∈ fields, r'.get (Path.ofText field) = r.get (Path.ofText field)) :
    Run.keyOf r' index (discrete fields) = Run.keyOf r index (discrete fields) := by
  induction fields generalizing index with
  | nil => rfl
  | cons field fields ih =>
    obtain ⟨hfield, h⟩ := List.forall_mem_cons.mp h
    have hcons : discrete (field :: fields) = ⟨field, .discrete⟩ :: discrete fields := rfl
    rw [hcons, Run.keyOf, Run.keyOf, hfield, ih h]

end

/-! ### Counting -/

/-- Keys with equal parts that are not the same: a boolean faces a number. -/
def blended (k key : List Value) : Bool :=
  Value.eqList k key && Value.somewhereIn Value.boolWithNum k key

/-- Keys that are the same but have different parts: a list faces a tuple. -/
def merged (k key : List Value) : Bool :=
  Value.sameKeys k key && Value.somewhereIn Value.listWithTuple k key

section
variable {fields : List String} {key : List Value} {records : List Value}
  {ks : List (List Value × Value)}

theorem exists_keyOf [Present] {clauses : List Clause} {r : Value}
    (hks : keyed clauses records = .ok ks)
    (hr : r ∈ records) : ∃ found, Run.keyOf r 0 clauses = .ok found := by
  induction records generalizing ks with
  | nil => cases hr
  | cons first records ih =>
    simp only [keyed, bind_eq_ok, pure_eq_ok] at hks
    obtain ⟨found, hfound, rest, hrest, rfl⟩ := hks
    obtain rfl | hr := List.mem_cons.mp hr
    · exact ⟨found, hfound⟩
    · exact ih hrest hr

theorem keyOf_of_mem_keyed [Present] {clauses : List Clause} {p : List Value × Value}
    (hks : keyed clauses records = .ok ks) (hp : p ∈ ks) :
    p.2 ∈ records ∧ Run.keyOf p.2 0 clauses = .ok (some p.1) := by
  induction records generalizing ks with
  | nil =>
    cases hks
    cases hp
  | cons r records ih =>
    simp only [keyed, bind_eq_ok, pure_eq_ok] at hks
    obtain ⟨found, hfound, rest, hrest, rfl⟩ := hks
    obtain hp | hp := List.mem_append.mp hp
    · rw [Option.mem_toList, Option.map_eq_some_iff] at hp
      obtain ⟨key, rfl, rfl⟩ := hp
      exact ⟨List.mem_cons_self, hfound⟩
    · obtain ⟨hmem, hkey⟩ := ih hrest hp
      exact ⟨List.mem_cons_of_mem r hmem, hkey⟩

theorem parts_of_keyed [Present] (hw : ∀ r ∈ records, r.isWellFormed)
    (hplain : ∀ r ∈ records, ∀ field ∈ fields, ∀ v, r.get (Path.ofText field) = .ok v → v.isPlain)
    (hks : keyed (discrete fields) records = .ok ks) {p : List Value × Value} (hp : p ∈ ks) :
    p.1.length = fields.length ∧ ∀ part ∈ p.1, ¬ part.isAbsent ∧ part.Groupable := by
  obtain ⟨hr, hkey⟩ := keyOf_of_mem_keyed hks hp
  have hparts := keyOf_discrete_eq_ok.mp hkey
  refine ⟨hparts.length_eq.symm, fun part hpart => ?_⟩
  obtain ⟨field, hfield, hget, ha, hb⟩ := exists_of_forall₂ hparts.flip hpart
  exact ⟨ha, Value.get_wellFormed (hw p.2 hr) hget, hplain p.2 hr field hfield part hget, hb⟩

theorem keyed_map [Present] {clauses : List Clause} {f : Value → Value}
    (hf : ∀ r ∈ records, Run.keyOf (f r) 0 clauses = Run.keyOf r 0 clauses) :
    keyed clauses (records.map f) =
      (keyed clauses records).map fun ks => ks.map fun p => (p.1, f p.2) := by
  induction records with
  | nil => rfl
  | cons r records ih =>
    obtain ⟨hr, hf⟩ := List.forall_mem_cons.mp hf
    rw [List.map_cons, keyed, keyed, hr, ih hf]
    cases Run.keyOf r 0 clauses with
    | error e => rfl
    | ok key =>
      cases keyed clauses records with
      | error e => rfl
      | ok ks => cases key <;> rfl

theorem length_sharing_map {f : Value → Value} :
    (sharing key (ks.map fun p => (p.1, f p.2))).length = (sharing key ks).length := by
  rw [sharing, sharing, List.filter_map, List.length_map]
  rfl

/-- The records that the query of a key finds are those that have a key with equal parts. -/
theorem countP_selects [Present] (hks : keyed (discrete fields) records = .ok ks)
    (hp : ∀ r ∈ records, ∀ field ∈ fields, ∀ v, r.get (Path.ofText field) = .ok v → v.isPlain)
    (hlength : key.length = fields.length) (hpresent : ∀ part ∈ key, ¬ part.isAbsent) :
    records.countP (Query.selects (.object (Filter.ofKey fields key))) =
      ks.countP fun p => Value.eqList p.1 key := by
  induction records generalizing ks with
  | nil =>
    cases hks
    rfl
  | cons r records ih =>
    obtain ⟨hpr, hp⟩ := List.forall_mem_cons.mp hp
    simp only [keyed, bind_eq_ok, pure_eq_ok] at hks
    obtain ⟨found, hfound, rest, hrest, rfl⟩ := hks
    have hselects := Query.selects_of_holds (holds_ofKey hfound hpr hlength hpresent)
    rw [List.countP_cons, List.countP_append, ih hrest hp, hselects, Nat.add_comm]
    cases found with
    | none => rfl
    | some k => simp

/-- A pair of keys is counted by the one equality and not by the other only if it is blended or
merged. -/
theorem toNat_blended {k : List Value} (hk : ∀ v ∈ k, v.Groupable)
    (hkey : ∀ v ∈ key, v.Groupable) :
    (Value.sameKeys k key).toNat + (blended k key).toNat =
      (Value.eqList k key).toNat + (merged k key).toNat := by
  rw [blended, merged]
  cases heq : Value.eqList k key with
  | false =>
    cases hsame : Value.sameKeys k key with
    | false => rfl
    | true =>
      have hiff := Value.eqList_iff_of_sameKeys hk hkey hsame
      simp_all
  | true =>
    have hiff := Value.sameKeys_iff_of_eqList hk hkey heq
    cases hsame : Value.sameKeys k key with
    | false => simp_all
    | true =>
      have hiff' := Value.eqList_iff_of_sameKeys hk hkey hsame
      simp_all

/-- The members of a group and the records that the query of its key finds, but for those that only
one of them has. -/
theorem length_sharing (hks : ∀ p ∈ ks, ∀ v ∈ p.1, v.Groupable)
    (hkey : ∀ v ∈ key, v.Groupable) :
    (sharing key ks).length + ks.countP (fun p => blended p.1 key) =
      ks.countP (fun p => Value.eqList p.1 key) + ks.countP fun p => merged p.1 key := by
  rw [sharing, ← List.countP_eq_length_filter]
  induction ks with
  | nil => rfl
  | cons p ks ih =>
    obtain ⟨hp, hks⟩ := List.forall_mem_cons.mp hks
    have hsymm : Value.sameKeys key p.1 = Value.sameKeys p.1 key := by
      rw [Bool.eq_iff_iff]
      exact ⟨Value.sameKeys_symm fun v hv => (hkey v hv).wellFormed,
        Value.sameKeys_symm fun v hv => (hp v hv).wellFormed⟩
    have hpair := toNat_blended hp hkey
    have hrest := ih hks
    simp only [List.countP_cons, hsymm]
    simp only [Bool.toNat, ← Bool.cond_eq_ite] at hpair ⊢
    omega

end

end Aggregate

end RecordStore
