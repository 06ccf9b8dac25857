import RecordStore.Collection.Write
import RecordStore.Proofs.Inversion
import RecordStore.Proofs.Members

/-! An update of records in memory is all or nothing: either it fails and nothing has changed, or
every record that matches has become what the expression says, and no other. -/
namespace RecordStore

/-- Whether a query asks for a record. -/
def Query.selects (query : Query) (r : Value) : Bool :=
  match query.filter? with
  | some filter => match Filter.holds r filter with
    | .ok holds => holds
    | .error _ => false
  | none => false

theorem Query.selects_of_holds {filter : Filter} {r : Value} {b : Bool}
    (h : Filter.holds r filter = .ok b) : Query.selects (.object filter) r = b := by
  simp [Query.selects, Query.filter?, h]

theorem Value.members_eq_ok {v : Value} {ms : Record} : v.members = .ok ms ↔ v = .object ms := by
  cases v <;> simp [Value.members]

theorem Value.isObject_iff {v : Value} : v.isObject ↔ ∃ ms : Record, v = .object ms := by
  cases v <;> simp [Value.isObject]

namespace Record

/-- Values set at field paths, one after the other. -/
def setEach (r values : Record) : Record :=
  values.entries.foldl (fun r (path, v) => r.setAt (.ofText path) v) r

def unsetEach (r : Record) (paths : List String) : Record :=
  paths.foldl (fun r path => r.unsetAt (.ofText path)) r

/-- The number at a field path, where nothing stands for zero. -/
def NumberAt (r : Record) (path : String) (n : Num) : Prop :=
  ∃ v, Value.get (.object r) (.ofText path) = .ok v ∧ (v = .num n ∨ v.isAbsent ∧ n = .int 0)

/-- Amounts added to the numbers at field paths, one after the other. -/
inductive Raised : List (String × Value) → Record → Record → Prop
  | nil (r : Record) : Raised [] r r
  | cons {path : String} {amounts : List (String × Value)} {r s : Record} {m n sum : Num}
      (number : r.NumberAt path m) (add : m.add n = some sum)
      (rest : Raised amounts (r.setAt (.ofText path) (.num sum)) s) :
      Raised ((path, .num n) :: amounts) r s

end Record

namespace Update

/-- What a record becomes. Under operators values are set, then paths removed, then amounts added;
plain members are set, or take the place of the record, with its old key if they bring none. -/
inductive Becomes (keyField : Name) (fullReplace : Bool) (old : Record) : Value → Record → Prop
  | operated {given values amounts new : Record} {paths : List String}
      (operators : given ≠ [] ∧ ∀ name ∈ given.keys, name ∈ ["$set", "$unset", "$inc"])
      (set : operand given "$set" = .object values)
      (unset : (operand given "$unset").elements = .ok (paths.map .str))
      (inc : operand given "$inc" = .object amounts)
      (raised : Record.Raised amounts.entries ((old.setEach values).unsetEach paths) new) :
      Becomes keyField fullReplace old (.object given) new
  | merged {given : Record} (plain : ∀ name ∈ given.keys, ¬ isOperator name)
      (kept : fullReplace = false) :
      Becomes keyField fullReplace old (.object given) (Record.setEach old given)
  | replaced {given : Record} (plain : ∀ name ∈ given.keys, ¬ isOperator name)
      (whole : fullReplace = true) :
      Becomes keyField fullReplace old (.object given)
        (if given.has keyField then given
          else given ++ [(keyField, (old.get? keyField).getD .null)])

end Update

namespace Update

/-- Operators turn one record into another: values are set, then removed, then added to. -/
def Operated (operators : Record) (old new : Value) : Prop :=
  ∃ r s, set (operand operators setName) old = .ok r ∧
    unset (operand operators unsetName) r = .ok s ∧
    increment (operand operators incrementName) s = .ok new

/-- What an expression makes of a record. Plain members are set, or take the place of the whole
record but for a key that they lack. -/
def Applied (keyField : Name) (fullReplace : Bool) (given old new : Value) : Prop :=
  ∃ ms : Record, given = .object ms ∧
    if (Record.keys ms).any isOperator then
      (∀ name ∈ Record.keys ms, name ∈ supported) ∧ Operated ms old new
    else if fullReplace then
      ∃ r : Record, old = .object r ∧ new = .object
        (if Record.has keyField ms then ms
          else Record.put keyField ((Record.get? keyField r).getD .null) ms)
    else set given old = .ok new

/-! ### Objects stay objects -/

theorem setAt_isObject {v path w u : Value} (hv : v.isObject) (h : v.setAt path w = .ok u) :
    u.isObject := by
  obtain ⟨ms, rfl⟩ := Value.isObject_iff.mp hv
  rw [Value.setAt, bind_eq_ok] at h
  obtain ⟨names, -, h⟩ := h
  rw [← pure_eq_ok.mp h, Value.isObject]

theorem unsetAt_isObject {v path u : Value} (hv : v.isObject) (h : v.unsetAt path = .ok u) :
    u.isObject := by
  obtain ⟨ms, rfl⟩ := Value.isObject_iff.mp hv
  rw [Value.unsetAt, bind_eq_ok] at h
  obtain ⟨names, -, h⟩ := h
  rw [← pure_eq_ok.mp h, Value.isObject]

theorem incrementAt_isObject {v amount u : Value} {path : String} (hv : v.isObject)
    (h : incrementAt v path amount = .ok u) : u.isObject := by
  rw [incrementAt, bind_eq_ok] at h
  obtain ⟨current, -, h⟩ := h
  split at h
  · split at h
    · exact setAt_isObject hv (mapError_eq_ok.mp h)
    · simp at h
  · simp at h

theorem set_isObject {members old new : Value} (ho : old.isObject)
    (h : set members old = .ok new) : new.isObject := by
  rw [set, bind_eq_ok] at h
  obtain ⟨ms, -, h⟩ := h
  exact foldlM_keeps (P := fun v => v.isObject = true)
    (fun hb hc => setAt_isObject hb (mapError_eq_ok.mp hc)) ho h

theorem Operated.isObject {operators : Record} {old new : Value} (ho : old.isObject)
    (h : Operated operators old new) : new.isObject := by
  obtain ⟨r, s, hr, hs, h⟩ := h
  simp only [unset, increment, bind_eq_ok] at hs h
  obtain ⟨paths, -, hs⟩ := hs
  obtain ⟨amounts, -, h⟩ := h
  have hs := foldlM_keeps (P := fun v => v.isObject = true)
    (fun hb hc => unsetAt_isObject hb (mapError_eq_ok.mp hc)) (set_isObject ho hr) hs
  exact foldlM_keeps (P := fun v => v.isObject = true)
    (fun hb hc => incrementAt_isObject hb hc) hs h

theorem Applied.isObject {keyField : Name} {fullReplace : Bool} {given old new : Value}
    (ho : old.isObject) (h : Applied keyField fullReplace given old new) : new.isObject := by
  obtain ⟨ms, -, h⟩ := h
  split at h
  · exact h.2.isObject ho
  · split at h
    · obtain ⟨r, -, rfl⟩ := h
      rfl
    · exact set_isObject ho h

/-! ### What is read is what is made -/

theorem operated_wrapped {given old new : Value} :
    Operated [(setName, given)] old new ↔ set given old = .ok new := by
  have hset : operand [(setName, given)] setName = given := by
    simp [operand, Record.get?]
  have hunset : operand [(setName, given)] unsetName = .object [] := by
    simp [operand, Record.get?, setName, unsetName]
  have hinc : operand [(setName, given)] incrementName = .object [] := by
    simp [operand, Record.get?, setName, incrementName]
  have none (r : Value) : unset (.object []) r = .ok r ∧ increment (.object []) r = .ok r :=
    ⟨rfl, rfl⟩
  rw [Operated, hset, hunset, hinc]
  constructor
  · intro h
    obtain ⟨r, s, hr, hs, h⟩ := h
    rw [(none r).1] at hs
    cases hs
    rw [(none r).2] at h
    cases h
    exact hr
  · intro h
    exact ⟨new, new, h, (none new).1, (none new).2⟩

theorem apply_operators {keyField : Name} {given old new : Value} :
    apply keyField old (.operators given) = .ok new ↔
      ∃ ms : Record, given = .object ms ∧ Operated ms old new := by
  simp only [apply, Operated, bind_eq_ok, mapError_eq_ok, Value.members_eq_ok, exists_and_left]

theorem apply_replacement {keyField : Name} {data old new : Value} :
    apply keyField old (.replacement data) = .ok new ↔
      ∃ ms : Record, data = .object ms ∧ ∃ r : Record, old = .object r ∧ .object
        (if Record.has keyField ms then ms
          else Record.put keyField ((Record.get? keyField r).getD .null) ms) = new := by
  simp only [apply, bind_eq_ok, mapError_eq_ok, Value.members_eq_ok, pure_eq_ok]

theorem updateNames_object {ms : Record} : updateNames (.object ms) = .ok (Record.keys ms) := by
  rw [updateNames, Value.elements]
  refine mapM_eq_ok.mpr ?_
  induction ms with
  | nil => exact .nil
  | cons m ms ih => exact .cons rfl ih

theorem isOperatorUpdate_eq_ok {names : List String} {b : Bool}
    (h : isOperatorUpdate names = .ok b) : b = names.any isOperator := by
  rw [isOperatorUpdate] at h
  split at h
  · simp at h
  · rw [Except.ok.injEq] at h
    rw [← h, Bool.eq_iff_iff]
    simp

theorem applied_of_read {keyField : Name} {fullReplace : Bool} {given old new : Value}
    {change : Update} (hr : read fullReplace given = .ok change)
    (ha : apply keyField old change = .ok new) : Applied keyField fullReplace given old new := by
  rw [read, bind_eq_ok] at hr
  obtain ⟨names, hn, hr⟩ := hr
  rw [mapError_eq_ok] at hn
  split at hr
  · simp at hr
  · rename_i hop
    have hany := isOperatorUpdate_eq_ok hop
    split at hr
    · simp at hr
    · rename_i hsup
      cases hr
      obtain ⟨ms, rfl, ho⟩ := apply_operators.mp ha
      rw [updateNames_object] at hn
      cases hn
      refine ⟨ms, rfl, ?_⟩
      rw [if_pos hany.symm]
      refine ⟨fun name hname => ?_, ho⟩
      simpa using List.find?_eq_none.mp hsup name hname
  · rename_i hop
    have hany := isOperatorUpdate_eq_ok hop
    rw [Except.ok.injEq] at hr
    cases fullReplace with
    | true =>
      rw [if_pos rfl] at hr
      subst hr
      obtain ⟨ms, rfl, r, rfl, rfl⟩ := apply_replacement.mp ha
      rw [updateNames_object] at hn
      cases hn
      refine ⟨ms, rfl, ?_⟩
      rw [if_neg (by simp [← hany]), if_pos rfl]
      exact ⟨r, rfl, rfl⟩
    | false =>
      rw [if_neg (by simp)] at hr
      subst hr
      obtain ⟨_, hms, ho⟩ := apply_operators.mp ha
      cases hms
      have hset := operated_wrapped.mp ho
      obtain ⟨ms, hms, -⟩ := bind_eq_ok.mp hset
      rw [mapError_eq_ok, Value.members_eq_ok] at hms
      subst hms
      rw [updateNames_object] at hn
      cases hn
      refine ⟨ms, rfl, ?_⟩
      rw [if_neg (by simp [← hany]), if_neg (by simp)]
      exact hset

/-! ### What an expression comes to -/

theorem incrementAt_eq_ok {r u amount : Value} {path : String} :
    incrementAt r path amount = .ok u ↔ ∃ current m n sum, r.lookUp (.str path) = .ok current ∧
      (if current.isAbsent then Value.int 0 else current) = .num m ∧ amount = .num n ∧
      m.add n = some sum ∧ r.setAt (.str path) (.num sum) = .ok u := by
  rw [incrementAt, bind_eq_ok]
  constructor
  · intro h
    obtain ⟨current, hcurrent, h⟩ := h
    rw [mapError_eq_ok] at hcurrent
    split at h
    · rename_i m n hm
      split at h
      · rename_i sum hsum
        exact ⟨current, m, n, sum, hcurrent, hm, rfl, hsum, mapError_eq_ok.mp h⟩
      · cases h
    · cases h
  · intro h
    obtain ⟨current, m, n, sum, hcurrent, hm, rfl, hsum, h⟩ := h
    refine ⟨current, mapError_eq_ok.mpr hcurrent, ?_⟩
    simp only [hm, hsum]
    exact mapError_eq_ok.mpr h

variable {old new : Record}

theorem set_object (values r : Record) :
    set (.object values) (.object r) = .ok (.object (Record.setEach r values)) := by
  rw [set, Record.setEach]
  change values.entries.foldlM (fun r (path, v) =>
    (Value.setAt r (.str path) v).mapError StoreError.failure) (Value.object r) = _
  induction values.entries generalizing r with
  | nil => rfl
  | cons m ms ih => exact ih (r.setAt (.ofText m.1) m.2)

theorem unset_object {paths : Value} {r : Record} {v : Value}
    (h : unset paths (.object r) = .ok v) : ∃ names : List String,
      paths.elements = .ok (names.map .str) ∧ v = .object (Record.unsetEach r names) := by
  rw [unset, bind_eq_ok] at h
  obtain ⟨elements, helements, h⟩ := h
  rw [mapError_eq_ok] at helements
  rw [helements]
  clear helements
  induction elements generalizing r with
  | nil =>
    cases h
    exact ⟨[], rfl, rfl⟩
  | cons path elements ih =>
    rw [List.foldlM_cons, bind_eq_ok] at h
    obtain ⟨u, hu, h⟩ := h
    rw [mapError_eq_ok, Value.unsetAt, bind_eq_ok] at hu
    obtain ⟨p, hpath, hu⟩ := hu
    -- Only a text has parts that lead anywhere.
    cases path with
    | str s =>
      cases hpath
      cases hu
      obtain ⟨names, hnames, hv⟩ := ih h
      rw [Except.ok.injEq] at hnames
      exact ⟨s :: names, by rw [hnames, List.map_cons], hv⟩
    | _ => cases hpath

theorem increment_object {amounts : Value} {r : Record} {v : Value}
    (h : increment amounts (.object r) = .ok v) : ∃ ms new : Record,
      amounts = .object ms ∧ v = .object new ∧ Record.Raised ms.entries r new := by
  rw [increment, bind_eq_ok] at h
  obtain ⟨ms, hms, h⟩ := h
  rw [mapError_eq_ok, Value.members_eq_ok] at hms
  refine ⟨ms, ?_⟩
  have hsum : ∃ new : Record, v = .object new ∧ Record.Raised ms.entries r new := by
    generalize ms.entries = amounts at h ⊢
    induction amounts generalizing r with
    | nil =>
      cases h
      exact ⟨r, rfl, .nil r⟩
    | cons m amounts ih =>
      rw [List.foldlM_cons, bind_eq_ok] at h
      obtain ⟨u, hu, h⟩ := h
      obtain ⟨current, m', n, sum, hcurrent, hm, hn, hadd, hu⟩ := incrementAt_eq_ok.mp hu
      cases hu
      obtain ⟨new, rfl, hrest⟩ := ih h
      refine ⟨new, rfl, ?_⟩
      obtain ⟨path, amount⟩ := m
      dsimp only at hn hcurrent hrest
      subst hn
      refine .cons ⟨current, ?_, ?_⟩ hadd hrest
      · exact mapError_eq_ok.mp hcurrent
      · split at hm
        · cases hm
          exact .inr ⟨‹_›, rfl⟩
        · exact .inl hm
  obtain ⟨new, hv, hraised⟩ := hsum
  exact ⟨new, hms, hv, hraised⟩

theorem Applied.becomes {keyField : Name} {fullReplace : Bool} {given v : Value}
    (h : Applied keyField fullReplace given (.object old) v) :
    ∃ new : Record, v = .object new ∧ Becomes keyField fullReplace old given new := by
  obtain ⟨ms, rfl, h⟩ := h
  split at h
  · rename_i hany
    obtain ⟨hsupported, r, s, hset, hunset, hinc⟩ := h
    have hne : ms ≠ [] := by
      rintro rfl
      cases hany
    obtain ⟨values, hvalues, -⟩ := bind_eq_ok.mp hset
    rw [mapError_eq_ok, Value.members_eq_ok] at hvalues
    rw [hvalues, set_object] at hset
    cases hset
    obtain ⟨paths, hpaths, rfl⟩ := unset_object hunset
    obtain ⟨amounts, new, hamounts, rfl, hraised⟩ := increment_object hinc
    exact ⟨new, rfl, .operated ⟨hne, hsupported⟩ hvalues hpaths hamounts hraised⟩
  · rename_i hplain
    have hplain : ∀ name ∈ ms.keys, ¬ isOperator name := by simpa using hplain
    split at h
    · obtain ⟨r, ⟨⟩, rfl⟩ := h
      refine ⟨_, rfl, ?_⟩
      have hnew : (if Record.has keyField ms then ms
          else Record.put keyField ((old.get? keyField).getD .null) ms) =
          if Record.has keyField ms then ms
          else ms ++ [(keyField, (old.get? keyField).getD .null)] := by
        split
        · rfl
        · rename_i hlacks
          exact Record.put_of_lacks (by simpa using hlacks)
      rw [hnew]
      exact .replaced hplain ‹_›
    · rename_i hkept
      rw [set_object] at h
      cases h
      exact ⟨_, rfl, .merged hplain (by simpa using hkept)⟩

end Update

namespace Store

/-- Records are objects, as those are that a store makes itself. -/
def HoldsObjects (store : Store) : Prop := ∀ r ∈ store.records, r.isObject

theorem marked_eq {store : Store} {query : Query} {filter : Filter} {marks : List (Value × Bool)}
    (hf : store.filterOf query = .ok filter) (hm : store.marked filter = .ok marks) :
    marks = store.records.map fun r => (r, query.selects r) := by
  rw [marked, bind_eq_ok] at hm
  obtain ⟨_, -, hm⟩ := hm
  rw [mapM_eq_ok] at hm
  rw [filterOf] at hf
  split at hf
  · rename_i asked hq
    cases hf
    symm
    rw [← List.forall₂_eq_eq_eq, List.forall₂_map_left_iff]
    refine hm.imp fun r m h => ?_
    split at h
    · rename_i holds hr
      cases h
      simp [Query.selects, hq, hr]
    · simp at h
  · -- What is no query finds nothing, and only where there is nothing to find.
    have hr : store.records = [] := by
      by_contra hne
      simp [bind_eq_ok, hne] at hf
    rw [hr] at hm ⊢
    cases hm
    rfl

theorem swapIn_map {P : Value → Value → Prop} (asks : Value → Bool)
    (hP : ∀ {old new}, P old new → old.isObject → new.isObject) {rs news : List Value}
    (ho : ∀ r ∈ rs, r.isObject) (h : List.Forall₂ P (rs.filter asks) news) :
    ∃ records, swapIn (rs.map fun r => (r, asks r)) news = (records, .ok ()) ∧
      List.Forall₂ (fun old new => if asks old then P old new else new = old) rs records := by
  induction rs generalizing news with
  | nil => exact ⟨[], by simp [swapIn], .nil⟩
  | cons r rs ih =>
    have hr := ho r List.mem_cons_self
    have hrs := fun v hv => ho v (List.mem_cons_of_mem r hv)
    by_cases ha : asks r
    · rw [List.filter_cons_of_pos ha, List.forall₂_cons_left_iff] at h
      obtain ⟨new, news, hnew, h, rfl⟩ := h
      obtain ⟨records, hs, hk⟩ := ih hrs h
      -- An object takes the place of an object, which is never refused.
      have hfill : refill r new = (new, .ok ()) := by
        obtain ⟨_, rfl⟩ := Value.isObject_iff.mp hr
        obtain ⟨_, rfl⟩ := Value.isObject_iff.mp (hP hnew rfl)
        rfl
      refine ⟨new :: records, ?_, .cons (by rwa [if_pos ha]) hk⟩
      simp [swapIn, ha, hfill, hs]
    · rw [List.filter_cons_of_neg ha] at h
      obtain ⟨records, hs, hk⟩ := ih hrs h
      refine ⟨r :: records, ?_, .cons (by rw [if_neg ha]) hk⟩
      simp [swapIn, ha, hs]

/-- An update that fails leaves the store as it was. One that does not gives the number of matching
records, makes of each what the expression says and leaves the others in their places. -/
theorem update_spec {store : Store} (ho : store.HoldsObjects) (fullReplace : Bool) (query : Query)
    (given : Value) :
    match store.update fullReplace query given with
    | (.error _, after) => after = store
    | (.ok n, after) => n = store.records.countP query.selects ∧
      ∃ records, after = { store with records } ∧ List.Forall₂ (fun old new =>
        if query.selects old then Update.Applied store.keyField fullReplace given old new
        else new = old) store.records records := by
  cases hp : store.planUpdate fullReplace query given with
  | error e => simp [update, hp]
  | ok plan =>
    -- All that can fail is in the plan, and nothing is swapped in before there is one.
    obtain ⟨marks, news⟩ := plan
    have hplan := hp
    simp only [planUpdate, bind_eq_ok, pure_eq_ok, Prod.mk.injEq] at hplan
    obtain ⟨change, hread, filter, hf, _, hm, news, hnews, rfl, rfl⟩ := hplan
    have hmarks := marked_eq hf hm
    subst hmarks
    have hmade : List.Forall₂ (Update.Applied store.keyField fullReplace given)
        (store.records.filter query.selects) news := by
      rw [mapM_eq_ok, List.filter_map, List.forall₂_map_left_iff] at hnews
      exact hnews.imp fun r new h => Update.applied_of_read hread h
    obtain ⟨records, hs, hk⟩ :=
      swapIn_map query.selects (fun h ho => h.isObject ho) ho hmade
    simp only [update, hp, hs, Except.mapError, Except.map]
    refine ⟨?_, records, rfl, hk⟩
    rw [List.filter_map, List.length_map, List.countP_eq_length_filter]
    rfl

/-! ### Every change keeps the records objects -/

theorem HoldsObjects.append {store : Store} (ho : store.HoldsObjects) (r : Record) :
    HoldsObjects { store with records := store.records ++ [.object r] } := by
  intro v hv
  rcases List.mem_append.mp hv with hv | hv
  · exact ho v hv
  · rw [List.mem_singleton.mp hv, Value.isObject]

theorem insert_holdsObjects {store after : Store} {r : Record} (ho : store.HoldsObjects)
    (h : store.insert r = .ok after) : after.HoldsObjects := by
  rw [insert] at h
  split at h
  · cases h
    have hfresh : (store.withFreshKey r).2.HoldsObjects := ho
    exact hfresh.append _
  · obtain ⟨position, -, h⟩ := bind_eq_ok.mp h
    cases position with
    | some n => cases h
    | none =>
      cases h
      exact ho.append r

theorem save_holdsObjects {store after : Store} {r : Record} (ho : store.HoldsObjects)
    (h : store.save r = .ok after) : after.HoldsObjects := by
  rw [save, bind_eq_ok] at h
  obtain ⟨position, -, h⟩ := h
  cases position with
  | none =>
    cases h
    exact ho.append r
  | some n =>
    cases h
    intro v hv
    rcases List.mem_or_eq_of_mem_set hv with hv | rfl
    · exact ho v hv
    · rfl

theorem remove_holdsObjects {store after : Store} {query : Query} {n : Nat}
    (ho : store.HoldsObjects) (h : store.remove query = .ok (n, after)) : after.HoldsObjects := by
  simp only [remove, bind_eq_ok, pure_eq_ok, Prod.mk.injEq] at h
  obtain ⟨filter, hf, marks, hm, -, rfl⟩ := h
  rw [marked_eq hf hm]
  intro v hv
  simp only [List.filterMap_map, List.mem_filterMap] at hv
  obtain ⟨r, hr, hv⟩ := hv
  by_cases hs : query.selects r
  · simp [hs] at hv
  · simp only [Function.comp_apply, hs, Bool.false_eq_true, if_false, Option.some.injEq] at hv
    exact hv ▸ ho r hr

theorem update_holdsObjects {store : Store} (ho : store.HoldsObjects) (fullReplace : Bool)
    (query : Query) (given : Value) : (store.update fullReplace query given).2.HoldsObjects := by
  have h := update_spec ho fullReplace query given
  generalize store.update fullReplace query given = r at h ⊢
  obtain ⟨outcome, after⟩ := r
  cases outcome with
  | error e => exact h ▸ ho
  | ok n =>
    obtain ⟨-, records, rfl, hk⟩ := h
    change ∀ r ∈ records, r.isObject
    change ∀ r ∈ store.records, r.isObject at ho
    generalize store.records = rs at ho hk
    induction hk with
    | nil => exact ho
    | @cons old new rs records hnew _ ih =>
      obtain ⟨hold, hrs⟩ := List.forall_mem_cons.mp ho
      refine List.forall_mem_cons.mpr ⟨?_, ih hrs⟩
      split at hnew
      · exact hnew.isObject hold
      · exact hnew ▸ hold

end Store

namespace Collection

def fullReplace (c : Collection) (choice : Value) : Bool :=
  if choice matches .null then c.options.allowFullReplace else choice.truthy

theorem update_run {c : Collection} {store after : Store} {query : Query} {given choice : Value}
    {outcome : Except StoreError Nat} (hc : c.backend = .memory store)
    (h : store.update (c.fullReplace choice) query given = (outcome, after)) :
    (update query given choice).run.run c =
      ((outcome.map fun n => .int n).mapError fun e => e.toFailure (.str "update") c.name,
        { c with backend := .memory after }) := by
  obtain ⟨name, options, hooks, backend, trace⟩ := c
  subst hc
  unfold update
  change (do
    setStore (store.update (fullReplace _ choice) query given).2
    return .int (← ofStore "update" (store.update (fullReplace _ choice) query given).1) :
      Action Value).run.run _ = _
  rw [h]
  cases outcome <;> rfl

theorem update_applied {c : Collection} {store : Store} (hc : c.backend = .memory store)
    (ho : store.HoldsObjects) (query : Query) (given choice : Value) :
    match (update query given choice).run.run c with
    | (.error _, after) => after = c
    | (.ok n, after) => n = .int (store.records.countP query.selects) ∧
      ∃ records, after = { c with backend := .memory { store with records } } ∧
        List.Forall₂ (fun old new =>
          if query.selects old then
            Update.Applied store.keyField (c.fullReplace choice) given old new
          else new = old) store.records records := by
  have h := store.update_spec ho (c.fullReplace choice) query given
  generalize hr : store.update _ query given = r at h
  obtain ⟨outcome, after⟩ := r
  rw [update_run hc hr]
  cases outcome with
  | error e =>
    change { c with backend := .memory after } = c
    rw [h, ← hc]
  | ok n =>
    obtain ⟨rfl, records, rfl, hk⟩ := h
    exact ⟨rfl, records, rfl, hk⟩

/-- Either an update fails and nothing has changed, or it gives the number of records that the query
asks for, each of which has become what the expression says, the others being what they were. -/
theorem update_all_or_nothing {c : Collection} {store : Store} (hc : c.backend = .memory store)
    (ho : store.HoldsObjects) (query : Query) (given choice : Value) :
    match (update query given choice).run.run c with
    | (.error _, after) => after = c
    | (.ok n, after) => n = .int (store.records.countP query.selects) ∧
      ∃ records, after = { c with backend := .memory { store with records } } ∧
        List.Forall₂ (fun old new =>
          if query.selects old then
            ∃ r s : Record, old = .object r ∧ new = .object s ∧
              Update.Becomes store.keyField (c.fullReplace choice) r given s
          else new = old) store.records records := by
  have h := update_applied hc ho query given choice
  generalize (update query given choice).run.run c = result at h ⊢
  obtain ⟨outcome, after⟩ := result
  cases outcome with
  | error e => exact h
  | ok n =>
    obtain ⟨hn, records, hafter, hk⟩ := h
    refine ⟨hn, records, hafter, ((List.forall₂_and_left _ _).mpr ⟨ho, hk⟩).imp ?_⟩
    rintro old new ⟨hobject, hnew⟩
    obtain ⟨r, rfl⟩ := Value.isObject_iff.mp hobject
    split at hnew
    · obtain ⟨s, rfl, hbecomes⟩ := hnew.becomes
      rw [if_pos ‹_›]
      exact ⟨r, s, rfl, rfl, hbecomes⟩
    · rwa [if_neg ‹_›]

/-- Of two records one is asked for: a number is set and then added to, and another one taken away
and then counted from zero. -/
theorem update_all_or_nothing_of_operators :
    let one : Record := [("id", .str "a"), ("tag", .str "x"), ("n", .int 1)]
    let other : Record := [("id", .str "b"), ("n", .int 1), ("m", .int 7)]
    let new : Record := [("id", .str "b"), ("n", .int 5), ("m", .int 1)]
    let store : Store := { records := [.object one, .object other] }
    let c : Collection := { name := .str "users", backend := .memory store }
    let given : Value := .object [("$inc", .object [("n", .int 2), ("m", .int 1)]),
      ("$set", .object [("n", .int 3)]), ("$unset", .object [("m", .bool true)])]
    let after : Store := { store with records := [.object one, .object new] }
    store.HoldsObjects ∧
      (update (.object [("tag", .null)]) given .null).run.run c =
        (.ok (.int 1), { c with backend := .memory after }) ∧
      Update.Becomes "id" false other given new := by
  intro one other new store c given after
  have ho : store.HoldsObjects := by
    simp [Store.HoldsObjects, store, Value.isObject]
  have hrun : (update (.object [("tag", .null)]) given .null).run.run c =
      (.ok (.int 1), { c with backend := .memory after }) := rfl
  have h := update_all_or_nothing (c := c) rfl ho (.object [("tag", .null)]) given .null
  rw [hrun] at h
  obtain ⟨-, records, hr, hk⟩ := h
  have hr : [Value.object one, .object new] = records := by
    injection hr with _ _ _ hr
    injection hr with hr
    injection hr
  subst hr
  cases hk with
  | cons _ hk =>
    cases hk with
    | cons hnew _ =>
      obtain ⟨_, _, ⟨⟩, ⟨⟩, hbecomes⟩ := hnew
      exact ⟨ho, hrun, hbecomes⟩

end Collection
end RecordStore
