import RecordStore.Proofs.StoreKeys

/-! What an insertion and an upsert do, branch by branch: an upsert updates what a count has found,
or makes a record of its query and its data and inserts that. -/
namespace RecordStore

namespace Store

theorem Answers.of_count {store : Store} {filter : Filter} {n : Nat}
    (h : store.count (.object filter) = .ok n) : store.Answers (.object filter) filter := by
  rw [Store.count, bind_eq_ok] at h
  obtain ⟨asked, hasked, h⟩ := h
  cases hasked
  obtain ⟨found, hfound, -⟩ := bind_eq_ok.mp h
  rw [Store.select, bind_eq_ok] at hfound
  obtain ⟨marks, hmarks, -⟩ := hfound
  rw [Store.marked, bind_eq_ok] at hmarks
  obtain ⟨_, hpaths, hmarks⟩ := hmarks
  refine ⟨rfl, fun m hm => ?_, fun r hr => ?_⟩
  · rw [Store.refuseOperators, forM_eq_ok] at hpaths
    have hname := hpaths m hm
    obtain ⟨name, expected⟩ := m
    cases name with
    | text path =>
      refine ⟨path, rfl, Bool.eq_false_iff.mpr fun hop => ?_⟩
      simp [hop] at hname
    | key reading writing => cases hname
  · rw [mapM_eq_ok] at hmarks
    obtain ⟨mark, -, hmark⟩ := exists_of_forall₂ hmarks hr
    cases hholds : Filter.holds r filter with
    | ok b => exact ⟨b, rfl⟩
    | error f => simp [hholds] at hmark

/-! ### Insertions -/

def refuses (store : Store) (r : Record) : Bool :=
  match store.keyOf r with
  | .null => false
  | key => store.keys.any (·.eq key)

def kept (store : Store) (r : Record) : Record × Store :=
  match store.keyOf r with
  | .null => store.withFreshKey r
  | _ => (r, store)

section
variable {store : Store} {r : Record}

theorem kept_of_null (h : store.keyOf r = .null) : store.kept r = store.withFreshKey r := by
  rw [kept, h]

theorem kept_of_key (h : store.keyOf r ≠ .null) : store.kept r = (r, store) := by
  rw [kept]
  split
  · contradiction
  · rfl

theorem refuses_of_key (h : store.keyOf r ≠ .null) :
    store.refuses r = store.keys.any (·.eq (store.keyOf r)) := by
  rw [refuses]
  split
  · contradiction
  · rfl

theorem get?_kept {k : Name} (h : store.keyOf r ≠ .null ∨ store.keyField ≠ k) :
    (store.kept r).1.get? k = r.get? k := by
  by_cases hkey : store.keyOf r = .null
  · rw [kept_of_null hkey]
    exact Record.get?_put_of_ne (h.resolve_left (· hkey)) _ _
  · rw [kept_of_key hkey]

theorem kept_keyField (store : Store) (r : Record) :
    (store.kept r).2.keyField = store.keyField := by
  rw [kept]
  split <;> rfl

theorem insert_eq (ho : store.HoldsObjects) (r : Record) : store.insert r =
    if store.refuses r then
      .error (.fault (.duplicateKey store.keyField.reading (store.keyOf r)))
    else .ok { (store.kept r).2 with
      records := store.records ++ [.object (store.kept r).1] } := by
  by_cases hkey : store.keyOf r = .null
  · rw [kept_of_null hkey, insert, refuses, hkey]
    rfl
  · rw [kept_of_key hkey, refuses_of_key hkey, ← List.findIdx?_isSome, insert]
    split
    · contradiction
    · rw [position?_eq ho]
      change (Except.ok (store.keys.findIdx? _) >>= _) = _
      cases store.keys.findIdx? (·.eq (store.keyOf r)) <;> rfl

end

end Store

/-- What an expression sets: its plain members, or those under the operator that sets. -/
def Update.assigned (data : Record) : Value :=
  if (Record.keys data).any isOperator then operand data setName else .object data

namespace Collection
variable {c : Collection} {store : Store}

theorem insert_run (hc : c.backend = .memory store) (r : Record) :
    (insert (.object r)).run.run c =
      match store.insert r with
      | .error e => (.error (e.toFailure (.str "insert") c.name), c)
      | .ok after => (.ok (), { c with backend := .memory after }) := by
  have hmembers : (Value.object r).members = .ok r := rfl
  unfold insert
  rw [run_get, hc]
  dsimp only
  rw [run_ofExcept hmembers]
  cases hi : store.insert r with
  | error e => rw [run_ofStore_error rfl]
  | ok after =>
    rw [run_ofStore rfl]
    rfl

theorem upsert_run (hc : c.backend = .memory store) (query : Query) (data : Value) :
    (upsert query data).run.run c =
      match store.count query with
      | .error e => (.error (e.toFailure (.str "count") c.name), c)
      | .ok n =>
        if 0 < n then
          (((update query data .null).run.run c).1.map fun _ => (),
            ((update query data .null).run.run c).2)
        else match upsertRecord query data with
          | .error f => (.error f, c)
          | .ok r => (insert (.object r)).run.run c := by
  have hcount := count_of_memory hc query
  unfold upsert
  cases h : store.count query with
  | error e =>
    rw [h] at hcount
    rw [run_bind_error hcount]
  | ok n =>
    rw [h] at hcount
    rw [run_bind_ok hcount, Value.lt_int]
    by_cases hn : 0 < n
    · have hpos : (0 : Int) < n := by omega
      simp only [hpos, hn, decide_true, if_true]
      cases hu : (update query data .null).run.run c with
      | mk result after =>
        cases result with
        | error f => rw [run_bind_error hu]; rfl
        | ok m => rw [run_bind_ok hu]; rfl
    · have hzero : ¬ (0 : Int) < n := by omega
      simp only [hzero, hn, decide_false, if_false]
      cases hr : upsertRecord query data with
      | error f => rw [run_ofExcept_error rfl]
      | ok r => rw [run_ofExcept rfl]

/-! ### The record that is inserted -/

theorem anyOperator_names (ms : Record) :
    anyOperator (ms.map fun (name, _) => .str name.reading) =
      .ok ((Record.keys ms).any isOperator) := by
  induction ms with
  | nil => rfl
  | cons m ms ih =>
    rw [List.map_cons, anyOperator, ih]
    by_cases h : isOperator m.1.reading <;>
      simp [Value.name, ok_bind, pure, Except.pure, Record.keys, h]

theorem upsertRecord_object (filter data : Record) :
    upsertRecord (.object filter) (.object data) =
      Record.putHeld (filter.filter fun m => !isOperator m.1.reading) (Update.assigned data) := by
  rw [upsertRecord, Update.assigned]
  simp only [Value.members, Value.elements, ok_bind, anyOperator_names]
  split <;> rfl

theorem upsertRecord_of_answers {filter : Filter} (hq : store.Answers (.object filter) filter)
    (data : Record) : upsertRecord (.object filter) (.object data) =
      Record.putHeld filter (Update.assigned data) := by
  have hasked : filter.filter (fun m => !isOperator m.1.reading) = filter := by
    refine List.filter_eq_self.mpr fun m hm => ?_
    obtain ⟨path, hpath, hop⟩ := hq.paths m hm
    simp [hpath, Name.reading, hop]
  rw [upsertRecord_object, hasked]

end Collection

end RecordStore
