import RecordStore.Proofs.FieldUpdates
import RecordStore.Proofs.KeyUniqueness
import RecordStore.Proofs.Listeners

/-! Documents that are saved in memory and removed again: where the record of a document goes, which
records are taken away with it, and what listeners have to do with either. -/
namespace RecordStore

/-- A name by which a query finds a member: no path of several names, and no operator. -/
def Name.isAsked (k : Name) : Bool := k.isSimple && !isOperator k.reading

theorem Value.truthy_int (n : Nat) : (Value.int n).truthy ↔ 0 < n := by
  simp [truthy, int, Num.isZero, Nat.pos_iff_ne_zero]

theorem filter_eq_eraseIdx {α : Type} {keep : α → Bool} {xs : List α} {n : Nat}
    (hn : n < xs.length) (h : ∀ m x, xs[m]? = some x → (keep x = false ↔ m = n)) :
    xs.filter keep = xs.eraseIdx n := by
  induction xs generalizing n with
  | nil => cases hn
  | cons x xs ih =>
    have hx := h 0 x rfl
    cases n with
    | zero =>
      rw [List.eraseIdx_cons_zero, List.filter_cons_of_neg (by simp [hx.mpr rfl])]
      refine List.filter_eq_self.mpr fun y hy => ?_
      obtain ⟨m, hm⟩ := List.getElem?_of_mem hy
      simpa using (h (m + 1) y hm).not.mpr (Nat.succ_ne_zero m)
    | succ n =>
      have hkeep : keep x = true := by simpa using hx.not.mpr (Nat.succ_ne_zero n).symm
      rw [List.eraseIdx_cons_succ, List.filter_cons_of_pos hkeep]
      rw [ih (Nat.lt_of_succ_lt_succ hn) fun m y hy => (h (m + 1) y hy).trans Nat.succ_inj]

namespace Store

def hasKey (store : Store) (key v : Value) : Bool := !key.isAbsent && (store.keyAt v).eq key

def without (store : Store) (key : Value) : Store :=
  { store with records := store.records.filter fun v => !store.hasKey key v }

def notStored (store : Store) (collection key : Value) : Failure :=
  DomainError.failure
    { fault := .notStored store.keyField.reading key, operation := .str "remove", collection }

/-- A record stands at a position, in the place of one of its key or behind all others. All others
are what and where they were, and there is one more than before if none had the key. -/
structure PutAt (store : Store) (records : List Value) (r : Record) (n : Nat) : Prop where
  held : records[n]? = some (.object r)
  place : ∀ v, store.records[n]? = some v → (store.keyAt v).eq (store.keyOf r)
  others : ∀ m, m ≠ n → records[m]? = store.records[m]?
  grown : records.length = store.records.length +
    if store.records.any fun v => (store.keyAt v).eq (store.keyOf r) then 0 else 1

variable {store : Store} {r : Record} {key : Value}

/-! ### Where a record goes -/

theorem withRecord_putAt (store : Store) (r : Record) :
    ∃ n, store.PutAt (store.withRecord r).records r n := by
  rw [withRecord]
  cases hp : store.keys.findIdx? (·.eq (store.keyOf r)) with
  | none =>
    have hnone : (store.records.any fun v => (store.keyAt v).eq (store.keyOf r)) = false :=
      List.any_eq_false.mpr fun v hv => not_eq_of_findIdx? hp _ (List.mem_map_of_mem hv)
    refine ⟨store.records.length, List.getElem?_concat_length, fun v hv => ?_, fun m hm => ?_, ?_⟩
    · rw [List.getElem?_eq_none (Nat.le_refl _)] at hv
      cases hv
    · rw [List.getElem?_append]
      split
      · rfl
      · rw [List.getElem?_eq_none (by simp; omega), List.getElem?_eq_none (by omega)]
    · rw [hnone, List.length_append]
      rfl
  | some n =>
    obtain ⟨hlt, heq, -⟩ := List.findIdx?_eq_some_iff_getElem.mp hp
    have hn : n < store.records.length := by rwa [keys, List.length_map] at hlt
    have hkey : (store.keyAt store.records[n]).eq (store.keyOf r) := by
      rw [← heq, ← List.getElem_map store.keyAt]
      rfl
    have hany : (store.records.any fun v => (store.keyAt v).eq (store.keyOf r)) = true :=
      List.any_eq_true.mpr ⟨_, List.getElem_mem hn, hkey⟩
    refine ⟨n, List.getElem?_set_self hn, fun v hv => ?_, fun m hm => ?_, ?_⟩
    · rw [List.getElem?_eq_getElem hn, Option.some.injEq] at hv
      rwa [← hv]
    · exact List.getElem?_set_ne (Ne.symm hm)
    · rw [hany]
      exact List.length_set

/-- If keys are distinct, no other record has the key. -/
theorem PutAt.alone {records : List Value} {n : Nat} (h : store.PutAt records r n)
    (hk : store.Keyed) (hwf : ∀ k ∈ store.keys, k.isWellFormed)
    (hself : (store.keyOf r).eq (store.keyOf r)) {m : Nat} {v : Value}
    (hv : records[m]? = some v) : (store.keyAt v).eq (store.keyOf r) ↔ m = n := by
  by_cases hm : m = n
  · subst hm
    cases h.held.symm.trans hv
    exact iff_of_true hself rfl
  · rw [h.others m hm] at hv
    refine iff_of_false (fun heq => ?_) hm
    have hany : (store.records.any fun v => (store.keyAt v).eq (store.keyOf r)) = true :=
      List.any_eq_true.mpr ⟨v, List.mem_of_getElem? hv, heq⟩
    have hlength := h.grown
    rw [if_pos hany, Nat.add_zero] at hlength
    obtain ⟨hn, -⟩ := List.getElem?_eq_some_iff.mp h.held
    rw [hlength] at hn
    obtain ⟨hmlt, hv⟩ := List.getElem?_eq_some_iff.mp hv
    have hplace := h.place _ (List.getElem?_eq_getElem hn)
    -- Two stored keys that are equal to one would be equal to each other.
    have hequal {i j : Nat} (hi : i < store.records.length) (hj : j < store.records.length)
        (hikey : (store.keyAt store.records[i]).eq (store.keyOf r))
        (hjkey : (store.keyAt store.records[j]).eq (store.keyOf r)) : ¬ i < j := by
      intro hij
      have hdistinct := List.pairwise_iff_getElem.mp hk.unique.2 i j (by simpa [keys] using hi)
        (by simpa [keys] using hj) hij
      simp only [keys, List.getElem_map] at hdistinct
      have hjwf := hwf _ (List.mem_map_of_mem (List.getElem_mem hj))
      exact hdistinct (Value.eq_trans hikey (Value.eq_symm hjwf hjkey))
    subst hv
    have hle := Nat.le_of_not_lt (hequal hmlt hn heq hplace)
    have hge := Nat.le_of_not_lt (hequal hn hmlt hplace heq)
    exact hm (Nat.le_antisymm hge hle)

theorem keyOf_withKey_self (hself : (store.keyOf r).eq (store.keyOf r)) :
    (store.keyOf (store.withKey r).1).eq (store.keyOf (store.withKey r).1) := by
  rw [withKey]
  split
  · exact hself
  · simp [withFreshKey, keyOf, Record.get?_put_self, freshKey, Value.eq]

theorem saving_putAt (store : Store) (r : Record) :
    ∃ n, store.PutAt (store.saving r).records (store.withKey r).1 n := by
  obtain ⟨generated, h⟩ := store.withKey_eq r
  obtain ⟨n, hn⟩ := withRecord_putAt { store with generated } (store.withKey r).1
  rw [saving, h]
  exact ⟨n, hn.held, hn.place, hn.others, hn.grown⟩

/-! ### Which records go -/

theorem without_alone {records : List Value} {n : Nat} (hn : n < records.length)
    (h : ∀ m v, records[m]? = some v → ((store.keyAt v).eq key ↔ m = n))
    (hkey : key.isAbsent = false) :
    (records.filter fun v => !store.hasKey key v) = records.eraseIdx n := by
  refine filter_eq_eraseIdx hn fun m v hv => ?_
  rw [Bool.not_eq_false', hasKey, hkey, Bool.not_false, Bool.true_and]
  exact h m v hv

theorem get_asked (hfield : store.keyField.isAsked) (r : Record) :
    Value.get (.object r) (Path.ofText store.keyField.reading) =
      .ok ((r.get? store.keyField).getD .missing) := by
  rw [Name.isAsked, Bool.and_eq_true] at hfield
  obtain ⟨s, hs, hpath⟩ := Name.eq_text_of_isSimple hfield.1
  rw [hs, Name.reading, hpath, Record.get_singleton]

theorem missing_of_eq {w : Value} (h : w.eq key) (hkey : key ≠ .null) :
    w.isMissing = key.isAbsent := by
  cases w with
  | missing =>
    cases (Value.eq_atom_iff rfl).mp h
    rfl
  | _ =>
    cases key with
    | null => exact absurd rfl hkey
    | missing => simp [Value.eq, Value.asNum?, Value.bytes?] at h
    | _ => rfl

theorem meets_key (hkey : key ≠ .null) (r : Record) :
    Filter.meets key ((r.get? store.keyField).getD .missing) = store.hasKey key (.object r) := by
  have hmeets (w : Value) : Filter.meets key w = (!w.isMissing && w.eq key) := by
    cases key with
    | null => exact absurd rfl hkey
    | _ => rfl
  have hat : store.keyAt (.object r) = (r.get? store.keyField).getD .null := rfl
  rw [hmeets, hasKey, hat]
  cases r.get? store.keyField with
  | none =>
    have hnull : Value.eq .null key = false := by
      rw [← Bool.not_eq_true, Value.eq_atom_iff rfl]
      exact Ne.symm hkey
    rw [Option.getD_none, Option.getD_none, hnull, Bool.and_false]
    rfl
  | some w =>
    rw [Option.getD_some, Option.getD_some]
    cases hw : w.eq key with
    | false => rw [Bool.and_false, Bool.and_false]
    | true => rw [missing_of_eq hw hkey]

theorem answers_key (hfield : store.keyField.isAsked) (ho : store.HoldsObjects) (key : Value) :
    store.Answers (.object [(store.keyField, key)]) [(store.keyField, key)] where
  asked := rfl
  paths := by
    rw [Name.isAsked, Bool.and_eq_true, Bool.not_eq_true'] at hfield
    obtain ⟨s, hs, -⟩ := Name.eq_text_of_isSimple hfield.1
    rw [hs] at hfield ⊢
    exact List.forall_mem_singleton.mpr ⟨s, rfl, hfield.2⟩
  read := by
    intro v hv
    obtain ⟨r, rfl⟩ := Value.isObject_iff.mp (ho v hv)
    rw [Filter.holds, get_asked hfield, ok_bind]
    split <;> exact ⟨_, rfl⟩

theorem selects_key (hfield : store.keyField.isAsked) (hkey : key ≠ .null) (r : Record) :
    Query.selects (.object [(store.keyField, key)]) (.object r) =
      store.hasKey key (.object r) := by
  refine Query.selects_of_holds ?_
  rw [Filter.holds, get_asked hfield, ok_bind, meets_key hkey]
  cases store.hasKey key (.object r) <;> rfl

end Store

namespace Handling
open Hooks
variable {c : Collection} {store : Store} {data left : Value} {r : Record} {heard : List Heard}
  {k : Nat} {f : Failure}

/-! ### Removal -/

theorem drop_run (hc : c.backend = .memory store) (ho : store.HoldsObjects)
    (hfield : store.keyField.isAsked) (key data : Value) :
    (drop store key).run.run (c, data) =
      if store.records.any (store.hasKey key) then
        (.ok (), ({ c with backend := .memory (store.without key) }, data))
      else (.error (store.notStored c.name key), (c, data)) := by
  by_cases hkey : key = .null
  · subst hkey
    have hnone : store.records.any (store.hasKey .null) = false :=
      List.any_eq_false.mpr fun _ _ => Bool.false_ne_true
    rw [hnone, if_neg Bool.false_ne_true]
    rfl
  · let query : Query := .object [(store.keyField, key)]
    have hdrop : drop store key = (lift (Collection.remove query) >>=
        fun gone => if !gone.truthy then
          lift (Collection.refuse "remove" (.notStored store.keyField.reading key))
        else pure ()) := by
      cases key with
      | null => exact absurd rfl hkey
      | _ => rfl
    have hselects : ∀ v ∈ store.records, query.selects v = store.hasKey key v := by
      intro v hv
      obtain ⟨r, rfl⟩ := Value.isObject_iff.mp (ho v hv)
      exact Store.selects_key hfield hkey r
    have hleft : { store with records := store.records.filter fun v => !query.selects v } =
        store.without key := by
      rw [Store.without, List.filter_congr fun v hv => congrArg _ (hselects v hv)]
    have hremove := Collection.remove_run hc (Store.answers_key hfield ho key)
    rw [List.filter_congr hselects, hleft] at hremove
    rw [hdrop, run_bind_ok ((lift_run _).trans (by rw [hremove]))]
    cases hany : store.records.any (store.hasKey key) with
    | true =>
      obtain ⟨v, hv, hhas⟩ := List.any_eq_true.mp hany
      have hlength : 0 < (store.records.filter (store.hasKey key)).length :=
        List.length_pos_of_mem (List.mem_filter.mpr ⟨hv, hhas⟩)
      have htruthy :
          (Value.int (store.records.filter (store.hasKey key)).length).truthy = true :=
        (Value.truthy_int _).mpr hlength
      rw [htruthy, if_pos rfl]
      rfl
    | false =>
      have hnone : store.records.filter (store.hasKey key) = [] :=
        List.filter_eq_nil_iff.mpr (List.any_eq_false.mp hany)
      have hstay : { c with backend := .memory (store.without key) } = c := by
        rw [Store.without, List.filter_eq_self.mpr (by simpa using hany), ← hc]
      rw [hnone, hstay, if_neg Bool.false_ne_true]
      rfl

/-! ### Among listeners -/

/-- Listeners that fail before a document is saved leave all that is stored. -/
theorem save_of_stop (hc : c.backend = .memory store)
    (h : Stop (c.hooks.listeners preSave) k data heard left f) :
    (save .stored).run.run (c, data) = (.error f, (c.hearing heard, left)) := by
  unfold save
  rw [run_get]
  dsimp only
  rw [hc]
  exact run_bind_error (trigger_of_stop h)

/-- What listeners leave of a document is stored before any listener is told of that. -/
theorem save_of_pass (hc : c.backend = .memory store) (ho : store.HoldsObjects)
    (h : Pass (c.hooks.listeners preSave) data heard (.object r)) :
    (save .stored).run.run (c, data) = (trigger postSave).run.run
      ({ c.hearing heard with backend := .memory (store.saving r) },
        .object (store.withKey r).1) := by
  unfold save
  rw [run_get]
  dsimp only
  rw [hc]
  exact (run_bind_ok (trigger_of_pass h)).trans (run_bind_ok (Collection.keep_object ho r))

theorem remove_of_stop (hc : c.backend = .memory store)
    (h : Stop (c.hooks.listeners preRemove) k (.object r) heard left f) :
    (remove .stored).run.run (c, .object r) = (.error f, (c.hearing heard, left)) := by
  unfold remove
  rw [run_get]
  dsimp only
  rw [hc]
  exact (run_bind_ok rfl).trans ((run_bind_ok rfl).trans (run_bind_error (trigger_of_stop h)))

/-- The key by which a document is removed is the one from before listeners were told. -/
theorem remove_of_pass (hc : c.backend = .memory store)
    (h : Pass (c.hooks.listeners preRemove) (.object r) heard left) :
    (remove .stored).run.run (c, .object r) =
      (drop store (store.keyOf r) >>= fun _ => trigger postRemove).run.run
        (c.hearing heard, left) := by
  unfold remove
  rw [run_get]
  dsimp only
  rw [hc]
  exact run_bind_ok (trigger_of_pass h)

theorem on_run {work : DocumentForm → Handling Unit} {d : Document} {after : Collection}
    {result : Except Failure Unit}
    (h : (work d.form).run.run (c, d.data) = (result, (after, left))) :
    (on work d).run c = ((result, { d with data := left }), after) :=
  congrArg (fun out : Except Failure Unit × Collection × Value =>
    ((out.1, Document.mk d.form out.2.2), out.2.1)) h

/-- Without listeners a document is saved as one record, which alone has its key, and all others
stay as they were. It has a key then, and null only if it came with null. If queries can ask for
keys, that record alone goes when the document is removed, but a document of an absent key is not
found. -/
theorem saved_under_one_key {c : Collection} {store : Store} (hc : c.backend = .memory store)
    (hh : c.hooks = []) (hk : store.Keyed) (hwf : ∀ k ∈ store.keys, k.isWellFormed) {r : Record}
    (hself : (store.keyOf r).eq (store.keyOf r)) :
    let kept := (store.withKey r).1
    let key := store.keyOf kept
    let given : Document := ⟨.stored, .object r⟩
    let d : Document := ⟨.stored, .object kept⟩
    ∃ after n,
      let saved := { c with backend := .memory after }
      let left := { after with records := after.records.eraseIdx n }
      given.save.run c = ((.ok (), d), saved) ∧
      after.keyField = store.keyField ∧ store.PutAt after.records kept n ∧
      (∀ m v, after.records[m]? = some v → ((store.keyAt v).eq key ↔ m = n)) ∧
      kept.get? store.keyField = some key ∧ (key = .null ↔ r.get? store.keyField = some .null) ∧
      (store.keyField.isAsked → d.remove.run saved =
        if key.isAbsent then ((.error (store.notStored c.name key), d), saved)
        else ((.ok (), d), { c with backend := .memory left })) := by
  intro kept key given d
  obtain ⟨n, hput⟩ := store.saving_putAt r
  have hobjects := Store.saving_holdsObjects hk.objects r
  have hsave := save_of_pass hc hk.objects (pass_of_no_hooks hh _ (.object r))
  rw [Collection.hearing_nil] at hsave
  obtain ⟨records, generated, hsaving⟩ := store.saving_eq r
  rw [hsaving] at hput hobjects hsave
  let after : Store := { store with records, generated }
  let saved : Collection := { c with backend := .memory after }
  have halone (m : Nat) (v : Value) (hv : records[m]? = some v) :
      (store.keyAt v).eq key ↔ m = n :=
    hput.alone hk hwf (Store.keyOf_withKey_self hself) hv
  refine ⟨after, n, ?_, rfl, hput, halone, store.get?_withKey r, store.keyOf_withKey r, ?_⟩
  · exact on_run (hsave.trans (trigger_silent (c := saved) hh _ _))
  · intro hasked
    have hdrop := drop_run (c := saved) rfl hobjects hasked key (.object kept)
    have hremove := remove_of_pass (c := saved) rfl (pass_of_no_hooks hh _ (.object kept))
    rw [Collection.hearing_nil] at hremove
    split
    · rename_i habsent
      have hnone : records.any (after.hasKey key) = false :=
        List.any_eq_false.mpr fun v _ => by simp [Store.hasKey, habsent]
      rw [hnone, if_neg Bool.false_ne_true] at hdrop
      exact on_run (hremove.trans (run_bind_error hdrop))
    · rename_i hkey
      rw [Bool.not_eq_true] at hkey
      have hany : records.any (after.hasKey key) = true := by
        refine List.any_eq_true.mpr ⟨_, List.mem_of_getElem? hput.held, ?_⟩
        rw [Store.hasKey, hkey, Bool.not_false, Bool.true_and]
        exact (halone n _ hput.held).mpr rfl
      have hwithout : after.without key = { after with records := records.eraseIdx n } := by
        obtain ⟨hn, -⟩ := List.getElem?_eq_some_iff.mp hput.held
        rw [← Store.without_alone hn halone hkey]
        rfl
      rw [hany, if_pos rfl, hwithout] at hdrop
      refine on_run (hremove.trans ((run_bind_ok hdrop).trans ?_))
      exact trigger_silent (c := { c with backend := .memory _ }) hh _ _

/-- A document takes the place of the second record. -/
theorem saved_under_one_key_of_two :
    let store : Store := { records := [1, 2].map fun n => .object [("id", .int n)] }
    let c : Collection := { name := .str "users", backend := .memory store }
    let r : Record := [("n", .str "a"), ("id", .int 2)]
    let d : Document := ⟨.stored, .object r⟩
    c.backend = .memory store ∧ c.hooks = [] ∧ store.Keyed ∧
      (∀ k ∈ store.keys, k.isWellFormed) ∧ (store.keyOf r).eq (store.keyOf r) ∧
      ∃ after n, d.save.run c = ((.ok (), d), { c with backend := .memory after }) ∧
        store.PutAt after.records r n ∧
        d.remove.run { c with backend := .memory after } = ((.ok (), d),
          { c with backend := .memory { after with records := after.records.eraseIdx n } }) := by
  intro store c r d
  have hk : store.Keyed := Store.keyed_of_ints [1, 2] (by decide)
  have hwf : ∀ k ∈ store.keys, k.isWellFormed := by decide
  have hself : (store.keyOf r).eq (store.keyOf r) := Value.eq_int.mpr rfl
  obtain ⟨after, n, hsave, -, hput, -, -, -, hremove⟩ :=
    saved_under_one_key (c := c) rfl rfl hk hwf hself
  exact ⟨rfl, rfl, hk, hwf, hself, after, n, hsave, hput, hremove (by decide)⟩

/-- A document that has null for its key is saved under null, and then not found. -/
theorem null_key_kept :
    let c : Collection := { name := .str "users", backend := .memory {} }
    let d : Document := ⟨.stored, .object [("id", .null)]⟩
    let saved : Collection := { c with backend := .memory { records := [d.data] } }
    d.save.run c = ((.ok (), d), saved) ∧
      d.remove.run saved = ((.error (Store.notStored {} c.name .null), d), saved) := by
  intro c d saved
  exact ⟨rfl, rfl⟩

end Handling

end RecordStore
