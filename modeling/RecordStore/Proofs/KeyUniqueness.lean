import Mathlib.Data.List.Induction
import RecordStore.Proofs.Actions
import RecordStore.Proofs.StoreKeys
import RecordStore.Proofs.Upserts

/-! Which calls keep the keys of a collection in memory present and distinct, and which do not. -/
namespace RecordStore

namespace Collection

/-- The records are in memory, under this key field, with keys that are there and distinct. -/
def Keyed (keyField : Name) (c : Collection) : Prop :=
  ∃ store, c.backend = .memory store ∧ store.keyField = keyField ∧ store.Keyed

inductive Call where
  | insert (data : Value)
  | save (d : Document)
  | update (query : Query) (given choice : Value)
  | upsert (query : Query) (data : Value)
  | remove (query : Query)
  /-- Removes the record of a document. -/
  | drop (d : Document)

def Call.run : Call → Collection → Collection
  | insert data, c => ((Collection.insert data).run.run c).2
  | save d, c => (d.save.run c).2
  | update query given choice, c => ((Collection.update query given choice).run.run c).2
  | upsert query data, c => ((Collection.upsert query data).run.run c).2
  | remove query, c => ((Collection.remove query).run.run c).2
  | drop d, c => (d.remove.run c).2

/-- The calls that spoil the keys of a store: an insertion that gets a fresh key which is known, a
document that is saved with null for its key, and an update after which a key is gone or equal to
another. -/
def Call.SpoilsStore (c : Collection) (store : Store) : Call → Prop
  | insert data => ∃ r : Record, data = .object r ∧ store.InsertSpoils r
  | save d => d.form = .stored ∧ (c.hooks.trigger Hooks.preSave d.data).result = .ok () ∧
      ∃ r : Record, (c.hooks.trigger Hooks.preSave d.data).subject = .object r ∧
        r.get? store.keyField = some .null
  | update query given choice => store.UpdateSpoils (c.fullReplace choice) query given
  | upsert query data => ∃ n, store.count query = .ok n ∧
      if 0 < n then store.UpdateSpoils (c.fullReplace .null) query data
      else ∃ r, upsertRecord query data = .ok r ∧ store.InsertSpoils r
  | remove _ => False
  | drop _ => False

def Call.Spoils (c : Collection) (call : Call) : Prop :=
  ∃ store, c.backend = .memory store ∧ call.SpoilsStore c store

def after (c : Collection) (calls : List Call) : Collection :=
  calls.foldl (fun c call => call.run c) c

/-! ### Call by call -/

section
variable {c : Collection} {store : Store} {keyField : Name}

theorem keyed_of_memory {after : Store} :
    Keyed keyField { c with backend := .memory after } ↔
      after.keyField = keyField ∧ after.Keyed := by
  simp [Keyed]

theorem insert_keyed (hc : c.backend = .memory store) (hk : store.Keyed) (data : Value) :
    Keyed store.keyField ((insert data).run.run c).2 ↔
      ¬ ∃ r : Record, data = .object r ∧ store.InsertSpoils r := by
  have hself : Keyed store.keyField c := ⟨store, hc, rfl, hk⟩
  cases hd : data.members with
  | error f =>
    have hno : ¬ ∃ r : Record, data = .object r ∧ store.InsertSpoils r := by
      intro h
      obtain ⟨r, rfl, -⟩ := h
      cases hd
    unfold insert
    rw [run_get, hc]
    dsimp only
    rw [hd, run_ofExcept_error rfl]
    simp [hself, hno]
  | ok r =>
    have hdata := Value.members_eq_ok.mp hd
    subst hdata
    rw [insert_run hc]
    cases hi : store.insert r with
    | error e => simp [hself, Store.insert_refused hi]
    | ok after =>
      obtain ⟨hfield, hiff⟩ := Store.insert_keyed_iff hk hi
      simp [keyed_of_memory, hfield, hiff]

theorem update_keyed (hc : c.backend = .memory store) (hk : store.Keyed)
    (query : Query) (given choice : Value) :
    Keyed store.keyField ((update query given choice).run.run c).2 ↔
      ¬ store.UpdateSpoils (c.fullReplace choice) query given := by
  cases hu : store.update (c.fullReplace choice) query given with
  | mk outcome after =>
    obtain ⟨hfield, hiff⟩ := Store.update_keyed_iff hk hu
    rw [update_run hc hu, keyed_of_memory, hiff]
    simp [hfield]

theorem remove_keyed (hc : c.backend = .memory store) (hk : store.Keyed) (query : Query) :
    Keyed store.keyField ((remove query).run.run c).2 := by
  rw [remove_of_memory hc]
  cases hr : store.remove query with
  | error e => exact ⟨store, hc, rfl, hk⟩
  | ok removed =>
    obtain ⟨n, after⟩ := removed
    exact keyed_of_memory.mpr (Store.remove_keyed hk hr)

theorem upsert_keyed (hc : c.backend = .memory store) (hk : store.Keyed) (query : Query)
    (data : Value) :
    Keyed store.keyField ((upsert query data).run.run c).2 ↔ ¬ ∃ n, store.count query = .ok n ∧
      if 0 < n then store.UpdateSpoils (c.fullReplace .null) query data
      else ∃ r, upsertRecord query data = .ok r ∧ store.InsertSpoils r := by
  have hself : Keyed store.keyField c := ⟨store, hc, rfl, hk⟩
  rw [upsert_run hc]
  cases h : store.count query with
  | error e => simp [hself]
  | ok n =>
    by_cases hn : 0 < n
    · simp only [if_pos hn]
      rw [update_keyed hc hk]
      simp [hn]
    · simp only [if_neg hn]
      cases hr : upsertRecord query data with
      | error f => simp [hself, hn]
      | ok r =>
        dsimp only
        rw [insert_keyed hc hk]
        simp [hn]

theorem keep_object (ho : store.HoldsObjects) (r : Record) :
    (Handling.keep store).run.run (c, .object r) = (.ok (),
      ({ c with backend := .memory (store.saving r) }, .object (store.withKey r).1)) := by
  have hdata : Handling.data.run.run (c, .object r) = (.ok (.object r), (c, .object r)) := rfl
  have hset : (Handling.setData (.object (store.withKey r).1)).run.run (c, .object r) =
      (.ok (), (c, .object (store.withKey r).1)) := rfl
  have hobjects : (store.withKey r).2.HoldsObjects := by
    obtain ⟨generated, h⟩ := store.withKey_eq r
    rw [h]
    exact ho
  unfold Handling.keep
  rw [run_bind_ok hdata]
  dsimp only
  rw [run_bind_ok hset, run_bind_ok (Handling.lift_run _), Store.save_eq hobjects]
  rfl

theorem keep_other (hc : c.backend = .memory store) (hk : store.Keyed) {data : Value}
    (hother : ∀ r, data ≠ .object r) :
    ∃ f after, (Handling.keep store).run.run (c, data) =
      (.error f, ({ c with backend := .memory after }, data)) ∧
      after.keyField = store.keyField ∧ after.Keyed := by
  have hdata : Handling.data.run.run (c, data) = (.ok data, (c, data)) := rfl
  have hself : c = { c with backend := .memory store } := by rw [← hc]
  unfold Handling.keep
  rw [run_bind_ok hdata]
  split
  · rename_i r
    exact absurd rfl (hother r)
  · cases hh : data.holds store.keyField.reading with
    | error f =>
      have hfail : (Handling.ofExcept (α := Bool) (.error f)).run.run (c, data) =
        (.error f, (c, data)) := rfl
      refine ⟨f, store, ?_, rfl, hk⟩
      rw [run_bind_error hfail, ← hself]
    | ok held =>
      have hheld : (Handling.ofExcept (.ok held)).run.run (c, data) = (.ok held, (c, data)) := rfl
      rw [run_bind_ok hheld]
      cases held with
      | true =>
        refine ⟨.incomparable, store, ?_, rfl, hk⟩
        rw [← hself]
        rfl
      | false =>
        -- A key is used up all the same.
        exact ⟨.incomparable, { store with generated := store.generated + 1 }, rfl, rfl,
          hk.objects, hk.unique⟩

theorem keep_keyed (hc : c.backend = .memory store) (hk : store.Keyed) (data : Value) :
    ∃ result after kept, (Handling.keep store).run.run (c, data) =
      (result, ({ c with backend := .memory after }, kept)) ∧ after.keyField = store.keyField ∧
      (after.Keyed ↔ ¬ ∃ r : Record, data = .object r ∧ r.get? store.keyField = some .null) := by
  by_cases h : ∃ r, data = .object r
  · obtain ⟨r, rfl⟩ := h
    obtain ⟨records, generated, hsaving⟩ := store.saving_eq r
    refine ⟨_, _, _, keep_object hk.objects r, by rw [hsaving], ?_⟩
    simpa using Store.saving_keyed_iff hk r
  · have hother : ∀ r, data ≠ .object r := fun r hr => h ⟨r, hr⟩
    obtain ⟨f, after, hkeep, hfield, hkeyed⟩ := keep_other hc hk hother
    have hno : ¬ ∃ r : Record, data = .object r ∧ r.get? store.keyField = some .null :=
      fun ⟨r, hr, _⟩ => hother r hr
    exact ⟨_, after, _, hkeep, hfield, iff_of_true hkeyed hno⟩

theorem save_keyed (hc : c.backend = .memory store) (hk : store.Keyed) (d : Document) :
    Keyed store.keyField (d.save.run c).2 ↔ ¬ (d.form = .stored ∧
      (c.hooks.trigger Hooks.preSave d.data).result = .ok () ∧
      ∃ r : Record, (c.hooks.trigger Hooks.preSave d.data).subject = .object r ∧
        r.get? store.keyField = some .null) := by
  change Keyed _ ((Handling.save d.form).run.run (c, d.data)).2.1 ↔ _
  unfold Handling.save
  rw [run_get]
  dsimp only
  rw [hc]
  cases hform : d.form with
  | stored =>
    dsimp only
    have htold := Handling.trigger_run Hooks.preSave c d.data
    generalize c.trace ++ (c.hooks.trigger Hooks.preSave d.data).heard.map Event.heard = trace
      at htold
    cases hresult : (c.hooks.trigger Hooks.preSave d.data).result with
    | error f =>
      rw [hresult] at htold
      rw [run_bind_error htold]
      simp [Keyed, hc, hk]
    | ok _ =>
      rw [hresult] at htold
      rw [run_bind_ok htold]
      obtain ⟨result, after, kept, hkeep, hfield, hiff⟩ := keep_keyed (c := { c with trace }) hc hk
        (c.hooks.trigger Hooks.preSave d.data).subject
      cases result with
      | error f =>
        rw [run_bind_error hkeep]
        simp [Keyed, hfield, hiff]
      | ok _ =>
        rw [run_bind_ok hkeep]
        rw [Handling.trigger_run]
        simp [Keyed, hfield, hiff]
  | plain | remote => exact iff_of_true ⟨store, hc, rfl, hk⟩ (by simp)

/-! Removing the record of a document takes records away, if any, and does nothing else. -/

/-- After a handling of a document, whether it fails or not, the keys are as they have to be, if
they were so before. -/
def KeepsKeyed {α : Type} (keyField : Name) (h : Handling α) : Prop :=
  Keeps (fun s => Keyed keyField s.1) h

theorem trigger_keepsKeyed (event : Value) : KeepsKeyed keyField (Handling.trigger event) := by
  intro s hs
  rw [Handling.trigger_run]
  exact hs

theorem ofExcept_keepsKeyed {α : Type} (r : Except Failure α) :
    KeepsKeyed keyField (Handling.ofExcept r) := by
  intro s hs
  cases r <;> exact hs

theorem lift_remove_keepsKeyed (query : Query) :
    KeepsKeyed keyField (Handling.lift (remove query)) := by
  intro s hs
  obtain ⟨store, hc, rfl, hk⟩ := hs
  exact remove_keyed hc hk query

theorem handling_drop_keepsKeyed (store : Store) (key : Value) :
    KeepsKeyed keyField (Handling.drop store key) := by
  have hmissing (b : Bool) (f : Fault) : KeepsKeyed keyField
      (if b then Handling.lift (refuse "remove" f) else pure ()) := by
    cases b <;> exact fun s hs => hs
  unfold Handling.drop
  dsimp only
  split
  · exact Keeps.bind (fun s hs => hs) fun gone => hmissing _ _
  · exact Keeps.bind (lift_remove_keepsKeyed _) fun gone => hmissing _ _

theorem drop_keyed (hc : c.backend = .memory store) (hk : store.Keyed) (d : Document) :
    Keyed store.keyField (d.remove.run c).2 := by
  have hself : Keyed store.keyField c := ⟨store, hc, rfl, hk⟩
  change Keyed _ ((Handling.remove d.form).run.run (c, d.data)).2.1
  unfold Handling.remove
  rw [run_get]
  dsimp only
  rw [hc]
  cases hform : d.form with
  | stored =>
    have hkeeps : KeepsKeyed store.keyField (do
        let key := store.keyOf (← Handling.ofExcept (← Handling.data).members)
        Handling.trigger Hooks.preRemove
        Handling.drop store key
        Handling.trigger Hooks.postRemove) :=
      Keeps.bind (fun s hs => hs) fun data => (ofExcept_keepsKeyed data.members).bind fun ms =>
        (trigger_keepsKeyed _).bind fun _ => (handling_drop_keepsKeyed _ _).bind fun _ =>
          trigger_keepsKeyed _
    exact hkeeps (c, d.data) hself
  | plain | remote => exact hself

end

/-- A call spoils the keys if and only if it is one that does. -/
theorem Call.run_keyed {c : Collection} {keyField : Name} (hc : c.Keyed keyField) (call : Call) :
    (call.run c).Keyed keyField ↔ ¬ call.Spoils c := by
  obtain ⟨store, hb, rfl, hk⟩ := hc
  have hspoils : call.Spoils c ↔ call.SpoilsStore c store := by
    simp [Spoils, hb]
  rw [hspoils]
  cases call with
  | insert data => exact insert_keyed hb hk data
  | save d => exact save_keyed hb hk d
  | update query given choice => exact update_keyed hb hk query given choice
  | upsert query data => exact upsert_keyed hb hk query data
  | remove query => exact iff_of_true (remove_keyed hb hk query) not_false
  | drop d => exact iff_of_true (drop_keyed hb hk d) not_false

theorem after_append (c : Collection) (done : List Call) (call : Call) :
    after c (done ++ [call]) = call.run (after c done) := by
  rw [after, after, List.foldl_append]
  rfl

/-- However calls go on, and whether they fail or not, the keys of a collection stay present and
distinct as long as no call is made that spoils them, and no longer. An update that writes nothing
at the key never does. No key is equal to an earlier one either, if no object in it has a name twice
and no set an element. -/
theorem keys_stay_unique {c : Collection} {keyField : Name} (hc : c.Keyed keyField)
    (calls : List Call) :
    ((∀ done, done <+: calls → (after c done).Keyed keyField) ↔
      ∀ done call, done ++ [call] <+: calls → ¬ call.Spoils (after c done)) ∧
    (∀ (store : Store) (fullReplace : Bool) (query : Query) (given : Value), store.Keyed →
      Update.Spares store.keyField fullReplace given →
      ¬ store.UpdateSpoils fullReplace query given) ∧
    ∀ store : Store, store.Keyed → (∀ k ∈ store.keys, k.isWellFormed) →
      store.keys.Pairwise fun k l => ¬ k.eq l ∧ ¬ l.eq k := by
  refine ⟨⟨?_, ?_⟩, ?_, ?_⟩
  · intro h done call hdone
    have hbefore := h done ((List.prefix_append _ _).trans hdone)
    have hthen := h _ hdone
    rw [after_append, call.run_keyed hbefore] at hthen
    exact hthen
  · intro h done hdone
    induction done using List.reverseRecOn with
    | nil => exact hc
    | append_singleton done call ih =>
      have hbefore := ih ((List.prefix_append _ _).trans hdone)
      rw [after_append, call.run_keyed hbefore]
      exact h done call hdone
  · intro store fullReplace query given hk hspares hspoils
    obtain ⟨-, hbad⟩ := hspoils
    rw [Store.keysAfter_of_spares hk hspares] at hbad
    exact hbad hk.unique
  · intro store hk hwf
    refine hk.unique.2.imp_of_mem fun {k l} _ hl hne => ⟨hne, fun h => ?_⟩
    exact hne (Value.eq_symm (hwf l hl) h)

/-- One record is inserted beside two, and then all are counted up. -/
theorem keys_stay_unique_of_two_calls :
    let r (key : Int) : Value := .object [("id", .int key)]
    let c : Collection := { name := .str "users", backend := .memory { records := [r 1, r 2] } }
    let calls : List Call :=
      [.insert (r 3), .update .null (.object [("$inc", .object [("n", .int 1)])]) .null]
    c.Keyed "id" ∧ (∀ done call, done ++ [call] <+: calls → ¬ call.Spoils (after c done)) ∧
      (after c calls).Keyed "id" := by
  intro r c calls
  have hkeyed : Store.Keyed { records := [r 1, r 2] } := Store.keyed_of_ints [1, 2] (by decide)
  have hc : c.Keyed "id" := ⟨_, rfl, rfl, hkeyed⟩
  obtain ⟨hiff, hspares, -⟩ := keys_stay_unique hc calls
  have hfirst : ¬ (Call.insert (r 3)).Spoils c := by
    intro h
    obtain ⟨store, _, record, hrecord, hnull, -⟩ := h
    cases hrecord
    cases ‹c.backend = _›
    cases hnull
  have hsecond : (Call.run (.insert (r 3)) c).Keyed "id" := (Call.run_keyed hc _).mpr hfirst
  have hstay : ∀ done call, done ++ [call] <+: calls → ¬ call.Spoils (after c done) := by
    intro done call h
    have hlength := h.length_le
    rcases done with _ | ⟨one, _ | ⟨two, rest⟩⟩
    · simp only [calls, List.nil_append, List.cons_prefix_cons] at h
      obtain ⟨rfl, -⟩ := h
      exact hfirst
    · simp only [calls, List.cons_append, List.nil_append, List.cons_prefix_cons] at h
      obtain ⟨rfl, rfl, -⟩ := h
      rintro ⟨store, hb, hspoils⟩
      obtain ⟨store', hb', hfield, hk⟩ := hsecond
      cases hb.symm.trans hb'
      refine hspares store _ _ _ hk ?_ hspoils
      rw [hfield]
      intro ms hms
      cases hms
      have hop : (Record.keys [("$inc", .object [("n", .int 1)])]).any isOperator = true := by
        decide
      rw [if_pos hop]
      exact ⟨by cbv, by cbv, by cbv⟩
    · simp [calls] at hlength
  exact ⟨hc, hstay, hiff.mpr hstay calls (List.prefix_refl _)⟩

/-- An update gives two records one key, which an insertion would have refused. -/
theorem equal_keys_by_update :
    let r (key : Int) : Value := .object [("id", .int key)]
    let c : Collection := { name := .str "users", backend := .memory { records := [r 1, r 2] } }
    let call : Call := .update .null (.object [("$set", .object [("id", .int 1)])]) .null
    c.Keyed "id" ∧ (call.run c).backend = .memory { records := [r 1, r 1] } ∧
      ¬ (call.run c).Keyed "id" := by
  intro r c call
  have hkeyed : Store.Keyed { records := [r 1, r 2] } := Store.keyed_of_ints [1, 2] (by decide)
  have hrun : (call.run c).backend = .memory { records := [r 1, r 1] } := rfl
  refine ⟨⟨_, rfl, rfl, hkeyed⟩, hrun, fun h => ?_⟩
  obtain ⟨store, hb, -, hk⟩ := h
  rw [hrun] at hb
  cases hb
  have hpairwise : [Value.int 1, .int 1].Pairwise fun k l => ¬ k.eq l := hk.unique.2
  have hdistinct : ¬ (Value.int 1).eq (.int 1) :=
    List.rel_of_pairwise_cons hpairwise List.mem_cons_self
  exact hdistinct (Value.eq_int.mpr rfl)

end Collection

end RecordStore
