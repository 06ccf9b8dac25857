import RecordStore.Proofs.FilterOperators
import RecordStore.Proofs.Matching

/-! Which filters are refused for an operator. A store in memory looks at the names of the filter
itself, a server at all names in it outside tuples. -/
namespace RecordStore

/-! ### Failures for an operator -/

def Fault.IsOfOperator : Fault → Prop
  | queryOperator _ | filterKey _ => True
  | _ => False

def Failure.IsOfOperator : Failure → Prop
  | domain e => e.fault.IsOfOperator
  | _ => False

def StoreError.IsOfOperator : StoreError → Prop
  | fault f => f.IsOfOperator
  | failure f => f.IsOfOperator

theorem Failure.not_isOfOperator {f : Failure} (h : f.isPlain) : ¬ f.IsOfOperator := by
  cases f <;> first | exact id | cases h

theorem DriverError.not_isOfOperator (e : DriverError) (phase : Phase) :
    ¬ (e.fault phase).IsOfOperator := by
  unfold fault
  split
  · exact id
  · split
    · exact id
    · cases phase <;> exact id

theorem Fault.IsOfOperator.isWritable {f : Fault} (h : f.IsOfOperator) : f.isWritable := by
  cases f <;> first | rfl | cases h

theorem StoreError.isOfOperator_toFailure (e : StoreError) (operation name : Value) :
    (e.toFailure operation name).IsOfOperator ↔ e.IsOfOperator := by
  cases e with
  | fault f =>
    by_cases hwritable : f.isWritable
    · rw [toFailure, DomainError.failure_of_writable hwritable]
      exact Iff.rfl
    · have hfailure : toFailure operation name (fault f) = .json .integerTooLong := if_neg hwritable
      rw [hfailure]
      exact iff_of_false id fun h => hwritable h.isWritable
  | failure f => exact Iff.rfl

theorem not_refused {α : Type} {r : Except Failure α} (h : FailsOnly (fun f => f.isPlain) r) :
    ¬ Fails Failure.IsOfOperator r := by
  rintro ⟨f, hf, hoperator⟩
  exact f.not_isOfOperator (h f hf) hoperator

theorem not_storeRefused {α : Type} {r : Except StoreError α}
    (h : FailsOnly (fun e => ¬ e.IsOfOperator) r) : ¬ Fails StoreError.IsOfOperator r := by
  rintro ⟨e, he, hoperator⟩
  exact h e he hoperator

namespace Collection
variable {α β : Type} {c : Collection} {operation : String}

theorem fails_toFailure {r : Except StoreError α} {operation name : Value} :
    Fails Failure.IsOfOperator (r.mapError fun e => e.toFailure operation name) ↔
      Fails StoreError.IsOfOperator r := by
  cases r with
  | ok a => exact iff_of_false fails_ok fails_ok
  | error e =>
    rw [Except.mapError, fails_error, fails_error, e.isOfOperator_toFailure]

theorem refused_ofStore {r : Except StoreError α} :
    Fails Failure.IsOfOperator ((ofStore operation r).run.run c).1 ↔
      Fails StoreError.IsOfOperator r := by
  unfold ofStore
  rw [run_get, ofExcept_run, fails_toFailure]

def Spares (a : Action α) : Prop := ∀ c, ¬ Fails Failure.IsOfOperator (a.run.run c).1

theorem refused_bind {a : Action α} {f : α → Action β} (hf : ∀ x, Spares (f x)) :
    Fails Failure.IsOfOperator ((a >>= f).run.run c).1 ↔
      Fails Failure.IsOfOperator (a.run.run c).1 := by
  cases h : a.run.run c with
  | mk r d =>
    cases r with
    | error e =>
      rw [run_bind_error h, fails_error, fails_error]
    | ok x =>
      rw [run_bind_ok h]
      exact iff_of_false (hf x d) fails_ok

theorem refused_ofExcept_bind {r : Except Failure α} {f : α → Action β}
    (h : FailsOnly (fun f => f.isPlain) r) :
    Fails Failure.IsOfOperator ((ofExcept r >>= f).run.run c).1 ↔
      ∃ x, r = .ok x ∧ Fails Failure.IsOfOperator ((f x).run.run c).1 := by
  cases r with
  | ok x =>
    rw [run_ofExcept rfl]
    simp
  | error e =>
    rw [run_ofExcept_error rfl]
    refine iff_of_false (not_refused (.error (h e rfl))) ?_
    rintro ⟨_, hnone, -⟩
    cases hnone

namespace Spares

theorem bind {a : Action α} {f : α → Action β} (ha : Spares a) (hf : ∀ x, Spares (f x)) :
    Spares (a >>= f) := by
  intro c
  rw [refused_bind hf]
  exact ha c

theorem pure (x : α) : Spares (Pure.pure x) := fun _ => fails_ok

theorem ofExcept {r : Except Failure α} (h : FailsOnly (fun f => f.isPlain) r) :
    Spares (ofExcept r) := by
  intro c
  rw [ofExcept_run]
  exact not_refused h

theorem ofStore {r : Except StoreError α} (h : ¬ Fails StoreError.IsOfOperator r) :
    Spares (ofStore operation r) :=
  fun _ => mt refused_ofStore.mp h

theorem mapM {f : α → Action β} (h : ∀ x, Spares (f x)) (xs : List α) : Spares (xs.mapM f) := by
  induction xs with
  | nil => exact pure []
  | cons x xs ih =>
    rw [List.mapM_cons]
    exact (h x).bind fun _ => ih.bind fun _ => pure _

theorem note (x : Event) : Spares (note x) := fun _ => fails_ok

end Spares

/-! ### Arguments -/

theorem atLeast_fails (least : Int) {refusal : Value → Failure} (h : ∀ v, (refusal v).isPlain)
    (v : Value) : FailsOnly (fun f => f.isPlain) (Paging.atLeast least refusal v) := by
  unfold Paging.atLeast
  split
  · exact .error rfl
  · exact .error (h v)
  · exact .ok v

theorem skip_fails (v : Value) : FailsOnly (fun f => f.isPlain) (Paging.skip v) :=
  atLeast_fails 0 (fun _ => rfl) v

theorem limit_fails (maximum v : Value) :
    FailsOnly (fun f => f.isPlain) (Paging.limit maximum v) := by
  unfold Paging.limit
  split
  · exact .ok _
  · refine (atLeast_fails 1 (fun _ => rfl) v).bind fun w => ?_
    split
    · exact .error rfl
    · exact .ok _

theorem elements_plain (v : Value) : FailsOnly (fun f => f.isPlain) v.elements :=
  (Value.elements_fails v).mono fun f hf => by rw [hf]; rfl

theorem projectionOf_fails (v : Value) : FailsOnly (fun f => f.isPlain) (projectionOf v) := by
  unfold projectionOf
  split
  · exact .ok _
  · refine (elements_plain v).bind fun fields => ?_
    split
    · exact .error rfl
    · exact .ok _

theorem cursorKeys_fails (v : Value) : FailsOnly (fun f => f.isPlain) (cursorKeys v) := by
  unfold cursorKeys
  split
  · exact .ok _
  · refine (elements_plain v).bind fun keys => .mapM (fun key => ?_) keys
    exact (Value.name_fails key).bind fun _ => .ok _

theorem refused_paged {options : FindOptions} {f : Value → Value → Action α} {p : Prop}
    (hf : ∀ skip limit, Fails Failure.IsOfOperator ((f skip limit).run.run c).1 ↔ p) :
    Fails Failure.IsOfOperator ((do
      let skip ← ofExcept (Paging.skip options.skip)
      let limit ← ofExcept (Paging.limit (.int c.options.maxQueryLimit) options.limit)
      f skip limit : Action α).run.run c).1 ↔ (QueryCall.stream options).Paged c ∧ p := by
  rw [refused_ofExcept_bind (skip_fails _)]
  simp only [refused_ofExcept_bind (limit_fails _ _), hf, QueryCall.Paged]
  constructor
  · rintro ⟨skip, hskip, limit, hlimit, h⟩
    exact ⟨⟨⟨skip, hskip⟩, limit, hlimit⟩, h⟩
  · rintro ⟨⟨⟨skip, hskip⟩, limit, hlimit⟩, h⟩
    exact ⟨skip, hskip, limit, hlimit, h⟩

/-! ### On a server -/

section
variable {server : Server} {query filter : Query} {options : FindOptions}

theorem spares_driverFailure (operation : String) (phase : Phase) (e : DriverError) :
    Spares (driverFailure operation phase e : Action α) := by
  intro c
  rw [driverFailure_run, fails_error]
  cases e with
  | cancelled => exact id
  | reported types code => exact DriverError.not_isOfOperator _ phase

theorem spares_comingReply (server : Server) : Spares (comingReply server) :=
  fun _ => fails_ok

theorem spares_send (server : Server) (operation : String) (phase : Phase) (r : Request) :
    Spares (send server operation phase r) := by
  unfold send
  refine (spares_comingReply server).bind fun reply => (Spares.note _).bind fun _ => ?_
  cases reply.error with
  | none => exact Spares.pure _
  | some e => exact spares_driverFailure operation phase e

theorem spares_address (server : Server) : Spares (address server) := by
  unfold address
  split
  · exact Spares.note _
  · exact Spares.ofExcept (r := .error .databaseMissing) (.error rfl)

theorem spares_addressAndSend (server : Server) (operation : String) (phase : Phase) (r : Request) :
    Spares (addressAndSend server operation phase (.ok r)) := by
  unfold addressAndSend
  split
  · exact spares_driverFailure operation phase _
  · exact (spares_address server).bind fun _ => spares_send server operation phase r

theorem refused_refuseOperators :
    Fails Failure.IsOfOperator ((refuseOperators operation filter).run.run c).1 ↔
      filter.HasOperator false := by
  cases hkey : filter.operatorIn? with
  | none =>
    rw [refuseOperators_run hkey]
    exact iff_of_false fails_ok (Value.operatorIn?_eq_none_iff.mp hkey)
  | some key =>
    rw [refuseOperators_fails hkey, fails_error]
    exact iff_of_true trivial (Value.hasOperator_iff.mpr ⟨key, hkey⟩)

theorem refused_cursor : Fails Failure.IsOfOperator ((cursor server query options).run.run c).1 ↔
    (QueryCall.stream options).Paged c ∧ (Query.explicit query).HasOperator false := by
  have hnoteIf {p : Prop} [Decidable p] {x : Event} {k : Unit → Action Cursor}
      (hk : ∀ u, Spares (k u)) : Spares (if p then (do let u ← note x; k u) else k ()) := by
    split
    · exact (Spares.note x).bind hk
    · exact hk ()
  unfold cursor
  rw [run_get]
  refine refused_paged fun skip limit => ?_
  refine (refused_bind fun _ => ?_).trans refused_refuseOperators
  refine (Spares.ofExcept (projectionOf_fails _)).bind fun projection => ?_
  refine (spares_address server).bind fun _ => (spares_comingReply server).bind fun _ => ?_
  refine (Spares.note _).bind fun _ => ?_
  refine (Spares.ofExcept (cursorKeys_fails _)).bind fun keys => ?_
  exact hnoteIf fun _ => hnoteIf fun _ => hnoteIf fun _ => Spares.pure _

theorem spares_serverUpdate (fullReplace : Bool) (data : Record) :
    Spares (serverUpdate fullReplace (.object data)) := by
  intro c
  by_cases hmixed : Update.IsMixed data
  · rw [serverUpdate_of_mixed fullReplace hmixed, fails_error]
    exact id
  · rw [serverUpdate_of_not_mixed fullReplace hmixed]
    split
    · exact fails_ok
    · rw [fails_error]
      exact id

theorem told_fails (v : Option Value) : FailsOnly (fun f => f.isPlain) (Reply.told v) := by
  cases v with
  | none => exact .error rfl
  | some v => exact .ok v

end

end Collection

namespace QueryCall
open Collection
variable {c : Collection} {query : Query} {call : QueryCall}

def Refuses (c : Collection) (query : Query) (call : QueryCall) : Prop :=
  Fails Failure.IsOfOperator ((call.run query).run.run c).1

theorem refused_discard {α : Type} {a : Action α} :
    Fails Failure.IsOfOperator ((do let _ ← a : Action Unit).run.run c).1 ↔
      Fails Failure.IsOfOperator (a.run.run c).1 :=
  refused_bind fun _ => Spares.pure ()

theorem refuses_on_server {server : Server} (hc : c.backend = .remote server) :
    call.Refuses c query ↔ call.Paged c ∧ (Query.explicit query).HasOperator false := by
  cases call with
  | stream options =>
    rw [Refuses, run, refused_discard, openStream_remote hc,
      refused_bind fun _ => Spares.pure _, refused_cursor]
  | count =>
    rw [Refuses, run, Paged, true_and, refused_discard, count_remote hc]
    refine (refused_bind fun _ => ?_).trans refused_refuseOperators
    exact (spares_addressAndSend _ _ _ _).bind fun _ => Spares.pure _
  | update data choice =>
    rw [Refuses, run, Paged, true_and, refused_discard, update_remote hc]
    refine (refused_bind fun _ => ?_).trans refused_refuseOperators
    refine (spares_serverUpdate _ data).bind fun given => ?_
    exact (spares_addressAndSend _ _ _ _).bind fun _ => Spares.ofExcept (told_fails _)
  | remove =>
    rw [Refuses, run, Paged, true_and, refused_discard, remove_remote hc]
    refine (refused_bind fun _ => ?_).trans refused_refuseOperators
    exact (spares_addressAndSend _ _ _ _).bind fun _ => Spares.ofExcept (told_fails _)

end QueryCall

/-! ### In memory -/

def Filter.HasOperator (filter : Filter) : Prop := ∃ m ∈ filter, isOperator m.1.reading

def Filter.IsNamed (filter : Filter) : Prop := ∀ m ∈ filter, ∃ path, m.1 = .text path

theorem Update.read_fails (fullReplace : Bool) (data : Record) :
    FailsOnly (fun e => ¬ e.IsOfOperator) (read fullReplace (.object data)) := by
  unfold read
  rw [updateNames_object]
  refine FailsOnly.bind (.ok _) fun names => ?_
  split
  · exact .error id
  · split
    · exact .error id
    · exact .ok _
  · exact .ok _

theorem Update.exists_read_iff (fullReplace : Bool) (data : Record) :
    (∃ change, read fullReplace (.object data) = .ok change) ↔ Taken data := by
  have hsame : (∃ change, read fullReplace (.object data) = .ok change) ↔
      ∃ change, read false (.object data) = .ok change := by
    simp only [read, updateNames_object, Except.mapError, ok_bind]
    cases isOperatorUpdate (Record.keys data) with
    | error f => simp
    | ok b => cases b <;> simp
  rw [hsame]
  by_cases htaken : Taken data
  · exact iff_of_true ⟨_, read_of_taken htaken⟩ htaken
  · obtain ⟨f, hread, -⟩ := read_of_not_taken htaken
    rw [hread]
    exact iff_of_false (by simp) htaken

namespace Store
variable {filter : Filter}

theorem refuseOperators_refused (h : filter.IsNamed) :
    Fails StoreError.IsOfOperator (refuseOperators filter) ↔ filter.HasOperator := by
  induction filter with
  | nil => exact iff_of_false fails_ok (by simp [Filter.HasOperator])
  | cons m rest ih =>
    obtain ⟨name, expected⟩ := m
    obtain ⟨⟨path, rfl⟩, hrest⟩ := List.forall_mem_cons.mp h
    have hcons : refuseOperators ((.text path, expected) :: rest) =
        (if isOperator path then .error (.fault (.queryOperator path)) else .ok ()) >>= fun _ =>
          refuseOperators rest := rfl
    have hhas : Filter.HasOperator ((.text path, expected) :: rest) ↔
        isOperator path ∨ Filter.HasOperator rest := List.exists_mem_cons_iff ..
    rw [hcons, hhas, ← ih hrest, fails_bind]
    by_cases hpath : isOperator path
    · simp [hpath, fails_error, StoreError.IsOfOperator, Fault.IsOfOperator]
    · simp [hpath, fails_ok]

theorem marked_refused (store : Store) (h : filter.IsNamed) :
    Fails StoreError.IsOfOperator (store.marked filter) ↔ filter.HasOperator := by
  rw [marked, fails_bind, ← refuseOperators_refused h]
  refine or_iff_left ?_
  rintro ⟨_, -, hrefused⟩
  refine not_storeRefused (.mapM (fun r => ?_) _) hrefused
  split
  · exact .ok _
  · exact .error id

theorem filterOf_object (store : Store) (filter : Filter) :
    store.filterOf (.object filter) = .ok filter := rfl

theorem select_refused (store : Store) (h : filter.IsNamed) :
    Fails StoreError.IsOfOperator (store.filterOf (.object filter) >>= store.select) ↔
      filter.HasOperator := by
  rw [filterOf_object, ok_bind, select, fails_bind_pure]
  exact marked_refused store h

theorem count_refused (store : Store) (h : filter.IsNamed) :
    Fails StoreError.IsOfOperator (store.count (.object filter)) ↔ filter.HasOperator := by
  rw [← select_refused store h, count, ← bind_assoc, fails_bind_pure]

theorem remove_refused (store : Store) (h : filter.IsNamed) :
    Fails StoreError.IsOfOperator (store.remove (.object filter)) ↔ filter.HasOperator := by
  rw [remove, filterOf_object, ok_bind, fails_bind_pure]
  exact marked_refused store h

theorem refill_fails (old new : Value) : FailsOnly (fun f => f.isPlain) (refill old new).2 := by
  unfold refill
  split <;> first | exact .ok _ | exact .error rfl

theorem swapIn_fails (marks : List (Value × Bool)) (news : List Value) :
    FailsOnly (fun f => f.isPlain) (swapIn marks news).2 := by
  fun_induction swapIn marks news with
  | case1 => exact .ok _
  | case2 r marks new news r' hrefill rest outcome hrest ih =>
    rw [hrest] at ih
    exact ih
  | case3 r marks new news r' f hrefill =>
    have hfails := refill_fails r new
    rw [hrefill] at hfails
    exact hfails
  | case4 r holds marks news hnot rest outcome hrest ih =>
    rw [hrest] at ih
    exact ih

theorem update_refused (store : Store) (h : filter.IsNamed) (fullReplace : Bool)
    (data : Record) :
    Fails StoreError.IsOfOperator (store.update fullReplace (.object filter) (.object data)).1 ↔
      Update.Taken data ∧ filter.HasOperator := by
  have hplan : Fails StoreError.IsOfOperator
        (store.update fullReplace (.object filter) (.object data)).1 ↔
      Fails StoreError.IsOfOperator
        (store.planUpdate fullReplace (.object filter) (.object data)) := by
    unfold update
    split
    · rename_i e he
      rw [he, fails_error, fails_error]
    · rename_i marks news hplan
      rw [hplan, fails_map]
      refine iff_of_false (not_storeRefused (.mapError ?_)) fails_ok
      exact (swapIn_fails marks news).mono fun f hf => f.not_isOfOperator hf
  rw [hplan, planUpdate, fails_bind,
    or_iff_right (not_storeRefused (Update.read_fails fullReplace data)),
    ← Update.exists_read_iff fullReplace data, ← exists_and_right]
  refine exists_congr fun change => and_congr_right fun _ => ?_
  rw [filterOf_object, ok_bind, fails_bind, marked_refused store h]
  refine or_iff_left ?_
  rintro ⟨marks, -, hrefused⟩
  rw [fails_bind_pure] at hrefused
  refine not_storeRefused (.mapM (fun m => ?_) _) hrefused
  exact Update.apply_fails (fun f hf => f.not_isOfOperator hf) (fun _ => id) _ _ change

theorem sorted_fails (sort : Value) (rs : List Value) :
    FailsOnly (fun e => ¬ e.IsOfOperator) (sorted sort rs) := by
  unfold sorted
  dsimp only
  split
  · exact .ok _
  · split <;> first | exact .ok _ | exact .error id

theorem project_fails (fields r : Value) : FailsOnly (fun f => f.isPlain) (project fields r) := by
  unfold project
  split
  · exact .ok _
  · refine (Collection.elements_plain fields).bind fun paths => .foldlM (fun part path => ?_) _ _
    refine (Value.lookUp_fails r path).bind fun v => ?_
    split
    · exact .ok _
    · exact Value.setAt_fails part path _

end Store

/-! ### Listeners -/

theorem Value.positionIn_fails (length : Nat) (v : Value) :
    FailsOnly (fun f => f.isPlain) (positionIn length v) := by
  unfold positionIn
  split
  · dsimp only
    split <;> split <;> first | exact .ok _ | exact .error rfl
  · exact .error rfl

theorem Value.putMember_fails (v key w : Value) : FailsOnly (fun f => f.isPlain)
    (v.putMember key w) := by
  unfold putMember
  split
  · split
    · exact .ok _
    · exact .error rfl
  · exact (positionIn_fails _ key).bind fun _ => .ok _
  · exact .error rfl

namespace Hooks

theorem Listener.tell_fails (l : Listener) (data : Value) :
    FailsOnly (fun f => f.isPlain) (l.tell data).result := by
  have hchange : FailsOnly (fun f => f.isPlain) (l.change data) := by
    unfold Listener.change
    split
    · exact data.putMember_fails _ _
    · exact .ok _
  unfold Listener.tell
  dsimp only
  cases h : l.change data with
  | error f => exact .error (hchange f h)
  | ok changed =>
    cases l.raise with
    | none => exact .ok _
    | some text => exact .error rfl

theorem tellAll_fails (waits : Bool) (event : Value) (ls : List Listener) (data : Value) :
    FailsOnly (fun f => f.isPlain) (tellAll waits event ls data).result := by
  induction ls generalizing data with
  | nil => exact .ok _
  | cons l ls ih =>
    unfold tellAll
    split
    · exact .error rfl
    · have htold := l.tell_fails data
      dsimp only
      split
      · exact htold
      · exact ih _

theorem tell_fails (waits : Bool) (r : Registry) (event data : Value) :
    FailsOnly (fun f => f.isPlain) (r.tell waits event data).result := by
  unfold Registry.tell Registry.listeners?
  split
  · exact tellAll_fails waits event _ data
  · rename_i f hf
    split at hf <;> cases hf
    exact .error rfl

end Hooks

namespace Collection
variable {c : Collection} {filter : Filter} {options : FindOptions}

theorem spares_document (data : Value) : Spares (document data) := by
  intro c
  unfold document
  rw [run_get]
  refine (refused_bind fun _ => Spares.pure _).not.mpr ?_
  rw [settle_run, fails_map]
  exact not_refused (Hooks.tell_fails _ _ _ _)

theorem place_fails (length null : Nat) (v : Value) :
    FailsOnly (fun f => f.isPlain) (Paging.place length null v) := by
  unfold Paging.place
  split <;> first | exact .ok _ | exact .error rfl

theorem slice_fails {α : Type} (start stop : Value) (xs : List α) :
    FailsOnly (fun f => f.isPlain) (Paging.slice start stop xs) :=
  (place_fails _ _ start).bind fun _ => (place_fails _ _ stop).bind fun _ => .ok _

theorem page_fails {α : Type} (skip limit : Value) (xs : List α) :
    FailsOnly (fun f => f.isPlain) (Paging.page skip limit xs) := by
  unfold Paging.page
  split
  · exact slice_fails skip .null xs
  · refine FailsOnly.bind ?_ fun stop => slice_fails skip stop xs
    unfold Paging.behind
    split
    · split
      · exact .ok _
      · exact .error rfl
    · exact .error rfl

theorem refused_matching (store : Store) (h : filter.IsNamed) : Fails Failure.IsOfOperator
      ((matching store (.object filter) options).run.run c).1 ↔
    (QueryCall.stream options).Paged c ∧ filter.HasOperator := by
  unfold matching
  rw [run_get]
  refine refused_paged fun skip limit => ?_
  refine (refused_bind fun found => ?_).trans (refused_ofStore.trans (Store.select_refused store h))
  refine (Spares.ofStore (not_storeRefused (Store.sorted_fails _ found))).bind fun found => ?_
  refine (Spares.ofExcept (page_fails skip limit found)).bind fun page => ?_
  refine (Spares.mapM (fun r => ?_) page).bind fun _ => Spares.pure _
  exact (Spares.ofExcept (Store.project_fails _ r)).bind fun part => spares_document part

end Collection

namespace QueryCall
open Collection
variable {c : Collection} {store : Store} {filter : Filter} {call : QueryCall}

/-- An update that a store takes; the rest of what operations get does not matter to it. -/
def Taken : QueryCall → Prop
  | update data _ => Update.Taken data
  | stream _ | count | remove => True

theorem refuses_in_memory (hc : c.backend = .memory store) (h : filter.IsNamed) :
    call.Refuses c (.object filter) ↔ call.Paged c ∧ call.Taken ∧ filter.HasOperator := by
  cases call with
  | stream options =>
    rw [Refuses, run, refused_discard, Taken, true_and, ← refused_matching store h,
      openStream_of_memory hc]
    exact refused_bind fun _ => Spares.pure _
  | count =>
    rw [Refuses, run, Paged, Taken, true_and, true_and, refused_discard, count_of_memory hc,
      fails_toFailure, fails_map, Store.count_refused store h]
  | update data choice =>
    rw [Refuses, run, Paged, Taken, true_and, refused_discard,
      ← Store.update_refused store h (c.fullReplace choice) data]
    cases hupdate : store.update (c.fullReplace choice) (.object filter) (.object data) with
    | mk outcome after =>
      rw [update_run hc hupdate, fails_toFailure, fails_map]
  | remove =>
    rw [Refuses, run, Paged, Taken, true_and, true_and, refused_discard,
      ← Store.remove_refused store h]
    unfold Collection.remove
    rw [run_get, hc]
    exact (refused_bind fun _ _ => fails_ok).trans refused_ofStore

/-- A store in memory refuses a filter if one of its own names is an operator, and a server if any
name in it outside tuples is one; both look at the page of a search first, and a store looks at the
update as well. So they agree on all but filters with operators further inside and updates that a
store does not take. -/
theorem operators_refused (c : Collection) (store : Store) (server : Server) {filter : Filter}
    (h : filter.IsNamed) (call : QueryCall) :
    let query : Query := .object filter
    let kept : Collection := { c with backend := .memory store }
    let served : Collection := { c with backend := .remote server }
    (call.Refuses kept query ↔ call.Paged c ∧ call.Taken ∧ filter.HasOperator) ∧
    (call.Refuses served query ↔ call.Paged c ∧ query.HasOperator false) ∧
    ((call.Refuses kept query ↔ call.Refuses served query) ↔
      (call.Paged c → query.HasOperator false → call.Taken ∧ filter.HasOperator)) := by
  intro query kept served
  have hpaged {backend : Backend} : call.Paged { c with backend } ↔ call.Paged c := by
    cases call <;> exact Iff.rfl
  have hkept : call.Refuses kept query ↔ call.Paged c ∧ call.Taken ∧ filter.HasOperator := by
    rw [refuses_in_memory rfl h, hpaged]
  have hserved : call.Refuses served query ↔ call.Paged c ∧ query.HasOperator false := by
    rw [refuses_on_server rfl, hpaged, Query.explicit_object]
  -- The names of the filter itself are among all names in it.
  have hinside : filter.HasOperator → query.HasOperator false := by
    rintro ⟨m, hm, hoperator⟩
    exact ⟨_, hoperator, .member hm rfl⟩
  refine ⟨hkept, hserved, ?_⟩
  rw [hkept, hserved]
  tauto

theorem operators_refused_of_top :
    let c : Collection := { name := .str "Animal" }
    let server : Server := { collection := .str "animal" }
    let filter : Filter := [("$or", .int 1)]
    filter.IsNamed ∧ remove.Refuses { c with backend := .memory {} } (.object filter) ∧
      remove.Refuses { c with backend := .remote server } (.object filter) := by
  intro c server filter
  have hnamed : filter.IsNamed := List.forall_mem_singleton.mpr ⟨"$or", rfl⟩
  have hoperator : filter.HasOperator := ⟨_, List.mem_cons_self, by decide⟩
  obtain ⟨hkept, -, hagree⟩ := operators_refused c {} server hnamed remove
  have hrefused := hkept.mpr ⟨trivial, trivial, hoperator⟩
  exact ⟨hnamed, hrefused, (hagree.mpr fun _ _ => ⟨trivial, hoperator⟩).mp hrefused⟩

/-- An operator under a path is a value to look for in memory, and refused by a server. -/
theorem inner_operator_not_refused :
    let c : Collection := { name := .str "Animal" }
    let store : Store := { records := [.object [("age", .int 5)]] }
    let kept := { c with backend := .memory store }
    let served := { c with backend := .remote { collection := .str "animal" } }
    let query : Query := .object [("age", .object [("$gt", .int 3)])]
    ((Collection.count query).run.run kept).1 = .ok (.int 0) ∧
      ¬ (count.Refuses kept query ↔ count.Refuses served query) := by
  intro c store kept served query
  have hcount : store.count query = .ok 0 := by cbv
  have hkept : ((Collection.count query).run.run kept).1 = .ok (.int 0) := by
    rw [count_of_memory rfl, hcount]
    rfl
  have hserved : ((count.run query).run.run served).1 = .error (count.refusal "$gt" served) := by
    rfl
  refine ⟨hkept, fun hagree => ?_⟩
  have hrefused := hagree.mpr ⟨_, hserved, trivial⟩
  rw [Refuses, run, refused_discard, hkept] at hrefused
  exact fails_ok hrefused

end QueryCall

end RecordStore
