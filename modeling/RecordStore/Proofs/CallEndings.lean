import RecordStore.Proofs.Members
import RecordStore.Proofs.ServerCalls

/-! How operations end that make calls of a server, those of a collection and those of a document in
hand: each call was answered, or the last one failed, and the operation with it. -/
namespace RecordStore

namespace Handling
variable {α β : Type}

def CallFree (a : Handling α) : Prop := ∀ c data, ∃ events : List Event,
  (∀ x ∈ events, x.isSilent) ∧ (a.run.run (c, data)).2.1 = { c with trace := c.trace ++ events }

theorem callFree_of_still {a : Handling α} (h : ∀ s, (a.run.run s).2.1 = s.1) : CallFree a :=
  fun c data => ⟨[], by simp, by rw [h, List.append_nil]⟩

theorem CallFree.bind {a : Handling α} {f : α → Handling β} (ha : CallFree a)
    (hf : ∀ x, CallFree (f x)) : CallFree (a >>= f) := by
  intro c data
  obtain ⟨xs, hxs, hstate⟩ := ha c data
  cases h : a.run.run (c, data) with
  | mk r t =>
    obtain ⟨d, w⟩ := t
    rw [h] at hstate
    obtain rfl : d = _ := hstate
    cases r with
    | error e =>
      rw [run_bind_error h]
      exact ⟨xs, hxs, rfl⟩
    | ok x =>
      obtain ⟨ys, hys, hnext⟩ := hf x { c with trace := c.trace ++ xs } w
      rw [run_bind_ok h]
      exact ⟨xs ++ ys, List.forall_mem_append.mpr ⟨hxs, hys⟩, by rw [hnext, List.append_assoc]⟩

theorem callFree_driverFailure (operation : String) (phase : Phase) (e : DriverError) :
    CallFree (lift (Collection.driverFailure operation phase e : Action α)) := by
  intro c data
  rw [lift_run, Collection.driverFailure_run]
  refine ⟨e.logged operation c.name, fun x hx => ?_, rfl⟩
  cases e with
  | cancelled => cases hx
  | reported types code =>
    obtain rfl := List.mem_singleton.mp hx
    rfl

theorem callFree_asDriver (operation : String) (r : Except Failure α) :
    CallFree (asDriver operation r) := by
  cases r with
  | ok a => exact callFree_of_still fun _ => rfl
  | error f => exact callFree_driverFailure _ _ _

theorem callFree_ofExcept (r : Except Failure α) : CallFree (ofExcept r) :=
  callFree_of_still fun s => by rw [ofExcept, lift_run, Collection.ofExcept_run]

theorem callFree_trigger (event : Value) : CallFree (trigger event) := by
  intro c data
  rw [trigger_run]
  refine ⟨_, fun x hx => ?_, rfl⟩
  obtain ⟨h, -, rfl⟩ := List.mem_map.mp hx
  rfl

end Handling

/-- Operations that make a call: those of a collection or of one of its streams, and the saving and
the removal of a document in hand. -/
inductive ServerCall where
  | count (query : Query)
  | total (s : Stream Feed)
  | insert (data : Value)
  | update (query : Query) (given choice : Value)
  | upsert (query : Query) (data : Value)
  | remove (query : Query)
  | save
  | drop

namespace ServerCall

def run : ServerCall → Handling Unit
  | count query => Handling.lift do let _ ← Collection.count query
  | total s => Handling.lift do let _ ← Collection.streamTotal s
  | insert data => Handling.lift (Collection.insert data)
  | update query given choice => Handling.lift do let _ ← Collection.update query given choice
  | upsert query data => Handling.lift (Collection.upsert query data)
  | remove query => Handling.lift do let _ ← Collection.remove query
  | save => Handling.save .remote
  | drop => Handling.remove .remote

/-- The operation that a failure of a call names. -/
def operation : ServerCall → Request → String
  | save, _ => "save"
  | _, r => r.operation

/-- What the listeners before the call heard, and how they leave the data. -/
def told (c : Collection) (data : Value) : ServerCall → Hooks.Told Value
  | save => c.hooks.trigger Hooks.preSave data
  | drop => c.hooks.trigger Hooks.preRemove data
  | _ => ⟨[], data, .ok ()⟩

/-- What a call that failed leaves of the data: nothing is changed, unless the driver was handed it
as a new record and has put there a key that it assigned. -/
inductive Leaves (call : ServerCall) (r : Request) (reply : Reply) : Value → Value → Prop
  | same (data : Value) : Leaves call r reply data data
  | keyed {ms : Record} {key : Value} (saves : call = .save) (inserts : r = .insertOne (.object ms))
      (new : ms.has "_id" = false) (assigned : reply.assigned = some key) :
      Leaves call r reply (.object ms) (.object (ms ++ [(.text "_id", key)]))

theorem Leaves.eq_of_unassigned {call : ServerCall} {r : Request} {reply : Reply} {v w : Value}
    (h : call.Leaves r reply v w) (hnone : reply.assigned = none) : w = v := by
  cases h with
  | same => rfl
  | keyed _ _ _ assigned =>
    rw [hnone] at assigned
    cases assigned

/-- How an operation ends: the calls that it made were answered, or the driver failed the last. -/
inductive Ends (server : Server) (call : ServerCall) (c : Collection) (data : Value)
    (out : Except Failure Unit × Collection × Value) : Prop
  | answered {events : List Event} (h : server.Answers c.asked events)
      (trace : out.2.1 = { c with trace := c.trace ++ events })
  | failed {events : List Event} {r : Request} {e : DriverError}
      (h : server.Answers c.asked events) (quiet : ∀ h, .heard h ∉ events) (hr : r.isCall)
      (he : (server.replyTo (c.asked + events.countP Event.isAnswered)).error = some e)
      (fails : out.1 = .error (e.failure (call.operation r) r.phase c.name))
      (trace : out.2.1 = { c with
        trace := c.trace ++ (events ++ .request r :: e.logged (call.operation r) c.name) })
      (left : call.Leaves r (server.replyTo (c.asked + events.countP Event.isAnswered)) data
        out.2.2)

section
variable {c : Collection} {server : Server} {call : ServerCall} {data : Value}
  {out : Except Failure Unit × Collection × Value}

theorem ends_of_still (h : out.2.1 = c) : Ends server call c data out :=
  .answered Server.answers_nil (by rw [h, List.append_nil])

theorem ends_of_silent {events : List Event} (h : ∀ x ∈ events, x.isSilent)
    (trace : out.2.1 = { c with trace := c.trace ++ events }) : Ends server call c data out :=
  .answered (Server.answers_of_silent h) trace

theorem Ends.behind {events : List Event} (hq : ∀ x ∈ events, x.isQuiet)
    (h : Ends server call { c with trace := c.trace ++ events } data out) :
    Ends server call c data out := by
  have hsilent : ∀ x ∈ events, x.isSilent := fun x hx => by
    have hquiet := hq x hx
    cases x <;> first | rfl | exact hquiet
  have hfirst : server.Answers c.asked events := Server.answers_of_silent hsilent
  cases h with
  | answered h trace =>
    rw [Collection.asked_append] at h
    exact .answered (hfirst.append h) (by rw [trace, List.append_assoc])
  | failed h quiet hr he fails trace hdata =>
    rw [Collection.asked_append] at h he hdata
    rw [Nat.add_assoc, ← List.countP_append] at he hdata
    refine .failed (hfirst.append h) (fun heard hmem => ?_) hr he fails ?_ hdata
    · exact (List.mem_append.mp hmem).elim (fun hmem => by cases hq _ hmem) (quiet heard)
    · rw [trace, List.append_assoc, List.append_assoc]

theorem Ends.bind_callFree {a k : Handling Unit} {s : Collection × Value}
    (ha : Ends server call c data (a.run.run s)) (hk : Handling.CallFree k) :
    Ends server call c data ((a >>= fun _ => k).run.run s) := by
  cases h : a.run.run s with
  | mk r t =>
    obtain ⟨d, w⟩ := t
    rw [h] at ha
    cases r with
    | error f =>
      rw [run_bind_error h]
      exact ha
    | ok _ =>
      rw [run_bind_ok h]
      cases ha with
      | failed _ _ _ _ fails => cases fails
      | answered hanswers trace =>
        obtain rfl : d = _ := trace
        obtain ⟨events, hsilent, hstate⟩ := hk { c with trace := c.trace ++ _ } w
        exact .answered (hanswers.append (Server.answers_of_silent hsilent))
          (by rw [hstate, List.append_assoc])

theorem ends_send (call : ServerCall) (r : Request) {k : Reply → Handling Unit} {w : Value}
    (hr : r.isCall)
    (hk : ∀ reply, Handling.CallFree (k reply))
    (hleft : call.Leaves r (server.replyTo c.asked) data w) :
    Ends server call c data ((Handling.lift
      (Collection.send server (call.operation r) r.phase r) >>= k).run.run (c, w)) := by
  have hsend : (Handling.lift (Collection.send server (call.operation r) r.phase r)).run.run
      (c, w) = _ := Handling.lift_run _
  rw [Collection.send_run] at hsend
  cases he : (server.replyTo c.asked).error with
  | some e =>
    rw [he] at hsend
    rw [run_bind_error hsend]
    exact .failed Server.answers_nil (by simp) hr he rfl rfl hleft
  | none =>
    rw [he] at hsend
    rw [run_bind_ok hsend]
    obtain ⟨events, hsilent, hstate⟩ := hk (server.replyTo c.asked)
      { c with trace := c.trace ++ [.request r] } w
    have hfirst : server.Answers c.asked [.request r] := Server.answers_singleton he
    exact .answered (hfirst.append (Server.answers_of_silent hsilent))
      (by rw [hstate, List.append_assoc])

/-! The calls of a document stand behind the lookup of its collection. -/

theorem ends_addressed {k : Handling Unit}
    (hk : ∀ c, Ends server call c data (k.run.run (c, data))) (c : Collection) :
    Ends server call c data
      ((Handling.lift (Collection.address server) >>= fun _ => k).run.run (c, data)) := by
  have haddress : (Handling.lift (Collection.address server)).run.run (c, data) = _ :=
    Handling.lift_run _
  by_cases hconnected : server.connected
  · rw [Collection.address_run hconnected] at haddress
    rw [run_bind_ok haddress]
    exact (hk _).behind (by simp [Event.isQuiet])
  · rw [Collection.address_missing hconnected] at haddress
    rw [run_bind_error haddress]
    exact ends_of_still rfl

theorem ends_asDriver {α : Type} (word : String) (r : Except Failure α) {k : α → Handling Unit}
    (hk : ∀ x, r = .ok x → Ends server call c data ((k x).run.run (c, data))) :
    Ends server call c data ((Handling.asDriver word r >>= k).run.run (c, data)) := by
  cases r with
  | ok x => exact hk x rfl
  | error f =>
    obtain ⟨events, hsilent, hstate⟩ := Handling.callFree_driverFailure (α := α) word .write
      (.ofFailure f) c data
    have hrun : (Handling.lift (Collection.driverFailure word .write (.ofFailure f) :
        Action α)).run.run (c, data) = _ := Handling.lift_run _
    rw [Collection.driverFailure_run] at hrun
    rw [Handling.asDriver, run_bind_error hrun]
    rw [hrun] at hstate
    exact ends_of_silent hsilent hstate

theorem leaves_leftBy (reply : Reply) (h : data.holds Handling.serverKey = .ok false) :
    Leaves .save (.insertOne data) reply data (Handling.leftBy reply data) := by
  cases data with
  | object ms =>
    rw [Handling.leftBy]
    cases hassigned : reply.assigned with
    | none => exact .same _
    | some key =>
      have hnew : Record.has "_id" ms = false := Except.ok.inj h
      have hput : Record.put Handling.serverKey key ms = ms ++ [(.text "_id", key)] :=
        Record.put_of_lacks hnew
      rw [Option.map_some, Option.getD_some, hput]
      exact .keyed rfl rfl hnew hassigned
  | _ => exact .same _

theorem ends_keep (c : Collection) (data : Value) :
    Ends server .save c data ((Handling.send server).run.run (c, data)) := by
  refine ends_addressed (fun c => ?_) c
  change Ends server .save c data ((Handling.asDriver "save" (data.holds Handling.serverKey) >>=
    fun stored => _).run.run (c, data))
  refine ends_asDriver _ _ fun stored hstored => ?_
  cases stored with
  | true =>
    refine ends_asDriver _ _ fun key _ => ?_
    exact ends_send .save (.replaceOne [(Handling.serverKey, key)] data) rfl
      (fun _ => Handling.callFree_of_still fun _ => rfl) (.same data)
  | false =>
    exact ends_send .save (.insertOne data) rfl
      (fun _ => (Handling.callFree_asDriver _ _).bind fun _ =>
        (Handling.callFree_of_still fun _ => rfl).bind fun _ =>
          (Handling.callFree_asDriver _ _).bind fun _ =>
            Handling.callFree_of_still fun _ => rfl) (leaves_leftBy _ hstored)

theorem ends_sendRemoval (c : Collection) (data : Value) :
    Ends server .drop c data ((Handling.sendRemoval server).run.run (c, data)) := by
  refine ends_addressed (fun c => ?_) c
  change Ends server .drop c data ((Handling.asDriver "remove" (data.member Handling.serverKey) >>=
    fun key => _).run.run (c, data))
  refine ends_asDriver _ _ fun key _ => ?_
  refine ends_send .drop (.deleteOne [(Handling.serverKey, key)]) rfl
    (fun _ => (Handling.callFree_ofExcept _).bind fun deleted => ?_) (.same data)
  split
  · exact Handling.callFree_of_still fun _ => rfl
  · exact Handling.callFree_of_still fun _ => rfl

def heardBy (c : Collection) (heard : List Hooks.Heard) : Collection :=
  { c with trace := c.trace ++ heard.map .heard }

theorem heardBy_nil (c : Collection) : heardBy c [] = c := by
  rw [heardBy, List.map_nil, List.append_nil]

theorem isSilent_of_heard {heard : List Hooks.Heard} :
    ∀ x ∈ heard.map Event.heard, x.isSilent := by
  intro x hx
  obtain ⟨h, -, rfl⟩ := List.mem_map.mp hx
  rfl

theorem asked_heardBy (c : Collection) (heard : List Hooks.Heard) :
    (heardBy c heard).asked = c.asked := by
  rw [heardBy, Collection.asked_append, List.countP_map, Nat.add_eq_left, List.countP_eq_zero]
  exact fun _ _ => Bool.false_ne_true

theorem ends_lift {a : Action Unit} (hcall : ∀ r, call.operation r = r.operation)
    (h : ReportsAt (Collection.Asked server) a c) (data : Value) :
    Ends server call c data ((Handling.lift a).run.run (c, data)) := by
  obtain ⟨x, hx, hfails⟩ := h
  rw [Handling.lift_run]
  generalize (a.run.run c).2 = d at hx
  cases hx with
  | answered h quiet => exact .answered h rfl
  | @failed events r e h quiet hr he =>
    exact .failed h quiet hr he (by rw [hcall]; exact hfails _ rfl) (by rw [hcall]) (.same data)

theorem ends_trigger (event : Value) {k : Handling Unit}
    (hk : ∀ d, Ends server call d (c.hooks.trigger event data).subject
      (k.run.run (d, (c.hooks.trigger event data).subject))) :
    Ends server call (heardBy c (c.hooks.trigger event data).heard)
      (c.hooks.trigger event data).subject
      ((Handling.trigger event >>= fun _ => k).run.run (c, data)) := by
  have htold := Handling.trigger_run event c data
  cases hresult : (c.hooks.trigger event data).result with
  | error f =>
    rw [hresult] at htold
    rw [run_bind_error htold]
    exact ends_of_still rfl
  | ok _ =>
    rw [hresult] at htold
    rw [run_bind_ok htold]
    exact hk _

theorem run_ends (hc : c.backend = .remote server) (call : ServerCall) (data : Value) :
    (call.run.run.run (c, data)).2.1 = c ∨
      Ends server call (heardBy c (call.told c data).heard) (call.told c data).subject
        (call.run.run.run (c, data)) := by
  have hlift {a : Action Unit} {call : ServerCall} (htold : call.told c data = ⟨[], data, .ok ()⟩)
      (hcall : ∀ r, call.operation r = r.operation)
      (h : ReportsAt (Collection.Asked server) a c) :
      Ends server call (heardBy c (call.told c data).heard) (call.told c data).subject
        ((Handling.lift a).run.run (c, data)) := by
    rw [htold, heardBy_nil]
    exact ends_lift hcall h data
  cases call with
  | count query =>
    exact .inr (hlift rfl (fun _ => rfl)
      (Collection.reportsAt_count hc query).discard)
  | total s =>
    exact .inr (hlift rfl (fun _ => rfl)
      (Collection.reportsAt_streamTotal hc s).discard)
  | insert given =>
    exact .inr (hlift rfl (fun _ => rfl) (Collection.reportsAt_insert hc given))
  | update query given choice =>
    exact .inr (hlift rfl (fun _ => rfl)
      (Collection.reportsAt_update hc query given choice).discard)
  | upsert query given =>
    exact .inr (hlift rfl (fun _ => rfl)
      (Collection.reportsAt_upsert hc query given))
  | remove query =>
    exact .inr (hlift rfl (fun _ => rfl)
      (Collection.reportsAt_remove hc query).discard)
  | save =>
    obtain ⟨name, options, hooks, backend, trace⟩ := c
    cases hc
    exact .inr (ends_trigger Hooks.preSave fun d =>
      (ends_keep d _).bind_callFree (Handling.callFree_trigger _))
  | drop =>
    obtain ⟨name, options, hooks, backend, trace⟩ := c
    cases hc
    let c : Collection := ⟨name, options, hooks, .remote server, trace⟩
    have hrun : drop.run.run.run (c, data) = (Handling.ofExcept (data.holds Handling.serverKey) >>=
        fun stored => do
          if !stored then Handling.lift (Collection.refuse "remove" .neverSaved)
          Handling.trigger Hooks.preRemove
          Handling.sendRemoval server
          Handling.trigger Hooks.postRemove).run.run (c, data) := rfl
    cases hkey : data.holds Handling.serverKey with
    | error f =>
      rw [hkey] at hrun
      exact .inl (by rw [hrun]; rfl)
    | ok stored =>
      rw [hkey] at hrun
      cases stored with
      | true =>
        rw [hrun]
        exact .inr (ends_trigger Hooks.preRemove fun d =>
          (ends_sendRemoval d _).bind_callFree (Handling.callFree_trigger _))
      | false => exact .inl (by rw [hrun]; rfl)

/-- A call that fails is the last one, and what the operation gives tells of it. -/
theorem run_of_failing (hc : c.backend = .remote server) (call : ServerCall) (data : Value)
    {before after : List Event} {r : Request} {e : DriverError}
    (htrace : (call.run.run.run (c, data)).2.1.trace = c.trace ++ (before ++ .request r :: after))
    (hr : r.isCall)
    (he : (server.replyTo (c.asked + before.countP Event.isAnswered)).error = some e) :
    (call.run.run.run (c, data)).1 = .error (e.failure (call.operation r) r.phase c.name) ∧
      call.Leaves r (server.replyTo (c.asked + before.countP Event.isAnswered))
        (call.told c data).subject (call.run.run.run (c, data)).2.2 ∧
      ∃ sent, (call.run.run.run (c, data)).2.1 = { c with
          trace := c.trace ++ ((call.told c data).heard.map .heard ++ sent) } ∧
        ∀ h, .heard h ∉ sent := by
  have hfirst (heard : List Hooks.Heard) {events : List Event}
      (h : server.Answers (heardBy c heard).asked events) :
      server.Answers c.asked (heard.map .heard ++ events) := by
    rw [asked_heardBy] at h
    refine (Server.answers_of_silent isSilent_of_heard).append ?_
    rwa [← Collection.asked_append, ← heardBy, asked_heardBy]
  obtain hstill | hends := run_ends hc call data
  · rw [hstill] at htrace
    simp at htrace
  · generalize call.run.run.run (c, data) = out at htrace hends ⊢
    generalize (call.told c data).heard = heard at hends ⊢
    cases hends with
    | answered h trace =>
      rw [trace, heardBy, List.append_assoc, List.append_cancel_left_eq] at htrace
      rw [hfirst heard h before r after htrace hr] at he
      cases he
    | @failed events q e' h quiet hq he' fails trace hdata =>
      have hlogged : ∀ x ∈ e'.logged (call.operation q) (heardBy c heard).name, x.isSilent := by
        cases e' with
        | cancelled => simp [DriverError.logged]
        | reported types code => simp [DriverError.logged, Event.isSilent]
      rw [trace, heardBy, List.append_assoc, List.append_cancel_left_eq, ← List.append_assoc]
        at htrace
      obtain ⟨rfl, rfl, -⟩ := (hfirst heard h).split hlogged htrace hr he
      have hcount : (heardBy c heard).asked + events.countP Event.isAnswered =
          c.asked + (heard.map Event.heard ++ events).countP Event.isAnswered := by
        have hheard : (heardBy c heard).asked = _ := Collection.asked_append c (heard.map .heard)
        rw [List.countP_append, ← Nat.add_assoc, ← hheard]
      rw [hcount] at he' hdata
      rw [he] at he'
      cases he'
      refine ⟨fails, hdata, events ++ .request r :: e.logged (call.operation r) c.name, ?_,
        fun h hmem => ?_⟩
      · rw [trace, heardBy, List.append_assoc]
      · obtain hmem | hmem := List.mem_append.mp hmem
        · exact quiet h hmem
        · obtain hmem | hmem := List.mem_cons.mp hmem
          · cases hmem
          · exact e.heard_not_mem_logged h hmem

end

end ServerCall

end RecordStore
