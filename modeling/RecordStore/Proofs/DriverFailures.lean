import RecordStore.Collection.Aggregate
import RecordStore.Proofs.CallEndings
import RecordStore.Proofs.Release
import RecordStore.Proofs.ValueEquality

/-! Whatever error the driver of a server ends with, while a cursor is read or a call is answered,
the caller gets the failure of its kind with the error as its cause. -/
namespace RecordStore

namespace Collection

/-! ### Reading a cursor -/

theorem documentOfReply_keeps {P : Collection → Prop}
    (h : ∀ (c : Collection) (heard : List Hooks.Heard), P c →
      P { c with trace := c.trace ++ heard.map .heard }) (v : Value) :
    Keeps P (documentOfReply v) := by
  unfold documentOfReply
  refine (ofExcept_keeps _).bind fun r c hc => ?_
  rw [document_told]
  exact h _ _ hc

theorem documentsOfReply_keeps {P : Collection → Prop}
    (h : ∀ (c : Collection) (heard : List Hooks.Heard), P c →
      P { c with trace := c.trace ++ heard.map .heard }) (vs : List Value) :
    Keeps P (vs.mapM documentOfReply) := by
  induction vs with
  | nil => exact fun c hc => hc
  | cons v vs ih =>
    rw [List.mapM_cons]
    exact (documentOfReply_keeps h v).bind fun _ => ih.bind fun _ => fun c hc => hc

end Collection

namespace Feed
variable {cur : Cursor} {c d : Collection} {e : DriverError} {documents : List Value}

theorem next_of_error (hpending : cur.pending = []) (hfailure : cur.failure = some e)
    (c : Collection) : Feed.next (.cursor cur, c) =
      (.failed (e.failure "find_stream" .read c.name), .cursor cur,
        { c with trace := c.trace ++ e.logged "find_stream" c.name }) := by
  obtain ⟨pending, failure, query, closeAwaited⟩ := cur
  cases hpending
  cases hfailure
  have hrun : (Collection.driverFailure (α := Unit) "find_stream" .read e).run c = _ :=
    Collection.driverFailure_run e c
  simp only [Feed.next, hrun]

theorem next_of_end (hpending : cur.pending = []) (hfailure : cur.failure = none)
    (c : Collection) : Feed.next (.cursor cur, c) = (.finished, .cursor cur, c) := by
  obtain ⟨pending, failure, query, closeAwaited⟩ := cur
  cases hpending
  cases hfailure
  rfl

theorem next_of_document {reply v : Value} {rest : List Value}
    (hpending : cur.pending = reply :: rest)
    (hmade : (Collection.documentOfReply reply).run.run c = (.ok v, d)) :
    Feed.next (.cursor cur, c) = (.record v, .cursor { cur with pending := rest }, d) := by
  obtain ⟨pending, failure, query, closeAwaited⟩ := cur
  cases hpending
  have hrun : (Collection.documentOfReply reply).run c = (.ok v, d) := hmade
  simp only [Feed.next, hrun]

theorem delivers_cursor (hmade : (cur.pending.mapM Collection.documentOfReply).run.run c =
    (.ok documents, d)) (name : Value) (exhausted : Bool) (releases : Nat) :
    ∃ t, (Stream.source source).Delivers ⟨name, (.cursor cur, c), false, exhausted, releases⟩
      documents (cur.failure.map fun e => e.failure "find_stream" .read d.name) t := by
  generalize hpending : cur.pending = pending at hmade
  induction pending generalizing cur c documents with
  | nil =>
    cases hmade
    cases hfailure : cur.failure with
    | none =>
      have hnext := next_of_end hpending hfailure d
      exact ⟨_, .finished (by simp only [Stream.source, Stream.next, source, hnext]; rfl)⟩
    | some e =>
      have hnext := next_of_error hpending hfailure d
      exact ⟨_, .failed (by simp only [Stream.source, Stream.next, source, hnext]; rfl)⟩
  | cons reply rest ih =>
    rw [List.mapM_cons, run_bind_eq_ok] at hmade
    obtain ⟨v, u, hfirst, hmade⟩ := hmade
    obtain ⟨vs, w, hrest, hmade⟩ := run_bind_eq_ok.mp hmade
    cases hmade
    have hnext := next_of_document hpending hfirst
    have hleft : ({ cur with pending := rest } : Cursor).pending = rest := rfl
    obtain ⟨t, ht⟩ := ih hleft hrest
    exact ⟨t, .record (by simp only [Stream.source, Stream.next, source, hnext]; rfl) ht⟩

/-- A stream that is over a cursor of a query, in a collection of a name on a server that answered
so many requests. -/
def Follows (query : Query) (name : Value) (server : Server) (asked : Nat)
    (s : Stream (Feed × Collection)) : Prop :=
  (∃ cur : Cursor, s.inner.1 = .cursor cur ∧ cur.query = query) ∧ s.inner.2.name = name ∧
    s.inner.2.backend = .remote server ∧ s.inner.2.asked = asked

section
variable {query : Query} {name : Value} {server : Server} {asked : Nat}
  {s : Stream (Feed × Collection)}

theorem asked_of_unanswered {events : List Event} (h : ∀ x ∈ events, x.isAnswered = false)
    (hc : c.asked = asked) : Collection.asked { c with trace := c.trace ++ events } = asked := by
  have hnone : events.countP Event.isAnswered = 0 :=
    List.countP_eq_zero.mpr fun x hx => by rw [h x hx]; exact Bool.false_ne_true
  rw [Collection.asked_append, hnone, Nat.add_zero, hc]

theorem heard_unanswered (heard : List Hooks.Heard) :
    ∀ x ∈ heard.map Event.heard, x.isAnswered = false := by
  intro x hx
  obtain ⟨h, -, rfl⟩ := List.mem_map.mp hx
  rfl

theorem Follows.close (h : Follows query name server asked s) :
    Follows query name server asked (s.close source) := by
  obtain ⟨label, ⟨feed, c⟩, closed, exhausted, releases⟩ := s
  obtain ⟨⟨cur, rfl, hquery⟩, hname, hbackend, hasked⟩ := h
  cases closed with
  | true => exact ⟨⟨cur, rfl, hquery⟩, hname, hbackend, hasked⟩
  | false =>
    refine ⟨⟨cur, rfl, hquery⟩, hname, hbackend, asked_of_unanswered (fun x hx => ?_) hasked⟩
    split at hx
    · obtain rfl | rfl : x = .cursorClosed ∨ x = .closeAwaited := by simpa using hx
      all_goals rfl
    · obtain rfl : x = .cursorClosed := by simpa using hx
      rfl

theorem follows_next (hc : c.name = name ∧ c.backend = .remote server ∧ c.asked = asked)
    (hquery : cur.query = query) :
    ∃ (after : Cursor) (d : Collection), (Feed.next (.cursor cur, c)).2 = (.cursor after, d) ∧
      after.query = query ∧ d.name = name ∧ d.backend = .remote server ∧ d.asked = asked := by
  cases hpending : cur.pending with
  | nil =>
    cases hfailure : cur.failure with
    | none =>
      rw [next_of_end hpending hfailure]
      exact ⟨cur, c, rfl, hquery, hc⟩
    | some e =>
      obtain ⟨hname, hbackend, hasked⟩ := hc
      rw [next_of_error hpending hfailure]
      refine ⟨cur, _, rfl, hquery, hname, hbackend, asked_of_unanswered (fun x hx => ?_) hasked⟩
      cases e with
      | cancelled => cases hx
      | reported types code =>
        obtain rfl := List.mem_singleton.mp hx
        rfl
  | cons reply rest =>
    have hkept := Collection.documentOfReply_keeps
      (P := fun c => c.name = name ∧ c.backend = .remote server ∧ c.asked = asked)
      (fun _ heard h => ⟨h.1, h.2.1, asked_of_unanswered (heard_unanswered heard) h.2.2⟩) reply c hc
    obtain ⟨pending, failure, q, closeAwaited⟩ := cur
    cases hpending
    cases hrun : (Collection.documentOfReply reply).run c with
    | mk r d =>
      have hd : ((Collection.documentOfReply reply).run.run c).2 = d := congrArg Prod.snd hrun
      rw [hd] at hkept
      simp only [Feed.next, hrun]
      cases r <;> exact ⟨_, d, rfl, hquery, hkept⟩

theorem Follows.next (h : Follows query name server asked s) :
    Follows query name server asked (s.next source).2 := by
  obtain ⟨label, ⟨feed, c⟩, closed, exhausted, releases⟩ := s
  obtain ⟨⟨cur, rfl, hquery⟩, hc⟩ := h
  obtain ⟨after, d, hnext, hafter, hd⟩ := follows_next hc hquery
  cases closed with
  | true => exact ⟨⟨cur, rfl, hquery⟩, hc⟩
  | false =>
    cases hread : Feed.next (.cursor cur, c) with
    | mk delivery rest =>
      rw [hread] at hnext
      cases hnext
      have hfollows : Follows query name server asked
          ⟨label, (.cursor after, d), false, exhausted, releases⟩ := ⟨⟨after, rfl, hafter⟩, hd⟩
      simp only [Stream.next, source, hread]
      cases delivery with
      | finished => exact hfollows.close
      | record v | failed f => exact hfollows

end

end Feed

namespace Collection
variable {c d : Collection} {server : Server} {e : DriverError} {query : Query}
  {options : FindOptions} {documents : List Value}

/-- A search opens a cursor, which gives documents and then ends in some way. -/
def Searched (c : Collection) (server : Server) (query : Query) (options : FindOptions)
    (documents : List Value) (ending : Option DriverError) : Prop :=
  ∃ cur opened made, (cursor server query options).run.run c = (.ok cur, opened) ∧
    cur.failure = ending ∧ (cur.pending.mapM documentOfReply).run.run opened = (.ok documents, made)

theorem toList_of_ending {s : Stream Feed} {ending : Option Failure}
    {t : Stream (Feed × Collection)}
    (h : (Stream.source Feed.source).Delivers (s.map (·, c)) documents ending t) :
    (toList s : Action (Except Failure (List Value) × Stream Feed)).run.run c =
      (.ok (Source.listed documents ending, (t.close Feed.source).map Prod.fst),
        (t.close Feed.source).inner.2) := by
  have hlist : (s.map (·, c)).toList Feed.source = _ := Source.toList_of_ending h
  change (Except.ok (withStream s (Stream.toList Feed.source) c).1,
    (withStream s (Stream.toList Feed.source) c).2) = _
  simp only [withStream, hlist]
  rfl

theorem query_cursor (reply : Reply) (query : Query) : (reply.cursor query).query = query := by
  unfold Reply.cursor
  dsimp only
  split <;> rfl

theorem operatorIn?_eq_none {v operation name : Value}
    (h : v.withoutOperators operation name = .ok ()) : v.operatorIn? = none := by
  unfold Value.withoutOperators at h
  split at h
  · cases h
  · assumption

theorem address_eq_ok (h : (address server).run.run c = (.ok (), d)) : server.connected ∧
    d = { c with trace := c.trace ++ [.addressed server.collection] } := by
  by_cases hconnected : server.connected
  · rw [address_run hconnected] at h
    cases h
    exact ⟨hconnected, rfl⟩
  · rw [address_missing hconnected] at h
    cases h

theorem refuseOperators_run {operation : String} {filter : Query}
    (h : filter.operatorIn? = none) (c : Collection) :
    (refuseOperators operation filter).run.run c = (.ok (), c) := by
  unfold refuseOperators
  rw [run_get, ofExcept_run, Value.withoutOperators, h]

theorem noteIf_eq_ok {α : Type} {p : Prop} [Decidable p] {x : Event} {k : Unit → Action α} {a : α}
    (hx : x.isAnswered = false)
    (h : (if p then (do let u ← note x; k u) else k ()).run.run c = (.ok a, d)) :
    ∃ trace, asked { c with trace } = c.asked ∧
      (k ()).run.run { c with trace } = (.ok a, d) := by
  split at h
  · have hunanswered : ∀ y ∈ [x], y.isAnswered = false := List.forall_mem_singleton.mpr hx
    exact ⟨_, Feed.asked_of_unanswered hunanswered rfl, h⟩
  · exact ⟨c.trace, rfl, h⟩

theorem cursor_eq_ok {cur : Cursor} (h : (cursor server query options).run.run c = (.ok cur, d)) :
    cur.query = Query.explicit query ∧ (Query.explicit query).operatorIn? = none ∧
      server.connected ∧ d.asked = c.asked + 1 ∧ ∃ trace, d = { c with trace } := by
  unfold cursor at h
  rw [run_get] at h
  obtain ⟨skip, _, hskip, h⟩ := run_bind_eq_ok.mp h
  obtain ⟨-, rfl⟩ := ofExcept_eq_ok.mp hskip
  obtain ⟨limit, _, hlimit, h⟩ := run_bind_eq_ok.mp h
  obtain ⟨-, rfl⟩ := ofExcept_eq_ok.mp hlimit
  obtain ⟨_, _, hrefuse, h⟩ := run_bind_eq_ok.mp h
  obtain ⟨hoperators, rfl⟩ := ofExcept_eq_ok.mp hrefuse
  obtain ⟨projection, _, hprojection, h⟩ := run_bind_eq_ok.mp h
  obtain ⟨-, rfl⟩ := ofExcept_eq_ok.mp hprojection
  obtain ⟨_, _, haddress, h⟩ := run_bind_eq_ok.mp h
  obtain ⟨hconnected, rfl⟩ := address_eq_ok haddress
  obtain ⟨reply, _, hcoming, h⟩ := run_bind_eq_ok.mp h
  cases hcoming
  obtain ⟨_, _, hnote, h⟩ := run_bind_eq_ok.mp h
  cases hnote
  obtain ⟨keys, _, hkeys, h⟩ := run_bind_eq_ok.mp h
  obtain ⟨-, rfl⟩ := ofExcept_eq_ok.mp hkeys
  obtain ⟨_, hsort, h⟩ := noteIf_eq_ok rfl h
  obtain ⟨_, hskipped, h⟩ := noteIf_eq_ok rfl h
  obtain ⟨_, hlimited, h⟩ := noteIf_eq_ok rfl h
  cases h
  have hfound : asked { c with trace := (c.trace ++ [.addressed server.collection]) ++
      [.request (.find (Query.explicit query) projection)] } = c.asked + 1 := by
    rw [List.append_assoc, asked_append]
    rfl
  refine ⟨query_cursor _ _, operatorIn?_eq_none hoperators, hconnected, ?_, _, rfl⟩
  rw [hlimited, hskipped, hsort, hfound]

theorem openStream_remote (hc : c.backend = .remote server) (query : Query)
    (options : FindOptions) :
    (openStream query options).run.run c = (cursor server query options >>= fun cur =>
      pure { name := c.name, inner := .cursor cur }).run.run c := by
  unfold openStream
  rw [run_get]
  dsimp only
  rw [run_get, hc]

theorem openStream_of_cursor {cur : Cursor} (hc : c.backend = .remote server)
    (h : (cursor server query options).run.run c = (.ok cur, d)) :
    (openStream query options).run.run c = (.ok { name := c.name, inner := .cursor cur }, d) := by
  rw [openStream_remote hc]
  exact run_bind_ok h

theorem explicit_explicit (query : Query) :
    Query.explicit (Query.explicit query) = Query.explicit query := by
  cases h : query.truthy <;> simp [Query.explicit, h]

theorem name_of_searched {cur : Cursor} {opened made : Collection}
    (hopen : (cursor server query options).run.run c = (.ok cur, opened))
    (hmade : (cur.pending.mapM documentOfReply).run.run opened = (.ok documents, made)) :
    made.name = c.name := by
  obtain ⟨-, -, -, -, trace, rfl⟩ := cursor_eq_ok hopen
  have hkept := documentsOfReply_keeps (P := fun d => d.name = c.name) (fun _ _ h => h) cur.pending
    { c with trace } rfl
  rw [hmade] at hkept
  exact hkept

theorem serverCount_run (he : (server.replyTo c.asked).error = some e)
    (hconnected : server.connected) (hquery : (Query.explicit query).operatorIn? = none) :
    ((serverCount server query).run.run c).1 = .error (e.failure "count" .read c.name) := by
  let addressed : Collection := { c with trace := c.trace ++ [.addressed server.collection] }
  have hasked : addressed.asked = c.asked := asked_append c _
  have hsend : ∃ d, (send server "count" .read (.countDocuments (Query.explicit query))).run.run
      addressed = (.error (e.failure "count" .read c.name), d) := by
    rw [send_run, hasked, he]
    exact ⟨_, rfl⟩
  have hcall : ∃ d, (addressAndSend server "count" .read
      (.ok (.countDocuments (Query.explicit query)))).run.run c =
      (.error (e.failure "count" .read c.name), d) := by
    unfold addressAndSend
    rw [if_neg (by simp [hconnected]), run_bind_ok (address_run hconnected c)]
    exact hsend
  obtain ⟨_, hcall⟩ := hcall
  unfold serverCount
  dsimp only
  rw [run_bind_ok (refuseOperators_run hquery c), run_bind_error hcall]

/-! ### What reads a cursor -/

section
variable {s : Stream Feed} {cur : Cursor}

theorem next_of_error (hopen : s.closed = false) (hs : s.inner = .cursor cur)
    (hpending : cur.pending = []) (hfailure : cur.failure = some e) (d : Collection) :
    (next s).run d = ((.failed (e.failure "find_stream" .read d.name), s),
      { d with trace := d.trace ++ e.logged "find_stream" d.name }) := by
  obtain ⟨name, inner, closed, exhausted, releases⟩ := s
  cases hopen
  cases hs
  have hread := Feed.next_of_error hpending hfailure d
  change withStream ⟨name, .cursor cur, false, exhausted, releases⟩ (Stream.next Feed.source) d = _
  simp only [withStream, Stream.map, Stream.next, Feed.source, hread]
  rfl

theorem toList_of_error (hopen : s.closed = false) (hs : s.inner = .cursor cur)
    (hfailure : cur.failure = some e)
    (hmade : (cur.pending.mapM documentOfReply).run.run c = (.ok documents, d)) :
    ((toList s).run c).1.1 = .error (e.failure "find_stream" .read c.name) := by
  obtain ⟨name, inner, closed, exhausted, releases⟩ := s
  cases hopen
  cases hs
  have hname := documentsOfReply_keeps (P := fun d => d.name = c.name) (fun _ _ h => h)
    cur.pending c rfl
  rw [hmade] at hname
  obtain ⟨t, ht⟩ := Feed.delivers_cursor hmade name exhausted releases
  rw [hfailure, hname] at ht
  have hlist := toList_of_ending (s := ⟨name, .cursor cur, false, exhausted, releases⟩) ht
  injection hlist with hlist
  injection hlist with hlist
  exact congrArg Prod.fst hlist

end

theorem find_of_searched (hc : c.backend = .remote server)
    (h : Searched c server query options documents (some e)) (total : Value) :
    ((find query options total).run.run c).1 =
      .error (e.failure "find_stream" .read c.name) := by
  obtain ⟨cur, opened, made, hopen, hfailure, hmade⟩ := h
  obtain ⟨t, ht⟩ := Feed.delivers_cursor hmade c.name false 0
  rw [hfailure, name_of_searched hopen hmade] at ht
  have hlist := toList_of_ending (s := { name := c.name, inner := .cursor cur }) ht
  unfold find
  rw [run_get, hc]
  dsimp only
  rw [run_bind_ok (openStream_of_cursor hc hopen), run_bind_ok hlist]
  rfl

/-- A cursor that is read well does not help when its number is asked for. -/
theorem find_total_of_searched (hc : c.backend = .remote server)
    (he : (server.replyTo (c.asked + 1)).error = some e)
    (h : Searched c server query options documents none) {total : Value} (htotal : total.truthy) :
    ((find query options total).run.run c).1 = .error (e.failure "count" .read c.name) := by
  obtain ⟨cur, opened, made, hopen, hfailure, hmade⟩ := h
  obtain ⟨hquery, hoperators, hconnected, hasked, trace, rfl⟩ := cursor_eq_ok hopen
  let s : Stream Feed := { name := c.name, inner := .cursor cur }
  obtain ⟨t, ht⟩ := Feed.delivers_cursor hmade c.name false 0
  rw [hfailure] at ht
  have hlist := toList_of_ending (s := s) ht
  have hfollows : Feed.Follows (Query.explicit query) c.name server (c.asked + 1)
      (t.close Feed.source) :=
    Feed.Follows.close (ht.keeps (fun _ => Feed.Follows.next)
      ⟨⟨cur, rfl, hquery⟩, rfl, hc, hasked⟩)
  obtain ⟨⟨after, hafter, hquery⟩, hname, hbackend, hasked⟩ := hfollows
  have htold : ((streamTotal ((t.close Feed.source).map Prod.fst)).run.run
      (t.close Feed.source).inner.2).1 = .error (e.failure "count" .read c.name) := by
    rw [streamTotal_cursor hbackend hafter, hquery, ← hname]
    exact serverCount_run (by rw [hasked, he]) hconnected
      (by rw [explicit_explicit]; exact hoperators)
  unfold find
  rw [run_get, hc]
  dsimp only
  rw [run_bind_ok (openStream_of_cursor hc hopen), run_bind_ok hlist]
  change (((do
    let documents ← ofExcept (.ok documents)
    if total.truthy then return ⟨documents, ← streamTotal ((t.close Feed.source).map Prod.fst)⟩
    else return ⟨documents, .null⟩ : Action Found)).run.run _).1 = _
  rw [run_ofExcept rfl, if_pos htotal, run_bind_error (Prod.ext htold rfl)]

theorem findOne_of_searched (hc : c.backend = .remote server)
    (h : Searched c server query { options with skip := .int 0, limit := .int 1 } documents
      (some e)) :
    ((findOne query options).run.run c).1 = .error (e.failure "find_stream" .read c.name) := by
  have hfind := find_of_searched hc h (.bool false)
  unfold findOne
  dsimp only
  rw [run_bind_error (Prod.ext hfind rfl)]

theorem aggregate_of_searched [Present] (hc : c.backend = .remote server)
    (h : Searched c server query {} documents (some e)) {request given : Value}
    {spec : Aggregate.Spec} {run last : Aggregate.Run}
    (hspec : (Aggregate.Request.given request).spec c.options.aggregate = .ok spec)
    (hbegin : Aggregate.begin (.ok spec) (Aggregate.optionsOf given) = .ok run)
    (hfeed : run.feedAll documents = .ok last) :
    ((aggregate query request given).run.run c).1 =
      .error (e.failure "find_stream" .read c.name) := by
  obtain ⟨cur, opened, made, hopen, hfailure, hmade⟩ := h
  obtain ⟨t, ht⟩ := Feed.delivers_cursor hmade c.name false 0
  rw [hfailure, name_of_searched hopen hmade] at ht
  have hsource := Aggregate.ofSource_of_delivers run ht
  rw [hfeed] at hsource
  have hread : (readSpec request).run.run c = (.ok spec, c) := by
    rw [readSpec_run, hspec]
  have hstream : ∃ d, (readStream (.ok run) { name := c.name, inner := .cursor cur }).run.run
      opened = (.ok ⟨.error (e.failure "find_stream" .read c.name), none⟩, d) := by
    have hconclude : last.conclude (some (e.failure "find_stream" .read c.name)) =
        ⟨.error (e.failure "find_stream" .read c.name), none⟩ := by
      simp [Aggregate.Run.conclude, e.failure_not_streamClosed]
    change ∃ d, (Except.ok (Aggregate.runAwaiting (.ok run) (Stream.handle Feed.source)
      ⟨c.name, (.cursor cur, opened), false, false, 0⟩).1, _) = _
    rw [Aggregate.runAwaiting_stream, hsource]
    exact ⟨_, by rw [← hconclude]; rfl⟩
  obtain ⟨d, hstream⟩ := hstream
  unfold aggregate
  rw [run_get, hc]
  dsimp only
  rw [run_bind_ok hread, run_bind_ok (openStream_of_cursor hc hopen), hbegin, run_bind_ok hstream]
  rfl

end Collection

end RecordStore
