import RecordStore.Proofs.Actions
import RecordStore.Proofs.Release

/-! What becomes of a stream of documents however it is read, closed and drained, while the
collection behind it may change between one use and the next. It delivers a prefix of what it has,
lets go of its source once, and makes no search once one has been answered. -/
namespace RecordStore

inductive StreamUse where
  | read
  | close
  /-- Reads all that is left and closes. -/
  | drain

inductive StreamAnswer where
  | read (d : Delivery)
  | closed
  | drained (r : Except Failure (List Value))

namespace StreamAnswer

def records : StreamAnswer → List Value
  | read (.record v) => [v]
  | drained (.ok vs) => vs
  | _ => []

/-- Whether an answer shows that there is nothing more to come. -/
def ends : StreamAnswer → Bool
  | read .finished | drained (.ok _) => true
  | _ => false

def tells : StreamAnswer → Bool
  | read (.record _) | read .finished | drained (.ok _) => true
  | _ => false

end StreamAnswer

namespace Collection

def use (s : Stream Feed) : StreamUse → StateM Collection (StreamAnswer × Stream Feed)
  | .read => do
    let (d, s) ← next s
    return (.read d, s)
  | .close => do
    let (_, s) ← close s
    return (.closed, s)
  | .drain => do
    let (r, s) ← toList s
    return (.drained r, s)

def searches (c : Collection) : Nat := c.trace.countP (· matches .find ..)

end Collection

/-- A use of a stream, with the collection as it was before and after. -/
structure Visit where
  use : StreamUse
  before : Collection
  answer : StreamAnswer
  after : Collection

def delivered (log : List Visit) : List Value := log.flatMap (·.answer.records)

/-- The streams that uses lead to, one after the other. Each finds the collection as it is then. -/
inductive Visited (s : Stream Feed) : List Visit → Stream Feed → Prop
  | opened : Visited s [] s
  | visit {log : List Visit} {t u : Stream Feed} {v : Visit} (before : Visited s log t)
      (h : (Collection.use t v.use).run v.before = ((v.answer, u), v.after)) :
      Visited s (log ++ [v]) u

namespace Feed

def Unread : Feed → Prop
  | items _ _ => True
  | search _ _ found => found.isNone
  | cursor _ => False

/-- What is to be delivered in all: a list as it is, a search what it found at the first visit that
it told anything. -/
def Yields (log : List Visit) (sequence : List Value) : Feed → Prop
  | items documents _ => sequence = documents
  | search query options _ => ∃ v found, log.find? (·.answer.tells) = some v ∧
      ((Collection.list query options (.bool false)).run.run v.before).1 = .ok found ∧
      sequence = found.documents
  | cursor _ => False

def Left (documents : List Value) : Feed → Prop
  | items rest _ => rest = documents
  | search _ _ (some found) => found.documents = documents
  | _ => False

/-! ### Reading what is known to be left -/

section
variable {feed : Feed} {documents : List Value} {v : Value}

theorem next_left_nil (h : feed.Left []) (c : Collection) :
    Feed.next (feed, c) = (.finished, feed, c) := by
  match feed, h with
  | items [] _, _ => rfl
  | search _ _ (some ⟨[], _⟩), _ => rfl

theorem next_left_cons (h : feed.Left (v :: documents)) (c : Collection) :
    ∃ rest : Feed, rest.Left documents ∧ Feed.next (feed, c) = (.record v, rest, c) := by
  match feed, h with
  | items _ total, h =>
    cases h
    exact ⟨items documents total, rfl, rfl⟩
  | search query options (some ⟨_, total⟩), h =>
    cases h
    exact ⟨search query options (some ⟨documents, total⟩), rfl, rfl⟩

theorem close_left (h : feed.Left documents) (c : Collection) :
    Feed.close (feed, c) = (feed, c) := by
  match feed, h with
  | items _ _, _ => rfl
  | search _ _ (some _), _ => rfl

theorem delivers_left (h : feed.Left documents) (name : Value) (releases : Nat) (c : Collection) :
    ∃ rest : Feed, rest.Left [] ∧ (Stream.source source).Delivers
      ⟨name, (feed, c), false, false, releases⟩ documents none
      ⟨name, (rest, c), true, true, releases + 1⟩ := by
  induction documents generalizing feed with
  | nil =>
    refine ⟨feed, h, .finished ?_⟩
    have hnext := next_left_nil h c
    have hclose := close_left h c
    simp [Stream.source, Stream.next, Stream.release, source, hnext, hclose]
  | cons v documents ih =>
    obtain ⟨rest, hrest, hnext⟩ := next_left_cons h c
    obtain ⟨last, hlast, hdelivers⟩ := ih hrest
    refine ⟨last, hlast, .record ?_ hdelivers⟩
    simp [Stream.source, Stream.next, source, hnext]

end

/-! ### Searching -/

section
variable {query : Query} {options : FindOptions} {c c' : Collection}

theorem next_of_found {found : Found}
    (h : (Collection.list query options (.bool false)).run.run c = (.ok found, c')) :
    Feed.next (.search query options none, c) =
      Feed.next (.search query options (some found), c') := by
  simp only [Feed.next, ExceptT.run, StateT.run] at h ⊢
  rw [h]

theorem next_of_refused {f : Failure}
    (h : (Collection.list query options (.bool false)).run.run c = (.error f, c')) :
    Feed.next (.search query options none, c) = (.failed f, .search query options none, c') := by
  simp only [Feed.next, ExceptT.run, StateT.run] at h ⊢
  rw [h]

end

end Feed

namespace Collection

/-! ### How often a listing is searched -/

def Searchless {α : Type} (a : Action α) : Prop := ∀ n, Keeps (fun c => c.searches = n) a

theorem Searchless.bind {α β : Type} {a : Action α} {f : α → Action β} (ha : Searchless a)
    (hf : ∀ x, Searchless (f x)) : Searchless (a >>= f) := fun n => (ha n).bind fun x => hf x n

theorem searchless_ofExcept {α : Type} (r : Except Failure α) : Searchless (ofExcept r) :=
  fun _ => ofExcept_keeps r

theorem searchless_get {α : Type} {f : Collection → Action α} (hf : ∀ c, Searchless (f c)) :
    Searchless (get >>= f) := fun n c hc => hf c n c hc

theorem searchless_heard (heard : List Hooks.Heard) :
    Searchless (heard.forM fun h => note (Event.heard h)) := by
  induction heard with
  | nil => exact fun n c hc => hc
  | cons h heard ih =>
    refine Searchless.bind ?_ fun _ => ih
    intro n c hc
    have hnote : ((note (Event.heard h)).run.run c).2.searches = c.searches := by
      change (c.trace ++ [Event.heard h]).countP _ = c.trace.countP _
      simp
    rw [hnote]
    exact hc

theorem searchless_document (data : Value) : Searchless (document data) := by
  unfold document
  refine searchless_get fun c => ?_
  unfold settle
  refine Searchless.bind ?_ fun _ => fun n c hc => hc
  exact (searchless_heard _).bind fun _ => (searchless_ofExcept _).bind fun _ => fun n c hc => hc

theorem searchless_documents (rs : List Record) :
    Searchless (rs.mapM fun r => document (.object r)) := by
  induction rs with
  | nil => exact fun n c hc => hc
  | cons r rs ih =>
    rw [List.mapM_cons]
    exact (searchless_document _).bind fun _ => ih.bind fun _ => fun n c hc => hc

theorem searches_list (query : Query) (options : FindOptions) (total : Value) (c : Collection) :
    ((list query options total).run.run c).2.searches ≤ c.searches + 1 := by
  unfold list
  rw [run_get]
  cases hc : c.backend with
  | listing records totals =>
    dsimp only
    have hnote : (note (.find query options total)).run.run c =
        (.ok (), { c with trace := c.trace ++ [.find query options total] }) := rfl
    rw [run_bind_ok hnote]
    have hrest (answer : List Record → List Value → Found) : Searchless (do
        let found ← ofExcept (withMembers query records)
        let page ← ofExcept (Paging.page options.skip options.limit found)
        let documents ← page.mapM fun r => document (.object r)
        return answer found documents) :=
      (searchless_ofExcept _).bind fun _ => (searchless_ofExcept _).bind fun page =>
        (searchless_documents page).bind fun _ => fun n c hc => hc
    refine Nat.le_of_eq (hrest _ _ _ ?_)
    simp [searches]
  | _ => exact Nat.le_succ _

end Collection

theorem Source.toList_of_next_eq {σ : Type} {src : Source σ} {s s' : σ}
    (h : src.next s = src.next s') : src.toList s = src.toList s' := by
  have hfold (step : List Value → Value → Except Failure (List Value)) :
      src.fold step [] s = src.fold step [] s' := by
    cases hd : src.next s' with
    | mk d t =>
      rw [hd] at h
      cases d with
      | finished => rw [fold_finished h, fold_finished hd]
      | failed f => rw [fold_failed h, fold_failed hd]
      | record v => rw [fold_record h, fold_record hd]
  rw [toList, toList, hfold]

/-! ### One use -/

def Stream.access {σ : Type} (src : Source σ) (s : Stream σ) : StreamUse → StreamAnswer × Stream σ
  | .read => (.read (s.next src).1, (s.next src).2)
  | .close => (.closed, s.close src)
  | .drain => (.drained (s.toList src).1, (s.toList src).2)

def closedAnswer (t : Stream Feed) : StreamUse → StreamAnswer
  | .read => .read (if t.exhausted then .finished else .failed (Stream.closedFault t.name))
  | .close => .closed
  | .drain => .drained (if t.exhausted then .ok [] else .error (Stream.closedFault t.name))

structure Served (t : Stream Feed) (use : StreamUse) (answer : StreamAnswer) (u : Stream Feed) :
    Prop where
  name : u.name = t.name
  exhausted : u.exhausted = answer.ends
  closed : u.closed = (answer.ends || use matches .close | .drain)
  releases : u.releases = if u.closed then t.releases + 1 else t.releases

namespace Collection

theorem use_eq (t : Stream Feed) (use : StreamUse) (c : Collection) :
    (Collection.use t use).run c = ((((t.map (·, c)).access Feed.source use).1,
      ((t.map (·, c)).access Feed.source use).2.map Prod.fst),
      ((t.map (·, c)).access Feed.source use).2.inner.2) := by
  cases use <;> rfl

theorem use_run (t : Stream Feed) (use : StreamUse) (c : Collection) {answer : StreamAnswer}
    {u : Stream Feed} {c' : Collection}
    (h : (t.map (·, c)).access Feed.source use = (answer, u.map (·, c'))) :
    (Collection.use t use).run c = ((answer, u), c') := by
  rw [use_eq, h]
  rfl

section
variable {t : Stream Feed} {c c' : Collection}

theorem use_closed (h : t.closed) (use : StreamUse) :
    (Collection.use t use).run c = ((closedAnswer t use, t), c) := by
  obtain ⟨name, feed, closed, exhausted, releases⟩ := t
  cases h
  apply use_run
  let s : Stream (Feed × Collection) := ⟨name, (feed, c), true, exhausted, releases⟩
  cases use with
  | read => cases exhausted <;> rfl
  | close => rfl
  | drain =>
    change (StreamAnswer.drained (s.toList Feed.source).1, (s.toList Feed.source).2) = _
    cases exhausted with
    | true =>
      have hd : (Stream.source Feed.source).Delivers s [] none s := .finished rfl
      rw [Stream.toList, Source.toList_of_delivers hd]
      rfl
    | false =>
      have hn : (Stream.source Feed.source).next s = (.failed (Stream.closedFault name), s) := rfl
      simp only [Stream.toList, Source.toList, Source.fold_failed hn]
      rfl

/-- A use of an open stream that knows what is left: a read delivers the first of it or shows that
there is none, draining delivers all, and the collection is not asked. -/
theorem use_left {left : List Value} (hopen : t.closed = false) (hexhausted : t.exhausted = false)
    (hleft : t.inner.Left left) (use : StreamUse) :
    ∃ answer u rest, (Collection.use t use).run c = ((answer, u), c) ∧ u.inner.Left rest ∧
      left = answer.records ++ rest ∧ (u.exhausted → rest = []) ∧
      (use ≠ .close → answer.tells) ∧ Served t use answer u := by
  obtain ⟨name, feed, closed, exhausted, releases⟩ := t
  cases hopen
  cases hexhausted
  cases use with
  | read =>
    cases left with
    | nil =>
      have hnext := Feed.next_left_nil hleft c
      have hclose := Feed.close_left hleft c
      refine ⟨.read .finished, ⟨name, feed, true, true, releases + 1⟩, [], use_run _ _ _ ?_,
        hleft, rfl, fun _ => rfl, fun _ => rfl, rfl, rfl, rfl, rfl⟩
      simp [Stream.access, Stream.next, Stream.release, Stream.map, Feed.source, hnext, hclose]
    | cons v left =>
      obtain ⟨rest, hrest, hnext⟩ := Feed.next_left_cons hleft c
      refine ⟨.read (.record v), ⟨name, rest, false, false, releases⟩, left, use_run _ _ _ ?_,
        hrest, rfl, by simp, fun _ => rfl, rfl, rfl, rfl, rfl⟩
      simp [Stream.access, Stream.next, Stream.map, Feed.source, hnext]
  | close =>
    have hclose := Feed.close_left hleft c
    refine ⟨.closed, ⟨name, feed, true, false, releases + 1⟩, left, use_run _ _ _ ?_,
      hleft, rfl, by simp, fun h => absurd rfl h, rfl, rfl, rfl, rfl⟩
    simp [Stream.access, Stream.close, Stream.release, Stream.map, Feed.source, hclose]
  | drain =>
    obtain ⟨rest, hrest, hdelivers⟩ := Feed.delivers_left hleft name releases c
    refine ⟨.drained (.ok left), ⟨name, rest, true, true, releases + 1⟩, [], use_run _ _ _ ?_,
      hrest, (List.append_nil _).symm, fun _ => rfl, fun _ => rfl, rfl, rfl, rfl, rfl⟩
    simp only [Stream.access, Stream.map, Stream.toList, Source.toList_of_delivers hdelivers]
    rfl

/-- A search that has not been made yet is made at the first read. -/
theorem use_found {query : Query} {options : FindOptions} {found : Found}
    (hopen : t.closed = false) (hinner : t.inner = .search query options none)
    (h : (list query options (.bool false)).run.run c = (.ok found, c')) {use : StreamUse}
    (huse : use ≠ .close) : (Collection.use t use).run c =
      (Collection.use { t with inner := .search query options (some found) } use).run c' := by
  obtain ⟨name, feed, closed, exhausted, releases⟩ := t
  cases hopen
  cases hinner
  let s : Stream (Feed × Collection) :=
    ⟨name, (.search query options none, c), false, exhausted, releases⟩
  let s' : Stream (Feed × Collection) :=
    ⟨name, (.search query options (some found), c'), false, exhausted, releases⟩
  have hnext : (Stream.source Feed.source).next s = (Stream.source Feed.source).next s' := by
    have h := Feed.next_of_found h
    simp only [s, s', Stream.source, Stream.next, Feed.source, h]
    rfl
  have haccess : s.access Feed.source use = s'.access Feed.source use := by
    cases use with
    | close => exact absurd rfl huse
    | read =>
      rw [Stream.access, Stream.access]
      exact congrArg (fun p => (StreamAnswer.read p.1, p.2)) hnext
    | drain => rw [Stream.access, Stream.access, Stream.toList, Stream.toList,
        Source.toList_of_next_eq hnext]
  rw [use_eq, use_eq]
  simp only [Stream.map, s, s'] at haccess ⊢
  rw [haccess]

theorem use_refused {query : Query} {options : FindOptions} {f : Failure}
    (hopen : t.closed = false) (hexhausted : t.exhausted = false)
    (hinner : t.inner = .search query options none)
    (h : (list query options (.bool false)).run.run c = (.error f, c')) {use : StreamUse}
    (huse : use ≠ .close) : ∃ answer u, (Collection.use t use).run c = ((answer, u), c') ∧
      answer.tells = false ∧ u.inner = t.inner ∧ Served t use answer u := by
  obtain ⟨name, feed, closed, exhausted, releases⟩ := t
  cases hopen
  cases hexhausted
  cases hinner
  have hnext := Feed.next_of_refused h
  cases use with
  | close => exact absurd rfl huse
  | read =>
    refine ⟨.read (.failed f), ⟨name, .search query options none, false, false, releases⟩,
      use_run _ _ _ ?_, rfl, rfl, rfl, rfl, rfl, rfl⟩
    simp [Stream.access, Stream.next, Stream.map, Feed.source, hnext]
  | drain =>
    refine ⟨.drained (.error f), ⟨name, .search query options none, true, false, releases + 1⟩,
      use_run _ _ _ ?_, rfl, rfl, rfl, rfl, rfl, rfl⟩
    have hn : (Stream.source Feed.source).next
        ⟨name, (.search query options none, c), false, false, releases⟩ =
        (.failed f, ⟨name, (.search query options none, c'), false, false, releases⟩) := by
      simp [Stream.source, Stream.next, Feed.source, hnext]
    simp only [Stream.access, Stream.map, Stream.toList, Source.toList, Source.fold_failed hn]
    rfl

theorem use_close_unread {query : Query} {options : FindOptions} (hopen : t.closed = false)
    (hinner : t.inner = .search query options none) : (Collection.use t .close).run c =
      ((.closed, { t with closed := true, releases := t.releases + 1 }), c) := by
  obtain ⟨name, feed, closed, exhausted, releases⟩ := t
  cases hopen
  cases hinner
  rfl

end

end Collection

/-! ### Any number of uses -/

section
variable {feed : Feed} {log : List Visit} {t u : Stream Feed} {v : Visit}

theorem delivered_append : delivered (log ++ [v]) = delivered log ++ v.answer.records := by
  simp [delivered]

theorem StreamAnswer.tells_of_ends {a : StreamAnswer} (h : a.ends) : a.tells := by
  unfold ends at h
  split at h
  · rfl
  · rfl
  · cases h

theorem StreamAnswer.records_of_untold {a : StreamAnswer} (h : a.tells = false) :
    a.records = [] := by
  match a, h with
  | .read (.failed _), _ => rfl
  | .closed, _ => rfl
  | .drained (.error _), _ => rfl

theorem delivered_of_untold (h : ∀ v ∈ log, v.answer.tells = false) : delivered log = [] := by
  refine List.flatMap_eq_nil_iff.mpr fun v hv => ?_
  exact StreamAnswer.records_of_untold (h v hv)

theorem Feed.Yields.append {sequence : List Value} (h : feed.Yields log sequence) :
    feed.Yields (log ++ [v]) sequence := by
  cases feed with
  | items documents total => exact h
  | cursor c => exact h
  | search query options found =>
    obtain ⟨w, found, hw, hfound⟩ := h
    refine ⟨w, found, ?_, hfound⟩
    rw [List.find?_append, hw]
    rfl

structure Flags (log : List Visit) (t : Stream Feed) : Prop where
  released : t.ReleasedOnce
  exhausted : t.exhausted = log.any (·.answer.ends)
  closed : t.closed = (t.exhausted || log.any (·.use matches .close | .drain))

theorem Flags.exhausted_of_open (h : Flags log t) (hopen : t.closed = false) :
    t.exhausted = false := by
  have hclosed := h.closed
  rw [hopen, eq_comm, Bool.or_eq_false_iff] at hclosed
  exact hclosed.1

theorem Flags.exhausted_of_untold (h : Flags log t) (hlog : ∀ v ∈ log, v.answer.tells = false) :
    t.exhausted = false := by
  rw [h.exhausted, List.any_eq_false]
  intro v hv hends
  have htells := StreamAnswer.tells_of_ends hends
  rw [hlog v hv] at htells
  cases htells

theorem Flags.serve (h : Flags log t) (hopen : t.closed = false)
    (hserved : Served t v.use v.answer u) : Flags (log ++ [v]) u := by
  have hexhausted := h.exhausted_of_open hopen
  have hclosed := h.closed
  have hends := h.exhausted
  have hreleased : t.releases = 0 := by
    have := h.released
    rwa [Stream.ReleasedOnce, hopen] at this
  rw [hopen, hexhausted] at hclosed
  rw [hexhausted] at hends
  refine ⟨?_, ?_, ?_⟩
  · rw [Stream.ReleasedOnce, hserved.releases, hreleased]
  · rw [hserved.exhausted, List.any_append, ← hends]
    simp
  · rw [hserved.closed, hserved.exhausted, List.any_append]
    rw [Bool.false_or] at hclosed
    rw [← hclosed]
    simp

theorem Flags.stay (h : Flags log t) (hclosed : t.closed) (hv : v.answer = closedAnswer t v.use) :
    Flags (log ++ [v]) t := by
  have hends : v.answer.ends → t.exhausted := by
    intro hends
    rw [hv] at hends
    unfold closedAnswer at hends
    cases hx : t.exhausted with
    | true => rfl
    | false =>
      rw [hx] at hends
      split at hends <;> cases hends
  refine ⟨h.released, ?_, ?_⟩
  · rw [List.any_append, ← h.exhausted]
    cases hx : t.exhausted with
    | true => rfl
    | false =>
      have : v.answer.ends = false := by simpa [hx] using hends
      simp [this]
  · have hc := h.closed
    rw [hclosed] at hc ⊢
    rw [List.any_append, ← Bool.or_assoc, ← hc]
    rfl

inductive Stage (feed : Feed) (log : List Visit) (t : Stream Feed) : Prop
  | untold {query : Query} {options : FindOptions} (hfeed : feed = .search query options none)
      (hinner : t.inner = feed) (hlog : ∀ v ∈ log, v.answer.tells = false)
  | told {left : List Value} (hleft : t.inner.Left left)
      (hyields : feed.Yields log (delivered log ++ left)) (hend : t.exhausted → left = [])

structure Asked (log : List Visit) : Prop where
  /-- At most one search is made at a time. -/
  searches : ∀ v ∈ log, v.after.searches ≤ v.before.searches + 1
  closing : ∀ v ∈ log, v.use = .close → v.after = v.before
  /-- Once an answer told something, the collection is not asked any more. -/
  once : log.Pairwise fun v w => v.answer.tells → w.after = w.before

theorem Asked.unasked (h : Asked log) (hv : v.after = v.before) : Asked (log ++ [v]) := by
  refine ⟨?_, ?_, ?_⟩
  · rw [List.forall_mem_append, List.forall_mem_singleton, hv]
    exact ⟨h.searches, Nat.le_succ _⟩
  · rw [List.forall_mem_append, List.forall_mem_singleton]
    exact ⟨h.closing, fun _ => hv⟩
  · rw [List.pairwise_append]
    refine ⟨h.once, List.pairwise_singleton _ _, fun _ _ w hw _ => ?_⟩
    rwa [List.mem_singleton.mp hw]

theorem Asked.search (h : Asked log) (hlog : ∀ v ∈ log, v.answer.tells = false)
    (huse : v.use ≠ .close) (hv : v.after.searches ≤ v.before.searches + 1) :
    Asked (log ++ [v]) := by
  refine ⟨?_, ?_, ?_⟩
  · rw [List.forall_mem_append, List.forall_mem_singleton]
    exact ⟨h.searches, hv⟩
  · rw [List.forall_mem_append, List.forall_mem_singleton]
    exact ⟨h.closing, fun h => absurd h huse⟩
  · rw [List.pairwise_append]
    refine ⟨h.once, List.pairwise_singleton _ _, fun a ha _ _ htells => ?_⟩
    rw [hlog a ha] at htells
    cases htells

structure Progress (feed : Feed) (log : List Visit) (t : Stream Feed) : Prop where
  flags : Flags log t
  stage : Stage feed log t
  asked : Asked log

theorem progress_opened {name : Value} (h : feed.Unread) :
    Progress feed [] { name, inner := feed } := by
  refine ⟨⟨rfl, rfl, rfl⟩, ?_, ⟨List.forall_mem_nil _, List.forall_mem_nil _, .nil⟩⟩
  match feed, h with
  | .items documents total, _ => exact .told rfl rfl (by simp)
  | .search query options none, _ => exact .untold rfl rfl (List.forall_mem_nil _)

theorem Progress.stay (h : Progress feed log t) (hclosed : t.closed)
    (hv : v.answer = closedAnswer t v.use) (hafter : v.after = v.before) :
    Progress feed (log ++ [v]) t := by
  refine ⟨h.flags.stay hclosed hv, ?_, h.asked.unasked hafter⟩
  have hrecords : v.answer.records = [] := by
    rw [hv]
    unfold closedAnswer
    split <;> cases t.exhausted <;> rfl
  cases h.stage with
  | told hleft hyields hend =>
    refine .told hleft ?_ hend
    rw [delivered_append, hrecords, List.append_nil]
    exact hyields.append
  | untold hfeed hinner hlog =>
    refine .untold hfeed hinner ?_
    rw [List.forall_mem_append, List.forall_mem_singleton]
    refine ⟨hlog, ?_⟩
    -- Nothing was told, and so the stream was closed before its end.
    have hexhausted := h.flags.exhausted_of_untold hlog
    rw [hv]
    unfold closedAnswer
    rw [hexhausted]
    split <;> rfl

/-- A visit of an open stream of which it is known what is left. -/
theorem Progress.deliver {left : List Value} (h : Progress feed log t) (hopen : t.closed = false)
    (hleft : t.inner.Left left) (hyields : feed.Yields log (delivered log ++ left))
    (hrun : (Collection.use t v.use).run v.before = ((v.answer, u), v.after)) :
    Progress feed (log ++ [v]) u := by
  obtain ⟨answer, u', rest, hrun', hrest, hsplit, hend, -, hserved⟩ :=
    Collection.use_left hopen (h.flags.exhausted_of_open hopen) hleft v.use
  rw [hrun] at hrun'
  obtain ⟨hpair, hafter⟩ := Prod.mk.inj hrun'
  obtain ⟨rfl, rfl⟩ := Prod.mk.inj hpair
  refine ⟨h.flags.serve hopen hserved, .told hrest ?_ hend, h.asked.unasked hafter⟩
  rw [delivered_append, List.append_assoc, ← hsplit]
  exact hyields.append

/-- A visit of an open stream that has made no search as yet. -/
theorem Progress.search {query : Query} {options : FindOptions} (h : Progress feed log t)
    (hopen : t.closed = false) (hfeed : feed = .search query options none)
    (hinner : t.inner = feed) (hlog : ∀ v ∈ log, v.answer.tells = false)
    (hrun : (Collection.use t v.use).run v.before = ((v.answer, u), v.after)) :
    Progress feed (log ++ [v]) u := by
  have hexhausted := h.flags.exhausted_of_open hopen
  rw [hfeed] at hinner
  have huntold (hv : v.answer.tells = false) : ∀ w ∈ log ++ [v], w.answer.tells = false := by
    rw [List.forall_mem_append, List.forall_mem_singleton]
    exact ⟨hlog, hv⟩
  by_cases huse : v.use = .close
  · have hclose := Collection.use_close_unread (c := v.before) hopen hinner
    rw [huse, hclose] at hrun
    obtain ⟨hpair, hafter⟩ := Prod.mk.inj hrun
    obtain ⟨hanswer, rfl⟩ := Prod.mk.inj hpair
    have hserved :
        Served t v.use v.answer { t with closed := true, releases := t.releases + 1 } := by
      rw [huse, ← hanswer]
      exact ⟨rfl, hexhausted, rfl, rfl⟩
    refine ⟨h.flags.serve hopen hserved, .untold hfeed (hinner.trans hfeed.symm) (huntold ?_),
      h.asked.unasked hafter.symm⟩
    rw [← hanswer]
    rfl
  · have hsearches := Collection.searches_list query options (.bool false) v.before
    cases hlist : (Collection.list query options (.bool false)).run.run v.before with
    | mk result c' =>
      rw [hlist] at hsearches
      cases result with
      | error f =>
        obtain ⟨answer, u', hrun', htells, hinner', hserved⟩ :=
          Collection.use_refused hopen hexhausted hinner hlist huse
        rw [hrun] at hrun'
        obtain ⟨hpair, rfl⟩ := Prod.mk.inj hrun'
        obtain ⟨rfl, rfl⟩ := Prod.mk.inj hpair
        refine ⟨h.flags.serve hopen hserved, .untold hfeed ?_ (huntold htells),
          h.asked.search hlog huse hsearches⟩
        rw [hinner', hinner, hfeed]
      | ok found =>
        -- From here on it is as if the search had been made before.
        have hfound := Collection.use_found hopen hinner hlist huse
        obtain ⟨answer, u', rest, hrun', hrest, hsplit, hend, htells, hserved⟩ :=
          Collection.use_left (t := { t with inner := .search query options (some found) })
            (c := c') hopen hexhausted (rfl : Feed.Left found.documents (.search _ _ (some found)))
            v.use
        rw [← hfound, hrun] at hrun'
        obtain ⟨hpair, rfl⟩ := Prod.mk.inj hrun'
        obtain ⟨rfl, rfl⟩ := Prod.mk.inj hpair
        have hserved' : Served t v.use v.answer u :=
          ⟨hserved.name, hserved.exhausted, hserved.closed, hserved.releases⟩
        refine ⟨h.flags.serve hopen hserved', .told hrest ?_ hend,
          h.asked.search hlog huse hsearches⟩
        rw [delivered_append, delivered_of_untold hlog, List.nil_append, ← hsplit, hfeed]
        refine ⟨v, found, ?_, congrArg Prod.fst hlist, rfl⟩
        have hnone : log.find? (·.answer.tells) = none := by
          rw [List.find?_eq_none]
          intro w hw
          rw [hlog w hw]
          exact Bool.false_ne_true
        rw [List.find?_append, hnone, List.find?_singleton, if_pos (htells huse)]
        rfl

theorem progress_of_visited {name : Value} (hf : feed.Unread)
    (h : Visited { name, inner := feed } log t) : Progress feed log t := by
  induction h with
  | opened => exact progress_opened hf
  | @visit log t u v _ hrun ih =>
    by_cases hclosed : t.closed = true
    · have hstay := Collection.use_closed (c := v.before) hclosed v.use
      rw [hrun] at hstay
      obtain ⟨hpair, hafter⟩ := Prod.mk.inj hstay
      obtain ⟨hanswer, rfl⟩ := Prod.mk.inj hpair
      exact ih.stay hclosed hanswer hafter
    · have hopen : t.closed = false := by simpa using hclosed
      cases ih.stage with
      | told hleft hyields _ => exact ih.deliver hopen hleft hyields hrun
      | untold hfeed hinner hlog => exact ih.search hopen hfeed hinner hlog hrun

end

/-- What holds of a stream over a list or a search that was opened and then read, closed and drained
in any order. -/
structure Lifecycle (feed : Feed) (log : List Visit) (t : Stream Feed) : Prop where
  /-- It delivered nothing as long as nothing was told, and else the front of all that there is to
  deliver, which is all of it once the end is reached. -/
  delivered : ((∀ v ∈ log, v.answer.tells = false) ∧ delivered log = [] ∧ t.exhausted = false) ∨
    ∃ sequence, feed.Yields log sequence ∧ RecordStore.delivered log <+: sequence ∧
      (t.exhausted → RecordStore.delivered log = sequence)
  /-- The source was let go of once if the stream is closed, and not before. -/
  released : t.releases = if t.closed then 1 else 0
  exhausted : t.exhausted ↔ ∃ v ∈ log, v.answer.ends
  closed : t.closed ↔ t.exhausted ∨ ∃ v ∈ log, v.use ≠ .read
  /-- A closed stream stays as it is. Reading it only stops if it was at its end, and fails if it
  was closed before. -/
  afterwards : t.closed → ∀ use c, (Collection.use t use).run c = ((closedAnswer t use, t), c)
  asked : Asked log

/-- However a stream over a list or a search is used, and whatever becomes of the collection in the
meantime, it delivers a prefix of what it has, lets go of its source once, and searches no more once
a search was answered. -/
theorem lifecycle_of_visited {name : Value} {feed : Feed} (hf : feed.Unread) {log : List Visit}
    {t : Stream Feed} (h : Visited { name, inner := feed } log t) : Lifecycle feed log t := by
  obtain ⟨hflags, hstage, hasked⟩ := progress_of_visited hf h
  refine ⟨?_, hflags.released, ?_, ?_,
    fun hclosed use c => Collection.use_closed hclosed use, hasked⟩
  · cases hstage with
    | untold _ _ hlog =>
      exact .inl ⟨hlog, delivered_of_untold hlog, hflags.exhausted_of_untold hlog⟩
    | told hleft hyields hend =>
      refine .inr ⟨_, hyields, List.prefix_append _ _, fun hexhausted => ?_⟩
      rw [hend hexhausted, List.append_nil]
  · rw [hflags.exhausted, List.any_eq_true]
  · rw [hflags.closed, Bool.or_eq_true, List.any_eq_true]
    refine or_congr_right (exists_congr fun v => and_congr_right fun _ => ?_)
    cases v.use <;> simp

/-- A search that is read once and closed before its end: it has delivered the first of two
documents, and a further read fails. -/
theorem lifecycle_of_early_close :
    let document (n : Int) : Record := [("n", .int n)]
    let c : Collection :=
      { name := .str "Animal", backend := .listing [document 1, document 2] .asked }
    let feed : Feed := .search .null {} none
    let searched : Collection := { c with trace := [.find .null {} (.bool false)] }
    let log : List Visit :=
      [⟨.read, c, .read (.record (.document (.object (document 1)))), searched⟩,
        ⟨.close, searched, .closed, searched⟩]
    let t : Stream Feed := ⟨.str "Animal",
      .search .null {} (some ⟨[.document (.object (document 2))], .null⟩), true, false, 1⟩
    feed.Unread ∧ Visited { name := .str "Animal", inner := feed } log t ∧
      delivered log = [.document (.object (document 1))] ∧ Asked log ∧
      (Collection.use t .read).run c =
        ((.read (.failed (Stream.closedFault (.str "Animal"))), t), c) := by
  intro document c feed searched log t
  have hf : feed.Unread := rfl
  have hvisited : Visited { name := .str "Animal", inner := feed } log t :=
    .visit (.visit .opened rfl) rfl
  have hlifecycle := lifecycle_of_visited hf hvisited
  exact ⟨hf, hvisited, rfl, hlifecycle.asked, hlifecycle.afterwards rfl .read c⟩

end RecordStore
