import RecordStore.Proofs.WholeRun
import RecordStore.Stream

/-! An aggregate lets go of its source exactly once, after its last read and before there is an
outcome. A source can be watched: it then keeps a log of what is done to it. -/
namespace RecordStore

/-- What is done to a source: a read, or that it is let go by a name. -/
inductive Access where
  | read (d : Delivery)
  | closed (name : String)

section
variable {σ : Type}

/-- The same records with a log of what is read. -/
def Reader.watched (r : Reader σ) : Reader (σ × List Access) where
  next p := ((r.next p.1).1, (r.next p.1).2, p.2 ++ [.read (r.next p.1).1])
  size p := r.size p.1
  size_next {s t v} h := by
    simp only [Prod.mk.injEq] at h
    rw [← h.2]
    exact r.size_next (Prod.ext h.1 rfl)

def Closer.watched (name : String) : Closer σ → Closer (σ × List Access)
  | immediate work => .immediate fun p => (work p.1, p.2 ++ [.closed name])
  | deferred work => .deferred fun p => (work p.1, p.2 ++ [.closed name])
  | uncallable => .uncallable

/-- The same source with a log of what is done to it. -/
def Handle.watched (h : Handle σ) : Handle (σ × List Access) where
  direct := h.direct.map Reader.watched
  awaited := h.awaited.map Reader.watched
  aclose := h.aclose.watched "aclose"
  close := h.close.watched "close"

theorem Reader.next_watched {r : Reader σ} {s t : σ} {d : Delivery} (h : r.next s = (d, t))
    (log : List Access) : r.watched.next (s, log) = (d, t, log ++ [.read d]) := by
  simp [watched, h]

end

namespace Source
variable {σ α : Type}

theorem fold_of_reader {src other : Source σ} (h : src.toReader = other.toReader)
    (step : α → Value → Except Failure α) (a : α) (s : σ) :
    src.fold step a s = other.fold step a s := by
  have hnext {s : σ} {r : Delivery × σ} (hn : src.next s = r) : other.next s = r := by
    rw [← h, hn]
  obtain ⟨vs, ending, t, hd⟩ := src.exists_delivers s
  induction hd generalizing a with
  | finished hn => rw [fold_finished hn, fold_finished (hnext hn)]
  | failed hn => rw [fold_failed hn, fold_failed (hnext hn)]
  | @record s t u v vs ending hn _ ih =>
    rw [fold_record hn, fold_record (hnext hn)]
    cases step a v with
    | error f => rfl
    | ok b => exact ih b

section
variable (src : Source σ) (step : α → Value → Except Failure α)

theorem fold_keeps {P : σ → Prop} (hnext : ∀ s, P s → P (src.next s).2) (a : α) {s : σ}
    (hs : P s) : P (src.fold step a s).2 := by
  obtain ⟨vs, ending, t, hd⟩ := src.exists_delivers s
  induction hd generalizing a with
  | finished hn =>
    have ht := hnext _ hs
    rw [fold_finished hn]
    rwa [hn] at ht
  | failed hn =>
    have ht := hnext _ hs
    rw [fold_failed hn]
    rwa [hn] at ht
  | record hn _ ih =>
    have ht := hnext _ hs
    rw [hn] at ht
    rw [fold_record hn]
    split
    · exact ih _ ht
    · exact ht

/-- Watching changes nothing, and sees each read: those of records that were taken in, and a last
one that gave the end, a failure, or a record that the step refuses. -/
theorem fold_watched (r : Reader σ) (a : α) (s : σ) (log : List Access) :
    ∃ (taken : List Value) (d : Delivery) (b : α), taken.foldlM step a = .ok b ∧
      (∀ v, d = .record v → ∃ f, step b v = .error f ∧
        ((r.source id).fold step a s).1 = (b, some f)) ∧
      (r.watched.source id).fold step a (s, log) = (((r.source id).fold step a s).1,
        ((r.source id).fold step a s).2, log ++ (taken.map Delivery.record ++ [d]).map .read) := by
  obtain ⟨vs, ending, t, hd⟩ := (r.source id).exists_delivers s
  have hnext {s t : σ} {d : Delivery} (h : (r.source id).next s = (d, t)) (log : List Access) :
      (r.watched.source id).next (s, log) = (d, t, log ++ [.read d]) := r.next_watched h log
  induction hd generalizing a log with
  | finished hn =>
    refine ⟨[], .finished, a, rfl, by simp, ?_⟩
    rw [fold_finished hn, fold_finished (hnext hn log)]
    rfl
  | @failed s t f hn =>
    refine ⟨[], .failed f, a, rfl, by simp, ?_⟩
    rw [fold_failed hn, fold_failed (hnext hn log)]
    rfl
  | @record s t u v vs ending hn _ ih =>
    rw [fold_record hn, fold_record (hnext hn log)]
    cases hs : step a v with
    | error f =>
      -- The record is read, and nothing after it.
      refine ⟨[], .record v, a, rfl, ?_, rfl⟩
      intro w hw
      cases hw
      exact ⟨f, hs, rfl⟩
    | ok b =>
      obtain ⟨taken, d, c, htaken, hlast, hlog⟩ := ih b (log ++ [.read (.record v)])
      refine ⟨v :: taken, d, c, ?_, hlast, ?_⟩
      · rw [List.foldlM_cons, hs]
        exact htaken
      · simpa using hlog

end

end Source

theorem Handle.letGo_watched {σ : Type} (h : Handle σ)
    (hcallable : h.aclose.isCallable ∨ h.close.isCallable) (s : σ) (log : List Access) :
    h.watched.letGo (s, log) = (h.letGo s,
      log ++ [.closed (if h.aclose.isCallable then "aclose" else "close")]) := by
  obtain ⟨direct, awaited, aclose, close⟩ := h
  cases aclose with
  | immediate | deferred => rfl
  | uncallable =>
    cases close with
    | immediate | deferred => rfl
    | uncallable => simp [Closer.isCallable] at hcallable

namespace Stream
variable {σ : Type} {src : Source σ}

/-- A stream has let go of its source once if it is closed, and not at all before. -/
def ReleasedOnce (s : Stream σ) : Prop := s.releases = if s.closed then 1 else 0

theorem next_releasedOnce {s : Stream σ} (h : s.ReleasedOnce) :
    (s.next src).2.ReleasedOnce := by
  unfold ReleasedOnce at h ⊢
  by_cases hclosed : s.closed = true
  · rw [next, if_pos hclosed]
    exact h
  · have hnone : s.releases = 0 := by simpa [hclosed] using h
    rw [next, if_neg hclosed]
    split <;> simp [release, hclosed, hnone]

theorem close_releasedOnce {s : Stream σ} (h : s.ReleasedOnce) :
    (s.close src).closed = true ∧ (s.close src).releases = 1 := by
  unfold ReleasedOnce at h
  by_cases hclosed : s.closed = true
  · simpa [close, hclosed] using h
  · simpa [close, hclosed, release] using h

end Stream

namespace Aggregate

theorem exists_begin_iff {spec : Except Failure Spec} {options : Except Failure RunOptions} :
    (∃ run, begin spec options = .ok run) ↔ ∃ s o, spec = .ok s ∧ options = .ok o ∧
      extensionStats? s.stats = none ∧ (s.clauses = none → o.presents? = some false) := by
  constructor
  · intro h
    obtain ⟨run, hrun⟩ := h
    obtain ⟨s, o, hs, ho, hx, hp, -⟩ := begin_eq_ok.mp hrun
    exact ⟨s, o, hs, ho, hx, hp⟩
  · intro h
    obtain ⟨s, o, hs, ho, hx, hp⟩ := h
    exact ⟨_, begin_eq_ok.mpr ⟨s, o, hs, ho, hx, hp, rfl⟩⟩

theorem ofSource_releasedOnce [Present] {σ : Type} {src : Source σ} (start : Except Failure Run)
    {s : Stream σ} (hs : s.ReleasedOnce) :
    (ofSource (Stream.source src) start s).2.closed = true ∧
      (ofSource (Stream.source src) start s).2.releases = 1 := by
  cases start with
  | error f => exact Stream.close_releasedOnce hs
  | ok run =>
    have hlast := (Stream.source src).fold_keeps Run.step
      (fun _ => Stream.next_releasedOnce) run hs
    exact Stream.close_releasedOnce hlast

section
variable {σ : Type} {start : Except Failure Run} {h : Handle σ} {reader : Reader σ}

/-- Both kinds of aggregate are one over a source that is let go in their way. -/
theorem overReader_eq [Present] (start : Except Failure Run) (reader : Reader σ) (close : σ → σ)
    (s : σ) :
    (overReader start (some reader) s).1 = (ofSource (reader.source close) start s).1 ∧
      close (overReader start (some reader) s).2 = (ofSource (reader.source close) start s).2 := by
  cases start with
  | error f => exact ⟨rfl, rfl⟩
  | ok run =>
    have hreader : (reader.source id).toReader = (reader.source close).toReader := rfl
    have hfold := Source.fold_of_reader hreader Run.step run s
    rw [overReader, ofSource, hfold]
    exact ⟨rfl, rfl⟩

theorem runDirect_eq [Present] (hr : h.direct = some reader) (s : σ) :
    runDirect start h s = ofSource (reader.source h.close.called) start s := by
  obtain ⟨houtcome, hlast⟩ := overReader_eq start reader h.close.called s
  rw [runDirect, hr]
  exact Prod.ext houtcome hlast

theorem runDirect_ofAsyncIterator [Present] (src : Source σ) (start : Except Failure Run) (s : σ) :
    runDirect start (.ofAsyncIterator src) s = (ofAwaited start, s) := by
  cases start <;> rfl

theorem runAwaiting_eq [Present] (hr : h.awaited.or h.direct = some reader) (s : σ) :
    runAwaiting start h s = ofSource (reader.source h.letGo) start s := by
  obtain ⟨houtcome, hlast⟩ := overReader_eq start reader h.letGo s
  rw [runAwaiting, hr]
  exact Prod.ext houtcome hlast

/-- Over a source that is gone through at once, and let go at once by its one name, waiting makes no
difference. -/
theorem runDirect_eq_runAwaiting [Present] {work : σ → σ} (hr : h.direct = some reader)
    (hawaited : h.awaited = none) (haclose : h.aclose = .uncallable)
    (hclose : h.close = .immediate work) (s : σ) :
    runDirect start h s = runAwaiting start h s := by
  have hboth : h.awaited.or h.direct = some reader := by rw [hawaited, hr, Option.none_or]
  have hgo : h.letGo = h.close.called := by
    funext t
    simp [Handle.letGo, haclose, hclose, Closer.isCallable, Closer.awaited, Closer.called]
  rw [runDirect_eq hr, runAwaiting_eq hboth, hgo]

theorem runAwaiting_stream [Present] (src : Source σ) (start : Except Failure Run) (s : Stream σ) :
    runAwaiting start (Stream.handle src) s = ofSource (Stream.source src) start s :=
  runAwaiting_eq rfl s

end

/-- What an aggregate reads: nothing if it cannot start, and otherwise records that it takes in and
then one more time, for the end, for a failure, or for a record that it cannot take in, which is
then its outcome. -/
def ReadsFor [Present] (start : Except Failure Run) (result : Except Failure Result)
    (reads : List Delivery) : Prop :=
  (∀ f, start = .error f → reads = [] ∧ result = .error f) ∧
  ∀ run, start = .ok run → ∃ (taken : List Value) (d : Delivery) (mid : Run),
    reads = taken.map Delivery.record ++ [d] ∧ run.feedAll taken = .ok mid ∧
    ∀ v, d = .record v → ∃ e, mid.feed v = .error e ∧ result = .error e.failure

theorem overReader_watched [Present] {σ : Type} (start : Except Failure Run) (reader : Reader σ)
    (s : σ) :
    ∃ reads, overReader start (some reader.watched) (s, []) =
        ((overReader start (some reader) s).1, (overReader start (some reader) s).2,
          reads.map .read) ∧
      ReadsFor start (overReader start (some reader) s).1.result reads := by
  cases start with
  | error f => exact ⟨[], rfl, fun g hg => by cases hg; exact ⟨rfl, rfl⟩, nofun⟩
  | ok run =>
    obtain ⟨taken, d, mid, hmid, hlast, hlog⟩ := Source.fold_watched Run.step reader run s []
    rw [Run.foldlM_step, mapError_eq_ok] at hmid
    refine ⟨taken.map Delivery.record ++ [d], ?_, nofun, ?_⟩
    · simp only [overReader, hlog]
      rfl
    · intro run' heq
      cases heq
      refine ⟨taken, d, mid, rfl, hmid, ?_⟩
      intro v hd
      obtain ⟨f, hf, hfold⟩ := hlast v hd
      cases he : mid.feed v with
      | ok after => simp [Run.step, he, Except.mapError] at hf
      | error e =>
        have hfault : e.failure = f := by simpa [Run.step, he, Except.mapError] using hf
        refine ⟨e, rfl, ?_⟩
        simp [overReader, hfold, Run.conclude, ← hfault, e.not_streamClosed]

/-- Whatever comes of an aggregate, it reads its source and then lets go of it, once, and has no
outcome before: by `close` if it waits for nothing, and if it waits by `aclose`, or else by `close`.
It reads nothing unless it starts, and nothing behind a record that it cannot take in. A stream has
let go of what it reads from by then. -/
theorem source_closed_once [Present] (config : RequestOptions) (request : Request)
    (options : Value) :
    let start := begin (request.spec config) (optionsOf options)
    ((∃ run, start = .ok run) ↔ ∃ spec o, request.spec config = .ok spec ∧
      optionsOf options = .ok o ∧ extensionStats? spec.stats = none ∧
      (spec.clauses = none → o.presents? = some false)) ∧
    (∀ (σ : Type) (h : Handle σ) (s : σ),
      (h.direct.isSome → (∃ work, h.close = .immediate work) → ∃ reads,
        runDirect start h.watched (s, []) = ((runDirect start h s).1, (runDirect start h s).2,
          reads.map .read ++ [.closed "close"]) ∧
        ReadsFor start (runDirect start h s).1.result reads) ∧
      (h.awaited.isSome ∨ h.direct.isSome → h.aclose.isCallable ∨ h.close.isCallable → ∃ reads,
        runAwaiting start h.watched (s, []) =
          ((runAwaiting start h s).1, (runAwaiting start h s).2, reads.map .read ++
            [.closed (if h.aclose.isCallable then "aclose" else "close")]) ∧
        ReadsFor start (runAwaiting start h s).1.result reads)) ∧
    ∀ (σ : Type) (src : Source σ) (s : Stream σ), s.ReleasedOnce →
      (runAwaiting start (Stream.handle src) s).2.closed = true ∧
      (runAwaiting start (Stream.handle src) s).2.releases = 1 := by
  intro start
  refine ⟨exists_begin_iff, fun σ h s => ⟨?_, ?_⟩, fun σ src s hs => ?_⟩
  · intro hdirect hclose
    obtain ⟨reader, hreader⟩ := Option.isSome_iff_exists.mp hdirect
    obtain ⟨work, hclose⟩ := hclose
    obtain ⟨reads, hread, hreads⟩ := overReader_watched start reader s
    refine ⟨reads, ?_, ?_⟩
    · simp only [runDirect, Handle.watched, hreader, hclose, Option.map_some, hread]
      rfl
    · simpa only [runDirect, hreader] using hreads
  · intro hread hcallable
    obtain ⟨reader, hreader⟩ : ∃ reader, h.awaited.or h.direct = some reader := by
      rw [← Option.isSome_iff_exists, Option.isSome_or, Bool.or_eq_true]
      exact hread
    have hwatched : h.watched.awaited.or h.watched.direct = some reader.watched := by
      rw [← Option.map_some, ← hreader, Option.map_or]
      rfl
    obtain ⟨reads, hread, hreads⟩ := overReader_watched start reader s
    refine ⟨reads, ?_, ?_⟩
    · simp only [runAwaiting, hwatched, hreader, hread, h.letGo_watched hcallable]
    · simpa only [runAwaiting, hreader] using hreads
  · rw [runAwaiting_stream]
    exact ofSource_releasedOnce start hs

/-- A text among numbers that are compared is the last that is read, whoever reads them. -/
theorem source_closed_once_of_text_among_numbers :
    let r (n : Value) : Value := .object [("n", n)]
    let supply : Supply := { pending := [r (.int 1), r (.str "x"), r (.int 3)] }
    let plain := Handle.ofIterator Supply.source
    let deferred := Handle.ofAsyncIterator Supply.source
    let stream : Stream Supply := { name := .str "numbers", inner := supply }
    let request : Request :=
      .given (.object [("stats", .object [("n", .object [("min", .bool true)])])])
    let start := begin (request.spec {}) (optionsOf .null)
    let reads : List Access := [.read (.record (r (.int 1))), .read (.record (r (.str "x")))]
    (runDirect start plain.watched (supply, [])).2.2 = reads ++ [.closed "close"] ∧
      (∃ e : RecordError, (runDirect start plain supply).1.result = .error e.failure) ∧
      (runAwaiting start deferred.watched (supply, [])).2.2 = reads ++ [.closed "aclose"] ∧
      (∃ e : RecordError, (runAwaiting start deferred supply).1.result = .error e.failure) ∧
      (runAwaiting start (Stream.handle Supply.source) stream).2.releases = 1 := by
  intro r supply plain deferred stream request start reads
  obtain ⟨-, hreads, hstream⟩ := source_closed_once {} request .null
  have hlast {log : List Delivery} {result : Except Failure Result} {name : String}
      (hlog : log.map Access.read ++ [.closed name] = reads ++ [.closed name])
      (h : ReadsFor start result log) : ∃ e : RecordError, result = .error e.failure := by
    have hread : log.map Access.read = reads := List.append_cancel_right hlog
    obtain ⟨-, hstarted⟩ := h
    obtain ⟨_, d, mid, rfl, -, hrefused⟩ := hstarted _ rfl
    have hd : some (Access.read d) = reads.getLast? := by
      rw [← hread, List.map_append, List.map_singleton, List.getLast?_concat]
    obtain ⟨e, -, hresult⟩ := hrefused (r (.str "x")) (by simpa [reads] using hd)
    exact ⟨e, hresult⟩
  obtain ⟨direct, hdirect, hrefused⟩ := (hreads _ plain supply).1 rfl ⟨_, rfl⟩
  obtain ⟨waited, hwaited, hrefused'⟩ := (hreads _ deferred supply).2 (.inl rfl) (.inl rfl)
  have hlog : (runDirect start plain.watched (supply, [])).2.2 = reads ++ [.closed "close"] := rfl
  have hlog' : (runAwaiting start deferred.watched (supply, [])).2.2 =
      reads ++ [.closed "aclose"] := rfl
  rw [hdirect] at hlog
  rw [hwaited] at hlog'
  refine ⟨?_, hlast hlog hrefused, ?_, hlast hlog' hrefused',
    (hstream _ Supply.source stream rfl).2⟩
  · rw [hdirect, hlog]
  · rw [hwaited, hlog']

end Aggregate

end RecordStore
