import RecordStore.Source

/-! A stream reads from a source and lets go of it once: at its end, or when it is closed before.
After its end a read only stops; after an earlier close it fails. -/
namespace RecordStore

/-- A stream over a source with states in `σ`. -/
structure Stream (σ : Type) where
  /-- Name of the collection that it reads, or null. -/
  name : Value
  inner : σ
  closed : Bool := false
  /-- It came to its end. -/
  exhausted : Bool := false
  /-- How often the source was let go. -/
  releases : Nat := 0

namespace Stream

variable {σ τ : Type}

def closedFault (name : Value) : Failure :=
  .domain { fault := .streamClosed, operation := .str "find_stream", collection := name }

def release (src : Source σ) (s : Stream σ) : Stream σ :=
  { s with inner := src.close s.inner, closed := true, releases := s.releases + 1 }

def next (src : Source σ) (s : Stream σ) : Delivery × Stream σ :=
  if s.closed then (if s.exhausted then .finished else .failed (closedFault s.name), s)
  else match src.next s.inner with
    | (.finished, t) => (.finished, { release src { s with inner := t } with exhausted := true })
    | (d, t) => (d, { s with inner := t })

def close (src : Source σ) (s : Stream σ) : Stream σ :=
  if s.closed then s else s.release src

def source (src : Source σ) : Source (Stream σ) where
  next := next src
  close := close src
  size s := src.size s.inner
  size_next {s t v} h := by
    unfold next at h
    split at h
    · split at h <;> simp at h
    · split at h
      · simp at h
      · rename_i d u _ hn
        simp only [Prod.mk.injEq] at h
        rw [← h.2]
        exact src.size_next (h.1 ▸ hn)

/-- A stream as it is handed over: its reads and its closing have to be waited for. -/
def handle (src : Source σ) : Handle (Stream σ) where
  awaited := some (source src).toReader
  close := .deferred (close src)

/-- The documents to come; the stream is closed afterwards, also when reading fails. -/
def toList (src : Source σ) (s : Stream σ) : Except Failure (List Value) × Stream σ :=
  (source src).toList s

def map (f : σ → τ) (s : Stream σ) : Stream τ :=
  ⟨s.name, f s.inner, s.closed, s.exhausted, s.releases⟩

def noTotal (name : Value) : Failure :=
  .domain { fault := .noTotal, operation := .str "total", collection := name }

end Stream

end RecordStore
