import RecordStore.Fault

/-! Sources of records: read one at a time, and let go of when done. -/
namespace RecordStore

inductive Delivery where
  | record (v : Value)
  | finished
  | failed (f : Failure)

/-- How records are read, with states in `σ`. Each record brings the end closer. -/
structure Reader (σ : Type) where
  next : σ → Delivery × σ
  /-- No more records than this are still to come. -/
  size : σ → Nat
  size_next : ∀ {s t v}, next s = (.record v, t) → size t < size s

structure Source (σ : Type) extends Reader σ where
  close : σ → σ

def Reader.source {σ : Type} (r : Reader σ) (close : σ → σ) : Source σ := { r with close }

namespace Source

variable {σ : Type}

/-- Reads to the end with a step that takes each record in and may fail; the fuel bounds the number
of records. Gives what was taken in and how the reading ended: well, or with a failure of the
source or of a step. -/
def foldUpTo {α : Type} (src : Source σ) (step : α → Value → Except Failure α) :
    Nat → α → σ → (α × Option Failure) × σ
  | fuel, acc, s => match src.next s, fuel with
    | (.finished, s), _ => ((acc, none), s)
    | (.failed f, s), _ => ((acc, some f), s)
    | (.record _, s), 0 => ((acc, none), s)
    | (.record v, s), fuel + 1 => match step acc v with
      | .ok acc => foldUpTo src step fuel acc s
      | .error f => ((acc, some f), s)

def fold {α : Type} (src : Source σ) (step : α → Value → Except Failure α) (acc : α) (s : σ) :
    (α × Option Failure) × σ :=
  foldUpTo src step (src.size s) acc s

def toList (src : Source σ) (s : σ) : Except Failure (List Value) × σ :=
  let ((taken, failure), s) := src.fold (fun acc v => .ok (v :: acc)) [] s
  (match failure with
    | none => .ok taken.reverse
    | some f => .error f, src.close s)

def ofList : Source (List Value) where
  next
    | [] => (.finished, [])
    | v :: vs => (.record v, vs)
  close vs := vs
  size := List.length
  size_next {s t v} h := by cases s <;> simp_all

def unreadable : Source Unit where
  next _ := (.failed .notReadable, ())
  close _ := ()
  size _ := 0
  size_next h := by simp at h

end Source

/-- What a source has under a name: something that lets go of it when it is called, something whose
call has to be waited for to do so, or nothing that can be called. -/
inductive Closer (σ : Type) where
  | immediate (work : σ → σ)
  | deferred (work : σ → σ)
  | uncallable

namespace Closer
variable {σ : Type}

def isCallable : Closer σ → Bool
  | uncallable => false
  | _ => true

/-- What a call does that nobody waits for. -/
def called : Closer σ → σ → σ
  | immediate work, s => work s
  | _, s => s

/-- What a call does that is waited for if need be. -/
def awaited : Closer σ → σ → σ
  | immediate work, s | deferred work, s => work s
  | uncallable, s => s

end Closer

/-- A source as it is handed over: how it is gone through at once or by waiting for each record, if
it can be, and what it has under the two names of what may let go of it. -/
structure Handle (σ : Type) where
  direct : Option (Reader σ) := none
  awaited : Option (Reader σ) := none
  aclose : Closer σ := .uncallable
  close : Closer σ := .uncallable

namespace Handle
variable {σ : Type}

/-- Lets go by the first name that can be called, and by that one alone. -/
def letGo (h : Handle σ) (s : σ) : σ :=
  if h.aclose.isCallable then h.aclose.awaited s
  else if h.close.isCallable then h.close.awaited s
  else s

def ofIterator (src : Source σ) : Handle σ where
  direct := some src.toReader
  close := .immediate src.close

def ofAsyncIterator (src : Source σ) : Handle σ where
  awaited := some src.toReader
  aclose := .deferred src.close

end Handle

inductive Ending where
  | finished
  /-- It is closed by someone else. -/
  | closed
  | cancelled
deriving DecidableEq

/-- A supply that counts its records and how often it is let go. -/
structure Supply where
  pending : List Value
  ending : Ending := .finished
  read : Nat := 0
  closings : Nat := 0

namespace Supply

def closedOutside : Failure :=
  .domain {
    fault := .stated .streamClosed (.str "record source closed")
    operation := .str "read" }

def last : Ending → Delivery
  | .finished => .finished
  | .closed => .failed closedOutside
  | .cancelled => .failed .cancelled

/-- How a supply ends once so many records are read, if it is closed or cancelled then; closing
comes first. -/
def endingAt? (closedAfter cancelledAfter : Value) (read : Nat) : Option Ending :=
  if closedAfter.eq (.int read) then some .closed
  else if cancelledAfter.eq (.int read) then some .cancelled
  else none

/-- The records up to an early end; an end that they do not reach is none. -/
def cut (records : List Value) (closedAfter cancelledAfter : Value) : Supply :=
  let ending? := endingAt? closedAfter cancelledAfter
  match (List.range (records.length + 1)).findSome? fun n => (ending? n).map (n, ·) with
  | some (n, ending) => { pending := records.take n, ending }
  | none => { pending := records }

def source : Source Supply where
  next s := match s.pending with
    | [] => (last s.ending, s)
    | v :: vs => (.record v, { s with pending := vs, read := s.read + 1 })
  close s := { s with closings := s.closings + 1 }
  size s := s.pending.length
  size_next {s t v} h := by
    obtain ⟨pending, ending, read, closings⟩ := s
    cases pending with
    | nil => cases ending <;> simp [last] at h
    | cons w ws =>
      simp only [Prod.mk.injEq] at h
      rw [← h.2]
      simp

end Supply

end RecordStore
