import RecordStore.Proofs.Actions

/-! Listeners that are told and waited for: one after the other, each of what the one before it
left, up to the first that fails. -/
namespace RecordStore

namespace Hooks

section
variable {β : Type} [Subject β] {l : Listener} {ls : List Listener} {s t : β}
  {heard : List Heard} {k : Nat} {f : Failure}

def Listener.hears (l : Listener) (s : β) : Heard := ⟨l.name, Subject.shown s⟩

/-- No listener fails: what they hear in order, and what they leave. -/
inductive Pass : List Listener → β → List Heard → β → Prop
  | nil (s : β) : Pass [] s [] s
  | cons {l : Listener} {ls : List Listener} {s t : β} {heard : List Heard}
      (first : (l.tell s).result = .ok ()) (behind : Pass ls (l.tell s).subject heard t) :
      Pass (l :: ls) s (l.hears s :: heard) t

/-- The first listener that fails is that at a position: what was heard up to it, and what it
leaves. -/
inductive Stop : List Listener → Nat → β → List Heard → β → Failure → Prop
  | here {l : Listener} {ls : List Listener} {s : β} {f : Failure}
      (fails : (l.tell s).result = .error f) :
      Stop (l :: ls) 0 s [l.hears s] (l.tell s).subject f
  | behind {l : Listener} {ls : List Listener} {k : Nat} {s t : β} {heard : List Heard}
      {f : Failure} (first : (l.tell s).result = .ok ())
      (stop : Stop ls k (l.tell s).subject heard t f) :
      Stop (l :: ls) (k + 1) s (l.hears s :: heard) t f

theorem Listener.tell_heard (l : Listener) (s : β) : (l.tell s).heard = [l.hears s] := by
  unfold Listener.tell
  dsimp only
  cases l.change s <;> rfl

theorem tellAll_of_fails (h : (l.tell s).result = .error f) (event : Value) :
    tellAll true event (l :: ls) s = l.tell s := by
  rw [tellAll, Bool.not_true, Bool.and_false, if_neg Bool.false_ne_true]
  dsimp only
  rw [h]

theorem tellAll_of_passes (h : (l.tell s).result = .ok ()) (event : Value) :
    tellAll true event (l :: ls) s =
      { tellAll true event ls (l.tell s).subject with
        heard := l.hears s :: (tellAll true event ls (l.tell s).subject).heard } := by
  rw [tellAll, Bool.not_true, Bool.and_false, if_neg Bool.false_ne_true]
  dsimp only
  rw [h, l.tell_heard]
  rfl

theorem Pass.tellAll (h : Pass ls s heard t) (event : Value) :
    tellAll true event ls s = ⟨heard, t, .ok ()⟩ := by
  induction h with
  | nil s => rfl
  | cons first _ ih => rw [tellAll_of_passes first, ih]

theorem Stop.tellAll (h : Stop ls k s heard t f) (event : Value) :
    tellAll true event ls s = ⟨heard, t, .error f⟩ := by
  induction h with
  | @here l ls s f fails =>
    rw [tellAll_of_fails fails, ← fails, ← l.tell_heard]
  | behind first _ ih => rw [tellAll_of_passes first, ih]

theorem pass_or_stop (ls : List Listener) (s : β) :
    (∃ heard t, Pass ls s heard t) ∨ ∃ k heard t f, Stop ls k s heard t f := by
  induction ls generalizing s with
  | nil => exact .inl ⟨[], s, .nil s⟩
  | cons l ls ih =>
    cases hfirst : (l.tell s).result with
    | error f => exact .inr ⟨0, _, _, f, .here hfirst⟩
    | ok _ =>
      rcases ih (l.tell s).subject with ⟨heard, t, h⟩ | ⟨k, heard, t, f, h⟩
      · exact .inl ⟨_, t, .cons hfirst h⟩
      · exact .inr ⟨k + 1, _, t, f, .behind hfirst h⟩

theorem Pass.names (h : Pass ls s heard t) :
    heard.map Heard.listener = ls.map Listener.name := by
  induction h with
  | nil => rfl
  | cons _ _ ih => rw [List.map_cons, List.map_cons, ih]; rfl

theorem Stop.names (h : Stop ls k s heard t f) :
    heard.map Heard.listener = (ls.take (k + 1)).map Listener.name := by
  induction h with
  | here => rfl
  | behind _ _ ih => rw [List.take_succ_cons, List.map_cons, List.map_cons, ih]; rfl

end

theorem Listener.tell_object (l : Listener) (r : Record) :
    ∃ left : Record, (l.tell (Value.object r)).subject = .object left := by
  unfold Listener.tell
  dsimp only
  cases hchange : l.change (Value.object r) with
  | error f => exact ⟨r, rfl⟩
  | ok changed =>
    have hobject : ∃ ms : Record, changed = .object ms := by
      unfold Listener.change at hchange
      split at hchange
      · rename_i key v _
        change Value.putMember (.object r) key v = .ok changed at hchange
        unfold Value.putMember at hchange
        dsimp only at hchange
        split at hchange
        · cases hchange
          exact ⟨_, rfl⟩
        · cases hchange
      · cases hchange
        exact ⟨r, rfl⟩
    obtain ⟨ms, rfl⟩ := hobject
    exact ⟨l.alteration.apply ms, rfl⟩

theorem Pass.object {ls : List Listener} {r : Record} {heard : List Heard} {left : Value}
    (h : Pass ls (Value.object r) heard left) : ∃ s : Record, left = .object s := by
  generalize hdata : Value.object r = data at h
  induction h generalizing r with
  | nil => exact ⟨r, hdata.symm⟩
  | @cons l ls data left heard first behind ih =>
    subst hdata
    obtain ⟨s, hs⟩ := l.tell_object r
    exact ih hs.symm

theorem Registry.listeners_register {r after : Registry} {point : String} {l : Listener}
    (h : r.register (.str point) l = .ok after) (other : String) :
    after.listeners (.str other) =
      r.listeners (.str other) ++ if point = other then [l] else [] := by
  cases h
  have hsame : (Value.str point).isElement (.str other) ↔ point = other := by
    simp [Value.isElement, Value.isSameNaN, Value.eq]
  rw [listeners, List.filterMap_append, ← listeners, List.filterMap_cons]
  dsimp only
  rw [if_congr hsame rfl rfl]
  by_cases hpoint : point = other <;> simp [hpoint]

end Hooks

namespace Collection

def hearing (c : Collection) (heard : List Hooks.Heard) : Collection :=
  { c with trace := c.trace ++ heard.map .heard }

theorem hearing_nil (c : Collection) : c.hearing [] = c := by
  rw [hearing, List.map_nil, List.append_nil]

end Collection

namespace Handling
open Hooks
variable {c : Collection} {data left : Value} {heard : List Heard} {point : String} {k : Nat}
  {f : Failure}

theorem pass_of_no_hooks (hh : c.hooks = []) (point : String) (data : Value) :
    Pass (c.hooks.listeners (.str point)) data [] data := by
  rw [hh]
  exact .nil data

theorem trigger_of_pass (h : Pass (c.hooks.listeners (.str point)) data heard left) :
    (trigger (.str point)).run.run (c, data) = (.ok (), (c.hearing heard, left)) := by
  have htold : c.hooks.trigger (.str point) data = ⟨heard, left, .ok ()⟩ := h.tellAll _
  rw [trigger_run, htold]
  rfl

theorem trigger_silent (hh : c.hooks = []) (point : String) (data : Value) :
    (trigger (.str point)).run.run (c, data) = (.ok (), (c, data)) := by
  rw [trigger_of_pass (pass_of_no_hooks hh point data), Collection.hearing_nil]

theorem trigger_of_stop (h : Stop (c.hooks.listeners (.str point)) k data heard left f) :
    (trigger (.str point)).run.run (c, data) = (.error f, (c.hearing heard, left)) := by
  have htold : c.hooks.trigger (.str point) data = ⟨heard, left, .error f⟩ := h.tellAll _
  rw [trigger_run, htold]
  rfl

end Handling

end RecordStore
