import RecordStore.Collection.Aggregate
import RecordStore.Collection.Document
import RecordStore.Proofs.Inversion

/-! What an action gives and leaves behind, step by step. A step that fails ends it. -/
namespace RecordStore

section
variable {ε σ α β : Type} {a : ExceptT ε (StateM σ) α} {f : α → ExceptT ε (StateM σ) β} {s t : σ}

theorem run_bind_ok {x : α} (h : a.run.run s = (.ok x, t)) :
    (a >>= f).run.run s = (f x).run.run t := by
  simp only [ExceptT.run_bind, StateT.run_bind, h]
  rfl

theorem run_bind_error {e : ε} (h : a.run.run s = (.error e, t)) :
    (a >>= f).run.run s = (.error e, t) := by
  simp only [ExceptT.run_bind, StateT.run_bind, h]
  rfl

theorem run_bind_eq_ok {y : β} : (a >>= f).run.run s = (.ok y, t) ↔
    ∃ x u, a.run.run s = (.ok x, u) ∧ (f x).run.run u = (.ok y, t) := by
  constructor
  · intro h
    cases ha : a.run.run s with
    | mk r u =>
      cases r with
      | error e =>
        rw [run_bind_error ha] at h
        cases h
      | ok x =>
        rw [run_bind_ok ha] at h
        exact ⟨x, u, rfl, h⟩
  · intro h
    obtain ⟨x, u, ha, hf⟩ := h
    rw [run_bind_ok ha, hf]

theorem run_bind_pure_state (x : β) :
    ((a >>= fun _ => pure x).run.run s).2 = (a.run.run s).2 := by
  cases h : a.run.run s with
  | mk r t =>
    cases r with
    | error e => rw [run_bind_error h]
    | ok y =>
      rw [run_bind_ok h]
      rfl

theorem run_get (f : σ → ExceptT ε (StateM σ) β) (s : σ) :
    (get >>= f).run.run s = (f s).run.run s := rfl

def Keeps (P : σ → Prop) (a : ExceptT ε (StateM σ) α) : Prop := ∀ s, P s → P (a.run.run s).2

theorem Keeps.bind {P : σ → Prop} (ha : Keeps P a) (hf : ∀ x, Keeps P (f x)) :
    Keeps P (a >>= f) := by
  intro s hs
  have ht := ha s hs
  cases h : a.run.run s with
  | mk r t =>
    rw [h] at ht
    cases r with
    | error e =>
      rw [run_bind_error h]
      exact ht
    | ok x =>
      rw [run_bind_ok h]
      exact hf x t ht

end

namespace Collection
variable {α β : Type} {c : Collection}

theorem ofExcept_run (r : Except Failure α) : (ofExcept r).run.run c = (r, c) := by
  cases r <;> rfl

theorem ofExcept_keeps {P : Collection → Prop} (r : Except Failure α) : Keeps P (ofExcept r) := by
  intro c hc
  rw [ofExcept_run]
  exact hc

theorem ofExcept_eq_ok {r : Except Failure α} {a : α} {d : Collection} :
    (ofExcept r).run.run c = (.ok a, d) ↔ r = .ok a ∧ c = d := by
  rw [ofExcept_run, Prod.mk.injEq]

theorem run_ofExcept {r : Except Failure α} {a : α} (h : r = .ok a) (f : α → Action β) :
    (ofExcept r >>= f).run.run c = (f a).run.run c := by
  rw [h]
  rfl

theorem run_ofExcept_error {r : Except Failure α} {f : Failure} (h : r = .error f)
    (next : α → Action β) : (ofExcept r >>= next).run.run c = (.error f, c) := by
  rw [h]
  rfl

theorem run_ofStore {operation : String} {r : Except StoreError α} {a : α} (h : r = .ok a)
    (f : α → Action β) : (ofStore operation r >>= f).run.run c = (f a).run.run c := by
  rw [h]
  rfl

theorem run_ofStore_error {operation : String} {r : Except StoreError α} {e : StoreError}
    (h : r = .error e) (f : α → Action β) : (ofStore operation r >>= f).run.run c =
      (.error (e.toFailure (.str operation) c.name), c) := by
  rw [h]
  rfl

theorem readSpec_run [Present] (request : Value) (c : Collection) : (readSpec request).run.run c =
    ((Aggregate.Request.given request).spec c.options.aggregate, c) := by
  unfold readSpec
  rw [run_get, ofExcept_run]

theorem note_heard (heard : List Hooks.Heard) (c : Collection) :
    (heard.forM fun h => note (.heard h) : Action Unit).run.run c =
      (.ok (), { c with trace := c.trace ++ heard.map .heard }) := by
  induction heard generalizing c with
  | nil =>
    rw [List.map_nil, List.append_nil]
    rfl
  | cons h heard ih =>
    have hnote : (note (.heard h)).run.run c =
        (.ok (), { c with trace := c.trace ++ [.heard h] }) := rfl
    have hrest := ih { c with trace := c.trace ++ [.heard h] }
    rw [List.append_assoc] at hrest
    exact (run_bind_ok hnote).trans hrest

theorem settle_run (told : Hooks.Told β) (c : Collection) : (settle told).run.run c =
    (told.result.map fun _ => told.subject,
      { c with trace := c.trace ++ told.heard.map .heard }) := by
  unfold settle
  rw [run_bind_ok (note_heard told.heard c)]
  cases told.result <;> rfl

theorem document_told (r : Record) (c : Collection) : (document (.object r)).run.run c =
    ((c.hooks.triggerNow Hooks.postInit (Value.object r)).result.map fun _ =>
        .document (c.hooks.triggerNow Hooks.postInit (Value.object r)).subject,
      { c with trace := c.trace ++
        (c.hooks.triggerNow Hooks.postInit (Value.object r)).heard.map .heard }) := by
  have htold := settle_run (c.hooks.triggerNow Hooks.postInit (Value.object r)) c
  unfold document
  rw [run_get]
  cases hresult : (c.hooks.triggerNow Hooks.postInit (Value.object r)).result with
  | error f =>
    rw [hresult] at htold
    exact run_bind_error htold
  | ok _ =>
    rw [hresult] at htold
    exact run_bind_ok htold

end Collection

namespace Handling
variable {α : Type} {c : Collection} {data : Value}

theorem lift_run (a : Action α) : (lift a).run.run (c, data) =
    ((a.run.run c).1, ((a.run.run c).2, data)) := rfl

/-- Telling listeners changes the data and what the collection has seen, and nothing else. -/
theorem trigger_run (event : Value) (c : Collection) (data : Value) :
    (trigger event).run.run (c, data) = ((c.hooks.trigger event data).result,
      ({ c with trace := c.trace ++ (c.hooks.trigger event data).heard.map .heard },
        (c.hooks.trigger event data).subject)) := by
  have hset : (setData (c.hooks.trigger event data).subject).run.run (c, data) =
      (.ok (), (c, (c.hooks.trigger event data).subject)) := rfl
  have hlift : (lift ((c.hooks.trigger event data).heard.forM fun h =>
      Collection.note (.heard h))).run.run (c, (c.hooks.trigger event data).subject) =
      (.ok (), ({ c with trace := c.trace ++ (c.hooks.trigger event data).heard.map .heard },
        (c.hooks.trigger event data).subject)) := by
    rw [lift_run, Collection.note_heard]
  unfold trigger
  rw [run_get]
  dsimp only
  rw [run_bind_ok hset, run_bind_ok hlift, ofExcept, lift_run, Collection.ofExcept_run]

end Handling

end RecordStore
