import RecordStore.Proofs.Inversion

/-! How a computation fails: with a bad fault, or with one that is as it should be. A list of steps
fails badly where the first that gives nothing does. -/
namespace RecordStore

def FirstBad {α : Type} (good bad : α → Prop) (xs : List α) : Prop :=
  ∃ before x after, xs = before ++ x :: after ∧ (∀ y ∈ before, good y) ∧ bad x

section
variable {α : Type} {good good' bad bad' : α → Prop} {x : α} {xs : List α}

theorem firstBad_nil : ¬ FirstBad good bad [] := by
  intro h
  obtain ⟨before, x, after, hxs, -⟩ := h
  cases before <;> cases hxs

theorem firstBad_cons :
    FirstBad good bad (x :: xs) ↔ bad x ∨ good x ∧ FirstBad good bad xs := by
  constructor
  · intro h
    obtain ⟨before, y, after, hxs, hgood, hy⟩ := h
    cases before with
    | nil =>
      cases hxs
      exact .inl hy
    | cons x' before =>
      cases hxs
      obtain ⟨hx, hgood⟩ := List.forall_mem_cons.mp hgood
      exact .inr ⟨hx, before, y, after, rfl, hgood, hy⟩
  · intro h
    rcases h with hx | ⟨hx, before, y, after, rfl, hgood, hy⟩
    · exact ⟨[], x, xs, rfl, List.forall_mem_nil _, hx⟩
    · exact ⟨x :: before, y, after, rfl, List.forall_mem_cons.mpr ⟨hx, hgood⟩, hy⟩

theorem firstBad_congr (hgood : ∀ x, good x ↔ good' x) (hbad : ∀ x, bad x ↔ bad' x) :
    FirstBad good bad xs ↔ FirstBad good' bad' xs := by
  rw [funext fun x => propext (hgood x), funext fun x => propext (hbad x)]

theorem firstBad_of_not (h : ∀ x, good x ↔ ¬ bad x) : FirstBad good bad xs ↔ ∃ x ∈ xs, bad x := by
  induction xs with
  | nil => exact iff_of_false firstBad_nil (by simp)
  | cons x xs ih =>
    rw [firstBad_cons, ih, h]
    by_cases hx : bad x <;> simp [hx]

theorem firstBad_of_forall₂ {β : Type} {good' bad' : β → Prop} {R : α → β → Prop} {ys : List β}
    (hR : List.Forall₂ R xs ys) (hgood : ∀ x y, R x y → (good x ↔ good' y))
    (hbad : ∀ x y, R x y → (bad x ↔ bad' y)) :
    FirstBad good bad xs ↔ FirstBad good' bad' ys := by
  induction hR with
  | nil => exact iff_of_false firstBad_nil firstBad_nil
  | cons h _ ih => rw [firstBad_cons, firstBad_cons, ih, hgood _ _ h, hbad _ _ h]

end

def Fails {ε α : Type} (bad : ε → Prop) (r : Except ε α) : Prop := ∃ e, r = .error e ∧ bad e

section
variable {ε α β : Type} {bad : ε → Prop}

theorem fails_ok {a : α} : ¬ Fails bad (.ok a) := by
  simp [Fails]

theorem fails_pure {a : α} : ¬ Fails bad (pure a : Except ε α) := fails_ok

theorem fails_error {e : ε} : Fails bad (.error e : Except ε α) ↔ bad e := by
  simp [Fails]

theorem fails_bind {x : Except ε α} {f : α → Except ε β} :
    Fails bad (x >>= f) ↔ Fails bad x ∨ ∃ a, x = .ok a ∧ Fails bad (f a) := by
  cases x with
  | ok a => simp [ok_bind, fails_ok]
  | error e =>
    have hbind : (.error e >>= f : Except ε β) = .error e := rfl
    simp [hbind, fails_error]

theorem fails_bind_pure {x : Except ε α} {f : α → β} :
    Fails bad (x >>= fun a => pure (f a)) ↔ Fails bad x := by
  rw [fails_bind]
  simp only [fails_pure, and_false, exists_false, or_false]

theorem fails_map {x : Except ε α} {f : α → β} : Fails bad (x.map f) ↔ Fails bad x := by
  cases x with
  | ok a => exact iff_of_false fails_ok fails_ok
  | error e => exact fails_error.trans fails_error.symm

theorem exists_ok_iff {r : Except ε α} (h : ∀ e, r = .error e → bad e) :
    (∃ a, r = .ok a) ↔ ¬ Fails bad r := by
  cases r with
  | ok a => exact iff_of_true ⟨a, rfl⟩ fails_ok
  | error e => exact iff_of_false (by simp) fun hn => hn ⟨e, rfl, h e rfl⟩

theorem fails_mapM {f : α → Except ε β} {xs : List α} : Fails bad (xs.mapM f) ↔
    FirstBad (fun x => ∃ y, f x = .ok y) (fun x => Fails bad (f x)) xs := by
  induction xs with
  | nil => exact iff_of_false fails_ok firstBad_nil
  | cons x xs ih =>
    rw [List.mapM_cons, fails_bind, firstBad_cons, ← ih]
    refine or_congr Iff.rfl ?_
    constructor
    · intro h
      obtain ⟨y, hy, h⟩ := h
      rcases fails_bind.mp h with h | ⟨ys, -, h⟩
      · exact ⟨⟨y, hy⟩, h⟩
      · exact absurd h fails_ok
    · intro h
      obtain ⟨⟨y, hy⟩, h⟩ := h
      exact ⟨y, hy, fails_bind.mpr (.inl h)⟩

theorem mapM_fault {f : α → Except ε β} {xs : List α} {e : ε}
    (hf : ∀ x e, f x = .error e → bad e) (h : xs.mapM f = .error e) : bad e := by
  induction xs with
  | nil => cases h
  | cons x xs ih =>
    rw [List.mapM_cons] at h
    cases hx : f x with
    | error e' =>
      rw [hx] at h
      cases h
      exact hf x e hx
    | ok y =>
      cases hxs : xs.mapM f with
      | error e' =>
        rw [hx, hxs] at h
        cases h
        exact ih hxs
      | ok ys =>
        rw [hx, hxs] at h
        cases h

theorem fails_foldlM {f : β → α → Except ε β} {xs : List α} {b : β} :
    Fails bad (xs.foldlM f b) ↔ ∃ before x after c, xs = before ++ x :: after ∧
      before.foldlM f b = .ok c ∧ Fails bad (f c x) := by
  constructor
  · intro h
    obtain ⟨e, he, hbad⟩ := h
    obtain ⟨before, x, after, c, hxs, hc, hx⟩ := foldlM_eq_error.mp he
    exact ⟨before, x, after, c, hxs, hc, e, hx, hbad⟩
  · intro h
    obtain ⟨before, x, after, c, hxs, hc, e, hx, hbad⟩ := h
    exact ⟨e, foldlM_eq_error.mpr ⟨before, x, after, c, hxs, hc, hx⟩, hbad⟩

end

def FailsOnly {ε α : Type} (sort : ε → Prop) (r : Except ε α) : Prop := ∀ e, r = .error e → sort e

namespace FailsOnly
variable {ε δ α β : Type} {sort : ε → Prop}

theorem ok (a : α) : FailsOnly sort (.ok a) := fun _ h => by cases h

theorem error {e : ε} (h : sort e) : FailsOnly sort (.error e : Except ε α) := by
  intro e' he
  cases he
  exact h

theorem mono {sort' : ε → Prop} {x : Except ε α} (hx : FailsOnly sort x)
    (h : ∀ e, sort e → sort' e) : FailsOnly sort' x := fun e he => h e (hx e he)

theorem bind {x : Except ε α} {f : α → Except ε β} (hx : FailsOnly sort x)
    (hf : ∀ a, FailsOnly sort (f a)) : FailsOnly sort (x >>= f) := by
  intro e h
  cases x with
  | error e' =>
    cases h
    exact hx e rfl
  | ok a => exact hf a e h

theorem mapError {f : δ → ε} {x : Except δ α} (hx : FailsOnly (fun e => sort (f e)) x) :
    FailsOnly sort (x.mapError f) := by
  intro e h
  cases x with
  | error e' =>
    cases h
    exact hx e' rfl
  | ok a => cases h

theorem mapM {f : α → Except ε β} (hf : ∀ a, FailsOnly sort (f a)) (xs : List α) :
    FailsOnly sort (xs.mapM f) := fun _ h => mapM_fault (fun x => hf x) h

theorem foldlM {f : β → α → Except ε β} (hf : ∀ b a, FailsOnly sort (f b a)) (xs : List α) (b : β) :
    FailsOnly sort (xs.foldlM f b) := by
  intro e h
  obtain ⟨-, x, -, c, -, -, hx⟩ := foldlM_eq_error.mp h
  exact hf c x e hx

end FailsOnly

end RecordStore
