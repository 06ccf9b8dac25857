import RecordStore.Proofs.Members
import RecordStore.Proofs.UpdateAtomicity

/-! What an update does to one member of a record depends on this member alone. -/
namespace RecordStore

namespace Record

def only (k : Name) (r : Record) : Record := r.filter fun m => m.1 = k

variable {k l : Name}

theorem get?_only (k : Name) (r : Record) : (r.only k).get? k = r.get? k := by
  induction r with
  | nil => rfl
  | cons m r ih =>
    obtain ⟨n, v⟩ := m
    by_cases h : n = k
    · simp [only, get?, h]
    · simpa [only, get?, h] using ih

theorem only_put_self (v : Value) (r : Record) : (r.put k v).only k = (r.only k).put k v := by
  induction r with
  | nil => simp [only, put]
  | cons m r ih =>
    obtain ⟨n, w⟩ := m
    by_cases h : n = k
    · simp [only, put, h]
    · simpa [only, put, h] using ih

theorem only_put_of_ne (h : l ≠ k) (v : Value) (r : Record) : (r.put l v).only k = r.only k := by
  induction r with
  | nil => simp [only, put, h]
  | cons m r ih =>
    obtain ⟨n, w⟩ := m
    by_cases hn : n = l
    · simp [only, put, hn, h]
    · by_cases hk : n = k <;> simpa [only, put, hn, hk, Ne.symm h] using ih

theorem only_erase_self (r : Record) : (r.erase k).only k = (r.only k).erase k := by
  induction r with
  | nil => rfl
  | cons m r ih =>
    obtain ⟨n, w⟩ := m
    by_cases h : n = k
    · simp [only, erase, h]
    · simpa [only, erase, h] using ih

theorem only_erase_of_ne (h : l ≠ k) (r : Record) : (r.erase l).only k = r.only k := by
  induction r with
  | nil => rfl
  | cons m r ih =>
    obtain ⟨n, w⟩ := m
    by_cases hn : n = l
    · simp [only, erase, hn, h]
    · by_cases hk : n = k <;> simpa [only, erase, hn, hk, Ne.symm h] using ih

theorem get?_erase_of_ne (h : l ≠ k) (r : Record) : (r.erase l).get? k = r.get? k := by
  rw [← get?_only, only_erase_of_ne h, get?_only]

end Record

/-! ### Field paths -/

def Path.startsAt (k : Name) : Path → Bool
  | [] => false
  | name :: _ => Name.text name = k

namespace Record
variable {k : Name}

theorem only_setAt (path : Path) (v : Value) (r : Record) :
    (r.setAt path v).only k =
      if path.startsAt k then (r.only k).setAt path v else r.only k := by
  match path with
  | [] => rfl
  | [name] =>
    by_cases h : Name.text name = k
    · subst h
      simp [setAt, Path.startsAt, only_put_self]
    · simp [setAt, Path.startsAt, only_put_of_ne, h]
  | name :: next :: rest =>
    by_cases h : Name.text name = k
    · subst h
      simp [setAt, Path.startsAt, only_put_self, get?_only]
    · simp [setAt, Path.startsAt, only_put_of_ne, h]

theorem only_unsetAt (path : Path) (r : Record) :
    (r.unsetAt path).only k =
      if path.startsAt k then (r.only k).unsetAt path else r.only k := by
  match path with
  | [] => rfl
  | [name] =>
    by_cases h : Name.text name = k
    · subst h
      simp [unsetAt, Path.startsAt, only_erase_self]
    · simp [unsetAt, Path.startsAt, only_erase_of_ne, h]
  | name :: next :: rest =>
    simp only [unsetAt]
    by_cases h : Name.text name = k
    · subst h
      rw [get?_only]
      split <;> simp [Path.startsAt, only_put_self]
    · split <;> simp [Path.startsAt, only_put_of_ne, h]

theorem get_only {path : Path} (h : path.startsAt k) (r : Record) :
    Value.get (.object (r.only k)) path = Value.get (.object r) path := by
  match path with
  | name :: rest =>
    have hk : Name.text name = k := by simpa [Path.startsAt] using h
    subst hk
    simp only [Value.get, Value.unwrap, Value.follow, Value.child, get?_only]

end Record

namespace Value

def only (k : Name) : Value → Value
  | object r => object (Record.only k r)
  | v => v

end Value

/-- A fold over steps of which each does to a part of the state what it does to all of it, or leaves
the part alone. -/
theorem foldlM_part {ε α β : Type} {f : β → α → Except ε β} {part : β → β} {reaches : α → Bool}
    (step : ∀ {b a c}, f b a = .ok c →
      if reaches a then f (part b) a = .ok (part c) else part c = part b)
    {xs : List α} {b c : β} (h : xs.foldlM f b = .ok c) :
    (xs.filter reaches).foldlM f (part b) = .ok (part c) := by
  induction xs generalizing b with
  | nil =>
    cases h
    rfl
  | cons x xs ih =>
    rw [List.foldlM_cons, bind_eq_ok] at h
    obtain ⟨d, hd, h⟩ := h
    have hx := step hd
    by_cases hr : reaches x
    · rw [if_pos hr] at hx
      rw [List.filter_cons_of_pos hr, List.foldlM_cons, hx]
      exact ih h
    · rw [if_neg hr] at hx
      rw [List.filter_cons_of_neg hr, ← hx]
      exact ih h

namespace Update
variable {k : Name}

def startsAt (k : Name) (path : String) : Bool := (Path.ofText path).startsAt k

theorem setAt_only {r u w : Value} {path : String} (h : r.setAt (.str path) w = .ok u) :
    if startsAt k path then (r.only k).setAt (.str path) w = .ok (u.only k)
    else u.only k = r.only k := by
  cases r with
  | object ms =>
    have hu : u = .object (Record.setAt (Path.ofText path) w ms) := by
      cases h
      rfl
    subst hu
    rw [startsAt, Value.only, Value.only, Record.only_setAt]
    by_cases hk : (Path.ofText path).startsAt k
    · rw [if_pos hk, if_pos hk]
      rfl
    · rw [if_neg hk, if_neg hk]
  | _ =>
    rw [Value.setAt, bind_eq_ok] at h
    obtain ⟨names, -, h⟩ := h
    split at h <;> simp_all [throw, throwThe, MonadExceptOf.throw]

theorem unsetAt_only {r u : Value} {path : String} (h : r.unsetAt (.str path) = .ok u) :
    if startsAt k path then (r.only k).unsetAt (.str path) = .ok (u.only k)
    else u.only k = r.only k := by
  cases r with
  | object ms =>
    have hu : u = .object (Record.unsetAt (Path.ofText path) ms) := by
      cases h
      rfl
    subst hu
    rw [startsAt, Value.only, Value.only, Record.only_unsetAt]
    by_cases hk : (Path.ofText path).startsAt k
    · rw [if_pos hk, if_pos hk]
      rfl
    · rw [if_neg hk, if_neg hk]
  | _ =>
    cases h
    by_cases hk : startsAt k path
    · rw [if_pos hk]
      rfl
    · rw [if_neg hk]

theorem incrementAt_only {r u amount : Value} {path : String}
    (h : incrementAt r path amount = .ok u) :
    if startsAt k path then incrementAt (r.only k) path amount = .ok (u.only k)
    else u.only k = r.only k := by
  obtain ⟨current, m, n, sum, hcurrent, hm, rfl, hsum, h⟩ := incrementAt_eq_ok.mp h
  have hset := setAt_only (k := k) h
  by_cases hk : startsAt k path
  · rw [if_pos hk] at hset ⊢
    refine incrementAt_eq_ok.mpr ⟨current, m, n, sum, ?_, hm, rfl, hsum, hset⟩
    cases r with
    | object ms =>
      rw [← hcurrent]
      simp only [Value.lookUp, Value.path, Value.name, ok_bind, pure, Except.pure, Value.only,
        Record.get_only hk]
    | _ => exact hcurrent
  · rwa [if_neg hk] at hset ⊢

/-! ### Whole operands -/

/-- The part of an operand with members that is about one member of a record. -/
def membersAt (k : Name) : Value → Value
  | .object ms => .object (ms.filter fun m => startsAt k m.1.reading)
  | v => v

def isPathAt (k : Name) : Value → Bool
  | .str path => startsAt k path
  | _ => true

/-- The part of an operand of paths that is about one member of a record. -/
def pathsAt (k : Name) (paths : Value) : Value :=
  match paths.elements with
  | .ok xs => .list (xs.filter (isPathAt k))
  | .error _ => paths

theorem entries_membersAt (ms : Record) :
    Record.entries (ms.filter fun m => startsAt k m.1.reading) =
      (Record.entries ms).filter fun m => startsAt k m.1 := by
  rw [Record.entries, Record.entries, List.filter_map]
  rfl

theorem set_only {members old new : Value} (h : set members old = .ok new) :
    set (membersAt k members) (old.only k) = .ok (new.only k) := by
  rw [set, bind_eq_ok] at h
  obtain ⟨ms, hms, h⟩ := h
  rw [mapError_eq_ok, Value.members_eq_ok] at hms
  subst hms
  rw [set, membersAt, bind_eq_ok]
  refine ⟨_, rfl, ?_⟩
  rw [entries_membersAt]
  refine foldlM_part (fun {b m c} hc => ?_) h
  have hset := setAt_only (k := k) (mapError_eq_ok.mp hc)
  by_cases hk : startsAt k m.1
  · rw [if_pos hk] at hset ⊢
    exact mapError_eq_ok.mpr hset
  · rwa [if_neg hk] at hset ⊢

theorem increment_only {amounts old new : Value} (h : increment amounts old = .ok new) :
    increment (membersAt k amounts) (old.only k) = .ok (new.only k) := by
  rw [increment, bind_eq_ok] at h
  obtain ⟨ms, hms, h⟩ := h
  rw [mapError_eq_ok, Value.members_eq_ok] at hms
  subst hms
  rw [increment, membersAt, bind_eq_ok]
  refine ⟨_, rfl, ?_⟩
  rw [entries_membersAt]
  refine foldlM_part (fun {b m c} hc => ?_) h
  exact incrementAt_only hc

theorem isStr_of_unsetAt {r path u : Value} (h : r.unsetAt path = .ok u) :
    ∃ s, path = .str s := by
  rw [Value.unsetAt, bind_eq_ok] at h
  obtain ⟨names, hnames, -⟩ := h
  rw [Value.path, bind_eq_ok] at hnames
  obtain ⟨name, hname, -⟩ := hnames
  cases path <;> simp [Value.name] at hname
  exact ⟨_, rfl⟩

theorem unset_only {paths old new : Value} (h : unset paths old = .ok new) :
    unset (pathsAt k paths) (old.only k) = .ok (new.only k) := by
  rw [unset, bind_eq_ok] at h
  obtain ⟨xs, hxs, h⟩ := h
  rw [mapError_eq_ok] at hxs
  have hpaths : (pathsAt k paths).elements = .ok (xs.filter (isPathAt k)) := by
    rw [pathsAt, hxs]
    rfl
  rw [unset, bind_eq_ok]
  refine ⟨xs.filter (isPathAt k), mapError_eq_ok.mpr hpaths, ?_⟩
  refine foldlM_part (fun {b x c} hc => ?_) h
  rw [mapError_eq_ok] at hc ⊢
  obtain ⟨path, rfl⟩ := isStr_of_unsetAt hc
  exact unsetAt_only hc

/-! ### Whole expressions -/

/-- What an expression makes of one member, given this member alone. -/
def makesOf (k : Name) (fullReplace : Bool) (given : Value) (old : Record) :
    Except StoreError Value :=
  match given with
  | .object ms =>
    if (Record.keys ms).any isOperator then do
      let r ← set (membersAt k (operand ms setName)) (.object old)
      let r ← unset (pathsAt k (operand ms unsetName)) r
      increment (membersAt k (operand ms incrementName)) r
    else if fullReplace then
      .ok (.object (if Record.has k ms then Record.only k ms
        else Record.put k ((Record.get? k old).getD .null) (Record.only k ms)))
    else set (membersAt k given) (.object old)
  | _ => .ok (.object old)

/-- The key that a record has after an update. It takes no more than the key that it had. -/
def newKey (k : Name) (fullReplace : Bool) (given : Value) (old : Record) : Value :=
  match makesOf k fullReplace given (old.only k) with
  | .ok (.object new) => (Record.get? k new).getD .null
  | _ => .null

theorem makesOf_only {fullReplace : Bool} {given new : Value} {old : Record}
    (h : Applied k fullReplace given (.object old) new) :
    makesOf k fullReplace given (old.only k) = .ok (new.only k) := by
  obtain ⟨ms, rfl, h⟩ := h
  rw [makesOf]
  by_cases hop : (Record.keys ms).any isOperator
  · rw [if_pos hop] at h ⊢
    obtain ⟨-, r, s, hr, hs, h⟩ := h
    have hr := set_only (k := k) hr
    have hs := unset_only (k := k) hs
    have h := increment_only (k := k) h
    exact bind_eq_ok.mpr ⟨_, hr, bind_eq_ok.mpr ⟨_, hs, h⟩⟩
  · rw [if_neg hop] at h ⊢
    cases fullReplace with
    | true =>
      rw [if_pos rfl] at h ⊢
      obtain ⟨r, ⟨⟩, rfl⟩ := h
      rw [Record.get?_only]
      by_cases hk : Record.has k ms
      · simp [hk, Value.only]
      · simp [hk, Value.only, Record.only_put_self]
    | false =>
      rw [if_neg (by simp)] at h ⊢
      exact set_only h

theorem key_of_applied {fullReplace : Bool} {given : Value} {old new : Record}
    (h : Applied k fullReplace given (.object old) (.object new)) :
    (new.get? k).getD .null = newKey k fullReplace given old := by
  rw [newKey, makesOf_only h, Value.only, ← Record.get?_only]

/-! ### Expressions that leave a member alone -/

def Spares (k : Name) (fullReplace : Bool) (given : Value) : Prop :=
  ∀ ms : Record, given = .object ms →
    if (Record.keys ms).any isOperator then
      membersAt k (operand ms setName) = .object [] ∧ pathsAt k (operand ms unsetName) = .list [] ∧
        membersAt k (operand ms incrementName) = .object []
    else if fullReplace then Record.has k ms = false
    else membersAt k given = .object []

theorem newKey_of_spares {fullReplace : Bool} {given : Value} {old : Record}
    (h : Spares k fullReplace given) :
    newKey k fullReplace given old = (old.get? k).getD .null := by
  by_cases hgiven : given.isObject
  · obtain ⟨ms, rfl⟩ := Value.isObject_iff.mp hgiven
    have h := h ms rfl
    rw [newKey, makesOf]
    by_cases hop : (Record.keys ms).any isOperator
    · rw [if_pos hop] at h ⊢
      obtain ⟨hset, hunset, hinc⟩ := h
      rw [hset, hunset, hinc, ← Record.get?_only]
      rfl
    · rw [if_neg hop] at h ⊢
      cases fullReplace with
      | true =>
        rw [if_pos rfl] at h ⊢
        simp [h, Record.get?_put_self, Record.get?_only]
      | false =>
        rw [if_neg (by simp)] at h ⊢
        rw [h, ← Record.get?_only]
        rfl
  · have hsame : makesOf k fullReplace given (old.only k) = .ok (.object (old.only k)) := by
      cases given <;> simp [Value.isObject] at hgiven <;> rfl
    rw [newKey, hsame, ← Record.get?_only]

end Update

end RecordStore
