import RecordStore.Proofs.ReadBack

/-! Lookups at any path of any value. A path leads somewhere in every value, be it to nothing, just
when its names of digits can be read as positions. A lookup at two paths joined by a point goes on
from what the first one leads to, unless that is a document in a document, which only the start of a
lookup opens. -/
namespace RecordStore

namespace Path

/-- Every name of digits is a numeral that can be read: it is not too long, and each of the digits
has a value. -/
def Readable (p : Path) : Prop :=
  ∀ name ∈ p, name.toList.all Text.isDigit →
    name.length ≤ Text.numeralLimit ∧ ∀ c ∈ name.toList, Text.decimalValue? c ≠ none

theorem readable_iff {p : Path} : p.Readable ↔ ∀ name ∈ p, ¬ Valueless name := by
  refine forall₂_congr fun name _ => ?_
  rw [Valueless, Text.numeral?_eq_none, String.length_toList]
  constructor
  · intro h hvalueless
    obtain ⟨-, hdigits, hlong | ⟨c, hc, hnone⟩⟩ := hvalueless
    · exact absurd (h hdigits).1 (by omega)
    · exact (h hdigits).2 c hc hnone
  · intro h hdigits
    by_cases hempty : name = ""
    · subst hempty
      exact ⟨Nat.zero_le _, fun c hc => absurd hc List.not_mem_nil⟩
    · refine ⟨?_, fun c hc hnone => h ⟨hempty, hdigits, .inr ⟨c, hc, hnone⟩⟩⟩
      by_contra hlong
      exact h ⟨hempty, hdigits, .inl (by omega)⟩

end Path

namespace Value
variable {v w : Value} {p q : Path}

/-! ### Lookups that give something -/

theorem not_stuck_of_readable (h : p.Readable) (v : Value) : ¬ v.Stuck p := by
  intro hstuck
  obtain ⟨front, name, rest, w, rfl, -, -, hname⟩ := hstuck
  exact Path.readable_iff.mp h name (by simp) hname

theorem exists_stuck (h : ¬ p.Readable) : ∃ v : Value, v.Stuck p := by
  obtain ⟨name, hmem, hname⟩ : ∃ name ∈ p, Path.Valueless name := by
    simpa [Path.readable_iff] using h
  obtain ⟨front, rest, rfl⟩ := List.append_of_mem hmem
  cases front with
  | nil => exact ⟨list [], [], name, rest, list [], rfl, rfl, rfl, hname⟩
  | cons a front =>
    have hlist := Record.get_setAt_self (List.cons_ne_nil a front) (list []) []
    exact ⟨_, a :: front, name, rest, list [], rfl, hlist, rfl, hname⟩

theorem readable_iff_forall_get : (∀ v : Value, ∃ w, v.get p = .ok w) ↔ p.Readable := by
  simp only [exists_get_iff]
  constructor
  · intro h
    by_contra hp
    obtain ⟨v, hv⟩ := exists_stuck hp
    exact h v hv
  · exact not_stuck_of_readable

/-! ### Going on -/

def isDoubleDocument : Value → Bool
  | document (document _) => true
  | _ => false

/-- Lookups at names look into documents, so that it makes no difference whether they start in a
document or in its data. -/
theorem follow_unwrap (hq : q ≠ []) (hw : ¬ w.isDoubleDocument) :
    follow q w.unwrap = follow q w := by
  have hinner : w.unwrap.unwrap = w.unwrap := by
    cases w with
    | document d =>
      cases d with
      | document _ => exact absurd rfl hw
      | _ => rfl
    | _ => rfl
  cases q with
  | nil => exact absurd rfl hq
  | cons name q => rw [follow, follow, hinner]

theorem follow_doubleDocument (hq : q ≠ []) (hw : w.isDoubleDocument) :
    follow q w = .ok missing := by
  cases q with
  | nil => exact absurd rfl hq
  | cons name q =>
    cases w with
    | document d =>
      cases d with
      | document _ => rfl
      | _ => cases hw
    | _ => cases hw

theorem get_append (hq : q ≠ []) (v : Value) (p : Path) : v.get (p ++ q) = v.get p >>= fun w =>
    if w = missing ∨ w.isDoubleDocument then .ok missing else w.get q := by
  rw [get, follow_append]
  refine bind_congr fun w => ?_
  by_cases hmissing : w = missing
  · rw [if_pos (.inl hmissing), hmissing, follow_missing]
  · by_cases hw : w.isDoubleDocument
    · rw [if_pos (.inr hw), follow_doubleDocument hq hw]
    · rw [if_neg (not_or_intro hmissing hw)]
      exact (follow_unwrap hq hw).symm

/-- A path leads somewhere in every value just when its names of digits can be read, and in one
value unless a name that stands for no position meets something gone through by position. A path
joined to another goes on from what the first leads to: to nothing from nothing, and from a document
in a document, and else to what it leads to from there. -/
theorem lookups_compose (p q : String) :
    ((∀ v : Value, ∃ w, v.get (.ofText p) = .ok w) ↔ (Path.ofText p).Readable) ∧
    ∀ v : Value, ((∃ w, v.get (.ofText p) = .ok w) ↔ ¬ v.Stuck (.ofText p)) ∧
      v.get (.ofText (p ++ "." ++ q)) = v.get (.ofText p) >>= fun w =>
        if w = missing ∨ w.isDoubleDocument then .ok missing else w.get (.ofText q) := by
  refine ⟨readable_iff_forall_get, fun v => ⟨exists_get_iff, ?_⟩⟩
  rw [Path.ofText_append]
  exact get_append (Path.ofText_ne_nil q) v _

/-- A digit without a value breaks a lookup off, and a document in a document hides what a lookup
that starts there finds. -/
theorem lookup_broken_off :
    let r : Value := object [("a", .list [.int 1])]
    let boxed : Value := .document (.document (object [("b", .int 1)]))
    let s : Value := object [("x", boxed)]
    r.get (.ofText "a.²") = .error .unreadablePosition ∧
      s.get (.ofText "x") = .ok boxed ∧ boxed.get (.ofText "b") = .ok (.int 1) ∧
      s.get (.ofText "x.b") = .ok missing :=
  ⟨rfl, rfl, rfl, rfl⟩

end Value
end RecordStore
