import RecordStore.Proofs.Faults
import RecordStore.Value.Path

/-! Lookups by position. A numeral leads to the position that it stands for, and a lookup breaks off
where a name of digits that have no value meets something that is gone through by position. -/
namespace RecordStore

def Path.Valueless (name : String) : Prop :=
  name ≠ "" ∧ name.toList.all Text.isDigit ∧ Text.numeral? name.toList = none

theorem Text.decimalValue?_of_ascii {c : Char} (h : c.isDigit) :
    Text.decimalValue? c = some (c.toNat - '0'.toNat) := by
  obtain ⟨hlow, hhigh⟩ := Char.isDigit_iff_toNat.mp h
  have hfirst : decide (48 ≤ c.toNat) && decide (c.toNat < 48 + 10) := by
    have hhigh : c.toNat ≤ 57 := hhigh
    exact Bool.and_eq_true_iff.mpr ⟨decide_eq_true hlow, decide_eq_true (by omega)⟩
  rw [Text.decimalValue?, Text.decimalZeros, List.find?_cons, hfirst]
  rfl

theorem Text.numeral?_of_ascii {cs : List Char} (h : ∀ c ∈ cs, c.isDigit)
    (hlength : cs.length ≤ Text.numeralLimit) :
    Text.numeral? cs = some (Nat.ofDigitChars 10 cs 0) := by
  rw [Text.numeral?, if_neg (by omega)]
  clear hlength
  generalize 0 = n
  induction cs generalizing n with
  | nil => rfl
  | cons c cs ih =>
    obtain ⟨hc, hcs⟩ := List.forall_mem_cons.mp h
    rw [List.foldl_cons, Nat.ofDigitChars_cons, ← ih hcs, Text.decimalValue?_of_ascii hc]
    rfl

theorem Text.foldl_numeral_none (cs : List Char) :
    cs.foldl (fun acc c => do return 10 * (← acc) + (← Text.decimalValue? c)) none = none := by
  induction cs with
  | nil => rfl
  | cons c cs ih => exact ih

theorem Text.foldl_numeral_eq_none {cs : List Char} {n : Nat} :
    cs.foldl (fun acc c => do return 10 * (← acc) + (← Text.decimalValue? c)) (some n) = none ↔
      ∃ c ∈ cs, Text.decimalValue? c = none := by
  induction cs generalizing n with
  | nil => simp
  | cons c cs ih =>
    rw [List.foldl_cons, List.exists_mem_cons_iff]
    cases hc : Text.decimalValue? c with
    | none => exact iff_of_true (foldl_numeral_none cs) (.inl rfl)
    | some i => exact ih.trans (or_iff_right (by simp)).symm

theorem Text.numeral?_eq_none {cs : List Char} : Text.numeral? cs = none ↔
    Text.numeralLimit < cs.length ∨ ∃ c ∈ cs, Text.decimalValue? c = none := by
  rw [Text.numeral?]
  by_cases hlong : Text.numeralLimit < cs.length
  · rw [if_pos hlong]
    exact iff_of_true rfl (.inl hlong)
  · rw [if_neg hlong, or_iff_right hlong]
    exact foldl_numeral_eq_none

theorem Path.position_toString (i : Nat) (h : (toString i).length ≤ Text.numeralLimit) :
    Path.position (toString i) = .ok (some i) := by
  have hlist : (toString i).toList = Nat.toDigits 10 i := by
    rw [Nat.toString_eq_repr, Nat.toList_repr]
  have hdigits : ∀ c ∈ (toString i).toList, c.isDigit := by
    intro c hc
    rw [hlist] at hc
    exact Nat.isDigit_of_mem_toDigits (by decide) (by decide) hc
  have hall : (toString i).toList.all Text.isDigit := by
    refine List.all_eq_true.mpr fun c hc => ?_
    rw [Text.isDigit, Text.decimalValue?_of_ascii (hdigits c hc)]
    rfl
  have hread : ¬ (toString i = "" ∨ !(toString i).toList.all Text.isDigit) := by
    rw [hall]
    simp
  rw [Path.position, if_neg hread, Text.numeral?_of_ascii hdigits h, hlist,
    Nat.ofDigitChars_toDigits (by decide) (by decide)]

namespace Value

def isPositional : Value → Bool
  | list _ | tuple _ | byteArray _ => true
  | _ => false

/-- Part of a path leads to something gone through by position, and a valueless name follows. -/
def Stuck (v : Value) (path : Path) : Prop :=
  ∃ front name rest w, path = front ++ name :: rest ∧ v.get front = .ok w ∧
    w.unwrap.isPositional ∧ Path.Valueless name

theorem follow_cons {v w : Value} {name : String} {rest : Path} (hw : v.unwrap.child name = .ok w)
    (h : w ≠ missing) : follow (name :: rest) v = follow rest w := by
  rw [follow, hw, ok_bind]
  cases w with
  | missing => exact absurd rfl h
  | _ => rfl

theorem follow_missing (path : Path) : follow path missing = .ok missing := by
  cases path <;> rfl

/-- A lookup goes on from what the first part of its path leads to. -/
theorem follow_append (front path : Path) (v : Value) :
    follow (front ++ path) v = follow front v >>= follow path := by
  induction front generalizing v with
  | nil => rfl
  | cons name front ih =>
    rw [List.cons_append, follow, follow]
    cases hw : v.unwrap.child name with
    | error f => rfl
    | ok w => cases w with
      | missing => exact (follow_missing path).symm
      | _ => exact ih _

section
variable {bad : Path.Fault → Prop} (hbad : ∀ f, bad f)
include hbad

theorem position_fails {name : String} :
    Fails bad (Path.position name) ↔ Path.Valueless name := by
  rw [Path.position, Path.Valueless]
  by_cases hname : name = "" ∨ !name.toList.all Text.isDigit
  · rw [if_pos hname]
    refine iff_of_false fails_ok fun h => ?_
    rcases hname with rfl | hname
    · exact h.1 rfl
    · simp [h.2.1] at hname
  · rw [if_neg hname]
    obtain ⟨hempty, hdigits⟩ := not_or.mp hname
    cases hvalue : Text.numeral? name.toList with
    | some n => exact iff_of_false fails_ok (by simp)
    | none => exact iff_of_true (fails_error.mpr (hbad _)) ⟨hempty, by simpa using hdigits, rfl⟩

theorem child_fails {v : Value} {name : String} :
    Fails bad (v.child name) ↔ v.isPositional ∧ Path.Valueless name := by
  have hnth (nth : Option Nat → Except Path.Fault Value) (hnth : ∀ i, ¬ Fails bad (nth i)) :
      Fails bad (Path.position name >>= nth) ↔ Path.Valueless name := by
    rw [fails_bind, position_fails hbad]
    refine or_iff_left fun h => ?_
    obtain ⟨i, -, h⟩ := h
    exact hnth i h
  cases v with
  | list xs | tuple xs | byteArray xs =>
    exact (hnth _ fun i => by cases i <;> exact fails_pure).trans (and_iff_right rfl).symm
  | _ => exact iff_of_false fails_ok (by simp [isPositional])

theorem follow_fails {path : Path} {v : Value} : Fails bad (follow path v) ↔
    ∃ front name rest w, path = front ++ name :: rest ∧ follow front v = .ok w ∧
      w.unwrap.isPositional ∧ Path.Valueless name := by
  constructor
  · intro h
    induction path generalizing v with
    | nil => exact absurd h fails_ok
    | cons name rest ih =>
      cases hw : v.unwrap.child name with
      | error f => exact ⟨[], name, rest, v, rfl, rfl, (child_fails hbad).mp ⟨f, hw, hbad f⟩⟩
      | ok w =>
        by_cases hmissing : w = missing
        · rw [follow, hw, hmissing] at h
          exact absurd h fails_ok
        · rw [follow_cons hw hmissing] at h
          obtain ⟨front, name', rest', u, rfl, hu, hstuck⟩ := ih h
          refine ⟨name :: front, name', rest', u, rfl, ?_, hstuck⟩
          rwa [follow_cons hw hmissing]
  · intro h
    obtain ⟨front, name, rest, w, rfl, hw, hstuck⟩ := h
    induction front generalizing v with
    | nil =>
      cases hw
      exact fails_bind.mpr (.inl ((child_fails hbad).mpr hstuck))
    | cons name' front ih =>
      obtain ⟨u, hu, hw⟩ := bind_eq_ok.mp hw
      refine fails_bind.mpr (.inr ⟨u, hu, ?_⟩)
      cases u with
      | missing =>
        cases hw
        cases hstuck.1
      | _ => exact ih hw

theorem get_fails {v : Value} {path : Path} : Fails bad (v.get path) ↔ v.Stuck path :=
  follow_fails hbad

end

theorem exists_get_iff {v : Value} {path : Path} :
    (∃ w, v.get path = .ok w) ↔ ¬ v.Stuck path := by
  have hall : ∀ f : Path.Fault, (fun _ => True) f := fun _ => trivial
  rw [← get_fails hall]
  exact exists_ok_iff fun f _ => hall f

end Value

end RecordStore
