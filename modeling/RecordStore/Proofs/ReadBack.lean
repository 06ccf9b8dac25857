import RecordStore.Proofs.Keys
import RecordStore.Proofs.SingleWrites
import RecordStore.Value.Edit

/-! Writes at one field path, read back and repeated. A lookup at the path goes through the objects
that the write went through or made, whatever stood there before. A later write at the path leaves
nothing of an earlier one, and taking away what was written leaves the objects on the way, in which
nothing more is taken away. -/
namespace RecordStore

namespace Record
variable {a next : String} {p : Path} {r : Record}

theorem below_wellFormed (hr : (Value.object r).isWellFormed) (a : String) :
    (Value.object (r.below a)).isWellFormed := by
  rw [Value.isWellFormed, Bool.and_eq_true, Value.membersWellFormed_iff] at hr
  rw [below]
  cases ha : r.get? a with
  | none => rfl
  | some w =>
    cases w with
    | object ms => exact hr.2 _ (mem_of_get? ha)
    | _ => rfl

/-! Where an object was put, writing and taking away go on in that object. -/

theorem setAt_put_object (ms : Record) (v : Value) :
    (r.put a (.object ms)).setAt (a :: next :: p) v =
      r.put a (.object (Record.setAt (next :: p) v ms)) := by
  rw [setAt_cons, below_put_object, put_put]

theorem unsetAt_put_object (ms : Record) :
    (r.put a (.object ms)).unsetAt (a :: next :: p) =
      r.put a (.object (Record.unsetAt (next :: p) ms)) := by
  rw [unsetAt, get?_put_self]
  · exact put_put _ _ r
  · simp

/-! ### What a write leaves at its path -/

theorem get_setAt_self (hp : p ≠ []) (v : Value) (r : Record) :
    Value.get (.object (r.setAt p v)) p = .ok v := by
  induction p generalizing r with
  | nil => exact absurd rfl hp
  | cons a p ih =>
    cases p with
    | nil =>
      rw [setAt, get_singleton, get?_put_self]
      rfl
    | cons next p =>
      rw [setAt_cons, get_of_object (get?_put_self _ _)]
      exact ih (List.cons_ne_nil next p) _

theorem setAt_setAt (p : Path) (v w : Value) (r : Record) :
    (r.setAt p v).setAt p w = r.setAt p w := by
  induction p generalizing r with
  | nil => rfl
  | cons a p ih =>
    cases p with
    | nil => exact put_put v w r
    | cons next p =>
      calc (r.setAt (a :: next :: p) v).setAt (a :: next :: p) w
          = r.put a (.object (((r.below a).setAt (next :: p) v).setAt (next :: p) w)) :=
            setAt_put_object _ w
        _ = r.setAt (a :: next :: p) w := by rw [ih, setAt_cons]

/-- Taking away what was written does so in the object that the write went through or made. -/
theorem unsetAt_setAt (v : Value) (r : Record) :
    (r.setAt (a :: next :: p) v).unsetAt (a :: next :: p) =
      r.put a (.object (((r.below a).setAt (next :: p) v).unsetAt (next :: p))) := by
  rw [setAt_cons, unsetAt_put_object]

theorem get?_erase_put (hr : (Value.object r).isWellFormed) (k : Name) (v : Value) :
    ((r.put k v).erase k).get? k = none := by
  rw [Value.isWellFormed, Bool.and_eq_true, decide_eq_true_iff] at hr
  exact get?_erase_self (nodup_put hr.1)

theorem get_unsetAt_setAt (hr : (Value.object r).isWellFormed) (hp : p ≠ []) (v : Value) :
    Value.get (.object ((r.setAt p v).unsetAt p)) p = .ok .missing := by
  induction p generalizing r with
  | nil => exact absurd rfl hp
  | cons a p ih =>
    cases p with
    | nil => exact get_of_none (get?_erase_put hr a v)
    | cons next p =>
      rw [unsetAt_setAt, get_of_object (get?_put_self _ _)]
      exact ih (below_wellFormed hr a) (List.cons_ne_nil next p)

theorem unsetAt_unsetAt_setAt (hr : (Value.object r).isWellFormed) (p : Path) (v : Value) :
    ((r.setAt p v).unsetAt p).unsetAt p = (r.setAt p v).unsetAt p := by
  induction p generalizing r with
  | nil => rfl
  | cons a p ih =>
    cases p with
    | nil => exact erase_eq_self (get?_erase_put hr a v)
    | cons next p => rw [unsetAt_setAt, unsetAt_put_object, ih (below_wellFormed hr a)]

end Record

namespace Value

/-- What is set at a path of an object is read there, a later value takes its place as if it had
been the first, and unset it is gone for good. None of this fails, whatever lies on the way. -/
theorem set_read_back {r : Record} (hr : (object r).isWellFormed) (path : String) (v w : Value) :
    ∃ s u, (object r).setAt (.str path) v = .ok s ∧ s.lookUp (.str path) = .ok v ∧
      s.setAt (.str path) w = (object r).setAt (.str path) w ∧
      s.unsetAt (.str path) = .ok u ∧ u.lookUp (.str path) = .ok missing ∧
      u.unsetAt (.str path) = .ok u := by
  let p := Path.ofText path
  have hp : p ≠ [] := Path.ofText_ne_nil path
  refine ⟨object (r.setAt p v), object ((r.setAt p v).unsetAt p), rfl, ?_, ?_, rfl, ?_, ?_⟩
  · exact congrArg (Except.mapError _) (Record.get_setAt_self hp v r)
  · exact congrArg (Except.ok ∘ object) (Record.setAt_setAt p v w r)
  · exact congrArg (Except.mapError _) (Record.get_unsetAt_setAt hr hp v)
  · exact congrArg (Except.ok ∘ object) (Record.unsetAt_unsetAt_setAt hr p v)

/-- A list on the way, under a name, a numeral and an empty name. -/
theorem set_read_back_through_list :
    let r : Record := [("id", .int 1), ("a", .list [.int 1, .int 2])]
    let s : Value := object [("id", .int 1), ("a", object [("0", object [("", .str "x")])])]
    let u : Value := object [("id", .int 1), ("a", object [("0", object [])])]
    (object r).isWellFormed ∧ (object r).setAt (.str "a.0.") (.str "x") = .ok s ∧
      s.lookUp (.str "a.0.") = .ok (.str "x") ∧
      s.setAt (.str "a.0.") null = (object r).setAt (.str "a.0.") null ∧
      s.unsetAt (.str "a.0.") = .ok u ∧ u.lookUp (.str "a.0.") = .ok missing ∧
      u.unsetAt (.str "a.0.") = .ok u := by
  intro r s u
  have hr : (object r).isWellFormed := by decide
  obtain ⟨s', u', hs, hread, hagain, hu, hgone, hstay⟩ :=
    set_read_back hr "a.0." (.str "x") null
  have hset : (object r).setAt (.str "a.0.") (.str "x") = .ok s := rfl
  obtain rfl : s = s' := Except.ok.inj (hset.symm.trans hs)
  have hunset : s.unsetAt (.str "a.0.") = .ok u := rfl
  obtain rfl : u = u' := Except.ok.inj (hunset.symm.trans hu)
  exact ⟨hr, hset, hread, hagain, hunset, hgone, hstay⟩

end Value
end RecordStore
