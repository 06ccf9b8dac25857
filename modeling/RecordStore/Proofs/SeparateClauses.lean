import RecordStore.Proofs.Requests

/-! The clauses of a request are read each by itself. What one of them comes to does not depend on
the others, and a refusal names the clause that it is about. -/
namespace RecordStore

namespace Aggregate

namespace SpecError

def moveTo (place : Location) : SpecError → SpecError
  | invalid fault _ => invalid fault place
  | time f => time f

def inClause (index : Int) : SpecError → SpecError
  | invalid fault place =>
    invalid fault (if place.clause = .null then place else { place with clause := .int index })
  | time f => time f

end SpecError

/-! ### Places -/

def Placed {α : Type} (r : Location → Reading α) : Prop :=
  ∀ p q, r q = (r p).mapError (·.moveTo q)

namespace Placed
variable {α β : Type}

theorem ok (a : α) : Placed fun _ => .ok a := fun _ _ => rfl

theorem time (f : TimeFault) : Placed fun _ => (.error (.time f) : Reading α) := fun _ _ => rfl

theorem refuse (fault : SpecFault) : Placed fun place => (refuse fault place : Reading α) :=
  fun _ _ => rfl

theorem require (holds : Bool) (fault : SpecFault) :
    Placed fun place => require holds fault place := by
  cases holds
  · exact refuse fault
  · exact ok ()

theorem bind {r : Location → Reading α} {f : α → Location → Reading β} (hr : Placed r)
    (hf : ∀ a, Placed (f a)) : Placed fun place => r place >>= fun a => f a place := by
  intro p q
  dsimp only
  rw [mapError_bind, ← hr p q]
  exact bind_congr fun a => hf a p q

theorem mapM {f : α → Location → Reading β} (hf : ∀ a, Placed (f a)) (xs : List α) :
    Placed fun place => xs.mapM (f · place) := by
  induction xs with
  | nil => exact ok []
  | cons x xs ih =>
    simp only [List.mapM_cons]
    exact (hf x).bind fun y => ih.bind fun ys => ok (y :: ys)

theorem place_eq {r : Location → Reading α} (hr : Placed r) {place named : Location}
    {fault : SpecFault} (h : r place = .error (.invalid fault named)) : named = place := by
  have hself := hr place place
  rw [h] at hself
  cases hself
  rfl

end Placed

theorem placed_boundary [Present] (v : Value) : Placed fun place => Boundary.read place v := by
  unfold Boundary.read
  split
  · exact .ok _
  · split
    · split
      · exact .ok _
      · split
        · exact .refuse _
        · exact .time _
    · exact .refuse _

theorem placed_rangeBound [Present] (v : Option Value) :
    Placed fun place => rangeBound place v := by
  unfold rangeBound
  split
  · exact .ok _
  · exact .ok _
  · exact (placed_boundary _).bind fun b => .ok (some b)

theorem placed_rangeOf [Present] (ms : Record) : Placed fun place => rangeOf place ms :=
  (Placed.require _ _).bind fun _ => (placed_rangeBound _).bind fun start =>
    (placed_rangeBound _).bind fun finish => .ok (Range.mk start finish)

theorem placed_checkRanges (before : Option (Range Boundary)) (rs : List (Range Boundary)) :
    Placed fun place => checkRanges place before rs := by
  induction rs generalizing before with
  | nil => exact .ok ()
  | cons r rest ih =>
    unfold checkRanges
    refine (Placed.require _ _).bind fun _ => (Placed.require _ _).bind fun _ => ?_
    dsimp only
    split
    · refine (Placed.require _ _).bind fun _ => ?_
      split
      · exact (Placed.require _ _).bind fun _ => ih _
      · exact ih _
    · split
      · exact (Placed.require _ _).bind fun _ => ih _
      · exact ih _

theorem placed_unmixed (rs : List (Range Boundary)) : Placed fun place => unmixed place rs := by
  refine (Placed.require _ _).bind fun _ => ?_
  split
  · exact .ok _
  · exact .ok _

theorem placed_readRanges [Present] (v : Value) : Placed fun place => readRanges place v := by
  unfold readRanges
  split
  · refine (Placed.require _ _).bind fun _ => ?_
    dsimp only
    split
    · exact (Placed.mapM placed_boundary _).bind fun all =>
        (Placed.require _ _).bind fun _ => placed_unmixed _
    · split
      · exact (Placed.mapM placed_rangeOf _).bind fun rs =>
          (placed_checkRanges none rs).bind fun _ => placed_unmixed rs
      · exact .refuse _
  · exact .refuse _

theorem placed_readInterval [Present] (interval : Value) (base : Option Value) :
    Placed fun place => readInterval place interval base := by
  unfold readInterval
  split
  · refine (Placed.require _ _).bind fun _ => ?_
    split
    · exact .ok _
    · exact .ok _
    · exact .refuse _
  · split
    · split
      · exact .refuse _
      · exact .time _
    · refine (Placed.require _ _).bind fun _ => ?_
      split
      · exact .ok _
      · refine (Placed.require _ _).bind fun _ => ?_
        split
        · exact .ok _
        · split
          · exact .refuse _
          · exact .time _
  · exact .refuse _

theorem placed_readUnit (unit count : Value) : Placed fun place => readUnit place unit count := by
  unfold readUnit
  dsimp only
  split
  · split
    · exact (Placed.require _ _).bind fun _ => .ok _
    · exact .refuse _
  · exact .refuse _

theorem placed_groupingOf [Present] (ms : Record) : Placed fun place => groupingOf place ms := by
  unfold groupingOf
  split
  · exact placed_readRanges _
  · exact placed_readInterval _ _
  · exact placed_readUnit _ _
  · exact .ok _

theorem placed_clauseBehind [Present] (field : String) (ms : Record) :
    Placed (clauseBehind field ms) :=
  (Placed.require _ _).bind fun _ => (Placed.require _ _).bind fun _ =>
    (Placed.require _ _).bind fun _ => (Placed.require _ _).bind fun _ =>
      (placed_groupingOf ms).bind fun g => .ok (Clause.mk field g)

/-! ### Positions of clauses -/

def Positioned {α : Type} (r : Int → Reading α) : Prop :=
  ∀ i j, r j = (r i).mapError (·.inClause j)

theorem Positioned.bind {α β : Type} {r : Int → Reading α} {f : α → Int → Reading β}
    (hr : Positioned r) (hf : ∀ a, Positioned (f a)) :
    Positioned fun index => r index >>= fun a => f a index := by
  intro i j
  dsimp only
  rw [mapError_bind, ← hr i j]
  exact bind_congr fun a => hf a i j

theorem Placed.positioned {α : Type} {r : Location → Reading α} (hr : Placed r) (field : Value) :
    Positioned fun index => r ⟨field, .int index⟩ := by
  intro i j
  dsimp only
  rw [hr ⟨field, .int i⟩ ⟨field, .int j⟩]
  cases h : r ⟨field, .int i⟩ with
  | ok a => rfl
  | error e =>
    cases e with
    | invalid fault place =>
      cases hr.place_eq h
      rfl
    | time f => rfl

theorem positioned_fieldPath (options : RequestOptions) (v : Value) :
    Positioned fun index => fieldPath options (.int index) v := by
  intro i j
  unfold fieldPath
  split
  · split
    · rfl
    · split <;> rfl
  · rfl

theorem positioned_clauseOf [Present] (options : RequestOptions) (ms : Record) :
    Positioned fun index => clauseOf options index ms := by
  simp only [clauseOf_eq]
  exact (positioned_fieldPath options _).bind fun field =>
    (placed_clauseBehind field ms).positioned (.str field)

/-- A clause at another position is read to the same, or refused with the same fault there. -/
theorem positioned_readClause [Present] (options : RequestOptions) (v : Value) :
    Positioned fun index => readClause options index v := by
  cases v with
  | str path => exact positioned_clauseOf options _
  | object ms => exact positioned_clauseOf options ms
  | _ => exact fun _ _ => rfl

/-- The field that a clause names: the clause is a text that is not empty, or has one for its
field. -/
inductive NamesField : Value → String → Prop
  | path {path : String} (given : path ≠ "") : NamesField (.str path) path
  | member {ms : Record} {path : String} (given : path ≠ "")
      (field : ms.get? "field" = some (.str path)) : NamesField (.object ms) path

/-- A refusal names the clause that it is about, and the field that the clause names. -/
def SpecError.Concerns (index : Int) (v : Value) : SpecError → Prop
  | .invalid _ place =>
    place.clause = .int index ∧ ∀ path, NamesField v path → place.field = .str path
  | .time _ => True

section
variable {options : RequestOptions} {fault : SpecFault} {place : Location}

theorem fieldPath_refused {clause v : Value}
    (h : fieldPath options clause v = .error (.invalid fault place)) :
    place.clause = clause ∧ ∀ path, path ≠ "" → v = .str path → place.field = .str path := by
  unfold fieldPath at h
  split at h
  · split at h
    · rename_i hempty
      cases h
      refine ⟨rfl, fun path hpath hv => ?_⟩
      cases hv
      exact absurd hempty hpath
    · split at h
      · cases h
        exact ⟨rfl, fun path _ hv => hv⟩
      · cases h
  · rename_i hother
    cases h
    exact ⟨rfl, fun path _ hv => absurd hv (hother path)⟩

theorem clauseOf_refused [Present] {index : Int} {ms : Record}
    (h : clauseOf options index ms = .error (.invalid fault place)) :
    place.clause = .int index ∧
      ∀ path, path ≠ "" → ms.get? "field" = some (.str path) → place.field = .str path := by
  rw [clauseOf_eq] at h
  cases hfield : fieldPath options (.int index) ((ms.get? "field").getD .null) with
  | error e =>
    rw [hfield] at h
    cases h
    obtain ⟨hclause, hpaths⟩ := fieldPath_refused hfield
    refine ⟨hclause, fun path hpath hget => hpaths path hpath ?_⟩
    rw [hget]
    rfl
  | ok field =>
    rw [hfield, ok_bind] at h
    cases (placed_clauseBehind field ms).place_eq h
    refine ⟨rfl, fun path _ hget => ?_⟩
    have hread := fieldPath_eq_ok hfield
    rw [hget] at hread
    exact hread.symm

theorem readClause_concerns [Present] {index : Int} {v : Value} {e : SpecError}
    (h : readClause options index v = .error e) : e.Concerns index v := by
  cases e with
  | time f => trivial
  | invalid fault place =>
    cases v with
    | str path =>
      obtain ⟨hclause, hpaths⟩ := clauseOf_refused h
      refine ⟨hclause, fun path' hnames => ?_⟩
      cases hnames with
      | path hne => exact hpaths path hne rfl
    | object ms =>
      obtain ⟨hclause, hpaths⟩ := clauseOf_refused h
      refine ⟨hclause, fun path hnames => ?_⟩
      cases hnames with
      | member hne hget => exact hpaths path hne hget
    | _ =>
      cases h
      refine ⟨rfl, fun path hnames => ?_⟩
      cases hnames

end

/-! ### Lists of clauses -/

section
variable {options : RequestOptions} {index : Nat} {vs : List Value}

theorem readClause_eq_ok [Present] {i : Int} {v : Value} {c : Clause} :
    readClause options i v = .ok c ↔ readClause options 0 v = .ok c := by
  have hread := positioned_readClause options v 0 i
  dsimp only at hread
  rw [hread, mapError_eq_ok]

theorem readClause_eq_error [Present] {i : Int} {v : Value} {e : SpecError} :
    readClause options i v = .error e ↔
      ∃ f, readClause options 0 v = .error f ∧ e = f.inClause i := by
  have hread := positioned_readClause options v 0 i
  dsimp only at hread
  rw [hread, mapError_eq_error]

theorem readGroupBy_single [Present] (v : Value) :
    readGroupBy options (.list [v]) = (readClause options 0 v).map fun c => [c] := by
  rw [readGroupBy_list (List.cons_ne_nil v []), readClauses]
  cases h : readClause options (0 : Nat) v <;> rfl

theorem readClauses_eq_ok [Present] {cs : List Clause} : readClauses options index vs = .ok cs ↔
    List.Forall₂ (fun v c => readClause options 0 v = .ok c) vs cs := by
  induction vs generalizing index cs with
  | nil => rw [readClauses, Except.ok.injEq, List.forall₂_nil_left_iff, eq_comm]
  | cons v vs ih =>
    simp only [readClauses, bind_eq_ok, pure_eq_ok, ih, readClause_eq_ok,
      List.forall₂_cons_left_iff]
    constructor
    · intro h
      obtain ⟨c, hc, cs, hcs, rfl⟩ := h
      exact ⟨c, cs, hc, hcs, rfl⟩
    · intro h
      obtain ⟨c, cs, hc, hcs, rfl⟩ := h
      exact ⟨c, hc, cs, hcs, rfl⟩

theorem readClauses_eq_error [Present] {e : SpecError} : readClauses options index vs = .error e ↔
    ∃ before v after, vs = before ++ v :: after ∧
      (∀ w ∈ before, ∃ c, readClause options 0 w = .ok c) ∧
      readClause options (index + before.length : Nat) v = .error e := by
  induction vs generalizing index with
  | nil => simp [readClauses]
  | cons v vs ih =>
    rw [readClauses]
    constructor
    · intro h
      cases hv : readClause options index v with
      | error f =>
        rw [hv] at h
        cases h
        exact ⟨[], v, vs, rfl, List.forall_mem_nil _, hv⟩
      | ok c =>
        rw [hv, ok_bind] at h
        cases hvs : readClauses options (index + 1) vs with
        | ok cs =>
          rw [hvs] at h
          cases h
        | error f =>
          rw [hvs] at h
          cases h
          obtain ⟨before, w, after, rfl, hbefore, hw⟩ := ih.mp hvs
          refine ⟨v :: before, w, after, rfl, ?_, ?_⟩
          · exact List.forall_mem_cons.mpr ⟨⟨c, readClause_eq_ok.mp hv⟩, hbefore⟩
          · rw [← hw, List.length_cons, Nat.add_right_comm, Nat.add_assoc]
    · intro h
      obtain ⟨before, w, after, hvs, hbefore, hw⟩ := h
      cases before with
      | nil =>
        cases hvs
        rw [List.length_nil, Nat.add_zero] at hw
        rw [hw]
        rfl
      | cons v' before =>
        cases hvs
        obtain ⟨⟨c, hc⟩, hbefore⟩ := List.forall_mem_cons.mp hbefore
        rw [List.length_cons, ← Nat.add_assoc, Nat.add_right_comm] at hw
        rw [readClause_eq_ok.mpr hc, ok_bind, ih.mpr ⟨before, w, after, rfl, hbefore, hw⟩]
        rfl

end

/-! ### Whole requests -/

/-- In a request that is fine otherwise a list of clauses is read if and only if each of them alone
is, and then to the clauses that they give alone. If not, it is refused as the first clause is that
is not read alone, in its own position, and the refusal concerns that clause. -/
theorem clauses_read_alone [Present] {options : RequestOptions} {ms : Record} {groupBy : Value}
    {fine : Spec} (hfine : Spec.ofRequest options (.object (ms.put "groupBy" groupBy)) = .ok fine)
    {vs : List Value} (hvs : vs ≠ []) :
    let reading (clauses : List Value) : Reading Spec :=
      Spec.ofRequest options (.object (ms.put "groupBy" (.list clauses)))
    ((∃ spec, reading vs = .ok spec) ↔ ∀ v ∈ vs, ∃ spec, reading [v] = .ok spec) ∧
    (∀ spec, reading vs = .ok spec ↔ ∃ cs, spec.clauses = some cs ∧
      List.Forall₂ (fun v c => reading [v] = .ok { spec with clauses := some [c] }) vs cs) ∧
    ∀ e, reading vs = .error e ↔ ∃ before v after f, vs = before ++ v :: after ∧
      (∀ w ∈ before, ∃ spec, reading [w] = .ok spec) ∧ reading [v] = .error f ∧
        e = f.inClause before.length ∧ e.Concerns before.length v := by
  intro reading
  have hlist : reading vs =
      (readClauses options 0 vs).map fun cs => { fine with clauses := some cs } := by
    rw [← readGroupBy_list hvs]
    exact ofRequest_put hfine _
  have halone (v : Value) : reading [v] =
      (readClause options 0 v).map fun c => { fine with clauses := some [c] } := by
    refine (ofRequest_put hfine _).trans ?_
    rw [readGroupBy_single]
    cases readClause options 0 v <;> rfl
  have hread (v : Value) : (∃ spec, reading [v] = .ok spec) ↔
      ∃ c, readClause options 0 v = .ok c := by
    simp only [halone, map_eq_ok, exists_comm, exists_and_left, exists_eq', and_true]
  refine ⟨?_, fun spec => ?_, fun e => ?_⟩
  · simp only [hread, hlist, map_eq_ok, readClauses_eq_ok]
    constructor
    · intro h v hv
      obtain ⟨-, cs, hcs, -⟩ := h
      obtain ⟨c, -, hc⟩ := exists_of_forall₂ hcs hv
      exact ⟨c, hc⟩
    · intro h
      obtain ⟨cs, hcs⟩ := exists_forall₂ h
      exact ⟨_, cs, hcs, rfl⟩
  · simp only [hlist, halone, map_eq_ok, readClauses_eq_ok]
    constructor
    · intro h
      obtain ⟨cs, hcs, rfl⟩ := h
      exact ⟨cs, rfl, hcs.imp fun v c hc => ⟨c, hc, rfl⟩⟩
    · intro h
      obtain ⟨cs, hclauses, hcs⟩ := h
      refine ⟨cs, hcs.imp fun v c h => ?_, ?_⟩
      · obtain ⟨c', hc', heq⟩ := h
        cases (Spec.mk.inj heq).1
        exact hc'
      · -- The first clause alone gives the rest of the specification.
        cases hcs with
        | nil => exact absurd rfl hvs
        | cons h _ =>
          obtain ⟨_, -, heq⟩ := h
          obtain ⟨-, hstats, htotal, hextra⟩ := Spec.mk.inj heq
          rw [hstats, htotal, hextra, ← hclauses]
  · simp only [hread, hlist, map_eq_error, readClauses_eq_error, Nat.zero_add]
    simp only [halone, map_eq_error]
    constructor
    · intro h
      obtain ⟨before, v, after, hvs, hbefore, he⟩ := h
      obtain ⟨f, hf, hef⟩ := readClause_eq_error.mp he
      exact ⟨before, v, after, f, hvs, hbefore, hf, hef, readClause_concerns he⟩
    · intro h
      obtain ⟨before, v, after, f, hvs, hbefore, hf, hef, -⟩ := h
      exact ⟨before, v, after, hvs, hbefore, readClause_eq_error.mpr ⟨f, hf, hef⟩⟩

/-- Of four clauses the first is fine, and the second and the fourth are not. -/
theorem clauses_read_alone_of_four :
    let ms : Record := [("groupBy", .str "kind"), ("total", .bool true)]
    let age : Value := .object [("field", .str "age"), ("base", .int 0)]
    let vs : List Value := [.str "kind", age, .str "name", .int 5]
    let reading (clauses : List Value) : Reading Spec :=
      Spec.ofRequest {} (.object (ms.put "groupBy" (.list clauses)))
    (∃ fine, reading [.str "kind"] = .ok fine) ∧ vs ≠ [] ∧
      reading [age] = .error (.invalid .baseWithoutInterval ⟨.str "age", .int 0⟩) ∧
      reading vs = .error (.invalid .baseWithoutInterval ⟨.str "age", .int 1⟩) := by
  intro ms age vs reading
  have hfine : reading [.str "kind"] = .ok ⟨some [⟨"kind", .discrete⟩], [], true, []⟩ := by cbv
  have hage : reading [age] = .error (.invalid .baseWithoutInterval ⟨.str "age", .int 0⟩) := by cbv
  have hvs : vs ≠ [] := List.cons_ne_nil _ _
  obtain ⟨-, -, herror⟩ := clauses_read_alone hfine hvs
  refine ⟨⟨_, hfine⟩, hvs, hage, (herror _).mpr ?_⟩
  refine ⟨[.str "kind"], age, [.str "name", .int 5], _, rfl, ?_, hage, rfl, rfl, ?_⟩
  · exact List.forall_mem_singleton.mpr ⟨_, hfine⟩
  · intro path hnames
    have hnames : NamesField (.object [("field", .str "age"), ("base", .int 0)]) path := hnames
    cases hnames with
    | member _ hfield => exact Option.some.inj hfield

end Aggregate
end RecordStore
