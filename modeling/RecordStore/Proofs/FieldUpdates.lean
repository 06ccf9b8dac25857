import RecordStore.Proofs.Faults
import RecordStore.Proofs.PathWrites
import RecordStore.Proofs.Upserts

/-! What an update expression does to one record as a whole, and how it fails. To set members by
names without a point is to put them; under any other name an expression changes nothing. -/
namespace RecordStore

def Name.isSimple : Name → Bool
  | .text s => '.' ∉ s.toList
  | .key .. => false

theorem Name.eq_text_of_isSimple {k : Name} (h : k.isSimple) :
    ∃ s, k = .text s ∧ Path.ofText s = [s] := by
  cases k with
  | text s => exact ⟨s, rfl, Path.ofText_of_undotted (by simpa [isSimple] using h)⟩
  | key reading writing => cases h

namespace Record
variable {k : Name}

/-! ### Members put one after the other -/

theorem get?_put_congr {r s : Record} (h : r.get? k = s.get? k) (l : Name) (v : Value) :
    (r.put l v).get? k = (s.put l v).get? k := by
  by_cases hl : l = k
  · subst hl
    rw [get?_put_self, get?_put_self]
  · rw [get?_put_of_ne hl, get?_put_of_ne hl, h]

theorem get?_putAll_congr {r s : Record} (h : r.get? k = s.get? k) (ms : Record) :
    (r.putAll ms).get? k = (s.putAll ms).get? k := by
  induction ms generalizing r s with
  | nil => exact h
  | cons m ms ih => exact ih (get?_put_congr h m.1 m.2)

theorem get?_putAll_of_mem {ms : Record} (h : k ∈ ms.map Prod.fst) (r s : Record) :
    (r.putAll ms).get? k = (s.putAll ms).get? k := by
  induction ms generalizing r s with
  | nil => cases h
  | cons m ms ih =>
    rw [List.map_cons, List.mem_cons] at h
    change ((r.put m.1 m.2).putAll ms).get? k = ((s.put m.1 m.2).putAll ms).get? k
    by_cases hms : k ∈ ms.map Prod.fst
    · exact ih hms _ _
    · obtain rfl := h.resolve_right hms
      exact get?_putAll_congr (by rw [get?_put_self, get?_put_self]) ms

theorem exists_get?_putAll {ms : Record} (h : k ∈ ms.map Prod.fst) (r : Record) :
    ∃ v, (r.putAll ms).get? k = some v := by
  induction ms generalizing r with
  | nil => cases h
  | cons m ms ih =>
    rw [List.map_cons, List.mem_cons] at h
    change ∃ v, ((r.put m.1 m.2).putAll ms).get? k = some v
    by_cases hms : k ∈ ms.map Prod.fst
    · exact ih hms _
    · obtain rfl := h.resolve_right hms
      exact ⟨m.2, by rw [get?_putAll_of_not_mem hms, get?_put_self]⟩

end Record

namespace Update
variable {k : Name} {data : Record}

/-! ### Which expressions are taken -/

/-- An expression that is no mixed one and has no operator that is not supported. -/
def Taken (data : Record) : Prop :=
  (Record.keys data).any isOperator → ∀ name ∈ Record.keys data, name ∈ supported

theorem isOperator_of_supported {name : String} (h : name ∈ supported) : isOperator name := by
  simp only [supported, List.mem_cons, List.not_mem_nil, or_false] at h
  obtain rfl | rfl | rfl := h <;> decide

/-- Operators stand by themselves, and plain members under the operator that sets. -/
def expanded (data : Record) : Record :=
  if (Record.keys data).any isOperator then data else [(setName, .object data)]

theorem isOperatorUpdate_eq (names : List String) : isOperatorUpdate names =
    if names.any isOperator ∧ ¬ names.all isOperator then .error .mixedUpdate
    else .ok (names.any isOperator) := by
  have hany : names.filter isOperator ≠ [] ↔ names.any isOperator := by simp
  have hall : (names.filter isOperator).length ≠ names.length ↔ ¬ names.all isOperator := by
    rw [ne_eq, List.length_filter_eq_length_iff, List.all_eq_true]
  simp only [isOperatorUpdate, hany, hall, Bool.decide_eq_true]

theorem read_of_taken (h : Taken data) :
    read false (.object data) = .ok (.operators (.object (expanded data))) := by
  rw [read, updateNames_object, expanded]
  by_cases hop : (Record.keys data).any isOperator
  · have hall : (Record.keys data).all isOperator :=
      List.all_eq_true.mpr fun name hname => isOperator_of_supported (h hop name hname)
    have hfind : (Record.keys data).find? (fun name => name ∉ supported) = none :=
      List.find?_eq_none.mpr fun name hname => by simpa using h hop name hname
    have hread : isOperatorUpdate (Record.keys data) = .ok true := by
      simp [isOperatorUpdate_eq, hop, hall]
    simp only [Except.mapError, ok_bind, hread, hfind, hop, if_true]
  · have hread : isOperatorUpdate (Record.keys data) = .ok false := by
      simp [isOperatorUpdate_eq, hop]
    simp [Except.mapError, ok_bind, hread, hop, wrapped]

theorem read_of_not_taken (h : ¬ Taken data) :
    ∃ f : Fault, read false (.object data) = .error (.fault f) ∧ f.kind = .query ∧
      f.isWritable := by
  simp only [Taken, not_forall] at h
  obtain ⟨hop, name, hname, hunsupported⟩ := h
  rw [read, updateNames_object]
  by_cases hall : (Record.keys data).all isOperator
  · have hread : isOperatorUpdate (Record.keys data) = .ok true := by
      simp [isOperatorUpdate_eq, hop, hall]
    cases hfind : (Record.keys data).find? (fun name => name ∉ supported) with
    | some name =>
      refine ⟨.updateOperator name, ?_, rfl, rfl⟩
      simp only [Except.mapError, ok_bind, hread, hfind]
    | none =>
      have hall := List.find?_eq_none.mp hfind name hname
      simp [hunsupported] at hall
  · have hread : isOperatorUpdate (Record.keys data) = .error .mixedUpdate := by
      simp [isOperatorUpdate_eq, hop, hall]
    exact ⟨.mixedUpdate, by simp [Except.mapError, ok_bind, hread], rfl, rfl⟩

/-! ### What is made of a record -/

def changed (data : Record) (r : Value) : Except StoreError Value := do
  let r ← set (assigned data) r
  let r ← unset (operand data unsetName) r
  increment (operand data incrementName) r

theorem operand_of_none {name : String} (hname : isOperator name)
    (h : ¬ (Record.keys data).any isOperator) : operand data name = .object [] := by
  have hnone : data.get? name = none := by
    refine Record.get?_eq_none fun m hm hm' => h ?_
    refine List.any_eq_true.mpr ⟨m.1.reading, List.mem_map_of_mem hm, ?_⟩
    rw [hm']
    exact hname
  rw [operand, hnone]
  rfl

theorem apply_expanded (keyField : Name) (r : Value) :
    apply keyField r (.operators (.object (expanded data))) = changed data r := by
  have happly (ms : Record) : apply keyField r (.operators (.object ms)) = (do
      let r ← set (operand ms setName) r
      let r ← unset (operand ms unsetName) r
      increment (operand ms incrementName) r) := rfl
  rw [happly, changed, expanded, assigned]
  by_cases hop : (Record.keys data).any isOperator
  · simp only [if_pos hop]
  · have hunset : operand data unsetName = .object [] := operand_of_none (by decide) hop
    have hinc : operand data incrementName = .object [] := operand_of_none (by decide) hop
    simp only [if_neg hop, hunset, hinc]
    rfl

theorem set_simple {sets : Record} (h : ∀ m ∈ sets, m.1.isSimple) (r : Record) :
    set (.object sets) (.object r) = .ok (.object (r.putAll sets)) := by
  have hset (r : Record) : set (.object sets) (.object r) = sets.entries.foldlM (fun r m =>
      (Value.setAt r (.str m.1) m.2).mapError .failure) (.object r) := rfl
  rw [hset]
  clear hset
  induction sets generalizing r with
  | nil => rfl
  | cons m sets ih =>
    obtain ⟨hm, hsets⟩ := List.forall_mem_cons.mp h
    obtain ⟨name, v⟩ := m
    obtain ⟨s, rfl, hpath⟩ := Name.eq_text_of_isSimple hm
    have hfirst : Value.setAt (.object r) (.str s) v = .ok (.object (r.put (.text s) v)) := by
      have hsetAt : r.setAt (Path.ofText s) v = r.put (.text s) v := by
        rw [hpath]
        rfl
      rw [← hsetAt]
      rfl
    change ((Value.setAt (.object r) (.str s) v).mapError .failure >>= _) = _
    rw [hfirst]
    exact ih hsets (r.put (.text s) v)

/-! ### What every write keeps -/

section
variable {P : Value → Prop} {old new : Value}

theorem set_keeps {members : Value}
    (step : ∀ {r u w : Value} {path : String}, P r → r.setAt (.str path) w = .ok u → P u)
    (hold : P old) (h : set members old = .ok new) : P new := by
  rw [set, bind_eq_ok] at h
  obtain ⟨ms, -, h⟩ := h
  exact foldlM_keeps (fun hr hu => step hr (mapError_eq_ok.mp hu)) hold h

theorem unset_keeps {paths : Value}
    (step : ∀ {r u : Value} {path : String}, P r → r.unsetAt (.str path) = .ok u → P u)
    (hold : P old) (h : unset paths old = .ok new) : P new := by
  rw [unset, bind_eq_ok] at h
  obtain ⟨xs, -, h⟩ := h
  refine foldlM_keeps (fun {r x u} hr hu => ?_) hold h
  rw [mapError_eq_ok] at hu
  obtain ⟨path, rfl⟩ := isStr_of_unsetAt hu
  exact step hr hu

theorem increment_keeps {amounts : Value}
    (step : ∀ {r u : Value} {n : Num} {path : String}, P r → r.setAt (.str path) (.num n) = .ok u →
      P u)
    (hold : P old) (h : increment amounts old = .ok new) : P new := by
  rw [increment, bind_eq_ok] at h
  obtain ⟨ms, -, h⟩ := h
  refine foldlM_keeps (fun {r m u} hr hu => ?_) hold h
  obtain ⟨-, -, -, sum, -, -, -, -, hset⟩ := incrementAt_eq_ok.mp hu
  exact step hr hset

end

theorem startsAt_of_not_simple (hk : k.isSimple = false) (path : String) :
    startsAt k path = false := by
  rw [startsAt, Path.startsAt.eq_def]
  split
  · rfl
  · rename_i name rest hpath
    have hname : '.' ∉ name.toList := Path.undotted_of_mem (hpath ▸ List.mem_cons_self)
    refine decide_eq_false fun hne => ?_
    rw [← hne, Name.isSimple] at hk
    simp [hname] at hk

theorem changed_only (hk : k.isSimple = false) {old new : Value}
    (h : changed data old = .ok new) : new.only k = old.only k := by
  have hset {r u w : Value} {path : String} (hr : r.only k = old.only k)
      (hu : r.setAt (.str path) w = .ok u) : u.only k = old.only k := by
    have honly := setAt_only (k := k) hu
    rw [if_neg (by simp [startsAt_of_not_simple hk])] at honly
    exact honly.trans hr
  simp only [changed, bind_eq_ok] at h
  obtain ⟨r, hr, s, hs, h⟩ := h
  have hr := set_keeps (P := fun v => v.only k = old.only k) hset rfl hr
  have hs := unset_keeps (P := fun v => v.only k = old.only k) (fun {r u path} hr hu => by
    have honly := unsetAt_only (k := k) hu
    rw [if_neg (by simp [startsAt_of_not_simple hk])] at honly
    exact honly.trans hr) hr hs
  exact increment_keeps (P := fun v => v.only k = old.only k) hset hs h

def HasNoText (k : Name) (v : Value) : Prop :=
  ∃ r : Record, v = .object r ∧ ∀ m ∈ r, m.1 = k → ¬ m.2.isStr

theorem setAt_hasNoText {r u w : Value} {path : String} (hw : ¬ w.isStr) (hr : HasNoText k r)
    (hu : r.setAt (.str path) w = .ok u) : HasNoText k u := by
  obtain ⟨ms, rfl, hms⟩ := hr
  have hput (name : String) {w : Value} (hw : ¬ w.isStr) :
      ∀ m ∈ ms.put name w, m.1 = k → ¬ m.2.isStr := by
    intro m hm hname
    obtain rfl | hm := Record.mem_put hm
    · exact hw
    · exact hms m hm hname
  refine ⟨ms.setAt (Path.ofText path) w, ?_, ?_⟩
  · cases hu
    rfl
  · match Path.ofText path with
    | [] => exact hms
    | [name] => exact hput name hw
    | name :: next :: rest => exact hput name (by simp [Value.isStr])

theorem unsetAt_hasNoText {r u : Value} {path : String} (hr : HasNoText k r)
    (hu : r.unsetAt (.str path) = .ok u) : HasNoText k u := by
  obtain ⟨ms, rfl, hms⟩ := hr
  refine ⟨ms.unsetAt (Path.ofText path), ?_, ?_⟩
  · cases hu
    rfl
  · match Path.ofText path with
    | [] => exact hms
    | [name] => exact fun m hm => hms m (Record.mem_of_mem_erase hm)
    | name :: next :: rest =>
      intro m hm hname
      obtain ⟨below, -, hunset⟩ | hunset := Record.unsetAt_cons name next rest ms
      · rw [hunset] at hm
        obtain rfl | hm := Record.mem_put hm
        · simp [Value.isStr]
        · exact hms m hm hname
      · rw [hunset] at hm
        exact hms m hm hname

/-- What is taken away and added makes no text of what is none. -/
theorem hasNoText_of_changed {sets s : Value} {r : Record} (hr : HasNoText k s)
    (hunset : unset (operand data unsetName) s = .ok sets)
    (h : increment (operand data incrementName) sets = .ok (.object r)) :
    ∀ text, r.get? k ≠ some (.str text) := by
  have hs := unset_keeps (P := HasNoText k) unsetAt_hasNoText hr hunset
  obtain ⟨_, hms, hnone⟩ := increment_keeps (P := HasNoText k)
    (fun hr hu => setAt_hasNoText (by simp [Value.isStr]) hr hu) hs h
  cases hms
  intro text htext
  exact hnone _ (Record.mem_of_get? htext) rfl rfl

end Update

/-! ### How an update of one record fails -/

def Failure.isPlain : Failure → Bool
  | .domain _ | .json _ => false
  | _ => true

def StoreError.IsUpdating : StoreError → Prop
  | fault f => f.kind = .query ∧ f.isWritable
  | failure f => f.isPlain

namespace Value

theorem name_fails (v : Value) : FailsOnly (fun f : Failure => f.isPlain) v.name := by
  cases v <;> first | exact .ok _ | exact .error rfl

theorem members_fails (v : Value) : FailsOnly (fun f : Failure => f.isPlain) v.members := by
  cases v <;> first | exact .ok _ | exact .error rfl

theorem elements_fails (v : Value) : FailsOnly (· = Failure.notIterable) v.elements := by
  cases v <;> first | exact .ok _ | exact .error rfl

theorem setAt_fails (v path w : Value) : FailsOnly (fun f : Failure => f.isPlain)
    (v.setAt path w) := by
  refine ((name_fails path).bind fun _ => .ok _).bind fun names => ?_
  split
  · exact .ok _
  · exact .error rfl
  · exact .error rfl

theorem unsetAt_fails (v path : Value) : FailsOnly (fun f : Failure => f.isPlain)
    (v.unsetAt path) := by
  refine ((name_fails path).bind fun _ => .ok _).bind fun names => ?_
  split <;> exact .ok _

theorem lookUp_fails (v path : Value) : FailsOnly (fun f : Failure => f.isPlain)
    (v.lookUp path) :=
  ((name_fails path).bind fun _ => .ok _).bind fun _ => .mapError fun _ _ => rfl

end Value

namespace Update

section
variable {sort : StoreError → Prop} (hplain : ∀ f : Failure, f.isPlain → sort (.failure f))
include hplain

theorem set_fails (members r : Value) : FailsOnly sort (set members r) := by
  refine (FailsOnly.mapError ((Value.members_fails members).mono hplain)).bind fun ms => ?_
  exact .foldlM (fun r _ => .mapError ((Value.setAt_fails r _ _).mono hplain)) _ _

theorem unset_fails (paths r : Value) : FailsOnly sort (unset paths r) := by
  have helements : FailsOnly (fun f => sort (.failure f)) paths.elements :=
    (Value.elements_fails paths).mono fun f hf => hplain f (by rw [hf]; rfl)
  refine (FailsOnly.mapError helements).bind fun xs => ?_
  exact .foldlM (fun r path => .mapError ((Value.unsetAt_fails r path).mono hplain)) _ _

variable (hincrement : ∀ path, sort (.fault (.increment path)))
include hincrement

theorem increment_fails (amounts r : Value) : FailsOnly sort (increment amounts r) := by
  refine (FailsOnly.mapError ((Value.members_fails amounts).mono hplain)).bind fun ms => ?_
  refine .foldlM (fun r m => ?_) _ _
  refine (FailsOnly.mapError ((Value.lookUp_fails r _).mono hplain)).bind fun current => ?_
  split
  · split
    · exact .mapError ((Value.setAt_fails r _ _).mono hplain)
    · exact .error (hplain _ rfl)
  · exact .error (hincrement _)

theorem apply_fails (keyField : Name) (r : Value) (change : Update) :
    FailsOnly sort (change.apply keyField r) := by
  cases change with
  | operators given =>
    refine (FailsOnly.mapError ((Value.members_fails given).mono hplain)).bind fun ms => ?_
    refine (set_fails hplain _ _).bind fun r => (unset_fails hplain _ r).bind fun r => ?_
    exact increment_fails hplain hincrement _ r
  | replacement data =>
    refine (FailsOnly.mapError ((Value.members_fails data).mono hplain)).bind fun ms => ?_
    exact (FailsOnly.mapError ((Value.members_fails r).mono hplain)).bind fun old => .ok _

end

theorem changed_fails (data : Record) (r : Value) :
    FailsOnly StoreError.IsUpdating (changed data r) := by
  rw [← apply_expanded (.text "id") r]
  exact apply_fails (fun _ hf => hf) (fun _ => ⟨rfl, rfl⟩) _ _ _

/-! ### The whole of it -/

variable {data : Record}

def outcome (keyField : Name) (data : Record) (r : Value) : Except StoreError Value := do
  (← read false (.object data)).apply keyField r

theorem outcome_of_taken (h : Taken data) (keyField : Name) (r : Value) :
    outcome keyField data r = changed data r := by
  rw [outcome, read_of_taken h]
  exact apply_expanded keyField r

theorem outcome_of_not_taken (h : ¬ Taken data) (keyField : Name) (r : Value) :
    ∃ f : Fault, outcome keyField data r = .error (.fault f) ∧ f.kind = .query ∧ f.isWritable := by
  obtain ⟨f, hread, hquery⟩ := read_of_not_taken h
  refine ⟨f, ?_, hquery⟩
  rw [outcome, hread]
  rfl

theorem outcome_fails (keyField : Name) (data : Record) (r : Value) :
    FailsOnly StoreError.IsUpdating (outcome keyField data r) := by
  by_cases h : Taken data
  · rw [outcome_of_taken h]
    exact changed_fails data r
  · obtain ⟨f, houtcome, hquery⟩ := outcome_of_not_taken h keyField r
    rw [houtcome]
    exact .error hquery

theorem changed_isObject {old new : Value} (ho : old.isObject) (h : changed data old = .ok new) :
    new.isObject := by
  simp only [changed, bind_eq_ok] at h
  obtain ⟨r, hr, s, hs, h⟩ := h
  have hs := unset_keeps (P := fun v => v.isObject = true) unsetAt_isObject
    (set_isObject ho hr) hs
  exact increment_keeps (P := fun v => v.isObject = true) setAt_isObject hs h

theorem outcome_isObject {keyField : Name} {old new : Value} (ho : old.isObject)
    (h : outcome keyField data old = .ok new) : new.isObject := by
  by_cases htaken : Taken data
  · rw [outcome_of_taken htaken] at h
    exact changed_isObject ho h
  · obtain ⟨f, houtcome, -⟩ := outcome_of_not_taken htaken keyField old
    rw [houtcome] at h
    cases h

end Update

end RecordStore
