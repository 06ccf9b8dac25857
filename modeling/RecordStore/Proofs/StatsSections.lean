import RecordStore.Proofs.RequestFaults
import RecordStore.Proofs.ShortForms

/-! The statistics section of requests for totals and for groups. Both read it in the same way, but
a request for totals leaves unread what counts as not given. -/
namespace RecordStore

/-- A value that counts as not given and is no empty list or object. -/
def Value.isBlank (v : Value) : Bool := !v.truthy && !v.isObject && v.sequence?.isNone

namespace Aggregate

def totalsRequest (stats : Value) : Value := .object [("stats", stats), ("total", .bool true)]

def groupsRequest (groupBy stats : Value) : Value :=
  .object [("groupBy", groupBy), ("stats", stats), ("total", .bool true)]

/-- Refused for a fault, whether or not it can be put into words. -/
def Refused {α : Type} (r : Reading α) : Prop := ∃ fault place, r = .error (.invalid fault place)

/-- Two requests are both refused, or both accepted with the same statistics. -/
def ReadAlike (r s : Reading Spec) : Prop :=
  Refused r ∧ Refused s ∨ ∃ a b, r = .ok a ∧ s = .ok b ∧ a.stats = b.stats

section
variable {options : RequestOptions} {v : Value}

theorem refused_map {α β : Type} {r : Reading α} {f : α → β} : Refused (r.map f) ↔ Refused r := by
  cases r <;> simp [Refused, Except.map]

theorem not_refused_ok {α : Type} {a : α} : ¬ Refused (.ok a : Reading α) := by
  rintro ⟨fault, place, h⟩
  cases h

end

/-! ### No time in a section -/

def SpecError.IsRefusal : SpecError → Prop
  | .invalid .. => True
  | .time _ => False

abbrev Timeless {α : Type} (r : Reading α) : Prop := FailsOnly SpecError.IsRefusal r

section
variable {α : Type} {fault : SpecFault} {place : Location} {options : RequestOptions}

theorem timeless_refuse : Timeless (refuse fault place : Reading α) := .error trivial

theorem timeless_require {holds : Bool} : Timeless (require holds fault place) := by
  cases holds
  · exact timeless_refuse
  · exact .ok ()

theorem timeless_fieldPath {clause v : Value} : Timeless (fieldPath options clause v) := by
  cases v with
  | str s =>
    rw [fieldPath]
    split
    · exact timeless_refuse
    · split
      · exact timeless_refuse
      · exact .ok s
  | _ => exact timeless_refuse

theorem timeless_statMember {path name : String} {r : StatRequest} {v : Value} :
    Timeless (statMember options path r name v) := by
  rw [statMember.eq_def]
  split
  · exact .ok _
  · exact timeless_refuse
  · split
    · exact .ok _
    · exact timeless_refuse

theorem timeless_statRequest {path : String} {v : Value} :
    Timeless (statRequest options path v) := by
  rw [statRequest.eq_def]
  split
  · exact .ok _
  · exact .ok _
  · exact (FailsOnly.foldlM (fun _ _ => timeless_statMember) _ _).bind fun r =>
      timeless_require.bind fun _ => .ok r
  · exact timeless_refuse

theorem timeless_statFields (v : Value) : Timeless (statFields v) := by
  rw [statFields.eq_def]
  split
  · exact .ok _
  · exact .ok _
  · split
    · refine (FailsOnly.mapM (fun x => ?_) _).bind fun _ => .ok _
      split
      · exact .ok _
      · exact timeless_refuse
    · exact timeless_refuse

theorem timeless_statsSection (v : Value) : Timeless (statsSection options v) :=
  (timeless_statFields v).bind fun _ => FailsOnly.mapM (fun _ => timeless_fieldPath.bind fun _ =>
    timeless_statRequest.bind fun _ => .ok _) _

end

/-! ### Both kinds of requests -/

section
variable {options : RequestOptions} {v : Value}

theorem refused_or_ok {α : Type} {r : Reading α} (h : Timeless r) :
    Refused r ∨ ∃ a, r = .ok a := by
  cases r with
  | ok a => exact .inr ⟨a, rfl⟩
  | error e =>
    cases e with
    | invalid fault place => exact .inl ⟨fault, place, rfl⟩
    | time f => exact absurd (h _ rfl) id

theorem readAlike_map {r : Reading Stats} (h : Timeless r) {f g : Stats → Spec}
    (hfg : ∀ stats, (f stats).stats = (g stats).stats) : ReadAlike (r.map f) (r.map g) := by
  obtain hr | ⟨stats, rfl⟩ := refused_or_ok h
  · exact .inl ⟨refused_map.mpr hr, refused_map.mpr hr⟩
  · exact .inr ⟨f stats, g stats, rfl, rfl, hfg stats⟩

theorem statsSection_refused (hpath : ∀ path, v = .str path → ¬ IsPath options path)
    (hlist : v.sequence? = none) (hobject : v.isObject = false) :
    Refused (statsSection options v) := by
  refine (refused_or_ok (timeless_statsSection v)).resolve_right fun hok => ?_
  obtain ⟨stats, h⟩ := hok
  obtain ⟨fields, hfields, h⟩ := bind_eq_ok.mp h
  cases v with
  | str path =>
    cases hfields
    obtain ⟨_, _, h, -⟩ := List.forall₂_cons_left_iff.mp (mapM_eq_ok.mp h)
    obtain ⟨given, hread, -⟩ := bind_eq_ok.mp h
    obtain ⟨-, hgiven⟩ := (fieldPath_read .null).mp hread
    cases fieldPath_eq_ok hread
    exact hpath path rfl hgiven
  | object ms => cases hobject
  | list xs => cases hlist
  | tuple xs => cases hlist
  | bytes bs => cases hlist
  | byteArray bs => cases hlist
  | _ => cases hfields

theorem isBlank_eq_true :
    v.isBlank ↔ v.truthy = false ∧ v.isObject = false ∧ v.sequence? = none := by
  simp [Value.isBlank, and_assoc]

theorem statsSection_of_blank (h : v.isBlank) : Refused (statsSection options v) := by
  obtain ⟨htruthy, hobject, hlist⟩ := isBlank_eq_true.mp h
  refine statsSection_refused ?_ hlist hobject
  rintro path rfl ⟨hne, -⟩
  simp [Value.truthy] at htruthy
  exact hne htruthy

/-- An empty list or object asks for nothing, as if it were not there. -/
theorem totalStats_of_not_blank (h : ¬ v.isBlank) :
    totalStats options v = statsSection options v := by
  by_cases htruthy : v.truthy
  · exact if_pos htruthy
  · cases hlist : v.sequence? with
    | some xs =>
      have hxs : xs = [] := by simpa [truthy_of_sequence? hlist] using htruthy
      subst hxs
      have hempty : StatsExpand v (.object (countedFields [])) := .paths hlist
      rw [totalStats_expanded hempty, statsSection_expanded hempty]
      rfl
    | none =>
      cases hobject : v.isObject with
      | true =>
        cases v with
        | object ms => exact totalStats_object ms
        | _ => cases hobject
      | false => exact absurd (isBlank_eq_true.mpr ⟨by simpa using htruthy, hobject, hlist⟩) h

theorem ofRequest_totals [Present] (v : Value) : Spec.ofRequest options (totalsRequest v) =
    (totalStats options v).map fun stats => ⟨none, stats, true, []⟩ := by
  change statsSpec options [("stats", v), ("total", .bool true)] [] true = _
  rw [statsSpec_eq, map_eq_bind]
  simp only [Bool.or_true]
  rfl

theorem ofRequest_groups [Present] {groupBy : Value} {cs : List Clause}
    (hcs : readGroupBy options groupBy = .ok cs) (hv : v ≠ .null) :
    Spec.ofRequest options (groupsRequest groupBy v) =
      (statsSection options v).map fun stats => ⟨some cs, stats, true, []⟩ := by
  have hstats : optional [("groupBy", groupBy), ("stats", v), ("total", .bool true)] "stats" =
      some v := by
    cases v with
    | null => exact absurd rfl hv
    | _ => rfl
  change groupSpec options [("groupBy", groupBy), ("stats", v), ("total", .bool true)] [] true = _
  rw [groupSpec_of_some (Record.get?_cons_self ..), hcs, ok_bind, hstats, map_eq_bind]
  rfl

theorem readGroupBy_path [Present] {path : String} (h : IsPath options path) :
    readGroupBy options (.str path) = .ok [⟨path, .discrete⟩] := by
  have hfield : fieldPath options (.int 0) (.str path) = .ok path :=
    (fieldPath_read _).mpr ⟨rfl, h⟩
  have hclause : clauseOf options 0 [("field", .str path)] = .ok ⟨path, .discrete⟩ :=
    clauseOf_of_fit hfield ⟨rfl, Nat.zero_le 1, rfl, rfl⟩
  change (clauseOf options 0 [("field", .str path)] >>= fun c => .ok [c]) = _
  rw [hclause]
  rfl

/-- The statistics that are asked of all records and of groups are read alike, but for a section
that is no list and no object and counts as not given: of groups it is refused, like anything else
that is no path, no list and no object, and of all records it asks for nothing. -/
theorem stats_read_alike_iff [Present] {groupBy : Value} {cs : List Clause}
    (hcs : readGroupBy options groupBy = .ok cs) (hv : v ≠ .null) :
    let totals := Spec.ofRequest options (totalsRequest v)
    let groups := Spec.ofRequest options (groupsRequest groupBy v)
    (ReadAlike totals groups ↔ ¬ v.isBlank) ∧
    (v.isBlank → totals = .ok ⟨none, [], true, []⟩ ∧ Refused groups) ∧
    ((∀ path, v = .str path → ¬ IsPath options path) → v.sequence? = none → v.isObject = false →
      Refused groups ∧ (Refused totals ↔ ¬ v.isBlank)) := by
  intro totals groups
  have htotals : totals = _ := ofRequest_totals v
  have hgroups : groups = _ := ofRequest_groups hcs hv
  have hblank (h : v.isBlank) : totals = .ok ⟨none, [], true, []⟩ ∧ Refused groups := by
    refine ⟨?_, hgroups ▸ refused_map.mpr (statsSection_of_blank h)⟩
    rw [htotals, totalStats, (isBlank_eq_true.mp h).1]
    rfl
  refine ⟨?_, hblank, fun hpath hlist hobject => ?_⟩
  · by_cases h : v.isBlank
    · obtain ⟨hok, fault, place, hgroups⟩ := hblank h
      refine iff_of_false ?_ (not_not_intro h)
      rw [hok, hgroups]
      rintro (⟨hrefused, -⟩ | ⟨_, _, -, hother, -⟩)
      · exact not_refused_ok hrefused
      · cases hother
    · refine iff_of_true ?_ h
      rw [htotals, hgroups, totalStats_of_not_blank h]
      exact readAlike_map (timeless_statsSection v) fun _ => rfl
  · have hrefused := statsSection_refused hpath hlist hobject
    refine ⟨hgroups ▸ refused_map.mpr hrefused, ?_⟩
    by_cases h : v.isBlank
    · exact iff_of_false ((hblank h).1 ▸ not_refused_ok) (not_not_intro h)
    · refine iff_of_true ?_ h
      rw [htotals, totalStats_of_not_blank h]
      exact refused_map.mpr hrefused

theorem stats_read_alike_iff_of_list :
    readGroupBy {} (.str "kind") = .ok [⟨"kind", .discrete⟩] ∧
    ReadAlike (Spec.ofRequest {} (totalsRequest (.list [.str "size", .str "age"])))
      (Spec.ofRequest {} (groupsRequest (.str "kind") (.list [.str "size", .str "age"]))) := by
  have hcs : readGroupBy {} (.str "kind") = .ok [⟨"kind", .discrete⟩] :=
    readGroupBy_path ⟨by decide, fun _ => by decide⟩
  exact ⟨hcs, (stats_read_alike_iff hcs (by rintro ⟨⟩)).1.mpr Bool.false_ne_true⟩

/-- A flag for a section is refused of groups, and passed over of all records. -/
theorem flag_section_passed_over :
    Spec.ofRequest {} (totalsRequest (.bool false)) = .ok ⟨none, [], true, []⟩ ∧
    Spec.ofRequest {} (groupsRequest (.str "kind") (.bool false)) =
      refuse (.statsForm (.bool false)) := by
  refine ⟨rfl, ?_⟩
  rw [ofRequest_groups (readGroupBy_path ⟨by decide, fun _ => by decide⟩) (by rintro ⟨⟩)]
  rfl

end

end Aggregate
end RecordStore
