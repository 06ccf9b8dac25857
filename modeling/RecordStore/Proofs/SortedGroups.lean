import RecordStore.Proofs.PathWrites
import RecordStore.Proofs.RecordFaults
import RecordStore.Proofs.StableOrder

/-! Groups in the order of a statistic. A path to sort by is taken apart at its points, and the
statistics of an entry stand under whole field paths. A field path without a point is found, and the
entries come in the order of its statistic; one with a point leads nowhere, and they stay as they
first came up. -/
namespace RecordStore

namespace Aggregate

section
variable {spec : Spec} {o : AggregateOptions} {records : List Value} {es : List Entry}

theorem sums_of_result [Present]
    (h : (ofRecords (begin (.ok spec) (.ok (.read {}))) records).result = .ok (.groups es)) :
    ∃ clauses ks, spec.clauses = some clauses ∧ extensionStats? spec.stats = none ∧
      keyed clauses records = .ok ks ∧ List.Forall₂ (Entry.Sums spec) (classes ks) es := by
  obtain ⟨run, -, hrun, -⟩ := ofRecords_eq_ok.mp h
  obtain ⟨_, _, ⟨⟩, ⟨⟩, hx, -, -⟩ := begin_eq_ok.mp hrun
  cases hc : spec.clauses with
  | none =>
    obtain ⟨ss, -, hresult⟩ := (overall_aggregate hc hx rfl rfl).mp h
    cases hresult
  | some clauses =>
    obtain ⟨ks, entries, hks, hsums, hresult⟩ := (groups_aggregate hc hx rfl rfl).mp h
    cases hresult
    exact ⟨clauses, ks, rfl, hx, hks, hsums⟩

theorem groups_of_two [Present] {clauses : List Clause} (hc : spec.clauses = some clauses)
    (hx : extensionStats? spec.stats = none) {r r' : Value} {key key' : List Value} {e e' : Entry}
    (hkey : Run.keyOf r 0 clauses = .ok (some key))
    (hkey' : Run.keyOf r' 0 clauses = .ok (some key'))
    (hne : Value.sameKeys key key' = false) (he : Entry.Sums spec ⟨key, [r]⟩ e)
    (he' : Entry.Sums spec ⟨key', [r']⟩ e') :
    (ofRecords (begin (.ok spec) (.ok (.read {}))) [r, r']).result = .ok (.groups [e, e']) := by
  have hks : keyed clauses [r, r'] = .ok [(key, r), (key', r')] := by
    rw [keyed, keyed, hkey, hkey']
    rfl
  have hclasses : classes [(key, r), (key', r')] = [⟨key, [r]⟩, ⟨key', [r']⟩] := by
    simp [classes, sharing, others, hne]
  refine (groups_aggregate hc hx rfl rfl).mpr ⟨_, _, hks, ?_, rfl⟩
  rw [hclasses]
  exact .cons he (.cons he' .nil)

/-- An order and a limit come last. -/
theorem sorted_result [Present] {sorted : List Entry}
    (h : (ofRecords (begin (.ok spec) (.ok (.read {}))) records).result = .ok (.groups es))
    (hsort : sortByKeys Entry.get (o.sort.map SortKey.ofText) es = .ok sorted) :
    (ofRecords (begin (.ok spec) (.ok (.read o))) records).result =
      .ok (.groups (Run.limited o.limit sorted)) := by
  obtain ⟨clauses, ks, hc, hx, hks, hsums⟩ := sums_of_result h
  let last (groups : List Group) : Run :=
    { spec, options := .read o, stats := .start spec.stats, seen := 0 + records.length, groups }
  obtain ⟨groups, hgroups, hentries⟩ :=
    forall₂_comp.mpr (hsums.imp fun c e he => (sums_of_group (last [])).mpr he)
  rw [begin_groups hc hx, ofRecords_eq_ok]
  refine ⟨_, last groups, rfl,
    (Run.feedAll_groups hc).mpr ⟨ks, groups, hks, Run.addAll_nil.mpr hgroups, rfl⟩, ?_⟩
  have hmap : groups.mapM (last groups).entryOf = .ok es := mapM_eq_ok.mpr hentries
  rw [Run.render]
  dsimp only [last]
  rw [hc]
  exact bind_eq_ok.mpr ⟨es, hmap, bind_eq_ok.mpr ⟨sorted, sortEntries_eq_ok.mpr hsort, rfl⟩⟩

theorem result_by_key [Present] {path : String} {descending : Bool} {value : Entry → Value}
    (h : (ofRecords (begin (.ok spec) (.ok (.read {}))) records).result = .ok (.groups es))
    (hsort : o.sort.map SortKey.ofText = [⟨path, descending⟩])
    (hvalue : ∀ e ∈ es, e.get path = .ok (value e)) (hone : Value.OneKind (es.map value)) :
    ∃ sorted, (∀ other, other = sorted ↔ StablySortedBy descending value es other) ∧
      (ofRecords (begin (.ok spec) (.ok (.read o))) records).result =
        .ok (.groups (Run.limited o.limit sorted)) := by
  obtain ⟨sorted, hsorted, hstable⟩ := sortByKeys_singleton ⟨path, descending⟩ hvalue hone
  exact ⟨sorted, hstable, sorted_result h (by rw [hsort, hsorted])⟩

end

/-! ### Lookups in statistics -/

/-- A statistic of a field as an entry shows it; nothing if the entry does not show it. -/
def Entry.statistic (e : Entry) (field : String) (s : Statistic) : Value :=
  (((e.stats.getD []).lookup field).bind (Record.get? s.name)).getD .missing

section
variable {e : Entry} {ss : List (String × Record)} {path : String}

theorem get?_statsMembers (field : String) (ss : List (String × Record)) :
    (statsMembers ss).get? field = (ss.lookup field).map .object := by
  induction ss with
  | nil => rfl
  | cons s ss ih =>
    obtain ⟨name, ms⟩ := s
    by_cases hname : name = field
    · subst hname
      simp [statsMembers, Record.get?]
    · have hne : Name.text name ≠ Name.text field := fun h => hname (Name.text.inj h)
      rw [List.lookup_cons, beq_false_of_ne (Ne.symm hname)]
      exact (Record.get?_cons_of_ne hne _ _).trans ih

theorem get_statsValue (first : String) (rest : Path) (ss : List (String × Record)) :
    (statsValue ss).get (first :: rest) = match ss.lookup first with
      | some ms => Value.get (.object ms) rest
      | none => .ok .missing := by
  have hmember := get?_statsMembers first ss
  cases hfirst : ss.lookup first with
  | none =>
    rw [hfirst] at hmember
    exact Record.get_of_none hmember
  | some ms =>
    rw [hfirst] at hmember
    exact Record.get_of_object hmember

theorem Entry.get_long {names : Path} (hstats : e.stats = some ss)
    (hpath : Path.ofText path = "stats" :: names) : e.get path = (statsValue ss).get names := by
  have hlong : e.toValue.get ("stats" :: names) = (statsValue ss).get names := by
    rw [Entry.toValue, hstats]
    exact Record.get_of_object rfl
  rw [Entry.get, hpath, hlong]
  cases (statsValue ss).get names with
  | error f => rfl
  | ok v => cases v <;> rfl

theorem Entry.name_of_mem {m : Name × Value} {ms : Record} (hms : e.toValue = .object ms)
    (hm : m ∈ ms) : ∃ name ∈ entryNames, m.1 = .text name := by
  cases hms
  have hnames := ((names_given "stats" (e.stats.map statsValue)).append
    (names_given "total" (e.total.map fun n => .int n))).cons_cons (Name.text "key")
  rw [← List.map_append] at hnames
  have hname : m.1 ∈ entryNames.map Name.text := hnames.subset (List.mem_map_of_mem hm)
  obtain ⟨name, hmem, heq⟩ := List.mem_map.mp hname
  exact ⟨name, hmem, heq.symm⟩

theorem Entry.get_short {first : String} {rest : Path} (hstats : e.stats = some ss)
    (hpath : Path.ofText path = first :: rest) (hfirst : first ∉ entryNames) :
    e.get path = (statsValue ss).get (first :: rest) := by
  have hnone : e.toValue.get (first :: rest) = .ok .missing := by
    refine Record.get_of_none (Record.get?_eq_none fun m hm hname => hfirst ?_)
    obtain ⟨name, hmem, heq⟩ := Entry.name_of_mem rfl hm
    rw [hname] at heq
    rwa [Name.text.inj heq]
  rw [Entry.get, hpath, hnone]
  simp only [ok_bind, List.headD_cons, if_neg hfirst, hstats]

end

/-- The paths at which a statistic is to be found: the long one, and the short one if its first name
is none of an entry's own. -/
def statPaths (field : String) (s : Statistic) : List String :=
  ("stats." ++ field ++ "." ++ s.name) ::
    if (Path.ofText field).headD "" ∈ entryNames then [] else [field ++ "." ++ s.name]

/-- The first two names of a field path are another field and an extreme that is asked of it, so
that the path goes on into a value. -/
def Stats.Shadows (stats : Stats) (field : String) : Prop :=
  ∃ first second rest request, Path.ofText field = first :: second :: rest ∧
    (first, request) ∈ stats ∧ (request.min ∧ second = "min" ∨ request.max ∧ second = "max")

theorem Entry.get_statPath {e : Entry} {ss : List (String × Record)} {path field : String}
    {s : Statistic} (hstats : e.stats = some ss) (hpath : path ∈ statPaths field s) :
    e.get path = (statsValue ss).get (Path.ofText field ++ [s.name]) := by
  have hname : Path.ofText s.name = [s.name] := by cases s <;> rfl
  rcases List.mem_cons.mp hpath with rfl | hshort
  · refine Entry.get_long hstats ?_
    have hlong : "stats." ++ field ++ "." ++ s.name =
        "stats" ++ "." ++ (field ++ "." ++ s.name) := by
      simp [← String.append_assoc]
    rw [hlong, Path.ofText_append, Path.ofText_append, hname]
    rfl
  · split at hshort
    · cases hshort
    · rename_i hfirst
      rw [List.mem_singleton.mp hshort]
      obtain ⟨first, rest, hfield⟩ := List.exists_cons_of_ne_nil (Path.ofText_ne_nil field)
      rw [hfield] at hfirst ⊢
      refine Entry.get_short hstats ?_ hfirst
      rw [Path.ofText_append, hname, hfield]
      rfl

theorem Entry.get_undotted {e : Entry} {ss : List (String × Record)} {path field : String}
    {s : Statistic} (hstats : e.stats = some ss) (hpath : path ∈ statPaths field s)
    (hdot : '.' ∉ field.toList) : e.get path = .ok (e.statistic field s) := by
  rw [Entry.get_statPath hstats hpath, Path.ofText_of_undotted hdot, List.singleton_append,
    get_statsValue, Entry.statistic, hstats, Option.getD_some]
  cases ss.lookup field with
  | none => rfl
  | some ms => exact Record.get_singleton s.name ms

theorem mem_given {name : String} {v : Option Value} {m : Name × Value} :
    m ∈ given name v ↔ ∃ w, v = some w ∧ m = (.text name, w) := by
  cases v <;> simp [given]

/-- Statistics are numbers but for the extremes, which are there if they are asked for. -/
theorem Accumulator.shown_of_render {request : StatRequest} {a : Accumulator} {ms : Record}
    (h : a.render request = .ok ms) {name : String} {v : Value} (hv : ms.get? name = some v) :
    (∃ n, v = .num n) ∨ request.min ∧ name = "min" ∨ request.max ∧ name = "max" := by
  rw [render_eq] at h
  obtain ⟨avg, havg, rfl⟩ := map_eq_ok.mp h
  have hmem := Record.mem_of_get? hv
  simp only [shown, List.mem_append, mem_given] at hmem
  rcases hmem with ((⟨w, hw, hv⟩ | hmean) | ⟨w, hw, hv⟩) | ⟨w, hw, hv⟩
  · obtain ⟨-, hw⟩ := Option.ite_none_right_eq_some.mp hw
    cases hw
    cases hv
    exact .inl ⟨_, rfl⟩
  · rw [mean] at havg
    split at havg
    · split at havg
      · cases havg
        cases List.mem_singleton.mp hmean
        exact .inl ⟨_, rfl⟩
      · cases havg
    · cases havg
      cases hmean
  · cases hv
    exact .inr (.inl ⟨(Option.ite_none_right_eq_some.mp hw).1, rfl⟩)
  · cases hv
    exact .inr (.inr ⟨(Option.ite_none_right_eq_some.mp hw).1, rfl⟩)

theorem Entry.get_dotted {e : Entry} {c : Class} {path field : String} {s : Statistic}
    {stats : Stats} {ss : List (String × Record)} (hstats : e.stats = some ss)
    (hsums : List.Forall₂ (Summed c.members) stats ss) (hpath : path ∈ statPaths field s)
    (hdot : '.' ∈ field.toList) (hshadow : ¬ Stats.Shadows stats field) :
    e.get path = .ok .missing := by
  obtain ⟨first, second, rest, hfield⟩ := Path.ofText_of_dotted hdot
  rw [Entry.get_statPath hstats hpath, hfield, List.cons_append, List.cons_append, get_statsValue]
  cases hfirst : ss.lookup first with
  | none => rfl
  | some ms =>
    have hmem : (first, ms) ∈ ss := by
      obtain ⟨before, after, rfl, -⟩ := List.lookup_eq_some_iff.mp hfirst
      exact List.mem_append_right _ List.mem_cons_self
    obtain ⟨⟨_, request⟩, hx, a, -, hrender, rfl⟩ := exists_of_forall₂ hsums.flip hmem
    dsimp only at hrender ⊢
    cases hsecond : ms.get? second with
    | none => exact Record.get_of_none hsecond
    | some v =>
      rcases Accumulator.shown_of_render hrender hsecond with ⟨n, rfl⟩ | hextreme
      · obtain ⟨next, after, hrest⟩ := List.exists_cons_of_ne_nil
          (List.append_ne_nil_of_right_ne_nil rest (List.cons_ne_nil s.name []))
        rw [hrest]
        exact Record.get_of_num hsecond
      · exact absurd ⟨_, second, rest, request, hfield, hx, hextreme⟩ hshadow

/-! ### Sorting by a statistic -/

section
variable {spec : Spec} {o : AggregateOptions} {records : List Value} {es : List Entry}
  {field text path : String} {descending : Bool} {s : Statistic} {request : StatRequest}

theorem shown_of_mem [Present]
    (h : (ofRecords (begin (.ok spec) (.ok (.read {}))) records).result = .ok (.groups es))
    (hfield : (field, request) ∈ spec.stats) {e : Entry} (he : e ∈ es) :
    ∃ c : Class, ∃ ss, e.stats = some ss ∧ List.Forall₂ (Summed c.members) spec.stats ss := by
  obtain ⟨-, ks, -, -, -, hsums⟩ := sums_of_result h
  obtain ⟨c, -, hsums⟩ := exists_of_forall₂ hsums.flip he
  have hstats := hsums.stats
  rw [if_neg (List.ne_nil_of_mem hfield)] at hstats
  obtain ⟨ss, hss, hsummed⟩ := hstats
  exact ⟨c, ss, hss, hsummed⟩

theorem groups_sorted_of_undotted [Present]
    (h : (ofRecords (begin (.ok spec) (.ok (.read {}))) records).result = .ok (.groups es))
    (hfield : (field, request) ∈ spec.stats)
    (hone : Value.OneKind (es.map fun e => e.statistic field s))
    (hsort : o.sort.map SortKey.ofText = [⟨path, descending⟩]) (hpath : path ∈ statPaths field s)
    (hdot : '.' ∉ field.toList) :
    ∃ sorted, (∀ other, other = sorted ↔
        StablySortedBy descending (fun e => e.statistic field s) es other) ∧
      (ofRecords (begin (.ok spec) (.ok (.read o))) records).result =
        .ok (.groups (Run.limited o.limit sorted)) := by
  refine result_by_key h hsort (fun e he => ?_) hone
  obtain ⟨c, ss, hss, -⟩ := shown_of_mem h hfield he
  exact Entry.get_undotted hss hpath hdot

theorem groups_unsorted_of_dotted [Present]
    (h : (ofRecords (begin (.ok spec) (.ok (.read {}))) records).result = .ok (.groups es))
    (hfield : (field, request) ∈ spec.stats)
    (hsort : o.sort.map SortKey.ofText = [⟨path, descending⟩]) (hpath : path ∈ statPaths field s)
    (hdot : '.' ∈ field.toList) (hshadow : ¬ Stats.Shadows spec.stats field) :
    (ofRecords (begin (.ok spec) (.ok (.read o))) records).result =
      .ok (.groups (Run.limited o.limit es)) := by
  have hnothing (e) (he : e ∈ es) : e.get path = .ok .missing := by
    obtain ⟨c, ss, hss, hsummed⟩ := shown_of_mem h hfield he
    exact Entry.get_dotted hss hsummed hpath hdot hshadow
  have hnone : Value.OneKind (es.map fun _ => .missing) := by
    refine .inl fun v hv hpresent => absurd ?_ hpresent
    obtain ⟨e, -, rfl⟩ := List.mem_map.mp hv
    rfl
  obtain ⟨sorted, hstable, hresult⟩ := result_by_key h hsort hnothing hnone
  have hself : es = sorted :=
    (hstable es).mpr (stablySorted_self fun _ _ _ _ => .inl ⟨rfl, rfl⟩)
  rwa [hself]

/-- Groups sorted by a statistic of a field come in the order of that statistic, cut by the limit,
if the field path has no point. If it has one they are cut as they first came up, whatever the order
that was asked for. -/
theorem groups_sorted_by_statistic [Present]
    (h : (ofRecords (begin (.ok spec) (.ok (.read {}))) records).result = .ok (.groups es))
    (hfield : (field, request) ∈ spec.stats)
    (hone : Value.OneKind (es.map fun e => e.statistic field s))
    (htext : SortKey.ofText text = ⟨path, descending⟩) (hpath : path ∈ statPaths field s)
    (hsort : o.sort = [text]) (hshadow : ¬ Stats.Shadows spec.stats field) :
    ∃ sorted, (∀ other, other = sorted ↔
        StablySortedBy descending (fun e => e.statistic field s) es other) ∧
      (ofRecords (begin (.ok spec) (.ok (.read o))) records).result =
        .ok (.groups (Run.limited o.limit (if '.' ∈ field.toList then es else sorted))) := by
  have hkeys : o.sort.map SortKey.ofText = [⟨path, descending⟩] := by
    rw [hsort, List.map_singleton, htext]
  by_cases hdot : '.' ∈ field.toList
  · obtain ⟨promised, hpromised⟩ := exists_stablySortedBy descending hone
    simp only [if_pos hdot]
    exact ⟨promised, hpromised,
      groups_unsorted_of_dotted h hfield hkeys hpath hdot hshadow⟩
  · simp only [if_neg hdot]
    exact groups_sorted_of_undotted h hfield hone hkeys hpath hdot

end

/-- Two ages that are not in order, of which one is let through: the greater. -/
theorem groups_sorted_by_statistic_of_ages :
    let spec : Spec := ⟨some [⟨"k", .discrete⟩], [("age", { max := true })], false, []⟩
    let o : AggregateOptions := { sort := ["-age.max"], limit := some 1 }
    let r (key : String) (n : Int) : Value := .object [("k", .str key), ("age", .int n)]
    let e (key : String) (n : Int) : Entry :=
      ⟨[.str key], some [("age", [("max", .int n)])], none⟩
    (ofRecords (begin (.ok spec) (.ok (.read {}))) [r "x" 1, r "y" 2]).result =
        .ok (.groups [e "x" 1, e "y" 2]) ∧
      (ofRecords (begin (.ok spec) (.ok (.read o))) [r "x" 1, r "y" 2]).result =
        .ok (.groups [e "y" 2]) := by
  intro spec o r e
  have hresult : (ofRecords (begin (.ok spec) (.ok (.read {}))) [r "x" 1, r "y" 2]).result =
      .ok (.groups [e "x" 1, e "y" 2]) :=
    groups_of_two rfl rfl rfl rfl (by simp [Value.sameKeys, Value.sameKey])
      ⟨rfl, rfl, _, rfl, .cons ⟨_, rfl, rfl, rfl⟩ .nil⟩
      ⟨rfl, rfl, _, rfl, .cons ⟨_, rfl, rfl, rfl⟩ .nil⟩
  have hone : Value.OneKind ([e "x" 1, e "y" 2].map fun e => e.statistic "age" .max) :=
    .inl (by
      simp only [List.map_cons, List.map_nil, List.forall_mem_cons]
      exact ⟨fun _ => ⟨_, rfl, rfl⟩, fun _ => ⟨_, rfl, rfl⟩, List.forall_mem_nil _⟩)
  have hunshadowed : ¬ Stats.Shadows spec.stats "age" := by
    rintro ⟨first, second, rest, request, hfield, -⟩
    cases hfield
  have htext : SortKey.ofText "-age.max" = ⟨"age.max", true⟩ := SortKey.ofText_minus "age.max"
  have hsort : o.sort = ["-age.max"] := rfl
  obtain ⟨sorted, hsorted, hlimited⟩ := groups_sorted_by_statistic hresult
    (List.mem_singleton_self _) hone htext (by decide) hsort hunshadowed
  refine ⟨hresult, ?_⟩
  have hswap : [e "y" 2, e "x" 1] = sorted :=
    (hsorted _).mpr (stablySorted_swap ⟨Bool.false_ne_true, .inr (Value.lt_int 1 2)⟩)
  rw [← hswap] at hlimited
  exact hlimited

/-- A path with a point: the group of the lesser of two maxima is asked for, and the other one is
given. -/
theorem dotted_statistic_passed_over :
    let stats : Value := .object [("a.b", .object [("max", .bool true)])]
    let request : Value := .object [("groupBy", .str "k"), ("stats", stats)]
    let spec : Spec := ⟨some [⟨"k", .discrete⟩], [("a.b", { max := true })], false, []⟩
    let o : AggregateOptions := { sort := ["stats.a.b.max"], limit := some 1 }
    let r (key : String) (n : Int) : Value :=
      .object [("k", .str key), ("a", .object [("b", .int n)])]
    let e (key : String) (n : Int) : Entry :=
      ⟨[.str key], some [("a.b", [("max", .int n)])], none⟩
    Spec.ofRequest {} request = .ok spec ∧
      (ofRecords (begin (.ok spec) (.ok (.read {}))) [r "x" 2, r "y" 1]).result =
        .ok (.groups [e "x" 2, e "y" 1]) ∧
      StablySortedBy false (fun e => e.statistic "a.b" .max) [e "x" 2, e "y" 1]
        [e "y" 1, e "x" 2] ∧
      (ofRecords (begin (.ok spec) (.ok (.read o))) [r "x" 2, r "y" 1]).result =
        .ok (.groups [e "x" 2]) ∧
      Run.limited o.limit [e "y" 1, e "x" 2] ≠ [e "x" 2] := by
  intro stats request spec o r e
  have hresult : (ofRecords (begin (.ok spec) (.ok (.read {}))) [r "x" 2, r "y" 1]).result =
      .ok (.groups [e "x" 2, e "y" 1]) :=
    groups_of_two rfl rfl rfl rfl (by simp [Value.sameKeys, Value.sameKey])
      ⟨rfl, rfl, _, rfl, .cons ⟨_, rfl, rfl, rfl⟩ .nil⟩
      ⟨rfl, rfl, _, rfl, .cons ⟨_, rfl, rfl, rfl⟩ .nil⟩
  have hunshadowed : ¬ Stats.Shadows spec.stats "a.b" := by
    rintro ⟨first, second, rest, request, hfield, hmem, -⟩
    have hfirst : "a" = first := (List.cons.inj hfield).1
    have hname : first = "a.b" := congrArg Prod.fst (List.mem_singleton.mp hmem)
    exact absurd (hfirst.trans hname) (by decide)
  have hpath : "stats.a.b.max" ∈ statPaths "a.b" .max := by decide
  have hsort : o.sort.map SortKey.ofText = [⟨"stats.a.b.max", false⟩] := rfl
  have hunsorted := groups_unsorted_of_dotted hresult (List.mem_singleton_self _) hsort hpath
    (by decide) hunshadowed
  refine ⟨rfl, hresult, ?_, hunsorted, ?_⟩
  · exact stablySorted_swap ⟨Bool.false_ne_true, .inr (Value.lt_int 1 2)⟩
  · simp [Run.limited, o, e]

end Aggregate
end RecordStore
