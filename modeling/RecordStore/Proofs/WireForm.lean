import RecordStore.Proofs.ClauseWire

/-! The wire form of a request in full says the same as the request: read again, it gives the same
specification. -/
namespace RecordStore
namespace Aggregate

/-! ### Statistics -/

def FitExtensions (options : RequestOptions) (r : StatRequest) : Prop :=
  ∀ m ∈ r.extensions, ∃ name, m.1 = .text name ∧ Statistic.ofName? name = none ∧
    options.allowUnknownStats

theorem switch_extensions (r : StatRequest) (b : Bool) (k : Statistic) :
    (r.switch b k).extensions = r.extensions := by
  cases k <;> rfl

theorem statMember_fitExtensions {options : RequestOptions} {path name : String}
    {r r' : StatRequest} {v : Value} (hr : FitExtensions options r)
    (h : statMember options path r name v = .ok r') : FitExtensions options r' := by
  unfold statMember at h
  split at h
  · cases h
    rw [FitExtensions, switch_extensions]
    exact hr
  · cases h
  · rename_i hname
    split at h
    · rename_i hallow
      cases h
      intro m hm
      rcases List.mem_append.mp hm with hm | hm
      · exact hr m hm
      · cases List.mem_singleton.mp hm
        exact ⟨name, rfl, hname, hallow⟩
    · cases h

theorem statRequest_object {options : RequestOptions} {path : String} {ms : Record}
    (h : ms ≠ []) :
    statRequest options path (.object ms) = (do
      let r ← (Record.entries ms).foldlM (fun r (name, v) => statMember options path r name v) {}
      require (r.requested ≠ [] || r.extensions ≠ []) .nothingEnabled (.ofField path)
      return r) := by
  cases ms with
  | nil => exact absurd rfl h
  | cons m ms => rfl

theorem statRequest_fits {options : RequestOptions} {path : String} {v : Value} {r : StatRequest}
    (h : statRequest options path v = .ok r) :
    FitExtensions options r ∧ (r.requested ≠ [] ∨ r.extensions ≠ []) := by
  have hempty : FitExtensions options {} := fun _ hm => (nomatch hm)
  unfold statRequest at h
  split at h
  · cases h
    exact ⟨hempty, .inl (List.cons_ne_nil _ _)⟩
  · cases h
    exact ⟨hempty, .inl (List.cons_ne_nil _ _)⟩
  · obtain ⟨r', hfold, h⟩ := bind_eq_ok.mp h
    obtain ⟨_, hrequire, h⟩ := bind_eq_ok.mp h
    cases h
    rw [require_eq_ok, Bool.or_eq_true, decide_eq_true_iff, decide_eq_true_iff] at hrequire
    exact ⟨foldlM_keeps (fun hb h => statMember_fitExtensions hb h) hempty hfold, hrequire⟩
  · cases h

theorem flags_toWire (options : RequestOptions) (path : String) (r : StatRequest) :
    (Record.entries (r.requested.map fun k => (.text k.name, .bool true))).foldlM
      (fun r (name, v) => statMember options path r name v) {} =
      .ok { r with extensions := [] } := by
  obtain ⟨count, avg, min, max, extensions⟩ := r
  cases count <;> cases avg <;> cases min <;> cases max <;> rfl

theorem extensions_toWire {options : RequestOptions} {path : String} {ms : Record}
    (r : StatRequest) (hms : FitExtensions options { r with extensions := ms }) :
    (Record.entries ms).foldlM (fun r (name, v) => statMember options path r name v) r =
      .ok { r with extensions := r.extensions ++ ms } := by
  induction ms generalizing r with
  | nil =>
    rw [List.append_nil]
    rfl
  | cons m ms ih =>
    obtain ⟨k, v⟩ := m
    obtain ⟨name, rfl, hname, hallow⟩ := hms _ List.mem_cons_self
    have hstep : statMember options path r name v =
        .ok { r with extensions := r.extensions ++ [(.text name, v)] } := by
      unfold statMember
      rw [hname]
      exact if_pos hallow
    rw [Record.entries, List.map_cons, List.foldlM_cons]
    change (statMember options path r name v >>= _) = _
    rw [hstep, ok_bind]
    refine (ih _ fun m hm => hms m (List.mem_cons_of_mem _ hm)).trans ?_
    rw [List.append_assoc, List.singleton_append]

theorem statRequest_toWire {options : RequestOptions} {path : String} {v : Value}
    {r : StatRequest} (h : statRequest options path v = .ok r) :
    statRequest options path (.object r.toWire) = .ok r := by
  obtain ⟨hfit, hrequire⟩ := statRequest_fits h
  have hne : r.toWire ≠ [] := by
    rw [StatRequest.toWire, Ne, List.append_eq_nil_iff, List.map_eq_nil_iff]
    tauto
  have hfold : (Record.entries r.toWire).foldlM
      (fun r (name, v) => statMember options path r name v) {} = .ok r := by
    have hsplit : Record.entries r.toWire =
        Record.entries (r.requested.map fun k => (.text k.name, .bool true)) ++
          Record.entries r.extensions := List.map_append
    rw [hsplit, List.foldlM_append, flags_toWire, ok_bind,
      extensions_toWire { r with extensions := [] } hfit]
    rfl
  rw [statRequest_object hne, hfold, ok_bind]
  refine bind_eq_ok.mpr ⟨(), require_eq_ok.mpr ?_, rfl⟩
  rw [Bool.or_eq_true, decide_eq_true_iff, decide_eq_true_iff]
  exact hrequire

theorem statsSection_toWire {options : RequestOptions} {v : Value} {stats : Stats}
    (h : statsSection options v = .ok stats) : statsSection options stats.toWire = .ok stats := by
  obtain ⟨ms, -, h⟩ := bind_eq_ok.mp h
  have hstats : ∀ s ∈ stats, fieldPath options .null (.str s.1) = .ok s.1 ∧
      statRequest options s.1 (.object s.2.toWire) = .ok s.2 := by
    intro s hs
    obtain ⟨m, -, hm⟩ := exists_of_forall₂ (mapM_eq_ok.mp h).flip hs
    obtain ⟨path, hpath, hm⟩ := bind_eq_ok.mp hm
    obtain ⟨request, hrequest, hm⟩ := bind_eq_ok.mp hm
    cases hm
    cases fieldPath_eq_ok hpath
    exact ⟨hpath, statRequest_toWire hrequest⟩
  refine bind_eq_ok.mpr ⟨_, rfl, mapM_eq_ok.mpr ?_⟩
  rw [Record.entries, List.map_map, List.forall₂_map_left_iff]
  refine List.forall₂_same.mpr fun s hs => ?_
  obtain ⟨hpath, hrequest⟩ := hstats s hs
  exact bind_eq_ok.mpr ⟨_, hpath, bind_eq_ok.mpr ⟨_, hrequest, rfl⟩⟩

/-! ### Requests -/

theorem groupStats_toWire {options : RequestOptions} {v : Option Value} {stats : Stats}
    (h : groupStats options v = .ok stats) :
    groupStats options (if stats = [] then none else some stats.toWire) = .ok stats := by
  by_cases hne : stats = []
  · rw [if_pos hne, hne]
    rfl
  · rw [if_neg hne]
    cases v with
    | none =>
      cases h
      exact absurd rfl hne
    | some v => exact statsSection_toWire h

theorem totalStats_toWire {options : RequestOptions} {v : Value} {stats : Stats}
    (h : totalStats options v = .ok stats) :
    totalStats options ((if stats = [] then none else some stats.toWire).getD .null) =
      .ok stats := by
  by_cases hne : stats = []
  · rw [if_pos hne, hne]
    rfl
  · rw [if_neg hne, Option.getD_some]
    have htruthy : stats.toWire.truthy := by
      cases stats with
      | nil => exact absurd rfl hne
      | cons s stats => rfl
    rw [totalStats, if_pos htruthy]
    rw [totalStats] at h
    split at h
    · exact statsSection_toWire h
    · cases h
      exact absurd rfl hne

theorem readGroupBy_toWire [Present] {options : RequestOptions} {v : Value} {cs : List Clause}
    (h : readGroupBy options v = .ok cs) :
    readGroupBy options (.list (cs.map Clause.toWire)) = .ok cs := by
  rw [readGroupBy] at h
  split at h
  · cases h
  · cases h
  · rename_i vs hne _
    have hcs : cs.map Clause.toWire ≠ [] := by
      intro hnil
      rw [List.map_eq_nil_iff] at hnil
      have hlength := (length_readClauses h).symm
      rw [hnil] at hlength
      exact hne (List.eq_nil_of_length_eq_zero hlength)
    rw [readGroupBy_list hcs]
    exact readClauses_toWire h

namespace Spec

theorem members_get? (s : Spec) :
    s.members.get? "type" = none ∧ s.members.get? "aggregateType" = none ∧
    s.members.get? "groupBy" = s.clauses.map (fun cs => .list (cs.map Clause.toWire)) ∧
    s.members.get? "stats" = (if s.stats = [] then none else some s.stats.toWire) ∧
    (s.members.get? "total").getD (.bool false) = .bool s.total := by
  obtain ⟨clauses, stats, total, extra⟩ := s
  cases clauses <;> cases stats <;> cases total <;> exact ⟨rfl, rfl, rfl, rfl, rfl⟩

theorem members_known (s : Spec) : ∀ m ∈ s.members, m.1.reading ∈ requestNames := by
  obtain ⟨clauses, stats, total, extra⟩ := s
  cases clauses <;> cases stats <;> cases total <;>
    simp [members, given, requestNames, Name.reading]

theorem members_nodup (s : Spec) : (s.members.map Prod.fst).Nodup := by
  obtain ⟨clauses, stats, total, extra⟩ := s
  cases clauses <;> cases stats <;> cases total <;> simp [members, given]

end Spec

/-- What a specification has by being read: its parts can be read from their wire forms, and what
means nothing is allowed to be there. -/
structure InFull [Present] (options : RequestOptions) (s : Spec) : Prop where
  extra : ∀ m ∈ s.extra, m.1.reading ∉ requestNames
  names : (s.extra.map Prod.fst).Nodup
  allowed : s.extra = [] ∨ options.allowUnknownKeys
  parts : match s.clauses with
    | some cs => readGroupBy options (.list (cs.map Clause.toWire)) = .ok cs ∧
        groupStats options (if s.stats = [] then none else some s.stats.toWire) = .ok s.stats
    | none => (s.stats ≠ [] ∨ s.total) ∧
        totalStats options ((if s.stats = [] then none else some s.stats.toWire).getD .null) =
          .ok s.stats

theorem inFull_of_ofRequest [Present] {options : RequestOptions} {ms : Record} {s : Spec}
    (hms : (ms.map Prod.fst).Nodup) (h : Spec.ofRequest options (.object ms) = .ok s) :
    InFull options s := by
  obtain ⟨hknown, hextra, hparts⟩ := ofRequest_eq_ok h
  obtain ⟨clauses, stats, total, extra⟩ := s
  cases hextra
  have hnames : ((extraMembers ms).map Prod.fst).Nodup :=
    hms.sublist (List.filter_sublist.map Prod.fst)
  refine ⟨fun m hm => (mem_extraMembers.mp hm).2, hnames, hknown, ?_⟩
  cases clauses with
  | some cs =>
    obtain ⟨⟨groupBy, hcs⟩, hstats⟩ := hparts
    exact ⟨readGroupBy_toWire hcs, groupStats_toWire hstats⟩
  | none =>
    obtain ⟨hasked, hstats⟩ := hparts
    exact ⟨hasked, totalStats_toWire hstats⟩

theorem toWire_eq [Present] {options : RequestOptions} {s : Spec} (hs : InFull options s) :
    s.toWire = .object (s.members ++ s.extra) := by
  have hnames : ((s.members ++ s.extra).map Prod.fst).Nodup := by
    rw [List.map_append, List.nodup_append]
    refine ⟨s.members_nodup, hs.names, ?_⟩
    intro k hk l hl hkl
    obtain ⟨m, hm, rfl⟩ := List.mem_map.mp hk
    obtain ⟨e, he, rfl⟩ := List.mem_map.mp hl
    exact hs.extra e he (hkl ▸ s.members_known m hm)
  rw [Spec.toWire, Record.putAll_of_new hnames]

theorem extraMembers_wire [Present] {options : RequestOptions} {s : Spec} (hs : InFull options s) :
    extraMembers (s.members ++ s.extra) = s.extra := by
  have hmembers : extraMembers s.members = [] := by
    refine List.filter_eq_nil_iff.mpr fun m hm => ?_
    simp [s.members_known m hm]
  have hself : extraMembers s.extra = s.extra :=
    List.filter_eq_self.mpr fun m hm => decide_eq_true (hs.extra m hm)
  rw [extraMembers, List.filter_append]
  exact (congrArg₂ (· ++ ·) hmembers hself).trans (List.nil_append _)

/-- What means nothing hides none of the members that say something. -/
theorem get?_wire [Present] {options : RequestOptions} {s : Spec} (hs : InFull options s)
    {name : String} (hname : name ∈ requestNames) :
    Record.get? name (s.members ++ s.extra) = s.members.get? name := by
  have hnone : Record.get? name s.extra = none := by
    refine Record.get?_eq_none fun m hm hname' => hs.extra m hm ?_
    rw [hname']
    exact hname
  rw [Record.get?_append, hnone, Option.or_none]

theorem ofRequest_of_inFull [Present] {options : RequestOptions} {s : Spec}
    (hs : InFull options s) :
    Spec.ofRequest options s.toWire = .ok s := by
  obtain ⟨htype, haggregate, hgroupBy, hstats, htotal⟩ := s.members_get?
  have hknown : (decide (s.extra.keys = []) || options.allowUnknownKeys) = true := by
    rw [Bool.or_eq_true, decide_eq_true_iff, Record.keys, List.map_eq_nil_iff]
    exact hs.allowed
  rw [← get?_wire hs (by decide)] at htype haggregate hgroupBy hstats htotal
  rw [toWire_eq hs, ofRequest_object, namesOutside_eq, extraMembers_wire hs, hknown, require_true,
    ok_bind, htotal]
  have hhas : Record.has "groupBy" (s.members ++ s.extra) = s.clauses.isSome := by
    rw [Record.has, hgroupBy, Option.isSome_map]
  have hwants : wantsGroups (s.members ++ s.extra) = .ok s.clauses.isSome := by
    rw [wantsGroups, htype, haggregate]
    exact congrArg Except.ok hhas
  -- From here on only what these members hold counts, not how they are laid out.
  generalize s.members ++ s.extra = wire at *
  have hparts := hs.parts
  obtain ⟨clauses, stats, total, extra⟩ := s
  dsimp only
  rw [hwants, ok_bind]
  cases clauses with
  | some cs =>
    obtain ⟨hcs, hread⟩ := hparts
    have hoptional : optional wire "stats" =
        if stats = [] then none else some (Stats.toWire stats) := by
      rw [optional, hstats]
      split <;> rfl
    rw [Option.isSome_some, if_pos rfl, groupSpec_of_some hgroupBy, hcs, ok_bind, hoptional, hread]
    rfl
  | none =>
    obtain ⟨hasked, hread⟩ := hparts
    have hrequire : (decide (stats ≠ []) || total) = true := by
      rw [Bool.or_eq_true, decide_eq_true_iff]
      exact hasked
    rw [Option.isSome_none, if_neg Bool.false_ne_true, statsSpec_eq, hhas, hstats]
    exact bind_eq_ok.mpr ⟨(), rfl, bind_eq_ok.mpr ⟨stats, hread,
      bind_eq_ok.mpr ⟨(), require_eq_ok.mpr hrequire, rfl⟩⟩⟩

/-- A specification says all that its request said. It is read again by way of its wire form, and
that gives the same specification. -/
theorem ofRequest_toWire [Present] {options : RequestOptions} {ms : Record} {s : Spec}
    (hms : (ms.map Prod.fst).Nodup) (h : Spec.ofRequest options (.object ms) = .ok s) :
    Spec.ofRequest options s.toWire = .ok s :=
  ofRequest_of_inFull (inFull_of_ofRequest hms h)

theorem ofRequest_toWire_of_short_forms :
    let ms : Record := [
      ("groupBy", .list [.str "kind",
        .object [("field", .str "at"), ("timeComponent", .str "month")]]),
      ("stats", .object [("age", .object [("avg", .bool true), ("min", .bool false)])]),
      ("note", .null)]
    let options : RequestOptions := { allowUnknownKeys := true }
    let s : Spec := ⟨some [⟨"kind", .discrete⟩, ⟨"at", .calendar .month 1⟩],
      [("age", { avg := true })], false, [("note", .null)]⟩
    (ms.map Prod.fst).Nodup ∧ Spec.ofRequest options (.object ms) = .ok s ∧
      Spec.ofRequest options s.toWire = .ok s := by
  intro ms options s
  have hms : (ms.map Prod.fst).Nodup := by decide
  have h : Spec.ofRequest options (.object ms) = .ok s := rfl
  exact ⟨hms, h, ofRequest_toWire hms h⟩

end Aggregate
end RecordStore
