import RecordStore.Proofs.ArrivalOrder
import RecordStore.Proofs.FieldUpdates
import RecordStore.Proofs.Requests

/-! What is in a result over all records. The statistics of every field are there under its path,
and nothing else but the number of records, which is there if it was asked for and no field has its
name: statistics of such a field take its place. -/
namespace RecordStore

theorem Record.get?_putAll_of_nodup {ms : Record} (hms : (ms.map Prod.fst).Nodup)
    {m : Name × Value} (hm : m ∈ ms) (r : Record) : (r.putAll ms).get? m.1 = some m.2 := by
  have hput : Record.putAll [] ms = ms := Record.putAll_of_new hms
  rw [get?_putAll_of_mem (List.mem_map_of_mem hm) r [], hput, get?_of_mem hms hm]

theorem Record.nodup_keys_of_texts {ms : Record} (hms : (ms.map Prod.fst).Nodup)
    (htexts : ∀ m ∈ ms, ∃ s, m.1 = .text s) : ms.keys.Nodup := by
  have hkeys : ms.keys = (ms.map Prod.fst).map Name.reading := by
    rw [keys, List.map_map]
    rfl
  rw [hkeys]
  refine hms.map_on ?_
  intro k hk l hl hkl
  obtain ⟨m, hm, rfl⟩ := List.mem_map.mp hk
  obtain ⟨n, hn, rfl⟩ := List.mem_map.mp hl
  obtain ⟨s, hs⟩ := htexts m hm
  obtain ⟨t, ht⟩ := htexts n hn
  rw [hs, ht] at hkl ⊢
  exact congrArg Name.text hkl

namespace Aggregate

/-! ### Fields of an accepted request -/

section
variable {options : RequestOptions} {stats : Stats} {v : Value}

theorem nodup_statFields {ms : Record} (hv : ∀ ns : Record, v = .object ns → ns.keys.Nodup)
    (h : statFields v = .ok ms) : ms.keys.Nodup := by
  unfold statFields at h
  split at h
  · cases h
    exact List.nodup_singleton _
  · cases h
    exact hv _ rfl
  · split at h
    · obtain ⟨paths, hpaths, h⟩ := bind_eq_ok.mp h
      rw [← Except.ok.inj h]
      refine Record.nodup_keys_of_texts (Record.nodup_putAll List.nodup_nil) fun m hm => ?_
      have hname := (Record.name_of_mem_putAll hm).resolve_left List.not_mem_nil
      rw [List.map_map, List.mem_map] at hname
      obtain ⟨path, hpath, hm⟩ := hname
      obtain ⟨x, -, hx⟩ := exists_of_forall₂ (mapM_eq_ok.mp hpaths).flip hpath
      rw [← hm]
      cases x with
      | str s => exact ⟨s, (Except.ok.inj hx).symm⟩
      | _ => cases hx
    · cases h

theorem names_statsSection (h : statsSection options v = .ok stats) :
    ∃ ms, statFields v = .ok ms ∧ stats.map Prod.fst = ms.keys := by
  obtain ⟨ms, hms, h⟩ := bind_eq_ok.mp h
  have hnames : List.Forall₂ (fun x y => x.1 = y.1) ms.entries stats := by
    refine (mapM_eq_ok.mp h).imp fun x y hxy => ?_
    obtain ⟨path, hpath, hxy⟩ := bind_eq_ok.mp hxy
    obtain ⟨request, -, hxy⟩ := bind_eq_ok.mp hxy
    cases hxy
    exact Value.str.inj (fieldPath_eq_ok hpath)
  have heq : ms.entries.map Prod.fst = stats.map Prod.fst := by
    rwa [← List.forall₂_eq_eq_eq, List.forall₂_map_left_iff, List.forall₂_map_right_iff]
  refine ⟨ms, hms, ?_⟩
  rw [← heq, Record.entries, Record.keys, List.map_map]
  rfl

theorem nodup_fields_of_accepted [Present] {ms : Record} {spec : Spec}
    (haccepted : Spec.ofRequest options (.object ms) = .ok spec) (hc : spec.clauses = none)
    (hnames : ∀ ns : Record, ms.get? "stats" = some (.object ns) → ns.keys.Nodup) :
    (spec.stats.map Prod.fst).Nodup := by
  obtain ⟨-, -, hparts⟩ := ofRequest_eq_ok haccepted
  rw [hc] at hparts
  obtain ⟨-, hstats⟩ := hparts
  rw [totalStats] at hstats
  split at hstats
  · obtain ⟨ns, hns, heq⟩ := names_statsSection hstats
    rw [heq]
    refine nodup_statFields (fun ks hks => hnames ks ?_) hns
    cases hget : ms.get? "stats" with
    | none =>
      rw [hget] at hks
      cases hks
    | some w =>
      rw [hget, Option.getD_some] at hks
      rw [hks]
  · rw [← Except.ok.inj hstats]
    exact List.nodup_nil

end

/-! ### Results -/

/-- A result with the statistics of every field over the records, under its path, and nothing else
but perhaps a total. -/
structure KeepsStats (spec : Spec) (records : List Value) (ms : Record) : Prop where
  names : (ms.map Prod.fst).Nodup
  fields : ∀ x ∈ spec.stats, ∃ s, Summed records x (x.1, s) ∧ ms.get? x.1 = some (.object s)
  only : ∀ m ∈ ms, m.1 ∈ spec.stats.map (fun x => Name.text x.1) ∨ spec.total ∧ m.1 = "total"

structure KeepsAll (spec : Spec) (records : List Value) (ms : Record) : Prop extends
    KeepsStats spec records ms where
  total : spec.total → ms.get? "total" = some (.int records.length)

def Spec.totalsOf (spec : Spec) (records : List Value) (ss : List (String × Record)) : Record :=
  Record.putAll (given "total" (if spec.total then some (.int records.length) else none))
    (statsMembers ss)

section
variable {spec : Spec} {options : Except Failure RunOptions} {records : List Value}
  {result : Result} {ss : List (String × Record)}

/-- Whatever options there were, they asked for no order and no limit. -/
theorem result_eq_ok_overall [Present] (hc : spec.clauses = none)
    (h : (ofRecords (begin (.ok spec) options) records).result = .ok result) :
    ∃ ss, List.Forall₂ (Summed records) spec.stats ss ∧
      result = .totals (spec.totalsOf records ss) := by
  obtain ⟨run, -, hrun, -⟩ := ofRecords_eq_ok.mp h
  obtain ⟨_, o, hspec, rfl, hx, hasked, -⟩ := begin_eq_ok.mp hrun
  cases hspec
  cases o with
  | unread v => cases v <;> cases hasked hc
  | read o =>
    have hnone := Option.some.inj (hasked hc)
    rw [Bool.or_eq_false_iff, decide_eq_false_iff_not, not_not, Option.isSome_eq_false_iff,
      Option.isNone_iff_eq_none] at hnone
    exact (overall_aggregate hc hx hnone.1 hnone.2).mp h

theorem names_statsMembers (hss : List.Forall₂ (Summed records) spec.stats ss) :
    (statsMembers ss).map Prod.fst = spec.stats.map fun x => Name.text x.1 := by
  have hnames := congrArg (List.map Name.text) (summed_names hss)
  rw [List.map_map, List.map_map] at hnames
  rw [statsMembers, List.map_map]
  exact hnames

theorem keepsStats_totalsOf (hn : (spec.stats.map Prod.fst).Nodup)
    (hss : List.Forall₂ (Summed records) spec.stats ss) :
    KeepsStats spec records (spec.totalsOf records ss) := by
  constructor
  case names => exact Record.nodup_putAll ((names_given ..).nodup (List.nodup_singleton _))
  case fields =>
    intro x hx
    obtain ⟨⟨field, s⟩, hs, hsummed⟩ := exists_of_forall₂ hss hx
    have hfield : field = x.1 := by
      obtain ⟨_, -, -, hname⟩ := hsummed
      exact hname
    rw [hfield] at hs hsummed
    have hmem : (Name.text x.1, Value.object s) ∈ statsMembers ss :=
      List.mem_map.mpr ⟨_, hs, rfl⟩
    have hnodup : ((statsMembers ss).map Prod.fst).Nodup :=
      nodup_statsMembers (by rwa [summed_names hss])
    exact ⟨s, hsummed, Record.get?_putAll_of_nodup hnodup hmem _⟩
  case only =>
    intro m hm
    rcases Record.name_of_mem_putAll hm with hgiven | hfield
    · right
      split at hgiven
      · rename_i htotal
        rw [List.mem_singleton.mp hgiven]
        exact ⟨htotal, rfl⟩
      · cases hgiven
    · left
      rwa [names_statsMembers hss] at hfield

theorem total_totalsOf (htotal : spec.total) (hfield : "total" ∉ spec.stats.map Prod.fst)
    (hss : List.Forall₂ (Summed records) spec.stats ss) :
    (spec.totalsOf records ss).get? "total" = some (.int records.length) := by
  have hnot : Name.text "total" ∉ (statsMembers ss).map Prod.fst := by
    rw [names_statsMembers hss]
    intro hmem
    obtain ⟨x, hx, hname⟩ := List.mem_map.mp hmem
    exact hfield (List.mem_map.mpr ⟨x, hx, Name.text.inj hname⟩)
  rw [Spec.totalsOf, Record.get?_putAll_of_not_mem hnot, if_pos htotal]
  rfl

theorem KeepsStats.total_ne {ms : Record} (h : KeepsStats spec records ms)
    (hfield : "total" ∈ spec.stats.map Prod.fst) :
    ms.get? "total" ≠ some (.int records.length) := by
  obtain ⟨x, hx, hname⟩ := List.mem_map.mp hfield
  obtain ⟨s, -, hs⟩ := h.fields x hx
  rw [hname] at hs
  rw [hs]
  nofun

/-- A result has the statistics of every field over all records and nothing else but their number,
and it has their number, where that is asked for, if and only if no field is named as it is. -/
theorem stats_result_keeps [Present] (hc : spec.clauses = none)
    (hn : (spec.stats.map Prod.fst).Nodup)
    (h : (ofRecords (begin (.ok spec) options) records).result = .ok result) :
    ∃ ms, result = .totals ms ∧ KeepsStats spec records ms ∧
      (KeepsAll spec records ms ↔ ¬ (spec.total ∧ "total" ∈ spec.stats.map Prod.fst)) := by
  obtain ⟨ss, hss, rfl⟩ := result_eq_ok_overall hc h
  have hstats := keepsStats_totalsOf hn hss
  refine ⟨_, rfl, hstats, ?_⟩
  constructor
  · rintro hall ⟨htotal, hfield⟩
    exact hstats.total_ne hfield (hall.total htotal)
  · intro hapart
    exact ⟨hstats, fun htotal => total_totalsOf htotal (fun hfield => hapart ⟨htotal, hfield⟩) hss⟩

end

/-- An accepted request for a total and for the number of values at an age. -/
theorem stats_result_keeps_of_ages :
    let ms : Record := [("stats", .str "age"), ("total", .bool true)]
    let spec : Spec := ⟨none, [("age", { count := true })], true, []⟩
    let records : List Value := [.object [("age", .int 5)], .object []]
    Spec.ofRequest {} (.object ms) = .ok spec ∧ (spec.stats.map Prod.fst).Nodup ∧
      ∃ ms, (ofRecords (begin (.ok spec) (.ok (.read {}))) records).result = .ok (.totals ms) ∧
        KeepsAll spec records ms := by
  intro ms spec records
  have haccepted : Spec.ofRequest {} (.object ms) = .ok spec := rfl
  have hn : (spec.stats.map Prod.fst).Nodup :=
    nodup_fields_of_accepted haccepted rfl (by rintro ns ⟨⟩)
  have hresult : (ofRecords (begin (.ok spec) (.ok (.read {}))) records).result = .ok (.totals
      [("total", .int 2), ("age", .object [("count", .int 1)])]) := rfl
  obtain ⟨kept, hkept, -, hall⟩ := stats_result_keeps rfl hn hresult
  cases hkept
  exact ⟨haccepted, hn, _, hresult, hall.mpr (by decide)⟩

/-- An accepted request whose total is lost to the statistics of a field of that name. -/
theorem total_lost_to_field :
    let ms : Record := [("stats", .object [("total", .object [("count", .bool true)])]),
      ("total", .bool true)]
    let spec : Spec := ⟨none, [("total", { count := true })], true, []⟩
    let records : List Value := [.object [("total", .int 5)], .object [("a", .int 1)]]
    let kept : Record := [("total", .object [("count", .int 1)])]
    Spec.ofRequest {} (.object ms) = .ok spec ∧ extensionStats? spec.stats = none ∧
      (ofRecords (begin (.ok spec) (.ok (.read {}))) records).result = .ok (.totals kept) ∧
      kept.get? "total" ≠ some (.int records.length) ∧ ¬ KeepsAll spec records kept := by
  intro ms spec records kept
  have hlost : kept.get? "total" ≠ some (.int records.length) := by nofun
  refine ⟨rfl, rfl, rfl, hlost, ?_⟩
  intro hall
  exact hlost (hall.total rfl)

end Aggregate
end RecordStore
