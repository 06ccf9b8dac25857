import RecordStore.Proofs.FilterOperators
import RecordStore.Proofs.Matching
import RecordStore.Proofs.StableOrder

/-! How a list of paths to sort by is read. A sort in memory takes one minus sign off a path; the
cursor of a server gets a path without any of its leading ones. Both read a path alike unless a
second minus sign follows the first. -/
namespace RecordStore

/-! ### One path -/

namespace SortKey
variable {s : String} {key : SortKey}

/-- One leading minus sign means descending, and all that follows is the path. -/
def Spells (s : String) (key : SortKey) : Prop :=
  if s.toList.head? = some '-' then key.descending ∧ s.toList = '-' :: key.path.toList
  else key = ⟨s, false⟩

def IsDoubled (s : String) : Prop := ['-', '-'] <+: s.toList

instance (s : String) : Decidable (IsDoubled s) := inferInstanceAs (Decidable (_ <+: _))

theorem ofText_of_minus {rest : List Char} (h : s.toList = '-' :: rest) :
    ofText s = ⟨String.ofList rest, true⟩ := by
  simp only [ofText, h]

theorem spells_ofText (s : String) : Spells s (ofText s) := by
  unfold Spells
  split
  · rename_i hminus
    obtain ⟨rest, hs⟩ := List.head?_eq_some_iff.mp hminus
    rw [ofText_of_minus hs, hs, String.toList_ofList]
    exact ⟨rfl, rfl⟩
  · rename_i hplain
    exact ofText_plain hplain

theorem Spells.eq (h : Spells s key) : key = ofText s := by
  have htext := spells_ofText s
  unfold Spells at h htext
  split at h
  · rename_i hminus
    rw [if_pos hminus] at htext
    obtain ⟨hdescending, hpath⟩ := h
    rw [htext.2] at hpath
    have hsame : (ofText s).path = key.path := String.toList_inj.mp (List.cons.inj hpath).2
    obtain ⟨path, descending⟩ := key
    change (⟨path, descending⟩ : SortKey) = ⟨(ofText s).path, (ofText s).descending⟩
    rw [hsame, htext.1, show descending = true from hdescending]
  · rename_i hplain
    rw [if_neg hplain] at htext
    rw [h, htext]

theorem dropMinuses_eq_self_iff {cs : List Char} :
    cs.dropWhile (· = '-') = cs ↔ cs.head? ≠ some '-' := by
  cases cs with
  | nil => simp
  | cons c cs => simp [List.dropWhile_eq_self_iff]

/-- What a cursor gets for a path, against what a sort in memory takes it for. -/
structure Handed (s : String) (key : SortKey) : Prop where
  descending : key.descending = (ofText s).descending
  path : key.path.toList = (ofText s).path.toList.dropWhile (· = '-')
  same_iff : key = ofText s ↔ ¬ IsDoubled s

theorem handed_cursorKey (s : String) : Handed s (cursorKey s) := by
  by_cases hminus : s.toList.head? = some '-'
  · obtain ⟨rest, hs⟩ := List.head?_eq_some_iff.mp hminus
    have hkey : cursorKey s = ⟨String.ofList (rest.dropWhile (· = '-')), true⟩ := by
      simp [cursorKey, hs]
    have hdoubled : IsDoubled s ↔ rest.head? = some '-' := by
      rw [IsDoubled, hs, List.prefix_cons_inj, List.head?_eq_some_iff]
      exact exists_congr fun _ => eq_comm
    have htext := ofText_of_minus hs
    rw [hkey]
    exact {
      descending := by rw [htext]
      path := by simp [htext]
      same_iff := by
        rw [htext, hdoubled, ← Ne, ← dropMinuses_eq_self_iff, SortKey.mk.injEq,
          String.ofList_inj, and_iff_left rfl] }
  · have hkey : cursorKey s = ⟨s, false⟩ := by
      simp [cursorKey, hminus, dropMinuses_eq_self_iff.mpr hminus]
    have hsingle : ¬ IsDoubled s := by
      rintro ⟨rest, hs⟩
      rw [← hs] at hminus
      exact hminus rfl
    have htext := ofText_plain hminus
    rw [hkey]
    exact {
      descending := by rw [htext]
      path := by rw [htext, dropMinuses_eq_self_iff.mpr hminus]
      same_iff := iff_of_true htext.symm hsingle }

/-- A list of paths is handed over as it is taken in memory where no path of it is doubled. -/
theorem handed_eq_iff (paths : List String) :
    paths.map cursorKey = paths.map ofText ↔ ∀ path ∈ paths, ¬ IsDoubled path := by
  rw [List.map_inj_left]
  exact forall₂_congr fun path _ => (handed_cursorKey path).same_iff

end SortKey

theorem cursorKeys_texts (paths : List String) :
    cursorKeys (.list (paths.map .str)) = .ok (paths.map cursorKey) := by
  have hread : (paths.map Value.str).mapM (fun v => do return cursorKey (← v.name)) =
      (.ok (paths.map cursorKey) : Except Failure (List SortKey)) := by
    rw [List.mapM_map]
    induction paths with
    | nil => rfl
    | cons path paths ih =>
      rw [List.mapM_cons, ih]
      rfl
  cases paths with
  | nil => rfl
  | cons path paths => exact hread

theorem Store.sorted_texts (paths : List String) (items sorted : List Value) :
    Store.sorted (.list (paths.map .str)) items = .ok sorted ↔
      sortByKeys Value.getAt (paths.map SortKey.ofText) items = .ok sorted := by
  cases paths with
  | nil =>
    change (Except.ok items : Except StoreError _) = .ok sorted ↔
      (Except.ok items : Except SortFault _) = .ok sorted
    simp
  | cons path paths =>
    have hnamed : ¬ (!(Value.list ((path :: paths).map .str)).truthy) = true := by
      simp [Value.truthy]
    have htexts : sortByValues (fun v path => v.get (Path.ofText path))
        (.list ((path :: paths).map .str)) items =
        sortByKeys Value.getAt ((path :: paths).map SortKey.ofText) items := sortByValues_texts
    rw [Store.sorted, if_neg hnamed, htexts]
    cases sortByKeys Value.getAt ((path :: paths).map SortKey.ofText) items with
    | ok found => simp
    | error f => cases f <;> simp

/-! ### The search on a server -/

namespace Collection
variable {c : Collection} {server : Server} {query : Query} {options : FindOptions}

def pageSettings (skip limit : Value) : List Request :=
  (if skip.truthy then [.skip skip] else []) ++ if !limit matches .null then [.limit limit] else []

theorem sort_notMem_pageSettings (skip limit : Value) (keys : List SortKey) :
    .sort keys ∉ pageSettings skip limit := by
  intro hmem
  obtain hmem | hmem := List.mem_append.mp hmem <;> split at hmem <;> simp at hmem

def settings (keys : List SortKey) (skip limit : Value) : List Request :=
  (if keys = [] then [] else [.sort keys]) ++ pageSettings skip limit

theorem noteIf_run {α : Type} (p : Prop) [Decidable p] (r : Request) (k : Unit → Action α)
    (c : Collection) :
    (if p then (do let u ← note (.request r); k u) else k ()).run.run c =
      (k ()).run.run
        { c with trace := c.trace ++ (if p then [r] else []).map .request } := by
  split
  · rfl
  · rw [List.map_nil, List.append_nil]

theorem cursor_run {skip limit : Value} {projection : Option Record} {keys : List SortKey}
    (hskip : Paging.skip options.skip = .ok skip)
    (hlimit : Paging.limit (.int c.options.maxQueryLimit) options.limit = .ok limit)
    (hplain : (Query.explicit query).operatorIn? = none)
    (hfields : projectionOf options.fields = .ok projection) (hconnected : server.connected)
    (hkeys : cursorKeys options.sort = .ok keys) :
    (cursor server query options).run.run c =
      (.ok ((server.replyTo c.asked).cursor (Query.explicit query)), { c with trace :=
        c.trace ++ (.addressed server.collection ::
          (.find (Query.explicit query) projection :: settings keys skip limit).map
            .request) }) := by
  let named : Collection := { c with trace := c.trace ++ [.addressed server.collection] }
  have hasked : named.asked = c.asked := asked_append c _
  have hnote : (note (.request (.find (Query.explicit query) projection))).run.run named =
      (.ok (), { named with trace := named.trace ++
        [.request (.find (Query.explicit query) projection)] }) := rfl
  unfold cursor
  rw [run_get]
  dsimp only
  rw [run_ofExcept hskip, run_ofExcept hlimit, run_bind_ok (refuseOperators_run hplain c),
    run_ofExcept hfields, run_bind_ok (address_run hconnected c),
    run_bind_ok (comingReply_run named), hasked, run_bind_ok hnote,
    run_ofExcept hkeys, noteIf_run, noteIf_run, noteIf_run]
  simp only [named, settings, pageSettings, ite_not, List.append_assoc, List.map_append,
    List.map_cons, List.cons_append, List.nil_append]
  rfl

theorem openStream_requests {skip limit : Value} {projection : Option Record}
    {keys : List SortKey} (hc : c.backend = .remote server)
    (hskip : Paging.skip options.skip = .ok skip)
    (hlimit : Paging.limit (.int c.options.maxQueryLimit) options.limit = .ok limit)
    (hplain : (Query.explicit query).operatorIn? = none)
    (hfields : projectionOf options.fields = .ok projection) (hconnected : server.connected)
    (hkeys : cursorKeys options.sort = .ok keys) :
    ∃ s d, (openStream query options).run.run c = (.ok s, d) ∧
      d.requests = c.requests ++
        .find (Query.explicit query) projection :: settings keys skip limit := by
  refine ⟨_, _, openStream_of_cursor hc
    (cursor_run hskip hlimit hplain hfields hconnected hkeys), ?_⟩
  have hread (rs : List Request) : (rs.map Event.request).filterMap Event.request? = rs := by
    rw [List.filterMap_map]
    exact List.filterMap_some
  rw [requests_append, List.filterMap_cons_none rfl, hread]

/-- The lists of paths that a server and a sort in memory read alike are those without a path that
begins with two minus signs. In memory every path means what it spells. On a server a search with
nothing in its way hands its cursor one key for each path in order: the direction that the path
spells, and the path without any leading minus sign. -/
theorem sort_list_read_alike_iff (hc : c.backend = .remote server) (paths : List String)
    (hsort : options.sort = .list (paths.map .str))
    (hpasses : (QueryCall.stream options).Passes c server (Query.explicit query)) :
    ∃ keys handed, List.Forall₂ SortKey.Spells paths keys ∧
      (∀ items sorted, Store.sorted options.sort items = .ok sorted ↔
        sortByKeys Value.getAt keys items = .ok sorted) ∧
      (∃ s d projection rest, (openStream query options).run.run c = (.ok s, d) ∧
        d.requests = c.requests ++ .find (Query.explicit query) projection ::
          ((if handed = [] then [] else [.sort handed]) ++ rest) ∧
        ∀ keys, .sort keys ∉ rest) ∧
      List.Forall₂ SortKey.Handed paths handed ∧
      (handed = keys ↔ ∀ path ∈ paths, ¬ SortKey.IsDoubled path) := by
  obtain ⟨⟨skip, hskip⟩, limit, hlimit⟩ := hpasses.paged
  obtain ⟨projection, hfields⟩ := hpasses.fits
  have hplain := Value.operatorIn?_eq_none_iff.mpr hpasses.plain
  have hkeys : cursorKeys options.sort = .ok (paths.map cursorKey) := by
    rw [hsort, cursorKeys_texts]
  obtain ⟨s, d, hrun, hrequests⟩ :=
    openStream_requests hc hskip hlimit hplain hfields hpasses.connected hkeys
  refine ⟨paths.map SortKey.ofText, paths.map cursorKey, ?_, fun items sorted => ?_, ?_, ?_,
    SortKey.handed_eq_iff paths⟩
  · exact List.forall₂_map_right_iff.mpr
      (List.forall₂_same.mpr fun s _ => SortKey.spells_ofText s)
  · rw [hsort]
    exact Store.sorted_texts paths items sorted
  · exact ⟨s, d, projection, pageSettings skip limit, hrun, hrequests,
      sort_notMem_pageSettings skip limit⟩
  · exact List.forall₂_map_right_iff.mpr
      (List.forall₂_same.mpr fun s _ => SortKey.handed_cursorKey s)

/-- One path of each direction. -/
theorem sort_list_read_alike_of_two_paths :
    let server : Server := { collection := .str "animal" }
    let c : Collection := { name := .str "Animal", backend := .remote server }
    let options : FindOptions := { sort := .list [.str "-age", .str "name"] }
    (QueryCall.stream options).Passes c server (Query.explicit .null) ∧
      ∃ s d projection rest, (openStream .null options).run.run c = (.ok s, d) ∧
        d.requests = .find (.object []) projection ::
          .sort [⟨"age", true⟩, ⟨"name", false⟩] :: rest := by
  intro server c options
  have hpasses : (QueryCall.stream options).Passes c server (Query.explicit .null) := {
    paged := ⟨⟨_, Paging.skip_int 0⟩, _, rfl⟩
    plain := Value.operatorIn?_eq_none_iff.mp rfl
    fits := ⟨_, rfl⟩
    connected := rfl }
  obtain ⟨keys, handed, hkeys, -, hrun, -, hsame⟩ :=
    sort_list_read_alike_iff (c := c) rfl ["-age", "name"] rfl hpasses
  cases hsame.mpr (by decide)
  obtain ⟨s, d, projection, rest, hrun, hrequests, -⟩ := hrun
  match hkeys with
  | .cons hage (.cons hname .nil) =>
    rw [hage.eq, hname.eq] at hrequests
    exact ⟨hpasses, s, d, projection, rest, hrun, hrequests⟩

/-- With two minus signs a server is asked to sort by one field and a sort in memory goes by
another. -/
theorem sort_list_read_apart_of_two_minuses :
    let server : Server := { collection := .str "animal" }
    let c : Collection := { name := .str "Animal", backend := .remote server }
    let options : FindOptions := { sort := .list [.str "--age"] }
    SortKey.Spells "--age" ⟨"-age", true⟩ ∧
      (∀ items sorted, Store.sorted options.sort items = .ok sorted ↔
        sortByKeys Value.getAt [⟨"-age", true⟩] items = .ok sorted) ∧
      ((openStream .null options).run.run c).2.requests =
        [.find (.object []) none, .sort [⟨"age", true⟩]] := by
  intro server c options
  have hkeys : cursorKeys options.sort = .ok [⟨"age", true⟩] := rfl
  have hc : c.backend = .remote server := rfl
  have hskip : Paging.skip options.skip = .ok (.int 0) := Paging.skip_int 0
  have hplain : (Query.explicit .null).operatorIn? = none := rfl
  obtain ⟨s, d, hrun, hrequests⟩ := openStream_requests hc hskip rfl hplain rfl rfl hkeys
  refine ⟨SortKey.spells_ofText "--age", Store.sorted_texts ["--age"], ?_⟩
  rw [hrun]
  exact hrequests

end Collection

end RecordStore
