import RecordStore.Proofs.CalendarBuckets
import RecordStore.Proofs.DiscreteKeys
import RecordStore.Proofs.IntervalBuckets
import RecordStore.Proofs.SortedGroups

/-! Groups in the order of a time in their keys. They are sorted by the texts of instants, which go
by time but for a whole second, whose text stands behind those of its fractions. Calendar units and
durations of a second or more never tell a second apart, and their groups come in the order of
time. -/
namespace RecordStore
namespace Aggregate

namespace Grouping

def IsTimed : Grouping → Prop
  | timeInterval .. | calendar .. => True
  | _ => False

def StartsAt (k : Instant) : Grouping → Prop
  | timeInterval _ step base => step ∣ (k.micros : Int) - (base.getD .epoch).micros
  | calendar unit _ => unit.Aligned k
  | _ => False

/-- Buckets are shorter than a second, and one of them starts at a whole second. -/
def SplitsSeconds : Grouping → Prop
  | timeInterval _ step base => step < 1000000 ∧
      ∃ start : Int, step ∣ start - (base.getD .epoch).micros ∧ 1000000 ∣ start
  | _ => False

variable {g : Grouping} {k l : Instant}

theorem microsecond_of_aligned {unit : CalendarUnit} (h : unit.Aligned k) :
    k.microsecond = 0 := by
  cases unit with
  | year => exact h.2.2.2.2.2
  | month | week => exact h.2.2.2.2
  | day => exact h.2.2.2
  | hour => exact h.2.2
  | minute => exact h.2
  | second => exact h

theorem splitsSeconds_of_whole {text : String} {step : Int} {base : Option Instant}
    (hk : (timeInterval text step base).StartsAt k) (hl : (timeInterval text step base).StartsAt l)
    (hsecond : k.wholeSeconds = l.wholeSeconds) (hwhole : k.microsecond = 0)
    (hfraction : l.microsecond ≠ 0) : (timeInterval text step base).SplitsSeconds := by
  obtain ⟨hkm, -⟩ := k.micros_eq
  obtain ⟨hlm, hbound⟩ := l.micros_eq
  simp only [microsPerSecond] at hkm hlm hbound
  have hsteps : step ∣ (l.microsecond : Int) := by
    have hdiff := Int.dvd_sub hl hk
    rwa [show (l.micros : Int) - (base.getD .epoch).micros -
      (k.micros - (base.getD .epoch).micros) = l.microsecond by omega] at hdiff
  have hshort := Int.le_of_dvd (by omega) hsteps
  exact ⟨by omega, k.micros, hk, k.wholeSeconds, by omega⟩

/-- Only buckets that split a second have starts that clash. -/
theorem splitsSeconds_of_clash (hk : g.StartsAt k) (hl : g.StartsAt l)
    (h : Instant.Clash k l) : g.SplitsSeconds := by
  obtain ⟨hsecond, hone⟩ := h
  cases g with
  | timeInterval text step base =>
    by_cases hwhole : k.microsecond = 0
    · exact splitsSeconds_of_whole hk hl hsecond hwhole (hone.mp hwhole)
    · have hother : l.microsecond = 0 := not_not.mp (mt hone.mpr hwhole)
      exact splitsSeconds_of_whole hl hk hsecond.symm hother hwhole
  | calendar unit count =>
    exact absurd (microsecond_of_aligned hl) (hone.mp (microsecond_of_aligned hk))
  | _ => exact hk.elim

end Grouping

theorem Clause.start_of_resolve [Present] {c : Clause} {index v part : Value}
    (hcounts : c.grouping.Counts)
    (htimed : c.grouping.IsTimed) (h : c.resolve index v = .ok (some part)) :
    ∃ k : Instant, part = .str k.text ∧ c.grouping.StartsAt k := by
  cases hg : c.grouping with
  | timeInterval text step base =>
    rw [hg] at hcounts
    obtain ⟨t, ht⟩ := Clause.toInstant_of_resolve hg h
    obtain ⟨k, hpart, hin⟩ := (Clause.resolve_timeInterval hg hcounts ht).mp h
    exact ⟨k, hpart, hin.aligned⟩
  | calendar unit count =>
    have hcount : 1 ≤ count := by rwa [hg] at hcounts
    rw [resolve, hg] at h
    split at h
    · cases h
    · obtain ⟨t, -, h⟩ := bind_eq_ok.mp h
      split at h
      · rename_i k hk
        cases h
        exact ⟨k, rfl, ((Instant.calendarBucket_eq_ok_iff (by omega)).mp hk).aligned⟩
      · cases h
  | _ =>
    rw [hg] at htimed
    exact htimed.elim

/-- A record whose time is the start of a bucket has that time for a key. -/
theorem Run.keyOf_of_start [Present] {c : Clause} {text : String} {step : Int}
    {base : Option Instant}
    {r v : Value} {k : Instant} (hg : c.grouping = .timeInterval text step base) (hstep : 0 < step)
    (hget : r.get (Path.ofText c.field) = .ok v) (hk : v.toInstant = .ok k)
    (hstart : step ∣ (k.micros : Int) - (base.getD .epoch).micros) :
    keyOf r 0 [c] = .ok (some [.str k.text]) := by
  have hin : InBucket (base.getD .epoch).micros step k.micros k.micros :=
    ⟨hstart, le_rfl, by omega⟩
  have hpart : c.resolve (.int 0) v = .ok (some (.str k.text)) :=
    (Clause.resolve_timeInterval hg hstep hk).mpr ⟨k, rfl, hin⟩
  rw [keyOf, hget]
  exact bind_eq_ok.mpr ⟨_, hpart, rfl⟩

/-! ### Keys of entries -/

def Entry.Denotes [Present] (e : Entry) (i : Nat) (k : Instant) : Prop :=
  ∃ part, e.key[i]? = some part ∧ part.toInstant = .ok k

theorem Entry.denotes_iff [Present] {e : Entry} {i : Nat} {k l : Instant}
    (h : e.key[i]? = some (.str k.text)) : e.Denotes i l ↔ l = k := by
  rw [Entry.Denotes, h]
  constructor
  · rintro ⟨_, ⟨⟩, hl⟩
    exact Except.ok.inj (hl.symm.trans (TimeText.parseTimestamp_text k))
  · rintro rfl
    exact ⟨_, rfl, TimeText.parseTimestamp_text l⟩

/-- The later entry has the later instant there, or the earlier one if descending. -/
def Chronological [Present] (descending : Bool) (i : Nat) (es : List Entry) : Prop :=
  es.Pairwise fun a b => ∀ k l, a.Denotes i k → b.Denotes i l →
    if descending then l.micros ≤ k.micros else k.micros ≤ l.micros

/-- A whole second stands for one entry and a fraction of it for another. -/
def Mixed [Present] (i : Nat) (es : List Entry) : Prop :=
  ∃ a ∈ es, ∃ b ∈ es, ∃ k l, a.Denotes i k ∧ b.Denotes i l ∧ Instant.Clash k l

theorem text_order {descending : Bool} {s t : String}
    (h : Value.Before descending (.str s) (.str t) ∨ Value.Tied (.str s) (.str t)) :
    if descending then ¬ s < t else ¬ t < s := by
  rcases h with ⟨-, habsent | hless⟩ | ⟨habsent, -⟩ | heq
  · cases habsent
  · cases descending <;> simp only [Value.lt?, Option.some.injEq, Bool.false_eq_true, if_true,
      if_false, decide_eq_true_eq] at hless ⊢ <;> exact lt_asymm hless
  · cases habsent
  · cases (Value.eq_atom_iff rfl).mp heq
    cases descending <;> exact lt_irrefl s

/-- Entries in the order of the texts are in the order of time if no two of them clash, and only
then. -/
theorem chronological_iff [Present] {i : Nat} {descending : Bool} {es sorted : List Entry}
    (hstart : ∀ e ∈ es, ∃ k : Instant, e.key[i]? = some (.str k.text))
    (hsorted : StablySortedBy descending (fun e => e.key.getD i .missing) es sorted) :
    Chronological descending i sorted ↔ ¬ Mixed i es := by
  have hmem {e} : e ∈ sorted ↔ e ∈ es := hsorted.perm.mem_iff
  have htexts : sorted.Pairwise fun a b => ∀ k l : Instant, a.Denotes i k → b.Denotes i l →
      if descending then ¬ k.text < l.text else ¬ l.text < k.text := by
    refine hsorted.pairwise.imp_of_mem fun {a b} ha hb hab => ?_
    obtain ⟨k, hk⟩ := hstart a (hmem.mp ha)
    obtain ⟨l, hl⟩ := hstart b (hmem.mp hb)
    intro k' l' hk' hl'
    rw [(Entry.denotes_iff hk).mp hk', (Entry.denotes_iff hl).mp hl']
    simp only [List.getD_eq_getElem?_getD, hk, hl, Option.getD_some] at hab
    exact text_order hab
  constructor
  · intro htimes hmixed
    let Apart (a b : Entry) : Prop := ∀ k l, a.Denotes i k → b.Denotes i l → ¬ Instant.Clash k l
    have : Std.Symm Apart := ⟨fun a b hab k l hk hl h => hab l k hl hk h.symm⟩
    have hapart : sorted.Pairwise Apart := by
      refine (htexts.and htimes).imp fun {a b} hab k l hk hl hclash => ?_
      have htext := hab.1 k l hk hl
      have htime := hab.2 k l hk hl
      have hne := hclash.micros_ne
      rw [Instant.text_lt_iff_of_clash hclash, Instant.text_lt_iff_of_clash hclash.symm] at htext
      cases descending <;> simp at htext htime <;> omega
    obtain ⟨a, ha, b, hb, k, l, hk, hl, hclash⟩ := hmixed
    have hne : a ≠ b := by
      rintro rfl
      obtain ⟨k', hk'⟩ := hstart a ha
      rw [(Entry.denotes_iff hk').mp hk, (Entry.denotes_iff hk').mp hl] at hclash
      exact hclash.micros_ne rfl
    exact hapart.forall (hmem.mpr ha) (hmem.mpr hb) hne k l hk hl hclash
  · intro hmixed
    refine htexts.imp_of_mem fun {a b} ha hb hab k l hk hl => ?_
    have hclash : ¬ Instant.Clash k l := fun h =>
      hmixed ⟨a, hmem.mp ha, b, hmem.mp hb, k, l, hk, hl, h⟩
    have htext := hab k l hk hl
    rw [Instant.text_lt_iff_of_not_clash hclash,
      Instant.text_lt_iff_of_not_clash fun h => hclash h.symm] at htext
    cases descending <;> simpa using htext

section
variable {options : RequestOptions} {v : Value} {spec : Spec} {cs : List Clause} {c : Clause}
  {o : AggregateOptions} {records : List Value} {es : List Entry} {i : Nat}
  {name text : String} {descending : Bool}

theorem start_of_entry [Present] (haccepted : Spec.ofRequest options v = .ok spec)
    (hcs : spec.clauses = some cs) (hc : cs[i]? = some c) (htimed : c.grouping.IsTimed)
    (h : (ofRecords (begin (.ok spec) (.ok (.read {}))) records).result = .ok (.groups es))
    {e : Entry} (he : e ∈ es) :
    ∃ k : Instant, e.key[i]? = some (.str k.text) ∧ c.grouping.StartsAt k := by
  obtain ⟨clauses, ks, hclauses, -, hks, hsums⟩ := sums_of_result h
  cases hcs.symm.trans hclauses
  obtain ⟨class', hclass, hsums⟩ := exists_of_forall₂ hsums.flip he
  obtain ⟨p, hp, hkey⟩ := exists_of_mem_classes hclass
  obtain ⟨-, hkeyOf⟩ := keyOf_of_mem_keyed hks hp
  rw [hkey, ← hsums.key] at hkeyOf
  obtain ⟨part, hpart, index, v, -, hresolve⟩ := getElem?_of_forall₂ (forall₂_keyOf hkeyOf) hc
  have hcounts := counts_of_accepted haccepted hcs c (List.mem_of_getElem? hc)
  obtain ⟨k, rfl, hk⟩ := c.start_of_resolve hcounts htimed hresolve
  exact ⟨k, hpart, hk⟩

theorem undotted_of_position (hname : Path.position name = .ok (some i)) :
    '.' ∉ name.toList := by
  intro hdot
  rw [Path.position] at hname
  split at hname
  · cases hname
  · rename_i hdigits
    obtain ⟨-, hdigits⟩ := not_or.mp hdigits
    have hall := List.all_eq_true.mp (by simpa using hdigits) _ hdot
    exact absurd hall (by decide)

theorem Entry.get_key (e : Entry) (hname : Path.position name = .ok (some i)) :
    e.get ("key." ++ name) = .ok (e.key.getD i .missing) := by
  have hpath : Path.ofText ("key." ++ name) = ["key", name] := by
    have hlong : "key." ++ name = "key" ++ "." ++ name := by simp
    rw [hlong, Path.ofText_append, Path.ofText_of_undotted (undotted_of_position hname)]
    rfl
  have hkey : e.toValue.unwrap.child "key" = .ok (.list e.key) := rfl
  have hchild : (Value.list e.key).child name = .ok (e.key.getD i .missing) := by
    simp only [Value.child, hname, ok_bind]
    rfl
  have hpart : e.toValue.get ["key", name] = .ok (e.key.getD i .missing) := by
    refine (Value.follow_cons hkey (by simp)).trans ?_
    rw [Value.follow, Value.unwrap, hchild, ok_bind]
    · cases e.key.getD i .missing <;> rfl
    · simp
  rw [Entry.get, hpath, hpart]
  cases e.key.getD i .missing <;> rfl

/-- Groups sorted by a part of their keys that stands for an instant come in the order of its texts.
That is the order of time, in either direction, unless a whole second stands for one group and a
fraction of it for another, which takes buckets shorter than a second. -/
theorem groups_sorted_by_time [Present] (haccepted : Spec.ofRequest options v = .ok spec)
    (hcs : spec.clauses = some cs) (hc : cs[i]? = some c) (htimed : c.grouping.IsTimed)
    (h : (ofRecords (begin (.ok spec) (.ok (.read {}))) records).result = .ok (.groups es))
    (hname : Path.position name = .ok (some i))
    (htext : SortKey.ofText text = ⟨"key." ++ name, descending⟩) (hsort : o.sort = [text]) :
    (∀ e ∈ es, ∃ k, e.Denotes i k) ∧
      ∃ sorted, (∀ other, other = sorted ↔
          StablySortedBy descending (fun e => e.key.getD i .missing) es other) ∧
        (ofRecords (begin (.ok spec) (.ok (.read o))) records).result =
          .ok (.groups (Run.limited o.limit sorted)) ∧
        (Chronological descending i sorted ↔ ¬ Mixed i es) ∧
        (Mixed i es → c.grouping.SplitsSeconds) := by
  have hstart (e) (he : e ∈ es) := start_of_entry haccepted hcs hc htimed h he
  have hdenotes (e) (he : e ∈ es) : ∃ k, e.Denotes i k := by
    obtain ⟨k, hk, -⟩ := hstart e he
    exact ⟨k, (Entry.denotes_iff hk).mpr rfl⟩
  have hone : Value.OneKind (es.map fun e => e.key.getD i .missing) := by
    refine .inr (List.forall_mem_map.mpr fun e he _ => ?_)
    obtain ⟨k, hk, -⟩ := hstart e he
    exact ⟨k.text, by rw [List.getD_eq_getElem?_getD, hk, Option.getD_some]⟩
  have hvalue (e) (_ : e ∈ es) : e.get ("key." ++ name) = .ok (e.key.getD i .missing) :=
    e.get_key hname
  have hkeys : o.sort.map SortKey.ofText = [⟨"key." ++ name, descending⟩] := by
    rw [hsort, List.map_singleton, htext]
  obtain ⟨sorted, hstable, hresult⟩ := result_by_key h hkeys hvalue hone
  refine ⟨hdenotes, sorted, hstable, hresult, ?_, ?_⟩
  · refine chronological_iff (fun e he => ?_) ((hstable sorted).mp rfl)
    obtain ⟨k, hk, -⟩ := hstart e he
    exact ⟨k, hk⟩
  · rintro ⟨a, ha, b, hb, k, l, hk, hl, hclash⟩
    obtain ⟨k', hk', hstarts⟩ := hstart a ha
    obtain ⟨l', hl', hstarts'⟩ := hstart b hb
    rw [(Entry.denotes_iff hk').mp hk, (Entry.denotes_iff hl').mp hl] at hclash
    exact Grouping.splitsSeconds_of_clash hstarts hstarts' hclash

end

/-- Two days that come up in the wrong order. -/
theorem groups_sorted_by_time_of_two_days :
    let clause : Value := .object [("field", .str "t"), ("timeComponent", .str "day")]
    let request : Value := .object [("groupBy", clause), ("total", .bool true)]
    let spec : Spec := ⟨some [⟨"t", .calendar .day 1⟩], [], true, []⟩
    let o : AggregateOptions := { sort := ["key.0"] }
    let records : List Value := [.object [("t", .str "2012-01-02T08:00:00Z")],
      .object [("t", .str "2012-01-01T09:30:00Z")]]
    let e (day : String) : Entry := ⟨[.str day], none, some 1⟩
    Spec.ofRequest {} request = .ok spec ∧
      (ofRecords (begin (.ok spec) (.ok (.read {}))) records).result =
        .ok (.groups [e "2012-01-02T00:00:00Z", e "2012-01-01T00:00:00Z"]) ∧
      (ofRecords (begin (.ok spec) (.ok (.read o))) records).result =
        .ok (.groups [e "2012-01-01T00:00:00Z", e "2012-01-02T00:00:00Z"]) ∧
      Chronological false 0 [e "2012-01-01T00:00:00Z", e "2012-01-02T00:00:00Z"] := by
  intro clause request spec o records e
  have haccepted : Spec.ofRequest {} request = .ok spec := rfl
  have hresult : (ofRecords (begin (.ok spec) (.ok (.read {}))) records).result =
      .ok (.groups [e "2012-01-02T00:00:00Z", e "2012-01-01T00:00:00Z"]) :=
    groups_of_two rfl rfl rfl rfl (by simp [Value.sameKeys, Value.sameKey]) ⟨rfl, rfl, rfl⟩
      ⟨rfl, rfl, rfl⟩
  have hclause : [(⟨"t", .calendar .day 1⟩ : Clause)][0]? = some ⟨"t", .calendar .day 1⟩ := rfl
  have hname : Path.position "0" = .ok (some 0) := Path.position_toString 0 (by decide)
  have htext : SortKey.ofText "key.0" = ⟨"key." ++ "0", false⟩ := SortKey.ofText_plain (by decide)
  have hsort : o.sort = ["key.0"] := rfl
  obtain ⟨-, sorted, hsorted, hlimited, htimes, hmixed⟩ :=
    groups_sorted_by_time haccepted rfl hclause trivial hresult hname htext hsort
  have hswap : [e "2012-01-01T00:00:00Z", e "2012-01-02T00:00:00Z"] = sorted :=
    (hsorted _).mpr (stablySorted_swap ⟨Bool.false_ne_true, .inr (by decide +kernel)⟩)
  rw [← hswap] at hlimited htimes
  exact ⟨haccepted, hresult, hlimited, htimes.mpr hmixed⟩

/-- Half a second is sorted before the whole one at which it starts. -/
theorem half_second_sorted_first :
    let clause : Clause := ⟨"t", .timeInterval "PT0.5S" 500000 none⟩
    let request := requestWith [] [] [] (.object [("field", .str "t"),
      ("interval", .str "PT0.5S")])
    let spec : Spec := ⟨some [clause], [], false, []⟩
    let o : AggregateOptions := { sort := ["key.0"] }
    let records : List Value := [.object [("t", .str "2012-01-01T00:00:00Z")],
      .object [("t", .str "2012-01-01T00:00:00.5Z")]]
    let e (start : String) : Entry := ⟨[.str start], none, none⟩
    Spec.ofRequest {} request = .ok spec ∧
      (ofRecords (begin (.ok spec) (.ok (.read {}))) records).result =
        .ok (.groups [e "2012-01-01T00:00:00Z", e "2012-01-01T00:00:00.500000Z"]) ∧
      (ofRecords (begin (.ok spec) (.ok (.read o))) records).result =
        .ok (.groups [e "2012-01-01T00:00:00.500000Z", e "2012-01-01T00:00:00Z"]) ∧
      ¬ Chronological false 0 [e "2012-01-01T00:00:00.500000Z", e "2012-01-01T00:00:00Z"] := by
  intro clause request spec o records e
  let whole : Instant := ⟨63460972800000000, by decide⟩
  let half : Instant := ⟨63460972800500000, by decide⟩
  have hduration : TimeText.parseDuration "PT0.5S" = .ok 500000 := by decide +kernel
  have hread : readClause {} 0 (.object [("field", .str "t"), ("interval", .str "PT0.5S")]) =
      .ok clause := by
    refine clauseOf_eq_ok.mpr ⟨rfl, ⟨rfl, le_rfl, rfl, rfl⟩, ?_⟩
    apply (groupingOf_interval (b := none) (by simp)).trans
    rw [readInterval, hduration]
    rfl
  have hkey {s : String} {t : Instant} (ht : (Value.str s).toInstant = .ok t)
      (hstart : (500000 : Int) ∣ t.micros - Instant.epoch.micros) :
      Run.keyOf (.object [("t", .str s)]) 0 [clause] = .ok (some [.str t.text]) := by
    have hget : (Value.object [("t", .str s)]).get (Path.ofText "t") = .ok (.str s) := rfl
    exact Run.keyOf_of_start rfl (by decide) hget ht hstart
  have hwhole : whole.text = "2012-01-01T00:00:00Z" := by decide +kernel
  have hhalf : half.text = "2012-01-01T00:00:00.500000Z" := by decide +kernel
  have hfirst := hkey (s := "2012-01-01T00:00:00Z") (t := whole) (by decide +kernel)
    ⟨2650752000, by decide⟩
  have hsecond := hkey (s := "2012-01-01T00:00:00.5Z") (t := half) (by decide +kernel)
    ⟨2650752001, by decide⟩
  rw [hwhole] at hfirst
  rw [hhalf] at hsecond
  have hresult : (ofRecords (begin (.ok spec) (.ok (.read {}))) records).result =
      .ok (.groups [e "2012-01-01T00:00:00Z", e "2012-01-01T00:00:00.500000Z"]) :=
    groups_of_two rfl rfl hfirst hsecond (by simp [Value.sameKeys, Value.sameKey]) ⟨rfl, rfl, rfl⟩
      ⟨rfl, rfl, rfl⟩
  have hone : Value.OneKind ([e "2012-01-01T00:00:00Z", e "2012-01-01T00:00:00.500000Z"].map
      fun e => e.key.getD 0 .missing) := by
    refine .inr (List.forall_mem_map.mpr fun e he _ => ?_)
    rcases List.mem_pair.mp he with rfl | rfl <;> exact ⟨_, rfl⟩
  have hname : Path.position "0" = .ok (some 0) := Path.position_toString 0 (by decide)
  have hkeys : o.sort.map SortKey.ofText = [⟨"key." ++ "0", false⟩] :=
    congrArg (fun key => [key]) (SortKey.ofText_plain (by decide))
  obtain ⟨sorted, hstable, hsorted⟩ :=
    result_by_key hresult hkeys (fun e _ => e.get_key hname) hone
  have hswap := (hstable _).mpr (stablySorted_swap ⟨Bool.false_ne_true, .inr (by decide +kernel)⟩)
  rw [← hswap] at hsorted
  refine ⟨ofRequest_clause hread, hresult, hsorted, ?_⟩
  rw [Chronological, List.pairwise_pair]
  intro h
  exact absurd (h half whole ⟨_, rfl, by decide +kernel⟩ ⟨_, rfl, by decide +kernel⟩) (by decide)

end Aggregate
end RecordStore
