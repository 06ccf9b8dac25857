import RecordStore.Proofs.Accumulation
import RecordStore.Proofs.Binary64Range
import RecordStore.Proofs.Grouping

/-! The order in which records come in decides which record stands for a group, which of equal
values stands for an extreme and in which order groups come, and nothing else. -/
namespace RecordStore

def Record.Alike (ms ns : Record) : Prop :=
  List.Forall₂ (fun m n => m.1 = n.1 ∧ m.2.eq n.2) ms ns

namespace Record

theorem Alike.paired {ms ns : Record} (h : Alike ms ns) :
    Paired (fun _ v w => v.eq w) ms ns := h

theorem Alike.names {ms ns : Record} (h : Alike ms ns) : ms.map Prod.fst = ns.map Prod.fst :=
  h.paired.names

theorem Alike.eq_object {ms ns : Record} (h : Alike ms ns) (hn : (ms.map Prod.fst).Nodup) :
    (Value.object ms).eq (.object ns) := by
  refine Value.eq_object_iff.mpr ⟨ns, rfl, h.length_eq, fun m hm => ?_⟩
  obtain ⟨n, hmem, hname, heq⟩ := exists_of_forall₂ h hm
  rw [h.names] at hn
  refine ⟨n.2, hname ▸ get?_of_mem hn hmem, ?_⟩
  rw [Value.isElement, heq, Bool.or_true]

theorem Alike.put {ms ns : Record} {name : Name} {v w : Value} (h : Alike ms ns) (hv : v.eq w) :
    Alike (ms.put name v) (ns.put name w) :=
  h.paired.put hv

theorem Alike.putAll {ms ns rs ss : Record} (h : Alike ms ns) (hr : Alike rs ss) :
    Alike (ms.putAll rs) (ns.putAll ss) :=
  h.paired.putAll hr.paired

end Record

namespace Aggregate

/-! ### Statistics -/

theorem names_given (name : String) (v : Option Value) :
    ((given name v).map Prod.fst).Sublist [.text name] := by
  cases v with
  | none => exact List.nil_sublist _
  | some v => exact List.Sublist.refl _

theorem given_alike {name : String} {v w : Option Value}
    (h : Option.Rel (fun v w => v.eq w) v w) : Record.Alike (given name v) (given name w) := by
  cases h with
  | none => exact .nil
  | some h => exact .cons ⟨rfl, h⟩ .nil

namespace Accumulator

variable {request : StatRequest} {vs vs' : List Value} {a b : Accumulator}

theorem mean_alike {avg : Record} (hsum : request.avg → Sums vs a)
    (h : a.mean request = .ok avg) :
    Record.Alike avg avg ∧ (avg.map Prod.fst).Sublist ["avg"] := by
  rw [mean] at h
  split at h
  · rename_i hasked
    obtain ⟨is, -, hints, -⟩ := hsum (Bool.and_eq_true .. ▸ hasked).1
    rw [hints, Num.divCount] at h
    cases hq : Binary64.ofQuotient? is.sum a.summed with
    | none =>
      rw [hq] at h
      cases h
    | some x =>
      rw [hq] at h
      cases h
      obtain ⟨p, hp⟩ := Num.place?_of_not_isNaN (n := .float x) (Binary64.ofQuotient?_isNaN hq)
      refine ⟨.cons ⟨rfl, ?_⟩ .nil, List.Sublist.refl _⟩
      exact (Value.eq_of_asNum rfl).mpr ⟨_, rfl, Num.eq_iff.mpr ⟨p, hp, hp⟩⟩
  · cases h
    exact ⟨.nil, List.nil_sublist _⟩

theorem Sums.of_perm (hp : vs.Perm vs') (ha : Sums vs a) (hb : Sums vs' b) :
    a.sum = b.sum ∧ a.summed = b.summed := by
  obtain ⟨is, rfl, hsum, hsummed⟩ := ha
  obtain ⟨js, rfl, hsum', hsummed'⟩ := hb
  have hinjective : Function.Injective Value.int := by
    intro i j h
    cases h
    rfl
  have hp := (List.map_perm_map_iff hinjective).mp hp
  rw [hsum, hsum', hsummed, hsummed', hp.sum_eq, hp.length_eq]
  exact ⟨rfl, rfl⟩

theorem render_perm (hf : Fits request vs) (hp : vs.Perm vs') (ha : Holds request vs a)
    (hb : Holds request vs' b) {ms : Record} (h : a.render request = .ok ms) :
    ∃ ns, b.render request = .ok ns ∧ (Value.object ms).eq (.object ns) := by
  rw [render_eq, map_eq_ok] at h
  obtain ⟨avg, havg, rfl⟩ := h
  have hmean : b.mean request = .ok avg := by
    rw [← havg, mean, mean]
    by_cases hasked : request.avg
    · obtain ⟨hsum, hsummed⟩ := Sums.of_perm hp (ha.sum hasked) (hb.sum hasked)
      rw [hsum, hsummed]
    · simp [hasked]
  refine ⟨b.shown request avg, by rw [render_eq, hmean]; rfl, ?_⟩
  obtain ⟨halike, hname⟩ := mean_alike ha.sum havg
  have hcount : a.count = b.count := by rw [ha.count, hb.count, hp.length_eq]
  have hextreme (wanted : Bool) (hw : wanted → request.min || request.max)
      (pick : Value × Value → Value)
      (hpick : ∀ p q : Value × Value, p.1.eq q.1 → p.2.eq q.2 → (pick p).eq (pick q)) :
      Option.Rel (fun v w => v.eq w) (if wanted then a.extremes.map pick else none)
        (if wanted then b.extremes.map pick else none) := by
    cases wanted with
    | false => exact .none
    | true =>
      have hrel := Bound.eq_of_perm (hf.ordered (hw rfl)) hp (ha.extremes (hw rfl))
        (hb.extremes (hw rfl))
      rw [if_pos rfl, if_pos rfl]
      generalize a.extremes = e at hrel ⊢
      generalize b.extremes = e' at hrel ⊢
      cases hrel with
      | none => exact .none
      | some h => exact .some (hpick _ _ h.1 h.2)
  have hshown : Record.Alike (a.shown request avg) (b.shown request avg) := by
    refine List.rel_append (List.rel_append (List.rel_append (given_alike ?_) halike)
      (given_alike ?_)) (given_alike ?_)
    · rw [hcount]
      split
      · exact .some (Value.eq_int.mpr rfl)
      · exact .none
    · exact hextreme request.min (fun h => by simp [h]) Prod.fst fun _ _ h _ => h
    · exact hextreme request.max (fun h => by simp [h]) Prod.snd fun _ _ _ h => h
  refine hshown.eq_object ?_
  have hnames : ((a.shown request avg).map Prod.fst).Sublist ["count", "avg", "min", "max"] := by
    simp only [shown, List.map_append]
    exact (((names_given ..).append hname).append (names_given ..)).append (names_given ..)
  exact hnames.nodup (by decide)

end Accumulator

theorem nodup_statsMembers {ss : List (String × Record)} (hn : (ss.map Prod.fst).Nodup) :
    ((statsMembers ss).map Prod.fst).Nodup := by
  have hnames : (statsMembers ss).map Prod.fst = (ss.map Prod.fst).map Name.text := by
    rw [statsMembers, List.map_map, List.map_map]
    rfl
  rw [hnames]
  exact hn.map fun _ _ h => Name.text.inj h

/-- At every field the values of records fit what is asked of them. -/
def StatsFit (stats : Stats) (records : List Value) : Prop :=
  ∀ x ∈ stats, Fits x.2 (brought x.1 records)

theorem StatsFit.subset {stats : Stats} {records members : List Value}
    (h : StatsFit stats records) (hm : ∀ r ∈ members, r ∈ records) : StatsFit stats members := by
  refine fun x hx => (h x hx).subset fun v hv => ?_
  obtain ⟨r, hr, hv⟩ := List.mem_filterMap.mp hv
  exact List.mem_filterMap.mpr ⟨r, hm r hr, hv⟩

theorem Summed.perm {records records' : List Value} {x : String × StatRequest}
    {s : String × Record} (hp : records.Perm records') (hf : Fits x.2 (brought x.1 records))
    (h : Summed records x s) :
    ∃ t, Summed records' x t ∧ s.1 = t.1 ∧ (Value.object s.2).eq (.object t.2) := by
  obtain ⟨a, ha, hms, hname⟩ := h
  have hvs : (brought x.1 records).Perm (brought x.1 records') := hp.filterMap _
  have hread := Accumulator.readable_of_ingestAll ha
  obtain ⟨a', ha', hholds⟩ := Accumulator.ingestAll_of_fits hread hf
  obtain ⟨b, hb, hholds'⟩ := Accumulator.ingestAll_of_fits
    (fun r hr => hread r (hp.mem_iff.mpr hr)) (hf.subset fun v hv => hvs.mem_iff.mpr hv)
  rw [ha] at ha'
  cases ha'
  obtain ⟨ns, hns, heq⟩ := Accumulator.render_perm hf hvs hholds hholds' hms
  exact ⟨(x.1, ns), ⟨b, hb, hns, rfl⟩, hname, heq⟩

theorem summed_perm {stats : Stats} {records records' : List Value} {ss : List (String × Record)}
    (hp : records.Perm records') (hf : StatsFit stats records)
    (h : List.Forall₂ (Summed records) stats ss) :
    ∃ ts, List.Forall₂ (Summed records') stats ts ∧
      Record.Alike (statsMembers ss) (statsMembers ts) := by
  induction h with
  | nil => exact ⟨[], .nil, .nil⟩
  | @cons x s stats ss hs _ ih =>
    obtain ⟨hfx, hf⟩ := List.forall_mem_cons.mp hf
    obtain ⟨t, ht, hname, heq⟩ := hs.perm hp hfx
    obtain ⟨ts, hts, halike⟩ := ih hf
    exact ⟨t :: ts, .cons ht hts, .cons ⟨congrArg Name.text hname, heq⟩ halike⟩

/-! ### Classes -/

structure Class.Like (c d : Class) : Prop where
  key : c.key = d.key ∨ Value.sameKeys c.key d.key
  members : c.members.Perm d.members

theorem Class.Like.refl (c : Class) : Like c c := ⟨.inl rfl, .refl _⟩

instance : IsTrans Class Class.Like where
  trans c d e hcd hde := by
    refine ⟨?_, hcd.members.trans hde.members⟩
    rcases hcd.key with hcd | hcd
    · exact hcd ▸ hde.key
    · rcases hde.key with hde | hde
      · exact .inr (hde ▸ hcd)
      · exact .inr (Value.sameKeys_trans hcd hde)

theorem sharing_eq_of_same {key key' : List Value} (ks : List (List Value × Value))
    (h : Value.sameKeys key key') (h' : Value.sameKeys key' key) :
    sharing key ks = sharing key' ks ∧ others key ks = others key' ks := by
  have hsame (k : List Value) : Value.sameKeys key k = Value.sameKeys key' k :=
    Bool.eq_iff_iff.mpr
      ⟨fun hk => Value.sameKeys_trans h' hk, fun hk => Value.sameKeys_trans h hk⟩
  simp only [sharing, others, hsame, and_self]

theorem others_comm (key key' : List Value) (ks : List (List Value × Value)) :
    others key (others key' ks) = others key' (others key ks) := by
  simp only [others, List.filter_filter, Bool.and_comm]

/-- Two neighbours that change places are in one class, or their classes change places. -/
theorem classes_swap {p q : List Value × Value} {ks : List (List Value × Value)}
    (hw : KeysWellFormed (p :: q :: ks)) :
    Multiset.Rel Class.Like (classes (p :: q :: ks)) (classes (q :: p :: ks)) := by
  have hwp := hw p (by simp)
  have hwq := hw q (by simp)
  by_cases h : Value.sameKeys p.1 q.1
  · have h' := Value.sameKeys_symm hwp h
    obtain ⟨hsharing, hothers⟩ := sharing_eq_of_same ks h h'
    rw [classes, classes, sharing_cons_pos h, sharing_cons_pos h', others_cons_pos h,
      others_cons_pos h', hsharing, hothers, ← Multiset.cons_coe, ← Multiset.cons_coe]
    exact .cons ⟨.inr h, .swap ..⟩ (Multiset.rel_refl_of_refl_on fun c _ => .refl c)
  · have h' : ¬ Value.sameKeys q.1 p.1 := fun h' => h (Value.sameKeys_symm hwq h')
    rw [classes, classes, sharing_cons_neg h, sharing_cons_neg h', others_cons_neg h,
      others_cons_neg h', classes, classes, sharing_others hwq h, sharing_others hwp h',
      others_comm, ← Multiset.cons_coe, ← Multiset.cons_coe, ← Multiset.cons_coe,
      ← Multiset.cons_coe, Multiset.cons_swap]
    exact Multiset.rel_refl_of_refl_on fun c _ => .refl c

theorem classes_perm {ks ks' : List (List Value × Value)} (hw : KeysWellFormed ks)
    (hp : ks.Perm ks') : Multiset.Rel Class.Like (classes ks) (classes ks') := by
  -- Other keys are fewer than all, whatever their order, and there the statement holds already.
  induction hn : ks.length using Nat.strong_induction_on generalizing ks ks' with
  | h n shorter =>
    induction hp with
    | nil => exact Multiset.rel_refl_of_refl_on fun c _ => .refl c
    | @cons p ks ks' hp _ =>
      have hfewer : (others p.1 ks).length < n := by
        rw [← hn, List.length_cons]
        exact Nat.lt_succ_of_le (List.length_filter_le ..)
      rw [classes, classes, ← Multiset.cons_coe, ← Multiset.cons_coe]
      refine .cons ⟨.inl rfl, .cons _ ((hp.filter _).map _)⟩ ?_
      exact shorter _ hfewer (hw.others p.1) (hp.filter _) rfl
    | swap p q ks => exact classes_swap hw
    | @trans ks ks' ks'' hp hp' ih ih' =>
      have hw' : KeysWellFormed ks' := fun p hmem => hw p (hp.mem_iff.mpr hmem)
      exact (ih hw hn).trans _ (ih' hw' (hp.length_eq ▸ hn))

theorem keyed_perm [Present] {clauses : List Clause} {records records' : List Value}
    {ks : List (List Value × Value)} (hp : records.Perm records')
    (h : keyed clauses records = .ok ks) :
    ∃ ks', keyed clauses records' = .ok ks' ∧ ks.Perm ks' := by
  induction hp generalizing ks with
  | nil => exact ⟨ks, h, .refl ks⟩
  | cons r _ ih =>
    simp only [keyed, bind_eq_ok, pure_eq_ok] at h ⊢
    obtain ⟨key, hkey, ks, hks, rfl⟩ := h
    obtain ⟨ks', hks', hp⟩ := ih hks
    exact ⟨_, ⟨key, hkey, ks', hks', rfl⟩, hp.append_left _⟩
  | swap r r' rest =>
    simp only [keyed, bind_eq_ok, pure_eq_ok] at h ⊢
    obtain ⟨key', hkey', _, ⟨key, hkey, ks, hks, rfl⟩, rfl⟩ := h
    exact ⟨_, ⟨key, hkey, _, ⟨key', hkey', ks, hks, rfl⟩, rfl⟩, List.perm_append_comm_assoc ..⟩
  | trans _ _ ih ih' =>
    obtain ⟨ks', hks', hp⟩ := ih h
    obtain ⟨ks'', hks'', hp'⟩ := ih' hks'
    exact ⟨ks'', hks'', hp.trans hp'⟩

/-- The records that statistics are taken of: all, or those that no clause leaves out. -/
def Spec.fed [Present] (spec : Spec) (records : List Value) : List Value :=
  match spec.clauses with
  | none => records
  | some clauses => records.filter fun r => Run.keyOf r 0 clauses matches .ok (some _)

theorem fed_of_keyed [Present] {spec : Spec} {clauses : List Clause} {records : List Value}
    {ks : List (List Value × Value)} (hc : spec.clauses = some clauses)
    (h : keyed clauses records = .ok ks) : spec.fed records = ks.map Prod.snd := by
  rw [Spec.fed, hc]
  dsimp only
  induction records generalizing ks with
  | nil =>
    cases h
    rfl
  | cons r rest ih =>
    simp only [keyed, bind_eq_ok, pure_eq_ok] at h
    obtain ⟨key, hkey, ks, hks, rfl⟩ := h
    rw [List.map_append, ← ih hks, List.filter_cons, hkey]
    cases key <;> rfl

theorem mem_fed_of_mem_class {ks : List (List Value × Value)} {c : Class} (hc : c ∈ classes ks) :
    ∀ r ∈ c.members, r ∈ ks.map Prod.snd := by
  induction ks using classes.induct with
  | case1 => simp [classes] at hc
  | case2 key r rest ih =>
    have hkept {q : List Value × Value → Bool} {v : Value}
        (hv : v ∈ (rest.filter q).map Prod.snd) : v ∈ ((key, r) :: rest).map Prod.snd := by
      obtain ⟨p, hp, rfl⟩ := List.mem_map.mp hv
      exact List.mem_map_of_mem (List.mem_cons_of_mem _ (List.mem_filter.mp hp).1)
    rw [classes, List.mem_cons] at hc
    rcases hc with rfl | hc
    · intro v hv
      rcases List.mem_cons.mp hv with rfl | hv
      · exact List.mem_cons_self
      · exact hkept hv
    · exact fun v hv => hkept (ih hc v hv)

/-! ### Whole results -/

/-- Entries for one key, with equal totals and equal statistics. -/
structure Entry.Agrees (e f : Entry) : Prop where
  key : e.key = f.key ∨ Value.sameKeys e.key f.key
  /-- Where there is no NaN and no document, being the same key is all. -/
  plain : (∀ v ∈ e.key, v.isPlain) → Value.sameKeys e.key f.key
  total : e.total = f.total
  stats : Option.Rel (fun s t => (statsValue s).eq (statsValue t)) e.stats f.stats

inductive Result.Agree : Result → Result → Prop
  | totals {ms ns : Record} (h : (Value.object ms).eq (.object ns)) :
      Agree (.totals ms) (.totals ns)
  | groups {es fs : List Entry} (h : Multiset.Rel Entry.Agrees es fs) :
      Agree (.groups es) (.groups fs)

theorem forall₂_rel {α β γ δ : Type} {R : α → γ → Prop} {S : β → δ → Prop} {L : α → β → Prop}
    {Q : γ → δ → Prop} {as : List α} {bs : List β} {cs : List γ} (hR : List.Forall₂ R as cs)
    (hL : Multiset.Rel L as bs)
    (hstep : ∀ a ∈ as, ∀ b c, R a c → L a b → ∃ d, S b d ∧ Q c d) :
    ∃ ds : List δ, List.Forall₂ S bs ds ∧ Multiset.Rel Q cs ds := by
  induction hR generalizing bs with
  | nil =>
    have hbs := Multiset.rel_zero_left.mp hL
    rw [Multiset.coe_eq_zero] at hbs
    exact ⟨[], hbs ▸ .nil, .zero⟩
  | @cons a c as cs hac _ ih =>
    rw [← Multiset.cons_coe] at hL
    obtain ⟨b, rest, hab, hrest, hbs⟩ := Multiset.rel_cons_left.mp hL
    induction rest using Quotient.inductionOn with
    | h rest =>
      obtain ⟨hstep₀, hstep⟩ := List.forall_mem_cons.mp hstep
      obtain ⟨d, hbd, hcd⟩ := hstep₀ b c hac hab
      obtain ⟨ds, hds, hQ⟩ := ih hrest hstep
      have hp : bs.Perm (b :: rest) := Multiset.coe_eq_coe.mp hbs
      obtain ⟨ds', hds', hp'⟩ := List.perm_comp_forall₂ hp (.cons hbd hds)
      refine ⟨ds', hds', ?_⟩
      rw [Multiset.coe_eq_coe.mpr hp', ← Multiset.cons_coe, ← Multiset.cons_coe]
      exact .cons hcd hQ

section
variable {spec : Spec} {o : AggregateOptions} {records : List Value} {result : Result}

/-- Statistics over all records, with their number under a name of its own unless a field has it. -/
theorem overall_aggregate [Present] (hc : spec.clauses = none)
    (hx : extensionStats? spec.stats = none) (hs : o.sort = []) (hl : o.limit = none) :
    (ofRecords (begin (.ok spec) (.ok (.read o))) records).result = .ok result ↔
      ∃ ss, List.Forall₂ (Summed records) spec.stats ss ∧ result = .totals (Record.putAll
        (given "total" (if spec.total then some (.int records.length) else none))
        (statsMembers ss)) := by
  have hb : begin (.ok spec) (.ok (.read o)) =
      .ok { spec, options := .read o, stats := .start spec.stats } := by
    simp [begin, Run.start, hc, hx, RunOptions.presents?, hs, hl, bind, Except.bind]
  rw [hb, ofRecords_eq_ok]
  simp only [← summed_iff]
  constructor
  · intro h
    obtain ⟨run, last, hrun, hfeed, hrender⟩ := h
    cases hrun
    obtain ⟨as, has, rfl⟩ := (Run.feedAll_overall hc).mp hfeed
    simp only [Run.render, hc, Run.totals, bind_eq_ok, pure_eq_ok, Nat.zero_add] at hrender
    obtain ⟨_, ⟨ss, hss, rfl⟩, rfl⟩ := hrender
    exact ⟨ss, ⟨as, has, hss⟩, rfl⟩
  · intro h
    obtain ⟨ss, ⟨as, has, hss⟩, rfl⟩ := h
    refine ⟨_, _, rfl, (Run.feedAll_overall hc).mpr ⟨as, has, rfl⟩, ?_⟩
    simp only [Run.render, hc, Run.totals, bind_eq_ok, pure_eq_ok, Nat.zero_add]
    exact ⟨_, ⟨ss, hss, rfl⟩, rfl⟩

structure Entry.Sums (spec : Spec) (c : Class) (e : Entry) : Prop where
  key : e.key = c.key
  total : e.total = if spec.total then some c.members.length else none
  stats : if spec.stats = [] then e.stats = none else
    ∃ ss, e.stats = some ss ∧ List.Forall₂ (Summed c.members) spec.stats ss

theorem sums_of_group (run : Run) {c : Class} {e : Entry} :
    (∃ g, c.members.foldlM (fun g r => Run.Group.add r g)
      ⟨c.key, 0, .start run.spec.stats⟩ = .ok g ∧ run.entryOf g = .ok e) ↔
      Entry.Sums run.spec c e := by
  simp only [Run.Group.addAll_eq_ok, entryOf_eq_ok, Nat.zero_add]
  constructor
  · intro h
    obtain ⟨_, ⟨as, has, rfl⟩, hkey, htotal, hstats⟩ := h
    refine ⟨hkey, htotal, ?_⟩
    split at hstats
    · rwa [if_pos ‹_›]
    · obtain ⟨ss, hss, hr⟩ := hstats
      rw [if_neg ‹_›]
      exact ⟨ss, hss, summed_iff.mp ⟨as, has, hr⟩⟩
  · intro h
    obtain ⟨hkey, htotal, hstats⟩ := h
    by_cases hnone : run.spec.stats = []
    · rw [if_pos hnone] at hstats
      refine ⟨_, ⟨[], ?_, rfl⟩, hkey, htotal, ?_⟩
      · rw [hnone]
        exact ingestAll_nil c.members
      · rwa [if_pos hnone]
    · rw [if_neg hnone] at hstats
      obtain ⟨ss, hss, hsummed⟩ := hstats
      obtain ⟨as, has, hr⟩ := summed_iff.mpr hsummed
      refine ⟨_, ⟨as, has, rfl⟩, hkey, htotal, ?_⟩
      rw [if_neg hnone]
      exact ⟨ss, hss, hr⟩

theorem groups_aggregate [Present] {clauses : List Clause} (hc : spec.clauses = some clauses)
    (hx : extensionStats? spec.stats = none) (hs : o.sort = []) (hl : o.limit = none) :
    (ofRecords (begin (.ok spec) (.ok (.read o))) records).result = .ok result ↔
      ∃ ks entries, keyed clauses records = .ok ks ∧
        List.Forall₂ (Entry.Sums spec) (classes ks) entries ∧ result = .groups entries := by
  let last (groups : List Group) : Run :=
    { spec, options := .read o, stats := .start spec.stats, seen := 0 + records.length, groups }
  rw [begin_groups hc hx, ofRecords_eq_ok]
  constructor
  · intro h
    obtain ⟨_, _, ⟨⟩, hfeed, hrender⟩ := h
    obtain ⟨ks, groups, hk, hg, rfl⟩ := (Run.feedAll_groups hc).mp hfeed
    obtain ⟨entries, he, rfl⟩ := (render_groups hc rfl hs hl).mp hrender
    have he := forall₂_comp.mp ⟨groups, Run.addAll_nil.mp hg, he⟩
    exact ⟨ks, entries, hk, he.imp fun c e h => (sums_of_group (last groups)).mp h, rfl⟩
  · intro h
    obtain ⟨ks, entries, hk, he, rfl⟩ := h
    obtain ⟨groups, hg, he⟩ :=
      forall₂_comp.mpr (he.imp fun c e h => (sums_of_group (last [])).mpr h)
    exact ⟨_, last groups, rfl,
      (Run.feedAll_groups hc).mpr ⟨ks, groups, hk, Run.addAll_nil.mpr hg, rfl⟩,
      (render_groups hc rfl hs hl).mpr ⟨entries, he, rfl⟩⟩

end

theorem Entry.Sums.like {spec : Spec} {c d : Class} {e : Entry}
    (hn : (spec.stats.map Prod.fst).Nodup) (hw : ∀ v ∈ c.key, v.isWellFormed)
    (hf : StatsFit spec.stats c.members) (he : Entry.Sums spec c e) (h : Class.Like c d) :
    ∃ f, Entry.Sums spec d f ∧ Entry.Agrees e f := by
  have hplain : (∀ v ∈ e.key, v.isPlain) → Value.sameKeys e.key d.key := by
    intro hp
    rw [he.key] at hp ⊢
    rcases h.key with heq | hsame
    · exact heq ▸ Value.sameKeys_refl hw hp
    · exact hsame
  have htotal : e.total = if spec.total then some d.members.length else none := by
    rw [he.total, h.members.length_eq]
  have hstats := he.stats
  by_cases hnone : spec.stats = []
  · rw [if_pos hnone] at hstats
    refine ⟨⟨d.key, none, e.total⟩, ⟨rfl, htotal, ?_⟩, he.key ▸ h.key, hplain, rfl, ?_⟩
    · rw [if_pos hnone]
    · rw [hstats]
      exact .none
  · rw [if_neg hnone] at hstats
    obtain ⟨ss, hss, hsummed⟩ := hstats
    obtain ⟨ts, hts, halike⟩ := summed_perm h.members hf hsummed
    refine ⟨⟨d.key, some ts, e.total⟩, ⟨rfl, htotal, ?_⟩, he.key ▸ h.key, hplain, rfl, ?_⟩
    · rw [if_neg hnone]
      exact ⟨ts, rfl, hts⟩
    · rw [hss]
      refine .some (halike.eq_object (nodup_statsMembers ?_))
      rwa [summed_names hsummed]

/-- Records in another order give a result again, and the results agree. -/
theorem aggregate_of_reordered [Present] {spec : Spec} {o : AggregateOptions}
    (hx : extensionStats? spec.stats = none) (hn : (spec.stats.map Prod.fst).Nodup)
    (hs : o.sort = []) (hl : o.limit = none) {records records' : List Value}
    (hp : records.Perm records') (hw : ∀ r ∈ records, r.isWellFormed)
    (hf : StatsFit spec.stats (spec.fed records)) {result : Result}
    (h : (ofRecords (begin (.ok spec) (.ok (.read o))) records).result = .ok result) :
    ∃ result', (ofRecords (begin (.ok spec) (.ok (.read o))) records').result = .ok result' ∧
      result.Agree result' := by
  cases hc : spec.clauses with
  | none =>
    rw [Spec.fed, hc] at hf
    obtain ⟨ss, hss, rfl⟩ := (overall_aggregate hc hx hs hl).mp h
    obtain ⟨ts, hts, halike⟩ := summed_perm hp hf hss
    refine ⟨_, (overall_aggregate hc hx hs hl).mpr ⟨ts, hts, rfl⟩, .totals ?_⟩
    have htotal : Record.Alike
        (given "total" (if spec.total then some (.int records.length) else none))
        (given "total" (if spec.total then some (.int records'.length) else none)) := by
      refine given_alike ?_
      rw [hp.length_eq]
      split
      · exact .some (Value.eq_int.mpr rfl)
      · exact .none
    exact (htotal.putAll halike).eq_object
      (Record.nodup_putAll ((names_given ..).nodup (List.nodup_singleton _)))
  | some clauses =>
    obtain ⟨ks, entries, hk, he, rfl⟩ := (groups_aggregate hc hx hs hl).mp h
    obtain ⟨ks', hk', hpk⟩ := keyed_perm hp hk
    have hwk := keyed_wellFormed hw hk
    rw [fed_of_keyed hc hk] at hf
    obtain ⟨entries', he', hagree⟩ := forall₂_rel he (classes_perm hwk hpk)
      fun c hmem d e hsums hlike => hsums.like hn (class_wellFormed hwk hmem)
        (hf.subset (mem_fed_of_mem_class hmem)) hlike
    exact ⟨_, (groups_aggregate hc hx hs hl).mpr ⟨ks', entries', hk', he', rfl⟩, .groups hagree⟩

/-- Two records of two keys, with the extremes of a field, in one order and in the other. -/
theorem aggregate_of_two_reordered :
    let r (key : String) (n : Int) : Value := .object [("a", .str key), ("n", .int n)]
    let spec : Spec := ⟨some [⟨"a", .discrete⟩], [("n", { min := true, max := true })], true, []⟩
    let run (records : List Value) := (ofRecords (begin (.ok spec) (.ok (.read {}))) records).result
    let entry (key : String) (n : Int) : Entry :=
      ⟨[.str key], some [("n", [("min", .int n), ("max", .int n)])], some 1⟩
    run [r "x" 1, r "y" 2] = .ok (.groups [entry "x" 1, entry "y" 2]) ∧
      run [r "y" 2, r "x" 1] = .ok (.groups [entry "y" 2, entry "x" 1]) ∧
      (Result.groups [entry "x" 1, entry "y" 2]).Agree (.groups [entry "y" 2, entry "x" 1]) := by
  intro r spec run entry
  have hsums (key : String) (n : Int) :
      Entry.Sums spec ⟨[.str key], [r key n]⟩ (entry key n) :=
    ⟨rfl, rfl, _, rfl, .cons ⟨_, rfl, rfl, rfl⟩ .nil⟩
  have hrun {key key' : String} (hne : key ≠ key') (n n' : Int) :
      run [r key n, r key' n'] = .ok (.groups [entry key n, entry key' n']) := by
    let ks := [([Value.str key], r key n), ([Value.str key'], r key' n')]
    have hclasses : classes ks = [⟨[.str key], [r key n]⟩, ⟨[.str key'], [r key' n']⟩] := by
      simp [ks, classes, sharing, others, Value.sameKeys, Value.sameKey, hne]
    have hentries : List.Forall₂ (Entry.Sums spec) (classes ks) [entry key n, entry key' n'] := by
      rw [hclasses]
      exact .cons (hsums key n) (.cons (hsums key' n') .nil)
    exact (groups_aggregate rfl rfl rfl rfl).mpr ⟨ks, _, rfl, hentries, rfl⟩
  have hresult : run [r "x" 1, r "y" 2] = _ := hrun (by decide) 1 2
  have hother : run [r "y" 2, r "x" 1] = _ := hrun (by decide) 2 1
  have hfit : StatsFit spec.stats (spec.fed [r "x" 1, r "y" 2]) :=
    List.forall_mem_singleton.mpr ⟨by simp, fun _ => by decide⟩
  obtain ⟨result', hresult', hagree⟩ := aggregate_of_reordered (o := {}) rfl (by decide) rfl rfl
    (.swap ..) (by decide) hfit hresult
  cases hother.symm.trans hresult'
  exact ⟨hresult, hother, hagree⟩
end Aggregate
end RecordStore
