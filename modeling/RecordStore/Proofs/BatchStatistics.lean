import RecordStore.Proofs.Accumulation

/-! Running statistics and those of a whole list. Samples are taken in up to the first that does not
fit the ones before it; where all fit, the running statistics are those of the list. -/
namespace RecordStore
namespace Aggregate

/-- Nothing, a truth value, a text, a whole number, or another number where no average is asked
for. -/
inductive Sample (request : StatRequest) : Value → Prop
  | null : Sample request .null
  | missing : Sample request .missing
  | bool (b : Bool) : Sample request (.bool b)
  | str (s : String) : Sample request (.str s)
  | int (i : Int) : Sample request (.int i)
  | float {x : Binary64} (real : (Num.float x).isNaN = false) (plain : request.avg = false) :
      Sample request (.float x)

/-- A value that is no number, if an average is asked for; otherwise a text behind a number or a
number behind a text, if an extreme is. -/
def Unfit (request : StatRequest) (before : List Value) (v : Value) : Prop :=
  v.isAbsent = false ∧ if request.avg then v.isNum = false else
    (request.min || request.max) ∧ (v.isStr ∧ (∃ w ∈ before, w.asNum?.isSome) ∨
      v.asNum?.isSome ∧ ∃ w ∈ before, w.isStr)

def AllFit (request : StatRequest) (vs : List Value) : Prop :=
  ∀ before v after, vs = before ++ v :: after → ¬ Unfit request before v

def Statistic.Of (vs : List Value) (v : Value) : Statistic → Prop
  | .count => v = .int vs.length
  | .avg => ∃ (is : List Int) (mean : Binary64), vs = is.map .int ∧
      Binary64.ofQuotient? is.sum is.length = some mean ∧ v = .float mean
  | .min => FirstBest Value.lt? vs v
  | .max => FirstBest greater? vs v

/-- A statistic is answered if it is asked for and, but for the count, there is a value. -/
def StatRequest.answers (request : StatRequest) (vs : List Value) (s : Statistic) : Bool :=
  request.wants s && (s = .count || !vs.isEmpty)

/-- The members are the statistics to be answered, each under its name. -/
def Summary (request : StatRequest) (vs : List Value) (ms : Record) : Prop :=
  List.Forall₂ (fun s m => m.1 = .text s.name ∧ s.Of vs m.2)
    (Statistic.all.filter (request.answers vs)) ms

section
variable {request : StatRequest} {vs before : List Value} {v w : Value}

theorem Sample.kind (h : Sample request v) (hv : v.isAbsent = false) :
    v.isStr ∨ v.asNum?.any (!·.isNaN) := by
  cases h with
  | null | missing => cases hv
  | bool | int => exact .inr rfl
  | str => exact .inl rfl
  | float real => exact .inr (by rw [Value.float, Value.asNum?, Option.any_some, real]; rfl)

theorem isAbsent_of_isStr (h : v.isStr) : v.isAbsent = false := by
  cases v <;> first | rfl | cases h

theorem isAbsent_of_asNum (h : v.asNum?.isSome) : v.isAbsent = false := by
  cases v <;> first | rfl | cases h

theorem mem_present : v ∈ present vs ↔ v ∈ vs ∧ v.isAbsent = false := by
  rw [present, List.mem_filter, Bool.not_eq_true']

theorem exists_before (hv : v ∈ vs) (hw : w ∈ vs) (hne : v ≠ w) :
    (∃ before after, vs = before ++ v :: after ∧ w ∈ before) ∨
      ∃ before after, vs = before ++ w :: after ∧ v ∈ before := by
  obtain ⟨before, after, rfl⟩ := List.append_of_mem hv
  rcases List.mem_append.mp hw with hw | hw
  · exact .inl ⟨before, after, rfl, hw⟩
  · obtain ⟨between, rest, rfl⟩ := List.append_of_mem ((List.mem_cons.mp hw).resolve_left hne.symm)
    exact .inr ⟨before ++ v :: between, rest, by simp, by simp⟩

theorem isSome_of_any {p : Num → Bool} (h : v.asNum?.any p) : v.asNum?.isSome := by
  cases hv : v.asNum? with
  | some n => rfl
  | none =>
    rw [hv] at h
    cases h

theorem lt?_of_isStr (hv : v.isStr) (hw : w.asNum?.isSome) : v.lt? w = none := by
  cases v with
  | str s => cases w with
    | num | bool => simp [Value.lt?]
    | _ => cases hw
  | _ => cases hv

theorem not_isStr_of_asNum (h : v.asNum?.isSome) : ¬ v.isStr := by
  cases v with
  | str => cases h
  | _ => exact Bool.false_ne_true

theorem not_allFit (havg : request.avg = false) (hext : request.min || request.max) (hv : v ∈ vs)
    (hstr : v.isStr) (hw : w ∈ vs) (hnum : w.asNum?.isSome) : ¬ AllFit request vs := by
  intro h
  have hne : v ≠ w := fun heq => not_isStr_of_asNum hnum (heq ▸ hstr)
  obtain ⟨before, after, hsplit, hbefore⟩ | ⟨before, after, hsplit, hbefore⟩ :=
    exists_before hv hw hne
  · refine h before v after hsplit ⟨isAbsent_of_isStr hstr, ?_⟩
    rw [havg, if_neg Bool.false_ne_true]
    exact ⟨hext, .inl ⟨hstr, w, hbefore, hnum⟩⟩
  · refine h before w after hsplit ⟨isAbsent_of_asNum hnum, ?_⟩
    rw [havg, if_neg Bool.false_ne_true]
    exact ⟨hext, .inr ⟨hnum, v, hbefore, hstr⟩⟩

theorem whole_of_allFit (hvs : ∀ v ∈ vs, Sample request v) (h : AllFit request vs)
    (havg : request.avg) : ∀ v ∈ present vs, ∃ i, v = .int i := by
  intro v hv
  obtain ⟨hmem, habsent⟩ := mem_present.mp hv
  obtain ⟨before, after, hsplit⟩ := List.append_of_mem hmem
  have hfit := h before v after hsplit
  rw [Unfit, if_pos havg, not_and, Bool.not_eq_false] at hfit
  have hnum := hfit habsent
  cases hvs v hmem with
  | int i => exact ⟨i, rfl⟩
  | float real plain => rw [havg] at plain; cases plain
  | null | missing | bool | str => cases hnum

theorem fits_of_allFit (hvs : ∀ v ∈ vs, Sample request v) (h : AllFit request vs) :
    Fits request (present vs) := by
  refine ⟨whole_of_allFit hvs h, fun hext => ?_⟩
  rw [inTotalOrder, Bool.or_eq_true, List.all_eq_true, List.all_eq_true]
  have hkind : ∀ v ∈ present vs, v.isStr ∨ v.asNum?.any (!·.isNaN) := fun v hv =>
    (hvs v (mem_present.mp hv).1).kind (mem_present.mp hv).2
  by_cases havg : request.avg
  · refine .inl fun v hv => ?_
    obtain ⟨i, rfl⟩ := whole_of_allFit hvs h havg v hv
    rfl
  · by_cases hstr : ∃ v ∈ present vs, v.isStr
    · obtain ⟨v, hv, hstr⟩ := hstr
      refine .inr fun w hw => (hkind w hw).resolve_right fun hnum => ?_
      exact not_allFit (by simpa using havg) hext (mem_present.mp hv).1 hstr
        (mem_present.mp hw).1 (isSome_of_any hnum) h
    · exact .inl fun w hw => (hkind w hw).resolve_left fun h => hstr ⟨w, hw, h⟩

end

namespace Accumulator
variable {field : Value} {request : StatRequest} {vs before : List Value} {v : Value}
  {a : Accumulator} {ms : Record}

theorem taken_of_not_num (havg : request.avg) (hv : v.isAbsent = false) (hnum : v.isNum = false)
    (a : Accumulator) :
    taken field request a v = .error (.mismatch (.average v.kind) { field }) := by
  have hadd : addTo field { a with count := a.count + 1 } v = fault field (.average v.kind) := by
    cases v with
    | num => cases hnum
    | _ => rfl
  rw [taken, ingest, hv, if_neg Bool.false_ne_true]
  dsimp only
  rw [if_pos havg, hadd]
  rfl

theorem taken_of_incomparable {least greatest : Value} (havg : request.avg = false)
    (hext : request.min || request.max) (hv : v.isAbsent = false)
    (ha : a.extremes = some (least, greatest)) (h : v.lt? least = none) :
    taken field request a v = .error (.mismatch (.incomparable v.kind least.kind) { field }) := by
  have hwiden : widen field v a.extremes =
      (a.extremes, fault field (.incomparable v.kind least.kind)) := by
    rw [ha, widen, h]
  rw [taken, ingest, hv, if_neg Bool.false_ne_true]
  dsimp only
  rw [havg, if_neg Bool.false_ne_true]
  dsimp only
  rw [if_pos hext, hwiden]
  rfl

theorem lt?_of_kinds (hvs : inTotalOrder vs) (h : v.isStr ∧ (∃ w ∈ vs, w.asNum?.isSome) ∨
    v.asNum?.isSome ∧ ∃ w ∈ vs, w.isStr) {least : Value} (hleast : least ∈ vs) :
    v.lt? least = none := by
  rw [inTotalOrder, Bool.or_eq_true, List.all_eq_true, List.all_eq_true] at hvs
  obtain ⟨hstr, w, hw, hnum⟩ | ⟨hnum, w, hw, hstr⟩ := h
  · have hnumber := hvs.resolve_right (fun hall => not_isStr_of_asNum hnum (hall w hw)) least hleast
    exact lt?_of_isStr hstr (isSome_of_any hnumber)
  · have htext := hvs.resolve_left
      (fun hall => not_isStr_of_asNum (isSome_of_any (hall w hw)) hstr) least hleast
    obtain ⟨n, hn⟩ := Option.isSome_iff_exists.mp hnum
    have hnone : least.asNum? = none := Option.not_isSome_iff_eq_none.mp fun hleast =>
      not_isStr_of_asNum hleast htext
    rw [Value.lt?_of_asNum hn, hnone]
    rfl

theorem taken_of_unfit (field : Value) (hfits : Fits request (present before))
    (ha : Holds request (present before) a) (h : Unfit request before v) :
    ∃ f, taken field request a v = .error (.mismatch f { field }) := by
  obtain ⟨hv, h⟩ := h
  by_cases havg : request.avg
  · rw [if_pos havg] at h
    exact ⟨_, taken_of_not_num havg hv h a⟩
  · rw [if_neg havg] at h
    obtain ⟨hext, hkinds⟩ := h
    have hpresent : v.isStr ∧ (∃ w ∈ present before, w.asNum?.isSome) ∨
        v.asNum?.isSome ∧ ∃ w ∈ present before, w.isStr := by
      refine hkinds.imp (And.imp_right ?_) (And.imp_right ?_)
      · rintro ⟨w, hw, hnum⟩
        exact ⟨w, mem_present.mpr ⟨hw, isAbsent_of_asNum hnum⟩, hnum⟩
      · rintro ⟨w, hw, hstr⟩
        exact ⟨w, mem_present.mpr ⟨hw, isAbsent_of_isStr hstr⟩, hstr⟩
    have hbound := ha.extremes hext
    cases hextremes : a.extremes with
    | none =>
      rw [hextremes] at hbound
      rw [show present before = [] from hbound] at hpresent
      simp at hpresent
    | some p =>
      rw [hextremes] at hbound
      have hlt := lt?_of_kinds (hfits.ordered hext) hpresent hbound.1.mem
      exact ⟨_, taken_of_incomparable (by simpa using havg) hext hv hextremes hlt⟩

theorem takeAll_of_allFit (field : Value) (hvs : ∀ v ∈ vs, Sample request v)
    (h : AllFit request vs) :
    ∃ a, takeAll field request vs {} = .ok a ∧ Holds request (present vs) a := by
  have hfits : Fits request ([] ++ present vs) := fits_of_allFit hvs h
  exact takeAll_holds hfits holds_nil

/-- The first value that does not fit is refused for what it is. -/
theorem taken_of_first_unfit (hvs : ∀ v ∈ before, Sample request v) (hfit : AllFit request before)
    (htake : takeAll field request before {} = .ok a) (h : Unfit request before v) :
    ∃ f, taken field request a v = .error (.mismatch f { field }) := by
  obtain ⟨b, hb, hholds⟩ := takeAll_of_allFit field hvs hfit
  rw [htake] at hb
  cases hb
  exact taken_of_unfit field (fits_of_allFit hvs hfit) hholds h

theorem takeAll_snoc (field : Value) (request : StatRequest) (vs : List Value) (v : Value)
    (a : Accumulator) : takeAll field request (vs ++ [v]) a =
      takeAll field request vs a >>= fun b => taken field request b v := by
  rw [takeAll, List.foldlM_append]
  refine bind_congr fun b => ?_
  rw [List.foldlM_cons]
  exact bind_pure _

theorem allFit_snoc : AllFit request (vs ++ [v]) ↔ AllFit request vs ∧ ¬ Unfit request vs v := by
  constructor
  · intro h
    refine ⟨fun before w after hsplit => h before w (after ++ [v]) ?_, h vs v [] rfl⟩
    rw [hsplit, List.append_assoc, List.cons_append]
  · intro h before w after hsplit
    obtain rfl | ⟨rest, u, rfl⟩ := List.eq_nil_or_concat after
    · obtain ⟨rfl, hw⟩ := List.append_inj' hsplit rfl
      cases hw
      exact h.2
    · rw [List.concat_eq_append, ← List.cons_append, ← List.append_assoc] at hsplit
      exact h.1 before w rest (List.append_inj' hsplit rfl).1

theorem allFit_of_takeAll (hvs : ∀ v ∈ vs, Sample request v)
    (h : takeAll field request vs {} = .ok a) : AllFit request vs := by
  induction vs using List.reverseRecOn generalizing a with
  | nil => exact fun before v after hsplit => absurd hsplit (by simp)
  | append_singleton vs v ih =>
    rw [takeAll_snoc] at h
    obtain ⟨b, hb, htaken⟩ := bind_eq_ok.mp h
    have hrest : ∀ w ∈ vs, Sample request w := fun w hw => hvs w (List.mem_append_left _ hw)
    have hfit := ih hrest hb
    refine allFit_snoc.mpr ⟨hfit, fun hunfit => ?_⟩
    obtain ⟨f, hf⟩ := taken_of_first_unfit hrest hfit hb hunfit
    rw [hf] at htaken
    cases htaken

theorem unfit_of_taken {e : RecordError} (hvs : ∀ w ∈ before ++ [v], Sample request w)
    (hfit : AllFit request before) (htake : takeAll field request before {} = .ok a)
    (htaken : taken field request a v = .error e) : Unfit request before v := by
  by_contra h
  obtain ⟨b, hb, -⟩ := takeAll_of_allFit field hvs (allFit_snoc.mpr ⟨hfit, h⟩)
  rw [takeAll_snoc, htake, ok_bind, htaken] at hb
  cases hb

/-! ### What is rendered -/

inductive Answer (request : StatRequest) (vs : List Value) (s : Statistic) : Option Value → Prop
  | some {v : Value} (answered : request.answers vs s) (value : s.Of vs v) :
      Answer request vs s (some v)
  | none (unanswered : request.answers vs s = false) : Answer request vs s none

theorem Answer.summary {s : Statistic} {member : Option Value} (h : Answer request vs s member) :
    List.Forall₂ (fun s m => m.1 = .text s.name ∧ s.Of vs m.2) ([s].filter (request.answers vs))
      (given s.name member) := by
  cases h with
  | some answered value =>
    rw [List.filter_cons_of_pos answered]
    exact .cons ⟨rfl, value⟩ .nil
  | none unanswered =>
    rw [List.filter_cons_of_neg (Bool.eq_false_iff.mp unanswered)]
    exact .nil

theorem answer_count (h : Holds request vs a) :
    Answer request vs .count (if request.count then some (.int a.count) else none) := by
  cases hcount : request.count with
  | true =>
    refine .some (by simp [StatRequest.answers, StatRequest.wants, hcount]) ?_
    rw [h.count]
    rfl
  | false => exact .none (by simp [StatRequest.answers, StatRequest.wants, hcount])

theorem answer_mean (h : Holds request vs a) {avg : Record} (hmean : a.mean request = .ok avg) :
    ∃ member, avg = given "avg" member ∧ Answer request vs .avg member := by
  rw [mean] at hmean
  cases havg : request.avg with
  | false =>
    rw [havg] at hmean
    cases hmean
    exact ⟨none, rfl, .none (by simp [StatRequest.answers, StatRequest.wants, havg])⟩
  | true =>
    obtain ⟨is, rfl, hsum, hsummed⟩ := h.sum havg
    rw [hsum, hsummed, havg, Num.divCount] at hmean
    cases is with
    | nil =>
      cases hmean
      exact ⟨none, rfl, .none (by simp [StatRequest.answers])⟩
    | cons i is =>
      cases hq : Binary64.ofQuotient? (i :: is).sum (i :: is).length with
      | none =>
        rw [hq] at hmean
        cases hmean
      | some q =>
        rw [hq] at hmean
        cases hmean
        exact ⟨some (.float q), rfl, .some
          (by simp [StatRequest.answers, StatRequest.wants, havg]) ⟨i :: is, q, rfl, hq, rfl⟩⟩

theorem answer_extreme (h : Holds request vs a) {s : Statistic} {pick : Value × Value → Value}
    (hext : request.wants s → request.min || request.max) (hs : s ≠ .count)
    (hpick : ∀ p, Statistic.min.Of vs p.1 → Statistic.max.Of vs p.2 → s.Of vs (pick p)) :
    Answer request vs s (if request.wants s then a.extremes.map pick else none) := by
  cases hwants : request.wants s with
  | false => exact .none (by simp [StatRequest.answers, hwants])
  | true =>
    have hbound := h.extremes (hext hwants)
    rw [if_pos rfl]
    cases hextremes : a.extremes with
    | none =>
      rw [hextremes] at hbound
      cases hbound
      exact .none (by simp [StatRequest.answers, hs])
    | some p =>
      rw [hextremes] at hbound
      have hsome : vs ≠ [] := List.ne_nil_of_mem hbound.1.mem
      exact .some (by simp [StatRequest.answers, hwants, hsome]) (hpick p hbound.1 hbound.2)

theorem render_summary (h : Holds request vs a) (hrender : a.render request = .ok ms) :
    Summary request vs ms := by
  rw [render_eq, map_eq_ok] at hrender
  obtain ⟨avg, hmean, rfl⟩ := hrender
  obtain ⟨member, rfl, havg⟩ := answer_mean h hmean
  have hmin : Answer request vs .min (if request.min then a.extremes.map Prod.fst else none) :=
    answer_extreme h (fun hmin => Bool.or_eq_true_iff.mpr (.inl hmin)) nofun fun p hmin _ => hmin
  have hmax : Answer request vs .max (if request.max then a.extremes.map Prod.snd else none) :=
    answer_extreme h (fun hmax => Bool.or_eq_true_iff.mpr (.inr hmax)) nofun fun p _ hmax => hmax
  have hsplit : Statistic.all.filter (request.answers vs) =
      [.count].filter (request.answers vs) ++ [.avg].filter (request.answers vs) ++
        [.min].filter (request.answers vs) ++ [.max].filter (request.answers vs) := by
    rw [← List.filter_append, ← List.filter_append, ← List.filter_append]
    rfl
  rw [Summary, hsplit]
  exact List.rel_append (List.rel_append (List.rel_append (answer_count h).summary havg.summary)
    hmin.summary) hmax.summary

/-- Sample values are taken in up to the first that does not fit, and refused there for what it is.
What is given after all of them is the summary of those that are present. -/
theorem statistics_of_samples (field : Value) (hvs : ∀ v ∈ vs, Sample request v) :
    (∀ before v after, vs = before ++ v :: after →
      ((∃ a e, takeAll field request before {} = .ok a ∧ taken field request a v = .error e) ↔
        AllFit request before ∧ Unfit request before v) ∧
      ∀ a e, takeAll field request before {} = .ok a → taken field request a v = .error e →
        ∃ f, e = .mismatch f { field }) ∧
    ∀ a ms, takeAll field request vs {} = .ok a → a.render request = .ok ms →
      Summary request (present vs) ms := by
  refine ⟨fun before v after hsplit => ?_, fun a ms htake hrender => ?_⟩
  · have hbefore : ∀ w ∈ before ++ [v], Sample request w := fun w hw => hvs w (by
      rw [hsplit, List.append_cons]
      exact List.mem_append_left _ hw)
    have hsamples : ∀ w ∈ before, Sample request w := fun w hw =>
      hbefore w (List.mem_append_left _ hw)
    refine ⟨⟨fun h => ?_, fun h => ?_⟩, fun a e htake htaken => ?_⟩
    · obtain ⟨a, e, htake, htaken⟩ := h
      have hfit := allFit_of_takeAll hsamples htake
      exact ⟨hfit, unfit_of_taken hbefore hfit htake htaken⟩
    · obtain ⟨a, htake, -⟩ := takeAll_of_allFit field hsamples h.1
      obtain ⟨f, hf⟩ := taken_of_first_unfit hsamples h.1 htake h.2
      exact ⟨a, _, htake, hf⟩
    · have hfit := allFit_of_takeAll hsamples htake
      have hunfit := unfit_of_taken hbefore hfit htake htaken
      obtain ⟨f, hf⟩ := taken_of_first_unfit hsamples hfit htake hunfit
      rw [hf] at htaken
      cases htaken
      exact ⟨f, rfl⟩
  · obtain ⟨b, hb, hholds⟩ := takeAll_of_allFit field hvs (allFit_of_takeAll hvs htake)
    rw [htake] at hb
    cases hb
    exact render_summary hholds hrender

/-- Two texts are taken in, and a truth value is refused behind them. -/
theorem statistics_of_samples_of_texts :
    let request : StatRequest := { count := true, min := true }
    let texts : List Value := [.null, .str "b", .str "a"]
    let a : Accumulator := { count := 2, extremes := some (.str "a", .str "b") }
    let e : RecordError := .mismatch (.incomparable "bool" "str") { field := .str "kind" }
    (∀ v ∈ texts ++ [.bool true], Sample request v) ∧
      takeAll (.str "kind") request texts {} = .ok a ∧
      taken (.str "kind") request a (.bool true) = .error e ∧
      AllFit request texts ∧ Unfit request texts (.bool true) ∧
      Summary request [.str "b", .str "a"] [("count", .int 2), ("min", .str "a")] := by
  intro request texts a e
  have hsamples : ∀ v ∈ texts, Sample request v := by
    simp only [texts, List.forall_mem_cons, List.not_mem_nil, false_imp_iff, implies_true, and_true]
    exact ⟨.null, .str "b", .str "a"⟩
  have hvs : ∀ v ∈ texts ++ [.bool true], Sample request v :=
    List.forall_mem_append.mpr ⟨hsamples, List.forall_mem_singleton.mpr (.bool true)⟩
  have htake : takeAll (.str "kind") request texts {} = .ok a := by cbv
  have hrefused : taken (.str "kind") request a (.bool true) = .error e := by cbv
  obtain ⟨hfirst, -⟩ := statistics_of_samples (.str "kind") hvs
  obtain ⟨hfit, hunfit⟩ := (hfirst texts (.bool true) [] rfl).1.mp ⟨a, e, htake, hrefused⟩
  obtain ⟨-, hsummary⟩ := statistics_of_samples (.str "kind") hsamples
  exact ⟨hvs, htake, hrefused, hfit, hunfit, hsummary a _ htake rfl⟩

end Accumulator

end Aggregate
end RecordStore
