import RecordStore.Proofs.TimeRanges

/-! Which ranges of time a request may ask for. Boundaries are compared by their canonical texts,
so that a whole second counts as later than its fractions. But for this, ranges are accepted if and
only if they ascend in time. -/
namespace RecordStore.Aggregate
namespace TimeRanges

/-! ### When text and time disagree -/

theorem rises_iff_of_not_clash {p : Step} (h : ¬ p.Clashes) :
    p.Rises InText ↔ p.Rises InTime := by
  have h' : ¬ Instant.Clash p.second p.first := fun h' => h h'.symm
  simp only [Step.Rises, InText, InTime, Instant.text_lt_iff_of_not_clash h,
    Instant.text_lt_iff_of_not_clash h']

theorem rises_iff_of_clash {p : Step} (h : p.Clashes) :
    p.Rises InText ↔ ¬ p.Rises InTime := by
  have hne : p.first.micros ≠ p.second.micros := h.micros_ne
  simp only [Step.Rises, InText, InTime, Instant.text_lt_iff_of_clash h,
    Instant.text_lt_iff_of_clash h.symm]
  split <;> omega

/-- Ranges that go up in time or in text but not in both: at some step a whole second meets a
fraction of its own, all such steps go the same way, and all others go up. -/
def Misordered (g : TimeRanges) : Prop :=
  g.Complete ∧ (∃ p ∈ g.steps, p.Clashes) ∧ (∀ p ∈ g.steps, ¬ p.Clashes → p.Rises InTime) ∧
    ((∀ p ∈ g.steps, p.Clashes → p.Rises InTime) ∨ ∀ p ∈ g.steps, p.Clashes → ¬ p.Rises InTime)

theorem ascend_iff_iff (g : TimeRanges) :
    (g.Ascend InText ↔ g.Ascend InTime) ↔ ¬ g.Misordered := by
  have hsteps : (∀ p ∈ g.steps, p.Rises InText) ↔
      (∀ p ∈ g.steps, ¬ p.Clashes → p.Rises InTime) ∧
        ∀ p ∈ g.steps, p.Clashes → ¬ p.Rises InTime := by
    rw [← forall₂_and]
    refine forall₂_congr fun p _ => ?_
    by_cases h : p.Clashes
    · simp [h, rises_iff_of_clash h]
    · simp [h, rises_iff_of_not_clash h]
  have hsteps' : (∀ p ∈ g.steps, p.Rises InTime) ↔
      (∀ p ∈ g.steps, ¬ p.Clashes → p.Rises InTime) ∧
        ∀ p ∈ g.steps, p.Clashes → p.Rises InTime := by
    rw [← forall₂_and]
    refine forall₂_congr fun p _ => ?_
    by_cases h : p.Clashes <;> simp [h]
  have hnone : ¬ (∃ p ∈ g.steps, p.Clashes) ↔
      (∀ p ∈ g.steps, p.Clashes → p.Rises InTime) ∧
        ∀ p ∈ g.steps, p.Clashes → ¬ p.Rises InTime := by
    rw [← forall₂_and, not_exists]
    refine forall_congr' fun p => ?_
    tauto
  rw [Ascend, Ascend, Misordered, hsteps, hsteps']
  constructor
  · rintro hiff ⟨hcomplete, hclash, hothers, hup | hdown⟩
    · have hdown := (hiff.mpr ⟨hcomplete, hothers, hup⟩).2.2
      exact hnone.mpr ⟨hup, hdown⟩ hclash
    · have hup := (hiff.mp ⟨hcomplete, hothers, hdown⟩).2.2
      exact hnone.mpr ⟨hup, hdown⟩ hclash
  · intro hno
    constructor
    · intro h
      obtain ⟨hcomplete, hothers, hdown⟩ := h
      refine ⟨hcomplete, hothers, ?_⟩
      by_contra hup
      have hclash := not_not.mp fun h => hup (hnone.mp h).1
      exact hno ⟨hcomplete, hclash, hothers, .inr hdown⟩
    · intro h
      obtain ⟨hcomplete, hothers, hup⟩ := h
      refine ⟨hcomplete, hothers, ?_⟩
      by_contra hdown
      have hclash := not_not.mp fun h => hdown (hnone.mp h).2
      exact hno ⟨hcomplete, hclash, hothers, .inl hup⟩

end TimeRanges

/-! ### Requests for ranges of time -/

def rangesClause (field : String) (ranges : Value) : Value :=
  .object [("field", .str field), ("ranges", ranges)]

theorem readClause_rangesClause [Present] {options : RequestOptions} {index : Int} {field : String}
    {v : Value} (h : fieldPath options (.int index) (.str field) = .ok field) :
    readClause options index (rangesClause field v) =
      (readRanges ⟨.str field, .int index⟩ v).map fun g => ⟨field, g⟩ := by
  have hfit : FitNames [("field", .str field), ("ranges", v)] := ⟨rfl, Nat.le_refl 1, rfl, rfl⟩
  rw [rangesClause, readClause, clauseOf_of_fit h hfit]
  rfl

/-- Where a request is fine with a clause of a field alone, it is accepted with ranges of time in
that clause if their texts ascend, and refused for them otherwise. That is the order of time unless
the ranges are misordered. -/
theorem time_ranges_accepted [Present] {options : RequestOptions} {front behind : List Value}
    {ms : Record} {field : String} {spec : Spec} {v : Value} {g : TimeRanges}
    (hrest : Spec.ofRequest options (requestWith front behind ms (.str field)) = .ok spec)
    (hv : g.GivenBy v) :
    let reading := Spec.ofRequest options (requestWith front behind ms (rangesClause field v))
    ((∃ spec, reading = .ok spec) ↔ g.Ascend TimeRanges.InText) ∧
      (¬ g.Ascend TimeRanges.InText →
        ∃ fault, reading = .error (.invalid fault ⟨.str field, .int front.length⟩)) ∧
      (((∃ spec, reading = .ok spec) ↔ g.Ascend TimeRanges.InTime) ↔ ¬ g.Misordered) := by
  obtain ⟨⟨c, hc⟩, put, hput⟩ := ofRequest_requestWith hrest
  have hfield : fieldPath options (.int front.length) (.str field) = .ok field := by
    have h := (clauseOf_eq_ok.mp hc).1
    rw [Record.get?_cons_self, Option.getD_some] at h
    cases fieldPath_eq_ok h
    exact h
  obtain ⟨hiff, hrefuses⟩ :=
    TimeRanges.readRanges_iff ⟨.str field, .int front.length⟩ hv
  intro reading
  have hreading : reading = (readRanges ⟨.str field, .int front.length⟩ v).map
      fun g => put ⟨field, g⟩ := by
    have h := hput (rangesClause field v)
    rw [readClause_rangesClause hfield] at h
    refine h.trans ?_
    cases readRanges ⟨.str field, .int front.length⟩ v <;> rfl
  have hok : (∃ spec, reading = .ok spec) ↔ g.Ascend TimeRanges.InText := by
    rw [← hiff, hreading]
    cases readRanges ⟨.str field, .int front.length⟩ v <;> simp [Except.map]
  refine ⟨hok, fun hno => ?_, ?_⟩
  · cases hr : readRanges ⟨.str field, .int front.length⟩ v with
    | ok r => exact absurd (hiff.mp ⟨r, hr⟩) hno
    | error e =>
      obtain ⟨fault, rfl, -⟩ := hrefuses e hr
      rw [hr] at hreading
      exact ⟨fault, hreading⟩
  · rw [hok]
    exact g.ascend_iff_iff

theorem time_ranges_accepted_of_two_days :
    let ranges : Value := .list [.str "2012-01-01", .str "2012-01-02"]
    let first : Instant := ⟨63460972800000000, by decide⟩
    let second : Instant := ⟨63461059200000000, by decide⟩
    Spec.ofRequest {} (requestWith [] [] [] (.str "f")) =
        .ok ⟨some [⟨"f", .discrete⟩], [], false, []⟩ ∧
      (TimeRanges.boundaries [first, second]).GivenBy ranges ∧
      ∃ spec, Spec.ofRequest {} (requestWith [] [] [] (rangesClause "f" ranges)) = .ok spec := by
  intro ranges first second
  have hrest : Spec.ofRequest {} (requestWith [] [] [] (.str "f")) =
      .ok ⟨some [⟨"f", .discrete⟩], [], false, []⟩ := rfl
  have hfirst : (Value.str "2012-01-01").toInstant = .ok first := by decide +kernel
  have hsecond : (Value.str "2012-01-02").toInstant = .ok second := by decide +kernel
  have hgiven : (TimeRanges.boundaries [first, second]).GivenBy ranges :=
    ⟨_, rfl, List.cons_ne_nil _ _, .cons hfirst (.cons hsecond .nil)⟩
  have hascend : (TimeRanges.boundaries [first, second]).Ascend TimeRanges.InText := by
    refine ⟨trivial, List.forall_mem_singleton.mpr ?_⟩
    exact (by decide +kernel : first.text < second.text)
  exact ⟨hrest, hgiven, (time_ranges_accepted hrest hgiven).1.mpr hascend⟩

/-- A whole second and a later fraction of it ascend in time, yet make no ranges. -/
theorem half_second_refused :
    let ranges : Value := .list [.str "2012-01-01T00:00:00Z", .str "2012-01-01T00:00:00.5Z"]
    let whole : Instant := ⟨63460972800000000, by decide⟩
    let half : Instant := ⟨63460972800500000, by decide⟩
    (TimeRanges.boundaries [whole, half]).GivenBy ranges ∧
      (TimeRanges.boundaries [whole, half]).Ascend TimeRanges.InTime ∧
      Spec.ofRequest {} (requestWith [] [] [("total", .bool true)] (rangesClause "f" ranges)) =
        .error (.invalid .unsortedRanges ⟨.str "f", .int 0⟩) := by
  intro ranges whole half
  have hwhole : (Value.str "2012-01-01T00:00:00Z").toInstant = .ok whole := by decide +kernel
  have hhalf : (Value.str "2012-01-01T00:00:00.5Z").toInstant = .ok half := by decide +kernel
  have hascend : (TimeRanges.boundaries [whole, half]).Ascend TimeRanges.InTime := by
    refine ⟨trivial, List.forall_mem_singleton.mpr ?_⟩
    exact (by decide : whole.micros < half.micros)
  refine ⟨⟨_, rfl, List.cons_ne_nil _ _, .cons hwhole (.cons hhalf .nil)⟩, hascend, ?_⟩
  rfl

end RecordStore.Aggregate
