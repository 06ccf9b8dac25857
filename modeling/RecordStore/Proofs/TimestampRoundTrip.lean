import RecordStore.Proofs.LooseForms
import RecordStore.Proofs.TimestampText

/-! Timestamps are read as what they denote, and written as texts that denote the same. -/
namespace RecordStore

namespace TimeText
variable {text : String} {t : Instant}

/-- What a text denotes, in microseconds of universal time. The forms of ISO 8601 come before
others. -/
inductive Denotes [Present] (text : String) (micros : Int) : Prop
  | present (word : text = presentWord) (now : micros = Present.instant.micros)
  | iso (f : Iso.PointForm) (written : f.text = text.toList) (means : f.Denotes micros)
  | loose (f : Loose.PointForm) (written : f.text = text.toList) (read : f.IsRead)
      (other : ¬ ∃ (g : Iso.PointForm) (form : Iso.Form), g.text = text.toList ∧ g.Reads form)
      (means : f.Denotes micros)

theorem meaning_of_loose {f : Loose.PointForm} {form : Iso.Form} (hf : f.text = text.toList)
    (hnone : Iso.form? text.toList = none) (h : Loose.read? text.toList = some (.ok form)) :
    meaning text = .ok (.point form) := by
  have hnow : text ≠ presentWord := by
    rintro rfl
    have hread : Loose.read? presentWord.toList = none := by decide
    rw [hread] at h
    cases h
  obtain ⟨piece, pieces, hsplit, hpieces⟩ := f.first_piece
  rw [hf] at hsplit
  rw [meaning, if_neg hnow, hnone]
  dsimp only
  split
  · rename_i heq
    rw [hsplit] at heq
    split at heq
    · rename_i hpair
      cases hpair
      obtain hnil | hpiece := hpieces
      · cases hnil
      · rw [Elapsed.ofSides?, hpiece] at heq
        cases heq
    · cases heq
  · rename_i hread
    rw [h] at hread
    cases hread
    rfl
  · rename_i hread
    rw [h] at hread
    cases hread

theorem parseTimestamp_iff_denotes [Present] :
    parseTimestamp text = .ok t ↔ Denotes text t.micros := by
  rw [parseTimestamp_eq_ok_iff]
  constructor
  · rintro (⟨hword, rfl⟩ | ⟨form, h, hat⟩)
    · exact .present hword rfl
    · rw [meaning] at h
      split at h
      · cases h
      · split at h
        · rename_i f hform
          cases h
          obtain ⟨f, hf, hdenotes⟩ := Iso.exists_isAt_iff.mp ⟨_, hform, hat⟩
          exact .iso f hf hdenotes
        · rename_i hform
          dsimp only at h
          split at h
          · obtain ⟨_, -, h⟩ := map_eq_ok.mp h
            cases h
          · rename_i r hread
            obtain ⟨form', rfl, h⟩ := map_eq_ok.mp h
            cases h
            obtain ⟨f, hf, hisread, hdenotes⟩ := Loose.exists_isAt_iff.mp ⟨form, hread, hat⟩
            have hother := (Iso.form?_eq_none_iff (hf ▸ f.head_ne)).mp hform
            exact .loose f hf hisread hother hdenotes
          · cases h
  · intro h
    cases h with
    | present hword hnow =>
      exact .inl ⟨hword, Instant.eq_of_micros hnow⟩
    | iso f hf hdenotes =>
      obtain ⟨form, hform, hat⟩ := Iso.exists_isAt_iff.mpr ⟨f, hf, hdenotes⟩
      exact .inr ⟨form, meaning_of_iso hform, hat⟩
    | loose f hf hread hother hdenotes =>
      have hnone := (Iso.form?_eq_none_iff (hf ▸ f.head_ne)).mpr hother
      obtain ⟨form, hread, hat⟩ := Loose.exists_isAt_iff.mpr ⟨f, hf, hread, hdenotes⟩
      exact .inr ⟨form, meaning_of_loose hf hnone hread, hat⟩

/-- The canonical text of an instant is read as that instant, and no other instant has it. A text is
read as an instant if and only if it denotes that instant; what is written then denotes the same,
and does not change when it is read and written again. -/
theorem parseTimestamp_round_trip [Present] (t : Instant) (text : String) :
    (parseTimestamp t.text = .ok t ∧ ∀ u : Instant, u.text = t.text → u = t) ∧
    (parseTimestamp text = .ok t ↔ Denotes text t.micros) ∧
    (parseTimestamp text = .ok t →
      (∀ u : Instant, Denotes t.text u.micros ↔ Denotes text u.micros) ∧
        ∀ u, parseTimestamp t.text = .ok u → u.text = t.text) := by
  refine ⟨⟨parseTimestamp_text t, ?_⟩, parseTimestamp_iff_denotes, ?_⟩
  · intro u h
    have hu := parseTimestamp_text u
    rw [h, parseTimestamp_text t] at hu
    exact (Except.ok.inj hu).symm
  · intro htext
    refine ⟨?_, ?_⟩
    · intro u
      rw [← parseTimestamp_iff_denotes, ← parseTimestamp_iff_denotes, parseTimestamp_text t, htext]
    · intro u h
      rw [parseTimestamp_text t] at h
      rw [Except.ok.inj h]

/-- The Monday of a week, at a time of day that is of Tuesday in universal time. -/
theorem round_trip_weekday :
    let t : Instant := ⟨63461147400500000, by decide⟩
    let text := "2012-W01-1T23:30:00.5-01:00"
    parseTimestamp text = .ok t ∧ t.text = "2012-01-03T00:30:00.500000Z" ∧
      ∀ u : Instant, Denotes t.text u.micros ↔ Denotes text u.micros := by
  intro t text
  have hdenotes : Denotes text t.micros := by
    refine .iso (.stamp (.reading (.weekday true 2012 1 1) 'T'
      (.second true 23 30 0 (some ⟨'.', ['5'], .inl rfl, by decide, by decide⟩))
      (.minutes false true 1 0))) (by decide) ⟨.inl rfl, rfl, ⟨734503, by decide⟩, 84600500000,
      -3600000000, ?_, ?_, ?_, by decide, by decide⟩
    · exact ⟨by decide, by decide, by decide, by decide, by decide⟩
    · exact ⟨by decide, by decide, by decide, by decide⟩
    · exact ⟨by decide, by decide, by decide⟩
  have hread := (parseTimestamp_round_trip t text).2.1.mpr hdenotes
  exact ⟨hread, by decide, ((parseTimestamp_round_trip t text).2.2 hread).1⟩

end TimeText
end RecordStore
