import RecordStore.Proofs.StoredDocuments

/-! Listeners stand around the change of a store: those before it can prevent it, and those behind
it find it done. -/
namespace RecordStore

namespace Collection
open Hooks
variable {c : Collection} {store : Store} {r : Record}

/-- What a call gives, the document that it leaves, and the collection. -/
abbrev Outcome := (Except Failure Unit × Document) × Collection

/-- A listener is told behind those that were registered before it, and listeners are told in order,
up to the first that fails. -/
structure TellsInOrder (c : Collection) : Prop where
  last : ∀ point other l hooks, c.hooks.register (.str point) l = .ok hooks →
    hooks.listeners (.str other) =
      c.hooks.listeners (.str other) ++ if point = other then [l] else []
  told : ∀ point (data : Value), let ls := c.hooks.listeners (.str point)
    (∃ heard left, Pass ls data heard left ∧ heard.map Heard.listener = ls.map Listener.name) ∨
    ∃ k heard left f, Stop ls k data heard left f ∧
      heard.map Heard.listener = (ls.take (k + 1)).map Listener.name

/-- A call ends with telling listeners of a document that is in hand, in a collection as it is then.
It fails as the first of them that fails; what is stored stays. -/
structure EndsTelling (point : Value) (c : Collection) (data : Value) (out : Outcome) : Prop where
  pass : ∀ heard left, Pass (c.hooks.listeners point) data heard left →
    out = ((.ok (), ⟨.stored, left⟩), c.hearing heard)
  stop : ∀ k heard left f, Stop (c.hooks.listeners point) k data heard left f →
    out = ((.error f, ⟨.stored, left⟩), c.hearing heard)

/-- To save a document is to tell the listeners before, to store what they leave of it under its key
or a fresh one, and to tell the listeners behind. -/
structure SaveBracketed (c : Collection) (store : Store) (r : Record) (out : Outcome) : Prop where
  stop : ∀ k heard left f, Stop (c.hooks.listeners preSave) k (Value.object r) heard left f →
    out = ((.error f, ⟨.stored, left⟩), c.hearing heard)
  pass : ∀ heard left, Pass (c.hooks.listeners preSave) (Value.object r) heard left →
    ∃ (s kept : Record) (after : Store) (n : Nat), left = .object s ∧
      kept = (if s.has store.keyField then s else s.put store.keyField store.freshKey) ∧
      after.keyField = store.keyField ∧ store.PutAt after.records kept n ∧
      EndsTelling postSave { c.hearing heard with backend := .memory after } (.object kept) out

/-- To remove a document is to tell the listeners before, to take away the records of the key that
it came with, if there are any, and to tell the listeners behind. -/
structure RemoveBracketed (c : Collection) (store : Store) (r : Record) (out : Outcome) :
    Prop where
  stop : ∀ k heard left f, Stop (c.hooks.listeners preRemove) k (Value.object r) heard left f →
    out = ((.error f, ⟨.stored, left⟩), c.hearing heard)
  missed : ∀ heard left, Pass (c.hooks.listeners preRemove) (Value.object r) heard left →
    store.records.any (store.hasKey (store.keyOf r)) = false →
    out = ((.error (store.notStored c.name (store.keyOf r)), ⟨.stored, left⟩), c.hearing heard)
  gone : ∀ heard left, Pass (c.hooks.listeners preRemove) (Value.object r) heard left →
    store.records.any (store.hasKey (store.keyOf r)) = true →
    EndsTelling postRemove
      { c.hearing heard with backend := .memory (store.without (store.keyOf r)) } left out

theorem tellsInOrder (c : Collection) : TellsInOrder c where
  last _ other _ _ h := Registry.listeners_register h other
  told point data := by
    dsimp only
    rcases pass_or_stop (c.hooks.listeners (.str point)) data with h | h
    · obtain ⟨heard, left, h⟩ := h
      exact .inl ⟨heard, left, h, h.names⟩
    · obtain ⟨k, heard, left, f, h⟩ := h
      exact .inr ⟨k, heard, left, f, h, h.names⟩

theorem endsTelling_of_run {point : String} {data : Value} {d : Document}
    {work : DocumentForm → Handling Unit} {before : Collection} (hd : d.form = .stored)
    (h : (work d.form).run.run (before, d.data) =
      (Handling.trigger (.str point)).run.run (c, data)) :
    EndsTelling (.str point) c data ((Handling.on work d).run before) where
  pass heard left hpass := by
    rw [Handling.trigger_of_pass hpass] at h
    rw [Handling.on_run h, hd]
  stop k heard left f hstop := by
    rw [Handling.trigger_of_stop hstop] at h
    rw [Handling.on_run h, hd]

theorem save_bracketed (hc : c.backend = .memory store) (ho : store.HoldsObjects) (r : Record) :
    SaveBracketed c store r ((Document.save ⟨.stored, .object r⟩).run c) where
  stop k heard left f h := Handling.on_run (Handling.save_of_stop hc h)
  pass heard left h := by
    obtain ⟨s, rfl⟩ := h.object
    obtain ⟨n, hput⟩ := store.saving_putAt s
    obtain ⟨records, generated, hsaving⟩ := store.saving_eq s
    refine ⟨s, (store.withKey s).1, store.saving s, n, rfl, ?_, by rw [hsaving], hput, ?_⟩
    · rw [Store.withKey]
      split <;> rfl
    · exact endsTelling_of_run rfl (Handling.save_of_pass hc ho h)

theorem remove_bracketed (hc : c.backend = .memory store) (ho : store.HoldsObjects)
    (hfield : store.keyField.isAsked) (r : Record) :
    RemoveBracketed c store r ((Document.remove ⟨.stored, .object r⟩).run c) where
  stop k heard left f h := Handling.on_run (Handling.remove_of_stop hc h)
  missed heard left h hnone := by
    have hdrop := Handling.drop_run (c := c.hearing heard) hc ho hfield (store.keyOf r) left
    rw [hnone, if_neg Bool.false_ne_true] at hdrop
    exact Handling.on_run ((Handling.remove_of_pass hc h).trans (run_bind_error hdrop))
  gone heard left h hany := by
    have hdrop := Handling.drop_run (c := c.hearing heard) hc ho hfield (store.keyOf r) left
    rw [hany, if_pos rfl] at hdrop
    exact endsTelling_of_run rfl ((Handling.remove_of_pass hc h).trans (run_bind_ok hdrop))

/-! ### Keys that queries cannot ask for -/

def numbered (keyField : Name) : Store :=
  { keyField, records := [.object [(keyField, .int 1)]] }

theorem numbered_keyOf (k : Name) : (numbered k).keyOf [(k, .int 1)] = .int 1 := by
  rw [Store.keyOf, numbered, Record.get?_cons_self]
  rfl

theorem numbered_hasKey (k : Name) :
    (numbered k).records.any ((numbered k).hasKey ((numbered k).keyOf [(k, .int 1)])) = true := by
  have hat : (numbered k).keyAt (.object [(k, .int 1)]) = .int 1 := numbered_keyOf k
  refine List.any_eq_true.mpr ⟨_, List.mem_cons_self, ?_⟩
  rw [numbered_keyOf, Store.hasKey, hat, Value.eq_int.mpr rfl]
  rfl

theorem numbered_remove {k : Name} (hk : k.isAsked = false) :
    (∃ e, (numbered k).remove (.object [(k, .int 1)]) = .error e) ∨
      ∃ after, (numbered k).remove (.object [(k, .int 1)]) = .ok (0, after) := by
  cases k with
  | key reading writing => exact .inl ⟨_, rfl⟩
  | text s =>
    cases hop : isOperator s with
    | true =>
      refine .inl ⟨.fault (.queryOperator s), ?_⟩
      have hrefused : Store.refuseOperators [(.text s, .int 1)] =
          .error (.fault (.queryOperator s)) := by
        simp [Store.refuseOperators, hop, bind, Except.bind]
      have hmarked : (numbered (.text s)).marked [(.text s, .int 1)] =
          .error (.fault (.queryOperator s)) := by
        rw [Store.marked, hrefused]
        rfl
      change ((numbered (.text s)).marked [(.text s, .int 1)] >>= fun marks => _) = _
      rw [hmarked]
      rfl
    | false =>
      -- A path of several names leads nowhere in an object of one member.
      have hdot : '.' ∈ s.toList := by
        simpa [Name.isAsked, Name.isSimple, Name.reading, hop] using hk
      obtain ⟨name, next, rest, hpath⟩ := Path.ofText_of_dotted hdot
      have hne : Name.text s ≠ .text name := by
        rintro ⟨⟩
        exact Path.undotted_of_mem (hpath ▸ List.mem_cons_self) hdot
      have hnone : Record.get? (.text name) [(.text s, .int 1)] = none :=
        Record.get?_eq_none (List.forall_mem_singleton.mpr hne)
      have hholds : Filter.holds (.object [(.text s, .int 1)]) [(.text s, .int 1)] = .ok false := by
        rw [Filter.holds, Name.reading, hpath, Record.get_of_none hnone]
        rfl
      have hanswers : (numbered (.text s)).Answers (.object [(.text s, .int 1)])
          [(.text s, .int 1)] :=
        ⟨rfl, List.forall_mem_singleton.mpr ⟨s, rfl, hop⟩,
          List.forall_mem_singleton.mpr ⟨false, hholds⟩⟩
      have hselects : (numbered (.text s)).records.filter
          (Query.selects (.object [(.text s, .int 1)])) = [] := by
        rw [numbered, List.filter_cons_of_neg (by simp [Query.selects_of_holds hholds])]
        rfl
      exact .inr ⟨_, hanswers.remove.trans (by rw [hselects]; rfl)⟩

theorem drop_missed {key data : Value} {after : Store} (hc : c.backend = .memory store)
    (hkey : key ≠ .null)
    (h : store.remove (.object [(store.keyField, key)]) = .ok (0, after)) :
    (Handling.drop store key).run.run (c, data) =
      (.error (store.notStored c.name key), ({ c with backend := .memory after }, data)) := by
  have hlift : (Handling.lift (remove (.object [(store.keyField, key)]))).run.run (c, data) = _ :=
    Handling.lift_run _
  rw [remove_of_memory hc, h] at hlift
  cases key with
  | null => exact absurd rfl hkey
  | _ => exact run_bind_ok hlift

/-- The record of a document whose key cannot be asked for stays, though its key is there. -/
theorem remove_unasked {k : Name} (hk : k.isAsked = false) (hc : c.backend = .memory (numbered k))
    (hh : c.hooks = []) :
    ∃ f, ((Document.remove ⟨.stored, .object [(k, .int 1)]⟩).run c).1.1 = .error f := by
  have hremove := Handling.remove_of_pass hc
    (Handling.pass_of_no_hooks hh "pre-remove" (.object [(k, .int 1)]))
  rw [hearing_nil, numbered_keyOf] at hremove
  have hdrop : ∃ f after, (Handling.drop (numbered k) (.int 1)).run.run
      (c, .object [(k, .int 1)]) = (.error f, (after, .object [(k, .int 1)])) := by
    rcases numbered_remove hk with ⟨e, he⟩ | ⟨after, hafter⟩
    · have hlift : (Handling.lift (remove (.object [(k, .int 1)]))).run.run
        (c, .object [(k, .int 1)]) = _ := Handling.lift_run _
      rw [remove_of_memory hc, he] at hlift
      exact ⟨_, _, run_bind_error hlift⟩
    · exact ⟨_, _, drop_missed hc Value.noConfusion hafter⟩
  obtain ⟨f, after, hdrop⟩ := hdrop
  have hout := Handling.on_run (d := ⟨.stored, .object [(k, .int 1)]⟩)
    (hremove.trans (run_bind_error hdrop))
  exact ⟨f, congrArg (fun out => out.1.1) hout⟩

/-- Listeners are told in order, before and behind what is done to a store. One that fails before
keeps the store as it is, and one that fails behind leaves the change as it is. So it is with every
document that is saved, and with every one that is removed under a key field that queries can ask
for; under any other a document can be missed that is there. -/
theorem listeners_bracket_store (hc : c.backend = .memory store) (ho : store.HoldsObjects) :
    c.TellsInOrder ∧
    (∀ r, SaveBracketed c store r ((Document.save ⟨.stored, .object r⟩).run c)) ∧
    ((∀ (other : Collection) (kept : Store), other.backend = .memory kept → kept.HoldsObjects →
        kept.keyField = store.keyField → ∀ r,
          RemoveBracketed other kept r ((Document.remove ⟨.stored, .object r⟩).run other)) ↔
      store.keyField.isAsked) := by
  refine ⟨tellsInOrder c, save_bracketed hc ho, ?_, ?_⟩
  · intro h
    rw [← Bool.not_eq_false]
    intro hunasked
    let bare : Collection := { name := c.name, backend := .memory (numbered store.keyField) }
    have hobjects : (numbered store.keyField).HoldsObjects := List.forall_mem_singleton.mpr rfl
    obtain ⟨f, hf⟩ := remove_unasked (c := bare) hunasked rfl rfl
    have hgone := (h bare _ rfl hobjects rfl [(store.keyField, .int 1)]).gone [] _
      (Handling.pass_of_no_hooks rfl _ _) (numbered_hasKey store.keyField)
    rw [hgone.pass [] _ (Handling.pass_of_no_hooks rfl _ _)] at hf
    cases hf
  · intro hfield other kept hkept hobjects hsame r
    exact remove_bracketed hkept hobjects (hsame ▸ hfield) r

/-- A listener takes the key away before a document is saved, and another one fails behind. -/
theorem listeners_bracket_store_of_three :
    let strip : Listener := { name := .str "strip", alteration := ⟨fun r => r.erase "id"⟩ }
    let fail : Listener := { name := .str "fail", raise := some "no" }
    let last : Listener := { name := .str "last" }
    let store : Store := { records := [.object [("id", .int 1)]] }
    let hooks := [(preSave, strip), (postSave, fail), (postSave, last)]
    let c : Collection := { name := .str "users", hooks, backend := .memory store }
    let data : Value := .object [("id", .int 1), ("n", .int 5)]
    let kept : Record := [("n", .int 5), ("id", .str "gen-1")]
    c.backend = .memory store ∧ store.HoldsObjects ∧
      (∃ (after : Store) (n : Nat), after.records[n]? = some (.object kept) ∧
        (Document.save ⟨.stored, data⟩).run c = ((.error (.listener "no"), ⟨.stored, .object kept⟩),
          { c with
            backend := .memory after
            trace := [.heard (strip.hears data), .heard (fail.hears (Value.object kept))] })) ∧
      (Document.remove ⟨.stored, data⟩).run c =
        ((.ok (), ⟨.stored, data⟩), { c with backend := .memory (store.without (.int 1)) }) := by
  intro strip fail last store hooks c data kept
  have ho : store.HoldsObjects := List.forall_mem_singleton.mpr rfl
  have hbefore : c.hooks.listeners preSave = [strip] := by cbv
  have hbehind : c.hooks.listeners postSave = [fail, last] := by cbv
  have hpass : Pass (c.hooks.listeners preSave) data [strip.hears data]
      (.object [("n", .int 5)]) := by
    rw [hbefore]
    exact .cons rfl (.nil _)
  have hstop : Stop (c.hooks.listeners postSave) 0 (Value.object kept)
      [fail.hears (Value.object kept)] (.object kept) (.listener "no") := by
    rw [hbehind]
    exact .here rfl
  obtain ⟨-, hsave, hremove⟩ := listeners_bracket_store (c := c) rfl ho
  refine ⟨rfl, ho, ?_, ?_⟩
  · obtain ⟨s, kept', after, n, hs, hkept, -, hput, hends⟩ := (hsave _).pass _ _ hpass
    cases hs
    obtain rfl : kept' = kept := hkept.trans (by decide)
    exact ⟨after, n, hput.held, hends.stop _ _ _ _ hstop⟩
  · have hnone : Pass (c.hooks.listeners preRemove) data [] data := by
      have hlisteners : c.hooks.listeners preRemove = [] := by cbv
      rw [hlisteners]
      exact .nil data
    have hlast : Pass (c.hooks.listeners postRemove) data [] data := by
      have hlisteners : c.hooks.listeners postRemove = [] := by cbv
      rw [hlisteners]
      exact .nil data
    have hhas : store.records.any (store.hasKey (.int 1)) = true := numbered_hasKey "id"
    have hremoved := hremove.mpr (by decide) c store rfl ho rfl [("id", .int 1), ("n", .int 5)]
    exact (hremoved.gone [] data hnone hhas).pass [] data hlast

/-- A document is missed, though a record has its key, if that stands under a name with a point. -/
theorem dotted_key_missed :
    let store := numbered "a.b"
    let c : Collection := { name := .str "users", backend := .memory store }
    let r : Record := [("a.b", .int 1)]
    let d : Document := ⟨.stored, .object r⟩
    store.records.any (store.hasKey (store.keyOf r)) = true ∧
      d.remove.run c = ((.error (store.notStored c.name (store.keyOf r)), d), c) := by
  intro store c r d
  have hremove := Handling.remove_of_pass (c := c) rfl
    (Handling.pass_of_no_hooks rfl "pre-remove" d.data)
  rw [hearing_nil] at hremove
  have hmissed : store.remove (.object [("a.b", .int 1)]) = .ok (0, store) := rfl
  have hdrop : (Handling.drop store (.int 1)).run.run (c, d.data) =
      (.error (store.notStored c.name (.int 1)), (c, d.data)) :=
    drop_missed rfl Value.noConfusion hmissed
  rw [← numbered_keyOf "a.b"] at hdrop
  exact ⟨numbered_hasKey "a.b", Handling.on_run (hremove.trans (run_bind_error hdrop))⟩

end Collection

end RecordStore
