import OutcomeMarket.Proofs.Live.Feeds

/-! A trader with recorded strategies does what it would do without, and its journal tells what each strategy was shown,
in order. -/
namespace OutcomeMarket

variable {ν σ : Type}

def Desk.recorded (d : Desk ν σ) : Desk (BookView ⊕ ν) σ := ⟨d.strategy.recorded, d.state, d.context⟩

/-- How to make recorded strategies. -/
def Maker.recorded (make : Maker ν σ) : Maker (BookView ⊕ ν) σ := fun asset =>
  ((make asset).1.recorded, (make asset).2)

namespace Trader

/-- What the strategies of a trader were shown, if they are recorded. -/
def shown (u : Trader (BookView ⊕ ν) σ) : List BookView := u.journal.filterMap Sum.getLeft?

/-- The one trader is the other with recorded strategies. -/
structure Records (u : Trader (BookView ⊕ ν) σ) (t : Trader ν σ) : Prop where
  session : u.session = t.session
  desks : u.desks = t.desks.map Desk.recorded
  pending : u.pending = t.pending
  latest : u.latest = t.latest
  events : u.events = t.events
  journal : u.journal.filterMap Sum.getRight? = t.journal
  made : u.made = t.made

variable {u : Trader (BookView ⊕ ν) σ} {t : Trader ν σ} {e : BookEvent}

theorem records_new {c : TraderConfig} {visiting : Visiting} (hu : new c visiting = .ok u)
    (ht : new c visiting = .ok t) : Records u t ∧ u.shown = [] := by
  unfold new at hu ht
  obtain ⟨_, -, hu⟩ := bind_eq_ok_iff.1 hu
  obtain ⟨_, -, ht⟩ := bind_eq_ok_iff.1 ht
  cases hu
  cases ht
  exact ⟨⟨rfl, rfl, rfl, rfl, rfl, rfl, rfl⟩, rfl⟩

theorem Records.receive (h : Records u t) (e : BookEvent) : Records (u.receive e) (t.receive e) := by
  have hsummary : (updateBook e u).1 = (updateBook e t).1 := by
    unfold updateBook
    rw [h.session]
  unfold Trader.receive noteSkipped
  rw [hsummary, h.session, h.events]
  split
  · exact ⟨rfl, h.desks, h.pending, h.latest, rfl, h.journal, h.made⟩
  · refine ⟨rfl, h.desks, ?_, h.latest, rfl, h.journal, h.made⟩
    rw [h.pending]

theorem Records.deskFor (h : Records u t) (make : Maker ν σ) (asset : String) :
    u.deskFor make.recorded asset = (t.deskFor make asset).recorded := by
  unfold Trader.deskFor
  rw [h.desks, TextMap.find?_map]
  cases t.desks.find? asset <;> rfl

theorem Records.made_consult (h : Records u t) (asset : String) : (u.consult asset).made = (t.consult asset).made := by
  rw [Trader.made_consult, Trader.made_consult, h.desks, TextMap.find?_map, Option.isSome_map, h.made]

/-- A recorded strategy notes the book first. -/
theorem Records.reaction (h : Records u t) (make : Maker ν σ) (e : BookEvent) : u.reaction make.recorded e =
    .note (.inl ⟨e.asset, t.session.book e.asset⟩) ((t.reaction make e).mapNotes .inr) := by
  unfold Trader.reaction
  rw [h.deskFor, h.session]
  rfl

/-- Workspaces that differ in their journals go back into traders that do. -/
theorem Records.restore (h : Records u t) (asset : String) (d : Desk ν σ) (v : BookView) {ns : List ν} {s : Session}
    {c : Context} :
    let u' := (u.consult asset).restore asset d.recorded ⟨s, c, (u.journal ++ [.inl v]) ++ ns.map .inr⟩
    Records u' ((t.consult asset).restore asset d ⟨s, c, t.journal ++ ns⟩) ∧ u'.shown = u.shown ++ [v] := by
  rw [restore_consult, restore_consult]
  refine ⟨⟨rfl, ?_, h.pending, h.latest, h.events, ?_, h.made_consult asset⟩, ?_⟩
  · unfold Trader.restore
    dsimp only
    rw [h.desks, TextMap.map_insert]
    rfl
  · have hnotes : (ns.map .inr : List (BookView ⊕ ν)).filterMap Sum.getRight? = ns := by
      simp [List.filterMap_map, Function.comp_def]
    unfold Trader.restore
    simp [List.filterMap_cons, hnotes, h.journal]
  · have hnotes : (ns.map Sum.inr).filterMap Sum.getLeft? = ([] : List BookView) := by
      simp [List.filterMap_map, Function.comp_def]
    unfold shown Trader.restore
    simp [hnotes]

/-- Each event is shown once, after its news has been taken in. -/
theorem Records.handle (h : Records u t) (make : Maker ν σ) (hb : (t.session.book e.asset).Sound) :
    Records (after (handle make.recorded e) u) (after (handle make e) t) ∧
      (after (handle make.recorded e) u).shown = u.shown ++ [⟨e.asset, (t.session.receive e).book e.asset⟩] := by
  have hr := h.receive e
  have hj := receive_eq e u
  have hshown : (u.receive e).shown = u.shown := by
    unfold shown
    rw [hj.2.1]
  rw [← hshown]
  obtain ⟨ns, hrun⟩ := ((t.receive e).reaction make e).run_mapNotes Sum.inr (t.receive e).session
    ((t.receive e).deskFor make e.asset).context (t.receive e).journal
    ((u.receive e).journal ++ [.inl ⟨e.asset, (t.receive e).session.book e.asset⟩])
  have hsound : (u.session.book e.asset).Sound := h.session ▸ hb
  have hnote : ((u.receive e).reaction make.recorded e).run ((u.receive e).workplace make.recorded e.asset) =
      (((t.receive e).reaction make e).mapNotes Sum.inr).run ⟨(t.receive e).session,
        ((t.receive e).deskFor make e.asset).context,
        (u.receive e).journal ++ [.inl ⟨e.asset, (t.receive e).session.book e.asset⟩]⟩ := by
    rw [hr.reaction]
    unfold workplace
    rw [hr.deskFor, hr.session]
    rfl
  rw [after_handle_eq hb, after_handle_eq hsound, hnote, hr.deskFor]
  unfold workplace
  revert hrun
  cases ((t.receive e).reaction make e).run ⟨(t.receive e).session, ((t.receive e).deskFor make e.asset).context,
      (t.receive e).journal⟩ with
  | ok a w =>
    rintro ⟨hw, hrun⟩
    obtain ⟨s, c, js⟩ := w
    cases hw
    rw [hrun]
    exact hr.restore e.asset { (t.receive e).deskFor make e.asset with state := a.2 } _
  | error k w =>
    rintro ⟨hw, hrun⟩
    obtain ⟨s, c, js⟩ := w
    cases hw
    rw [hrun]
    exact hr.restore e.asset ((t.receive e).deskFor make e.asset) _

/-- What the recorded strategies of an asset are shown are the states of its own book. -/
theorem records_handleAll {c : TraderConfig} {visiting : Visiting} (hu : new c visiting = .ok u)
    (ht : new c visiting = .ok t) {make : ℕ → Maker ν σ}
    (hq : ∀ i asset, (make i asset).1.Quiet) (es : List BookEvent) :
    Records (handleAll (fun i => (make i).recorded) es u) (handleAll make es t) ∧
      ∀ asset, (handleAll (fun i => (make i).recorded) es u).shown.filter (·.asset == asset) =
        ((Book.empty asset).states (ownEvents asset es)).map (⟨asset, ·⟩) := by
  induction es using List.reverseRecOn with
  | nil =>
    have h := records_new hu ht
    refine ⟨h.1, fun asset => ?_⟩
    unfold handleAll
    rw [List.zipIdx_nil, List.foldl_nil, h.2]
    rfl
  | append_singleton es e ih =>
    have hf := fed_handleAll ht hq es
    obtain ⟨hr, hshown⟩ := ih.1.handle (make es.length) (hf.sound e.asset)
    rw [handleAll_append, handleAll_append]
    refine ⟨hr, fun asset => ?_⟩
    rw [hshown, List.filter_append, ih.2, ownEvents_append, Session.book_receive, if_pos rfl, hf.book_eq]
    by_cases ha : asset = e.asset
    · subst ha
      rw [if_pos rfl, Book.states_append, List.map_append]
      simp [Book.states]
    · rw [if_neg ha]
      simp [Ne.symm ha]

end Trader
end OutcomeMarket
