import OutcomeMarket.Proofs.Strategy.Conduct

/-! Strategies that note down what they are shown. The note comes first and everything else is as before, so that a
recorded strategy does what it did, and its journal tells what it saw. -/
namespace OutcomeMarket

/-- The program with other notes. -/
def Program.mapNotes {ν μ α : Type} (f : ν → μ) : Program ν α → Program μ α
  | done a => done a
  | fault c => fault c
  | look next => look fun s => (next s).mapNotes f
  | operate op next => operate op fun r => (next r).mapNotes f
  | submit o v locked next => submit o v locked fun s => (next s).mapNotes f
  | attend e held next => attend e held fun a => (next a).mapNotes f
  | emit m p => emit m (p.mapNotes f)
  | note n p => note (f n) (p.mapNotes f)

/-- The strategy that notes what it is shown, beside its own notes. -/
def Strategy.recorded {ν ω σ : Type} (s : Strategy ν ω σ) : Strategy (ω ⊕ ν) ω σ where
  metadata := s.metadata
  react state x := .note (.inl x) ((s.react state x).mapNotes .inr)

/-- Two results that differ in their notes only: the one appended these to its journal, the other their images. -/
def Program.SameButNotes {ν μ α : Type} (f : ν → μ) (ks ns : List ν) (js : List μ) :
    EStateM.Result Fault (Workspace ν) α → EStateM.Result Fault (Workspace μ) α → Prop
  | .ok a w, r => w.journal = ks ++ ns ∧ r = .ok a ⟨w.session, w.context, js ++ ns.map f⟩
  | .error c w, r => w.journal = ks ++ ns ∧ r = .error c ⟨w.session, w.context, js ++ ns.map f⟩

section Run

variable {ν μ α : Type} {f : ν → μ} {p : Program ν α} {s s' : Session} {c : Context} {ks : List ν} {js : List μ}
  {k : Fault}

theorem Program.run_operate_of_ok {op : Operation} {next : Option Decimal → Program ν α} {r : Option Decimal}
    (h : Session.onBroker op.run s = .ok r s') : (operate op next).run ⟨s, c, ks⟩ = (next r).run ⟨s', c, ks⟩ := by
  refine run_bind_of_ok ?_
  unfold Workspace.onSession
  rw [h]

theorem Program.run_operate_of_error {op : Operation} {next : Option Decimal → Program ν α}
    (h : Session.onBroker op.run s = .error k s') : (operate op next).run ⟨s, c, ks⟩ = .error k ⟨s', c, ks⟩ := by
  refine run_bind_eq_error_iff.2 (.inl ?_)
  unfold Workspace.onSession
  rw [h]

theorem Program.run_submit_of_ok {o : Order} {v : Venue} {locked : Bool} {next : Submission → Program ν α}
    {answer : Submission} (h : Session.submit o v locked s = .ok answer s') :
    (submit o v locked next).run ⟨s, c, ks⟩ = (next answer).run ⟨s', c.track o.asset answer, ks⟩ := by
  have hs : Workspace.onSession (Session.submit o v locked) (⟨s, c, ks⟩ : Workspace ν) = .ok answer ⟨s', c, ks⟩ := by
    unfold Workspace.onSession
    rw [h]
  exact (run_bind_of_ok hs).trans run_modify_bind

theorem Program.run_submit_of_error {o : Order} {v : Venue} {locked : Bool} {next : Submission → Program ν α}
    (h : Session.submit o v locked s = .error k s') :
    (submit o v locked next).run ⟨s, c, ks⟩ = .error k ⟨s', c, ks⟩ := by
  refine run_bind_eq_error_iff.2 (.inl ?_)
  unfold Workspace.onSession
  rw [h]

theorem Program.sameButNotes_cons {n : ν} {ns : List ν} {r : EStateM.Result Fault (Workspace ν) α}
    {r' : EStateM.Result Fault (Workspace μ) α} (h : SameButNotes f (ks ++ [n]) ns (js ++ [f n]) r r') :
    SameButNotes f ks (n :: ns) js r r' := by
  cases r with
  | ok a w => simpa [SameButNotes] using h
  | error k w => simpa [SameButNotes] using h

/-- Other notes are all that changes. -/
theorem Program.run_mapNotes (p : Program ν α) (f : ν → μ) (s : Session) (c : Context) (ks : List ν) (js : List μ) :
    ∃ ns, SameButNotes f ks ns js (p.run ⟨s, c, ks⟩) ((p.mapNotes f).run ⟨s, c, js⟩) := by
  have hnothing : js ++ ([] : List ν).map f = js := List.append_nil js
  induction p generalizing s c ks js with
  | done a =>
    refine ⟨[], (List.append_nil ks).symm, ?_⟩
    rw [hnothing]
    rfl
  | fault k =>
    refine ⟨[], (List.append_nil ks).symm, ?_⟩
    rw [hnothing]
    rfl
  | look next ih => exact ih _ s c ks js hnothing
  | operate op next ih =>
    unfold mapNotes
    cases h : Session.onBroker op.run s with
    | ok r s' =>
      rw [run_operate_of_ok h, run_operate_of_ok h]
      exact ih r s' c ks js hnothing
    | error k s' =>
      rw [run_operate_of_error h, run_operate_of_error h]
      refine ⟨[], (List.append_nil ks).symm, ?_⟩
      rw [hnothing]
  | submit o v locked next ih =>
    unfold mapNotes
    cases h : Session.submit o v locked s with
    | ok r s' =>
      rw [run_submit_of_ok h, run_submit_of_ok h]
      exact ih r s' _ ks js hnothing
    | error k s' =>
      rw [run_submit_of_error h, run_submit_of_error h]
      refine ⟨[], (List.append_nil ks).symm, ?_⟩
      rw [hnothing]
  | attend e held next ih => exact ih (e.run held s).1 (e.run held s).2 c ks js hnothing
  | emit m p ih => exact ih s (c.emit m) ks js hnothing
  | note n p ih =>
    obtain ⟨ns, h⟩ := ih s c (ks ++ [n]) (js ++ [f n]) (List.append_nil _)
    exact ⟨n :: ns, sameButNotes_cons h⟩

end Run
end OutcomeMarket
