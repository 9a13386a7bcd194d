import OutcomeMarket.Proofs.Account.SoleHolding
import OutcomeMarket.Proofs.Strategy.Conduct

/-! Sessions that a strategy cannot tell apart. If they answer alike to whatever it may do, and it decides by nothing
else in which they differ, a program runs alike in both. Sessions with one asset and without latency are of this kind
if they differ only in the order in which their accounts visit holdings. -/
namespace OutcomeMarket
namespace Session

/-- A relation in which sessions answer alike to all that a strategy may do, and stay in it. -/
structure Alike (may : Operation → Prop) (sends : Order → Venue → Prop) (R : Session → Session → Prop) : Prop where
  operated : ∀ {op}, may op → Respects R (onBroker op.run)
  submitted : ∀ {o v}, sends o v → ∀ locked, Respects R (submit o v locked)
  attended : ∀ {s t}, R s t → ∀ held (e : Errand),
    (e.run held s).1 = (e.run held t).1 ∧ R (e.run held s).2 (e.run held t).2
  told : ∀ {s t}, R s t → s.broker.snapshot = t.broker.snapshot ∧ s.broker.trades = t.broker.trades

/-- Whatever a strategy does, the same session answers alike. -/
theorem alike_eq : Alike (fun _ => True) (fun _ _ => True) Eq where
  operated _ := respects_eq _
  submitted _ _ := respects_eq _
  attended h held e := by
    subst h
    exact ⟨rfl, rfl⟩
  told h := by
    subst h
    exact ⟨rfl, rfl⟩

/-- Sessions without latency and without another asset that are the same but for the order in which their accounts
visit holdings. -/
structure Revisited (asset : String) (s t : Session) : Prop where
  prompt : s.latency = 0
  idle : s.orders = #[]
  broker : s.broker.Revisited asset t.broker
  rest : t = { s with broker := t.broker }

variable {asset : String} {s t : Session} {o : Order} {α : Type}

theorem Revisited.with_broker (h : s.Revisited asset t) {b b' : Broker} (hb : b.Revisited asset b') :
    ({ s with broker := b } : Session).Revisited asset { t with broker := b' } := by
  refine ⟨h.prompt, h.idle, hb, ?_⟩
  rw [h.rest]

theorem Revisited.venueBook (h : s.Revisited asset t) (v : Venue) : t.venueBook v = s.venueBook v := by
  rw [h.rest]
  rfl

theorem Revisited.leaveBook (h : s.Revisited asset t) (v : Venue) (book : Book) :
    (s.leaveBook v book).Revisited asset (t.leaveBook v book) := by
  cases v with
  | live other =>
    refine ⟨h.prompt, h.idle, h.broker, ?_⟩
    rw [h.rest]
    rfl
  | own _ => exact h

theorem respects_onBroker {x : BrokerM α} (hx : Respects (Broker.Revisited asset) x) :
    Respects (Revisited asset) (onBroker x) := by
  intro s t h
  have hb := hx _ _ h.broker
  unfold onBroker
  generalize x s.broker = r at hb
  generalize x t.broker = r' at hb
  cases hb with
  | ok hb => exact .ok (h.with_broker hb)
  | error hb => exact .error (h.with_broker hb)

theorem respects_submit (ho : o.asset = asset) (v : Venue) (locked : Bool) :
    Respects (Revisited asset) (submit o v locked) := by
  subst ho
  refine respects_get_bind fun s t h => ?_
  have hprompt : t.latency = 0 := by
    rw [h.rest]
    exact h.prompt
  rw [if_pos h.prompt, if_pos hprompt]
  refine ⟨rfl, respects_get_bind fun u u' hu => ⟨by rw [hu.venueBook], ?_⟩⟩
  refine (respects_onBroker (o.respects_fillNow locked _)).bind fun ⟨answer, book⟩ => ?_
  refine (respects_modify fun _ _ hw => hw.leaveBook v book).bind fun _ => ?_
  cases answer with
  | ok filled => exact respects_pure _
  | error cause => exact respects_pure _

end Session

/-- Without orders on the way, an errand has no use for the account: the clock moves at most. -/
theorem Errand.run_of_idle {s : Session} (hi : s.orders = #[]) (held : Option String) (e : Errand) :
    ∃ answer now, ∀ b, e.run held { s with broker := b } = (answer, { s with broker := b, now := now }) := by
  cases e with
  | wait n => exact ⟨some .gone, s.now, fun b => by simp [run, Session.wait, hi]⟩
  | abort n => exact ⟨none, s.now, fun b => by simp [run, Session.abort, hi]⟩
  | sleep ms =>
    refine ⟨none, Nat.max s.now (s.now + Session.timer ms), fun b => ?_⟩
    simp [run, Session.advance, Session.runUntil, Session.dropAborted, Session.fireDue, hi]

/-- What is done with one asset goes alike, whatever the order of visits. -/
theorem Session.alike_revisited (asset : String) :
    Alike (Operation.Concerns asset) (fun o _ => o.asset = asset) (Revisited asset) where
  operated hop := respects_onBroker (Broker.respects_run hop)
  submitted ho locked := respects_submit ho _ locked
  attended := by
    intro s t h held e
    obtain ⟨answer, now, hrun⟩ := Errand.run_of_idle h.idle held e
    have hs : e.run held s = (answer, { s with now := now }) := hrun s.broker
    rw [h.rest, hs, hrun t.broker]
    exact ⟨rfl, h.prompt, h.idle, h.broker, rfl⟩
  told h := by
    refine ⟨h.broker.snapshot, ?_⟩
    obtain ⟨-, v, hv⟩ := h.broker
    rw [hv]
    rfl

/-- Where a program looks at its session, it decides by nothing in which such sessions differ. -/
def Program.Blind {ν α : Type} (R : Session → Session → Prop) : Program ν α → Prop
  | done _ | fault _ => True
  | look next => (∀ s t, R s t → next s = next t) ∧ ∀ s, (next s).Blind R
  | operate _ next => ∀ r, (next r).Blind R
  | submit _ _ _ next => ∀ a, (next a).Blind R
  | attend _ _ next => ∀ a, (next a).Blind R
  | emit _ p | note _ p => p.Blind R

/-- The rule holds for all that a strategy does, in any state and whatever it is shown. -/
def Strategy.Blind {ν ω σ : Type} (R : Session → Session → Prop) (s : Strategy ν ω σ) : Prop :=
  ∀ state x, (s.react state x).Blind R

def ReplayStrategy.Blind {ν σ : Type} (R : Session → Session → Prop) : ReplayStrategy ν σ → Prop
  | ticks s => s.Blind R
  | candles _ s => s.Blind R

/-- Workspaces with related sessions that are the same else, but for the journal. -/
structure Workspace.SameWork {ν : Type} (R : Session → Session → Prop) (w w' : Workspace ν) : Prop where
  session : R w.session w'.session
  context : w.context = w'.context

section Programs

variable {ν σ α : Type} {may : Operation → Prop} {sends : Order → Venue → Prop} {R : Session → Session → Prop}

theorem Program.uses_true (p : Program ν α) : p.Uses (fun _ => True) fun _ _ => True := by
  induction p with
  | done a => trivial
  | fault c => trivial
  | look next ih => exact ih
  | operate op next ih => exact ⟨trivial, ih⟩
  | submit o v locked next ih => exact ⟨trivial, ih⟩
  | attend e held next ih => exact ih
  | emit m p ih => exact ih
  | note n p ih => exact ih

theorem Program.blind_eq (p : Program ν α) : p.Blind Eq := by
  induction p with
  | done a => trivial
  | fault c => trivial
  | look next ih => exact ⟨fun s t h => by rw [h], ih⟩
  | operate op next ih => exact ih
  | submit o v locked next ih => exact ih
  | attend e held next ih => exact ih
  | emit m p ih => exact ih
  | note n p ih => exact ih

theorem ReplayStrategy.uses_true (s : ReplayStrategy ν σ) : s.Uses (fun _ => True) fun _ _ => True := by
  cases s with
  | ticks s => exact fun state x => (s.react state x).uses_true
  | candles _ s => exact fun state x => (s.react state x).uses_true

theorem ReplayStrategy.blind_eq (s : ReplayStrategy ν σ) : s.Blind Eq := by
  cases s with
  | ticks s => exact fun state x => (s.react state x).blind_eq
  | candles _ s => exact fun state x => (s.react state x).blind_eq

theorem Workspace.respects_onSession {x : SessionM α} (hx : Respects R x) :
    Respects (SameWork R) (onSession (ν := ν) x) := by
  intro w w' h
  have hs := hx _ _ h.session
  unfold onSession
  generalize x w.session = r at hs
  generalize x w'.session = r' at hs
  cases hs with
  | ok hs => exact .ok ⟨hs, h.context⟩
  | error hs => exact .error ⟨hs, h.context⟩

theorem Workspace.respects_onContext (f : Context → Context) : Respects (SameWork R) (onContext (ν := ν) f) :=
  respects_modify fun _ _ h => ⟨h.session, congrArg f h.context⟩

/-- A program runs alike in sessions that answer alike: it writes notes and reads none, and is blind to all else in
which its sessions differ. -/
theorem Program.respects_run (hR : Session.Alike may sends R) {p : Program ν α} (hu : p.Uses may sends)
    (hb : p.Blind R) : Respects (Workspace.SameWork R) p.run := by
  induction p with
  | done a => exact respects_pure a
  | fault c => exact respects_throw c
  | look next ih =>
    obtain ⟨hsame, hb⟩ := hb
    refine respects_get_bind fun w w' h => ⟨?_, ih w.session (hu _) (hb _)⟩
    rw [hsame _ _ h.session]
  | operate op next ih =>
    obtain ⟨hop, hu⟩ := hu
    exact (Workspace.respects_onSession (hR.operated hop)).bind fun r => ih r (hu r) (hb r)
  | submit o v locked next ih =>
    obtain ⟨ho, hu⟩ := hu
    refine (Workspace.respects_onSession (hR.submitted ho locked)).bind fun a => ?_
    exact (Workspace.respects_onContext _).bind fun _ => ih a (hu a) (hb a)
  | attend e held next ih =>
    intro w w' h
    obtain ⟨hanswer, hs⟩ := hR.attended h.session held e
    change AgreeIn _ ((next (e.run held w.session).1).run { w with session := (e.run held w.session).2 })
      ((next (e.run held w'.session).1).run { w' with session := (e.run held w'.session).2 })
    rw [← hanswer]
    exact ih _ (hu _) (hb _) _ _ ⟨hs, h.context⟩
  | emit m p ih => exact (Workspace.respects_onContext _).bind fun _ => ih hu hb
  | note n p ih => exact (respects_modify fun w w' h => ⟨h.session, h.context⟩).bind fun _ => ih hu hb

end Programs
end OutcomeMarket
