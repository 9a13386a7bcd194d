import OutcomeMarket.Proofs.Order.Life

/-! In-flight exclusivity. Whatever is done to a session and in whichever order, an asset has at most one order on
its way, an order leaves at most one record and not before its time, and its asset is free again when it ends. To ask
for a cancellation does not end an order: its asset is free once the runtime has dropped it. -/
namespace OutcomeMarket

/-- The answer to a submission that is decided at once. -/
def Submission.ofPrompt : Except ExecutionError Decimal → Submission
  | .ok n => .immediate n
  | .error cause => .rejected cause

/-- The end of an order that was decided. -/
def Stage.ofResult : EStateM.Result Fault Broker (OrderOutcome × Book) → Stage
  | .ok (outcome, _) _ => .decided outcome
  | .error f _ => .faulted f

namespace Session

/-- What can be done to a session. -/
inductive Action where
  | submit (o : Order) (v : Venue) (locked : Bool)
  | advance (held : Option String) (ms : ℕ)
  | wait (held : Option String) (n : ℕ)
  | abort (n : ℕ)
  /-- The runtime drops one order whose cancellation was asked for -/
  | drop (n : ℕ)
  | setBook (asset : String) (book : Book)
  | operate (op : Operation)

/-- The session after one action. A fault leaves it as it is by then. -/
def step (s : Session) : Action → Session
  | .submit o v locked => after (submit o v locked) s
  | .advance held ms => s.advance held ms
  | .wait held n => (s.wait held n).2
  | .abort n => s.abort n
  | .drop n => s.dropIfAborting n
  | .setBook asset book => s.setBook asset book
  | .operate op => after (onBroker op.run) s

/-- The session after a sequence of actions. -/
def run (s : Session) (as : List Action) : Session := as.foldl step s

/-- The origins of the records that one session has over another. -/
def newEntries (source : Option ℕ) (s s' : Session) : List Entry :=
  List.replicate (s'.broker.trades.length - s.broker.trades.length) ⟨source, s'.now⟩

/-- The origins of the records that the orders of these numbers leave when they are decided in turn. -/
def firedEntries (held : Option String) : Session → List ℕ → List Entry
  | _, [] => []
  | s, n :: ns => newEntries (some n) s (fireIfDue held s n) ++ firedEntries held (fireIfDue held s n) ns

def untilEntries (held : Option String) (s : Session) (time : ℕ) : List Entry :=
  firedEntries held { s.dropAborted with now := Nat.max s.now time } (List.range s.dropAborted.orders.size)

def stepEntries (s : Session) : Action → List Entry
  | .advance held ms => untilEntries held s (s.now + ms)
  | .wait held n =>
    match s.orders[n]? with
    | some d => if d.collected = false ∧ d.isLive = true then untilEntries held s (s.endOfWait d) else []
    | none => []
  | a => newEntries none s (s.step a)

/-- The origins of all records that a sequence of actions leaves, in order. -/
def runEntries : Session → List Action → List Entry
  | _, [] => []
  | s, a :: as => s.stepEntries a ++ runEntries (s.step a) as

variable {s s' : Session} {n : ℕ} {d : DelayedOrder} {o : Order} {v : Venue} {asset : String} {locked : Bool}
  {held : Option String}

theorem isPending_iff : d.isPending = true ↔ d.stage = .pending := by
  unfold DelayedOrder.isPending
  exact beq_iff_eq

theorem newEntries_of_trades_eq (source : Option ℕ) (h : s'.broker.trades = s.broker.trades) :
    newEntries source s s' = [] := by
  unfold newEntries
  rw [h, Nat.sub_self]
  rfl

theorem moves_still (source : Option ℕ) (s : Session) : Moves s (newEntries source s s) s := by
  rw [newEntries_of_trades_eq source rfl]
  exact .refl

theorem moves_quiet (hm : Move s [] s') (ht : s'.broker.trades = s.broker.trades) :
    Moves s (newEntries none s s') s' := by
  rw [newEntries_of_trades_eq none ht]
  exact .single hm

/-- With a latency a submission does nothing but take the order in, if its asset is free. -/
theorem submit_eq_ok (hl : s.latency ≠ 0) : submit o v locked s = .ok (s.delay o v).1 (s.delay o v).2 := by
  unfold submit
  rw [run_get_bind, if_neg hl]
  rfl

/-- Without one it is decided at once, on the book of its venue, which keeps what is left. -/
theorem submit_of_prompt (hl : s.latency = 0) : submit o v locked s =
    match o.fillNow locked (s.venueBook v) s.broker with
    | .ok (answer, book) b => .ok (.ofPrompt answer) ({ s with broker := b }.leaveBook v book)
    | .error f b => .error f { s with broker := b } := by
  unfold submit
  rw [run_get_bind, if_pos hl, run_get_bind]
  simp only [bind, EStateM.bind, onBroker]
  cases o.fillNow locked (s.venueBook v) s.broker with
  | ok r b =>
    obtain ⟨answer, book⟩ := r
    cases answer <;> rfl
  | error f b => rfl

theorem submit_eq_ok_of_prompt {answer : Submission} (hl : s.latency = 0)
    (h : submit o v locked s = .ok answer s') : ∃ r book b,
      o.fillNow locked (s.venueBook v) s.broker = .ok (r, book) b ∧ answer = .ofPrompt r ∧
        s' = { s with broker := b }.leaveBook v book := by
  rw [submit_of_prompt hl] at h
  split at h
  · rename_i hfill
    injection h with hanswer hs
    exact ⟨_, _, _, hfill, hanswer.symm, hs.symm⟩
  · cases h

theorem submit_eq_ok_of_delayed {answer : Submission} (hl : s.latency ≠ 0)
    (h : submit o v locked s = .ok answer s') : s' = (s.delay o v).2 := by
  rw [submit_eq_ok hl] at h
  cases h
  rfl

theorem broker_delay (s : Session) (o : Order) (v : Venue) : (s.delay o v).2.broker = s.broker := by
  unfold delay
  split <;> rfl

theorem delay_of_inFlight (h : s.inFlight.acquire? o.asset = none) : s.delay o v = (.dropped, s) := by
  unfold delay
  rw [h]

theorem delay_of_free {f : InFlight} (h : s.inFlight.acquire? o.asset = some f) :
    s.delay o v = (.pending s.orders.size, { s with
      inFlight := f
      orders := s.orders.push ⟨o, v, s.now + timer s.latency, .pending, false⟩ }) := by
  unfold delay
  rw [h]

theorem moves_submit (hl : s.latency ≠ 0) :
    Moves s (s.stepEntries (.submit o v locked)) (s.step (.submit o v locked)) := by
  have hs : s.step (.submit o v locked) = (s.delay o v).2 := after_of_ok (submit_eq_ok hl)
  change Moves s (newEntries none s (s.step (.submit o v locked))) _
  rw [hs]
  cases hf : s.inFlight.acquire? o.asset with
  | none =>
    rw [delay_of_inFlight hf]
    exact moves_still none s
  | some f =>
    rw [delay_of_free hf]
    exact moves_quiet (.submitted hf) rfl

theorem leaveBook_eq (s : Session) (v : Venue) (b : Book) : (s.leaveBook v b).orders = s.orders ∧
    (s.leaveBook v b).inFlight = s.inFlight ∧ (s.leaveBook v b).latency = s.latency ∧
    (s.leaveBook v b).now = s.now ∧ (s.leaveBook v b).broker = s.broker := by
  cases v with
  | live asset => exact ⟨rfl, rfl, rfl, rfl, rfl⟩
  | own book => exact ⟨rfl, rfl, rfl, rfl, rfl⟩

theorem broker_leaveBook (s : Session) (v : Venue) (book : Book) : (s.leaveBook v book).broker = s.broker :=
  (leaveBook_eq s v book).2.2.2.2

theorem fire_of_ok {b : Broker} {book : Book} {outcome : OrderOutcome}
    (h : d.order.fillAfterDelay (isHeld held d.venue) (s.venueBook d.venue) s.broker = .ok (outcome, book) b) :
    s.fire held n d = ({ s with broker := b }.leaveBook d.venue book).finish n d (.decided outcome) := by
  simp only [fire, h]

theorem fire_of_error {b : Broker} {f : Fault}
    (h : d.order.fillAfterDelay (isHeld held d.venue) (s.venueBook d.venue) s.broker = .error f b) :
    s.fire held n d = { s with broker := b }.finish n d (.faulted f) := by
  simp only [fire, h]

theorem broker_fire (s : Session) (held : Option String) (n : ℕ) (d : DelayedOrder) : (s.fire held n d).broker =
    after (d.order.fillAfterDelay (isHeld held d.venue) (s.venueBook d.venue)) s.broker := by
  cases h : d.order.fillAfterDelay (isHeld held d.venue) (s.venueBook d.venue) s.broker with
  | ok r b =>
    rw [fire_of_ok h, after_of_ok h]
    exact broker_leaveBook ..
  | error f b =>
    rw [fire_of_error h, after_of_error h]
    rfl

theorem broker_submit_of_prompt (hl : s.latency = 0) :
    (after (submit o v locked) s).broker = after (o.fillNow locked (s.venueBook v)) s.broker := by
  unfold after
  rw [submit_of_prompt hl]
  cases o.fillNow locked (s.venueBook v) s.broker with
  | ok r b => exact broker_leaveBook ..
  | error f b => rfl

theorem broker_submit_of_delayed (hl : s.latency ≠ 0) : (after (submit o v locked) s).broker = s.broker := by
  rw [after_of_ok (submit_eq_ok hl)]
  exact broker_delay s o v

/-- An order that is decided shows its outcome, or its fault. -/
theorem orders_fire (hd : s.orders[n]? = some d) : (s.fire held n d).orders[n]? = some { d with
    stage := .ofResult (d.order.fillAfterDelay (isHeld held d.venue) (s.venueBook d.venue) s.broker) } := by
  cases h : d.order.fillAfterDelay (isHeld held d.venue) (s.venueBook d.venue) s.broker with
  | ok r b =>
    obtain ⟨outcome, book⟩ := r
    have ho : ({ s with broker := b }.leaveBook d.venue book).orders[n]? = some d := by
      rw [(leaveBook_eq _ _ _).1]
      exact hd
    rw [fire_of_ok h, getElem?_finish ho, if_pos rfl]
    rfl
  | error f b =>
    have ho : { s with broker := b }.orders[n]? = some d := hd
    rw [fire_of_error h, getElem?_finish ho, if_pos rfl]
    rfl

theorem ofResult_of_fire {stage : Stage} (hd : s.orders[n]? = some d)
    (hf : (s.fire held n d).orders[n]? = some { d with stage := stage }) :
    .ofResult (d.order.fillAfterDelay (isHeld held d.venue) (s.venueBook d.venue) s.broker) = stage := by
  rw [orders_fire hd] at hf
  injection hf with hf
  injection hf

theorem decided_iff {outcome : OrderOutcome} (hd : s.orders[n]? = some d) :
    (s.fire held n d).orders[n]? = some { d with stage := .decided outcome } ↔ ∃ book b,
      d.order.fillAfterDelay (isHeld held d.venue) (s.venueBook d.venue) s.broker = .ok (outcome, book) b := by
  constructor
  · intro hf
    have hr := ofResult_of_fire hd hf
    cases h : d.order.fillAfterDelay (isHeld held d.venue) (s.venueBook d.venue) s.broker with
    | ok r b =>
      rw [h] at hr
      injection hr with hr
      exact ⟨r.2, b, by rw [← hr]⟩
    | error f b =>
      rw [h] at hr
      cases hr
  · rintro ⟨book, b, h⟩
    rw [orders_fire hd, h]
    rfl

theorem fillAfterDelay_of_faulted {f : Fault} (hd : s.orders[n]? = some d)
    (hf : (s.fire held n d).orders[n]? = some { d with stage := .faulted f }) : ∃ b,
      d.order.fillAfterDelay (isHeld held d.venue) (s.venueBook d.venue) s.broker = .error f b := by
  have hr := ofResult_of_fire hd hf
  cases h : d.order.fillAfterDelay (isHeld held d.venue) (s.venueBook d.venue) s.broker with
  | ok r b =>
    rw [h] at hr
    cases hr
  | error f' b =>
    rw [h] at hr
    injection hr with hr
    exact ⟨b, by rw [hr]⟩

/-- Deciding an order writes at most one record, also if it faults. -/
theorem moves_fire (hd : s.orders[n]? = some d) (hp : d.stage = .pending) (hdue : d.due ≤ s.now) :
    Moves s (newEntries (some n) s (s.fire held n d)) (s.fire held n d) := by
  have hw := d.order.writes_fillAfterDelay (isHeld held d.venue) (s.venueBook d.venue)
  obtain ⟨ts, ht, hk⟩ := hw.grows s.broker
  -- whatever the account and the books are then, the order ends and frees its asset
  have hm : ∀ u : Session, ∀ stage, u.orders = s.orders → u.inFlight = s.inFlight → u.latency = s.latency →
      u.now = s.now → u.broker.trades = s.broker.trades ++ ts → stage.IsDecision →
      Moves s (newEntries (some n) s (u.finish n d stage)) (u.finish n d stage) := by
    intro u stage ho hi hl hn hb hs
    have hlen : u.broker.trades.length = s.broker.trades.length + ts.length := by rw [hb, List.length_append]
    have he : newEntries (some n) s (u.finish n d stage) = List.replicate ts.length ⟨some n, s.now⟩ := by
      unfold newEntries
      change List.replicate (u.broker.trades.length - _) (Entry.mk (some n) u.now) = _
      rw [hlen, hn, Nat.add_sub_cancel_left]
    rw [he]
    exact .single (.decided hd hp hdue hs ho hi hl hlen hk)
  cases hr : d.order.fillAfterDelay (isHeld held d.venue) (s.venueBook d.venue) s.broker with
  | ok r b =>
    rw [after_of_ok hr] at ht
    obtain ⟨outcome, book⟩ := r
    rw [fire_of_ok hr]
    obtain ⟨ho, hi, hl, hn, hb⟩ := leaveBook_eq { s with broker := b } d.venue book
    exact hm _ (.decided outcome) ho hi hl hn (by rw [hb, ht]) trivial
  | error f b =>
    rw [after_of_error hr] at ht
    rw [fire_of_error hr]
    exact hm { s with broker := b } (.faulted f) rfl rfl rfl rfl ht trivial

theorem moves_fireIfDue (s : Session) (n : ℕ) :
    Moves s (newEntries (some n) s (fireIfDue held s n)) (fireIfDue held s n) := by
  unfold fireIfDue
  split
  · rename_i d hd
    split
    · rename_i h
      rw [Bool.and_eq_true, isPending_iff, decide_eq_true_iff] at h
      exact moves_fire hd h.1 h.2
    · exact moves_still (some n) s
  · exact moves_still (some n) s

theorem moves_fired (s : Session) (ns : List ℕ) :
    Moves s (firedEntries held s ns) (ns.foldl (fireIfDue held) s) := by
  induction ns generalizing s with
  | nil => exact .refl
  | cons n ns ih => exact (moves_fireIfDue s n).trans (ih _)

theorem move_worked (ho : s'.orders = s.orders) (hi : s'.inFlight = s.inFlight) (hl : s'.latency = s.latency)
    (ht : s'.broker.trades = s.broker.trades) : Move s [] s' :=
  .worked (k := 0) ho hi hl (by rw [ht]; rfl)

theorem dropIfAborting_cases (s : Session) (n : ℕ) : s.dropIfAborting n = s ∨
    ∃ d, s.orders[n]? = some d ∧ d.stage = .aborting ∧ s.dropIfAborting n = s.finish n d .cancelled := by
  unfold dropIfAborting
  split
  · rename_i d hd
    split
    · rename_i h
      exact .inr ⟨d, hd, beq_iff_eq.1 h, rfl⟩
    · exact .inl rfl
  · exact .inl rfl

/-- An order that is dropped writes nothing. -/
theorem moves_dropIfAborting (s : Session) (n : ℕ) : Moves s [] (s.dropIfAborting n) := by
  obtain h | ⟨d, hd, hp, h⟩ := s.dropIfAborting_cases n <;> rw [h]
  · exact .refl
  · exact .single (.dropped hd hp)

theorem broker_dropIfAborting (s : Session) (n : ℕ) : (s.dropIfAborting n).broker = s.broker := by
  obtain h | ⟨d, -, -, h⟩ := s.dropIfAborting_cases n <;> rw [h]
  rfl

theorem moves_foldl_dropIfAborting (s : Session) (ns : List ℕ) : Moves s [] (ns.foldl dropIfAborting s) := by
  induction ns generalizing s with
  | nil => exact .refl
  | cons n ns ih => exact (moves_dropIfAborting s n).trans (ih _)

theorem moves_runUntil (held : Option String) (s : Session) (time : ℕ) :
    Moves s (untilEntries held s time) (s.runUntil held time) := by
  have hd : Moves s [] s.dropAborted := moves_foldl_dropIfAborting s _
  have hw : Moves s.dropAborted [] { s.dropAborted with now := Nat.max s.now time } :=
    .single (move_worked rfl rfl rfl rfl)
  exact (hd.trans hw).trans (moves_fired _ (List.range s.dropAborted.orders.size))

theorem moves_wait (s : Session) (n : ℕ) : Moves s (s.stepEntries (.wait held n)) (s.step (.wait held n)) := by
  simp only [stepEntries, step, wait]
  cases hd : s.orders[n]? with
  | none => exact .refl
  | some d =>
    dsimp only
    by_cases hcol : d.collected = true
    · simp only [hcol, Bool.true_eq_false, false_and, if_false, if_true]
      exact .refl
    · simp only [Bool.not_eq_true] at hcol
      by_cases hp : d.isLive = true
      · simp only [hcol, hp, Bool.false_eq_true, and_self, if_true, if_false]
        have hm := moves_runUntil held s (s.endOfWait d)
        cases hr : (s.runUntil held (s.endOfWait d)).orders[n]? with
        | none => exact hm
        | some d' =>
          have hc := hm.trans (.single (.collected hr))
          rw [List.append_nil] at hc
          exact hc
      · simp only [hcol, hp, Bool.false_eq_true, and_false, if_false]
        rw [hd]
        exact .single (.collected hd)

theorem moves_abort (s : Session) (n : ℕ) : Moves s (s.stepEntries (.abort n)) (s.step (.abort n)) := by
  change Moves s (newEntries none s (s.abort n)) (s.abort n)
  unfold abort
  split
  · rename_i d hd
    split
    · rename_i h
      rw [Bool.and_eq_true, isPending_iff] at h
      exact moves_quiet (.aborted hd h.1) rfl
    · exact moves_still none s
  · exact moves_still none s

theorem moves_drop (s : Session) (n : ℕ) : Moves s (s.stepEntries (.drop n)) (s.step (.drop n)) := by
  change Moves s (newEntries none s (s.dropIfAborting n)) (s.dropIfAborting n)
  rw [newEntries_of_trades_eq none (by rw [broker_dropIfAborting])]
  exact moves_dropIfAborting s n

theorem moves_operate (s : Session) (op : Operation) :
    Moves s (s.stepEntries (.operate op)) (s.step (.operate op)) := by
  obtain ⟨ts, ht, _⟩ := (Broker.writes_run op).grows s.broker
  have hs : s.step (.operate op) = { s with broker := after op.run s.broker } := by
    change after (onBroker op.run) s = _
    unfold after onBroker
    cases op.run s.broker <;> rfl
  change Moves s (newEntries none s (s.step (.operate op))) _
  rw [hs]
  have hlen : (after op.run s.broker).trades.length = s.broker.trades.length + ts.length := by
    rw [ht, List.length_append]
  unfold newEntries
  dsimp only
  rw [hlen, Nat.add_sub_cancel_left]
  exact .single (@Move.worked s { s with broker := after op.run s.broker } _ rfl rfl rfl hlen)

/-- Every action is a sequence of small steps. -/
theorem moves_step (hl : s.latency ≠ 0) (a : Action) : Moves s (s.stepEntries a) (s.step a) := by
  cases a with
  | submit o v locked => exact moves_submit hl
  | advance held ms => exact moves_runUntil held s (s.now + ms)
  | wait held n => exact moves_wait s n
  | abort n => exact moves_abort s n
  | drop n => exact moves_drop s n
  | setBook asset book =>
    change Moves s (newEntries none s (s.setBook asset book)) (s.setBook asset book)
    exact moves_quiet (move_worked rfl rfl rfl rfl) rfl
  | operate op => exact moves_operate s op

theorem moves_run (hl : s.latency ≠ 0) (as : List Action) : Moves s (s.runEntries as) (s.run as) := by
  induction as generalizing s with
  | nil => exact .refl
  | cons a as ih =>
    have hm := moves_step hl a
    exact hm.trans (ih (hm.latency_eq ▸ hl))

/-- What the decision of an order, if it is made, writes into the list of orders. -/
theorem orders_fireIfDue (held : Option String) (s : Session) (n : ℕ) : (fireIfDue held s n).orders = s.orders ∨
    ∃ d stage, s.orders[n]? = some d ∧ stage.IsDecision ∧
      (fireIfDue held s n).orders = s.orders.setIfInBounds n { d with stage := stage } := by
  unfold fireIfDue
  split
  · rename_i d hd
    split
    · right
      cases hr : d.order.fillAfterDelay (isHeld held d.venue) (s.venueBook d.venue) s.broker with
      | ok r b =>
        refine ⟨d, .decided r.1, hd, trivial, ?_⟩
        rw [fire_of_ok hr]
        unfold finish
        rw [(leaveBook_eq _ _ _).1]
      | error f b => exact ⟨d, .faulted f, hd, trivial, by rw [fire_of_error hr]; rfl⟩
    · exact .inl rfl
  · exact .inl rfl

theorem orders_dropIfAborting (s : Session) (n : ℕ) : (s.dropIfAborting n).orders = s.orders ∨
    ∃ d, s.orders[n]? = some d ∧
      (s.dropIfAborting n).orders = s.orders.setIfInBounds n { d with stage := .cancelled } := by
  obtain h | ⟨d, hd, -, h⟩ := s.dropIfAborting_cases n <;> rw [h]
  · exact .inl rfl
  · exact .inr ⟨d, hd, rfl⟩

theorem size_fireIfDue (s : Session) (n : ℕ) : (fireIfDue held s n).orders.size = s.orders.size := by
  obtain h | ⟨d, stage, -, -, h⟩ := orders_fireIfDue held s n <;> rw [h]
  exact Array.size_setIfInBounds

theorem size_dropIfAborting (s : Session) (n : ℕ) : (s.dropIfAborting n).orders.size = s.orders.size := by
  obtain h | ⟨d, -, h⟩ := s.orders_dropIfAborting n <;> rw [h]
  exact Array.size_setIfInBounds

theorem size_foldl {f : Session → ℕ → Session} (hf : ∀ s n, (f s n).orders.size = s.orders.size) (ns : List ℕ)
    (s : Session) : (ns.foldl f s).orders.size = s.orders.size := by
  induction ns generalizing s with
  | nil => rfl
  | cons n ns ih => exact (ih _).trans (hf s n)

theorem size_runUntil (s : Session) (time : ℕ) : (s.runUntil held time).orders.size = s.orders.size :=
  (size_foldl size_fireIfDue ..).trans (size_foldl size_dropIfAborting ..)

/-- What is to be cancelled after one order was looked at was so before, and is another. -/
theorem aborting_of_dropIfAborting {m : ℕ} (h : (s.dropIfAborting m).orders[n]? = some d) (hp : d.stage = .aborting) :
    s.orders[n]? = some d ∧ n ≠ m := by
  obtain hs | ⟨e, he, -, hs⟩ := s.dropIfAborting_cases m <;> rw [hs] at h
  · refine ⟨h, ?_⟩
    rintro rfl
    -- this one would have been dropped
    have hdrop : s.dropIfAborting n = s.finish n d .cancelled := by simp [dropIfAborting, h, hp]
    have hn : (s.finish n d .cancelled).orders[n]? = _ := getElem?_finish h n
    rw [← hdrop, hs, h, if_pos rfl] at hn
    injection hn with hn
    rw [hn] at hp
    cases hp
  · rw [getElem?_finish he] at h
    split at h
    · cases h
      cases hp
    · rename_i hne
      exact ⟨h, hne⟩

theorem aborting_of_foldl_dropIfAborting {ns : List ℕ} (h : (ns.foldl dropIfAborting s).orders[n]? = some d)
    (hp : d.stage = .aborting) : s.orders[n]? = some d ∧ n ∉ ns := by
  induction ns generalizing s with
  | nil => exact ⟨h, List.not_mem_nil⟩
  | cons m ns ih =>
    obtain ⟨hd, hn⟩ := ih h
    obtain ⟨hd, hne⟩ := aborting_of_dropIfAborting hd hp
    exact ⟨hd, List.not_mem_cons_of_ne_of_not_mem hne hn⟩

theorem aborting_of_foldl_fireIfDue {ns : List ℕ} (hd : (ns.foldl (fireIfDue held) s).orders[n]? = some d)
    (hp : d.stage = .aborting) : s.orders[n]? = some d := by
  induction ns generalizing s with
  | nil => exact hd
  | cons m ns ih =>
    have hd := ih hd
    obtain h | ⟨e, stage, he, hdecision, h⟩ := orders_fireIfDue held s m
    · rwa [h] at hd
    · rw [h, Array.getElem?_setIfInBounds] at hd
      split at hd
      · split at hd
        · cases hd
          have hp : stage = .aborting := hp
          rw [hp] at hdecision
          exact hdecision.elim
        · cases hd
      · exact hd

/-- The runtime drops all that is to be cancelled before it lets time pass. -/
theorem not_aborting_of_runUntil {time : ℕ} (hd : (s.runUntil held time).orders[n]? = some d) :
    d.stage ≠ .aborting := by
  intro hp
  have hd : { s.dropAborted with now := Nat.max s.now time }.orders[n]? = some d := aborting_of_foldl_fireIfDue hd hp
  obtain ⟨hd, hn⟩ := aborting_of_foldl_dropIfAborting hd hp
  obtain ⟨hlt, -⟩ := Array.getElem?_eq_some_iff.1 hd
  exact hn (List.mem_range.2 hlt)

/-- Only a submission takes an order in. -/
theorem size_step (s : Session) {a : Action} (ha : ∀ o v locked, a ≠ .submit o v locked) :
    (s.step a).orders.size = s.orders.size := by
  cases a with
  | submit o v locked => exact absurd rfl (ha o v locked)
  | advance held ms => exact size_runUntil s _
  | wait held n =>
    simp only [step, wait]
    split
    · rfl
    · split
      · rfl
      · split
        · split
          · exact size_runUntil s _
          · rfl
        · rw [Array.size_setIfInBounds]
          split
          · exact size_runUntil s _
          · rfl
  | abort n =>
    change (s.abort n).orders.size = _
    unfold abort
    split
    · split
      · exact Array.size_setIfInBounds
      · rfl
    · rfl
  | drop n => exact size_dropIfAborting s n
  | setBook asset book => rfl
  | operate op =>
    change (after (onBroker op.run) s).orders.size = _
    unfold after onBroker
    cases op.run s.broker <;> rfl

theorem run_append (s : Session) (as bs : List Action) : s.run (as ++ bs) = (s.run as).run bs :=
  List.foldl_append

theorem not_mem_inFlight_iff : asset ∉ s.inFlight ↔ ∃ f, s.inFlight.acquire? asset = some f := by
  rw [← InFlight.acquire?_eq_none_iff]
  exact Option.ne_none_iff_exists'

/-- A free asset takes an order, which is due once the timer has run down. -/
theorem submit_of_free (v : Venue) (locked : Bool) (hl : s.latency ≠ 0) (h : o.asset ∉ s.inFlight) : ∃ s',
    submit o v locked s = .ok (.pending s.orders.size) s' ∧
      s'.orders[s.orders.size]? = some ⟨o, v, s.now + timer s.latency, .pending, false⟩ ∧
      s'.broker = s.broker ∧ s'.books = s.books := by
  obtain ⟨f, hf⟩ := not_mem_inFlight_iff.1 h
  refine ⟨(s.delay o v).2, ?_, ?_, ?_, ?_⟩
  · rw [submit_eq_ok hl, delay_of_free hf]
  · rw [delay_of_free hf]
    exact Array.getElem?_push_size
  · rw [delay_of_free hf]
  · rw [delay_of_free hf]

theorem submit_of_inFlight (hl : s.latency ≠ 0) (h : o.asset ∈ s.inFlight) :
    submit o v locked s = .ok .dropped s := by
  rw [submit_eq_ok hl, delay_of_inFlight (InFlight.acquire?_eq_none_iff.2 h)]

/-- The asset of an order that ends in an action is free after it. -/
theorem not_mem_inFlight_of_ended (hl : s.latency ≠ 0) (h : s.Exclusive) {a : Action}
    (he : (s.step a).Exclusive) {d' : DelayedOrder} (hd : s.orders[n]? = some d) (hp : d.isLive = true)
    (hd' : (s.step a).orders[n]? = some d') (hp' : d'.isLive = false) : d.order.asset ∉ (s.step a).inFlight := by
  obtain ⟨hn, _⟩ := Array.getElem?_eq_some_iff.1 hd
  have ha : ∀ o v locked, a ≠ .submit o v locked := by
    rintro o v locked rfl
    have hs : s.step (.submit o v locked) = (s.delay o v).2 := after_of_ok (submit_eq_ok hl)
    rw [hs] at hd'
    cases hf : s.inFlight.acquire? o.asset with
    | none =>
      rw [delay_of_inFlight hf] at hd'
      cases hd.symm.trans hd'
      exact Bool.eq_false_iff.1 hp' hp
    | some f =>
      rw [delay_of_free hf, Array.getElem?_push, if_neg hn.ne] at hd'
      cases hd.symm.trans hd'
      exact Bool.eq_false_iff.1 hp' hp
  intro hm
  obtain ⟨m, hlive⟩ := (he.mem_iff _).1 hm
  obtain ⟨e, hme, hep, hea⟩ := liveAsset_eq_some_iff.1 hlive
  obtain ⟨hmlt, _⟩ := Array.getElem?_eq_some_iff.1 hme
  rw [size_step s ha] at hmlt
  -- the order that is live for the asset was live before, so it is the one that has ended
  obtain ⟨e', he', hb⟩ := (moves_step hl a).becomes (Array.getElem?_eq_getElem hmlt)
  cases he'.symm.trans hme
  have hlive : s.orders[m].isLive = true := by
    by_contra hne
    have hne := Bool.not_eq_true _ ▸ hne
    unfold DelayedOrder.isLive at hep
    rw [hb.leads.eq_of_not_live hne] at hep
    exact Bool.eq_false_iff.1 hne hep
  have hmn := h.unique m n d.order.asset
    (liveAsset_eq_some_iff.2 ⟨_, Array.getElem?_eq_getElem hmlt, hlive, hb.order_eq ▸ hea⟩)
    (liveAsset_eq_some_iff.2 ⟨d, hd, hp, rfl⟩)
  subst m
  cases hd'.symm.trans hme
  exact Bool.eq_false_iff.1 hp' hep

/-- An order that is there after an action of a run is there at its end. -/
theorem becomes_of_run (hl : s.latency ≠ 0) {as before later : List Action} {a : Action}
    (has : as = before ++ a :: later) (hd : ((s.run before).step a).orders[n]? = some d) :
    ∃ d', (s.run as).orders[n]? = some d' ∧ Becomes d d' := by
  have hlb := (moves_run hl before).latency_eq
  have hla := (moves_step (hlb ▸ hl) a).latency_eq
  rw [has, run_append]
  exact (moves_run (hla ▸ hlb ▸ hl) later).becomes hd

/-- The answer tells whether the asset is free, and the account and the books are not touched. -/
theorem submit_answers (hl : s.latency ≠ 0) (o : Order) (v : Venue) (locked : Bool) : ∃ answer s',
    submit o v locked s = .ok answer s' ∧ (answer = .dropped ↔ o.asset ∈ s.inFlight) ∧
      (answer ≠ .dropped → answer = .pending s.orders.size) ∧ s'.broker = s.broker ∧ s'.books = s.books := by
  by_cases hf : o.asset ∈ s.inFlight
  · exact ⟨_, _, submit_of_inFlight hl hf, iff_of_true rfl hf, fun h => absurd rfl h, rfl, rfl⟩
  · obtain ⟨s', hs, _, hb, hk⟩ := submit_of_free v locked hl hf
    exact ⟨_, s', hs, iff_of_false nofun hf, fun _ => rfl, hb, hk⟩

/-- An order that was taken in has the number that the answer gives. -/
theorem exists_of_submit (hl : s.latency ≠ 0) (h : submit o v locked s = .ok (.pending n) s') :
    ∃ d, s'.orders[n]? = some d ∧ d.due = s.now + timer s.latency := by
  have hfree : o.asset ∉ s.inFlight := by
    intro hin
    rw [submit_of_inFlight hl hin] at h
    cases h
  obtain ⟨u, hu, hd, _⟩ := submit_of_free v locked hl hfree
  cases hu.symm.trans h
  exact ⟨_, hd, rfl⟩

/-- An order whose cancellation is asked for is still there, and so is its asset. -/
theorem orders_abort (hd : s.orders[n]? = some d) (hp : d.isPending = true) (hc : d.collected = false) :
    (s.abort n).orders[n]? = some { d with stage := .aborting } ∧ (s.abort n).inFlight = s.inFlight := by
  obtain ⟨hn, _⟩ := Array.getElem?_eq_some_iff.1 hd
  have hs : s.abort n = { s with orders := s.orders.setIfInBounds n { d with stage := .aborting } } := by
    simp [abort, hd, hp, hc]
  rw [hs]
  exact ⟨by rw [Array.getElem?_setIfInBounds, if_pos rfl, if_pos hn], rfl⟩

namespace Accounted

variable {as before later : List Action} {e : Entry}

theorem not_early (h : (s.run as).Accounted (s.runEntries as)) (hl : s.latency ≠ 0)
    (has : as = before ++ .submit o v locked :: later)
    (hsub : submit o v locked (s.run before) = .ok (.pending n) s') (he : e ∈ s.runEntries as)
    (hn : e.source = some n) : (s.run before).now + timer s.latency ≤ e.time := by
  have hlat : (s.run before).latency = s.latency := (moves_run hl before).latency_eq
  obtain ⟨d, hd, hdue⟩ := exists_of_submit (hlat ▸ hl) hsub
  have hstep : (s.run before).step (.submit o v locked) = s' := after_of_ok hsub
  obtain ⟨d', hd', hb⟩ := becomes_of_run hl has (hstep ▸ hd)
  obtain ⟨d'', hd'', hle, _⟩ := h.known e he n hn
  cases hd'.symm.trans hd''
  rw [hb.due_eq, hdue, hlat] at hle
  exact hle

theorem source_ne_of_aborted (h : (s.run as).Accounted (s.runEntries as)) (hl : s.latency ≠ 0)
    (has : as = before ++ .abort n :: later) (hd : (s.run before).orders[n]? = some d)
    (hp : d.isPending = true) (hc : d.collected = false) (he : e ∈ s.runEntries as) : e.source ≠ some n := by
  intro hn
  obtain ⟨d', hd', hb⟩ := becomes_of_run hl has (orders_abort hd hp hc).1
  obtain ⟨d'', hd'', _, hdecision⟩ := h.known e he n hn
  cases hd'.symm.trans hd''
  exact hb.leads.not_isDecision hdecision

end Accounted

/-- In-flight exclusivity of a session after a sequence of actions. -/
structure Orderly (start : Session) (as : List Action) : Prop where
  /-- No two live orders are for the same asset. -/
  unique : ∀ (m n : ℕ) (d e : DelayedOrder), (start.run as).orders[m]? = some d →
    (start.run as).orders[n]? = some e → d.isLive = true → e.isLive = true →
    d.order.asset = e.order.asset → m = n
  /-- The assets in flight are those of the live orders. -/
  inFlight : ∀ asset, asset ∈ (start.run as).inFlight ↔
    ∃ (n : ℕ) (d : DelayedOrder), (start.run as).orders[n]? = some d ∧ d.isLive = true ∧
      d.order.asset = asset
  /-- An order is dropped if its asset is in flight and pending if not; neither touches the account or a book. -/
  submission : ∀ o v locked, ∃ answer s', submit o v locked (start.run as) = .ok answer s' ∧
    (answer = .dropped ↔ o.asset ∈ (start.run as).inFlight) ∧
    (answer ≠ .dropped → answer = .pending (start.run as).orders.size) ∧
    s'.broker = (start.run as).broker ∧ s'.books = (start.run as).books
  /-- Each new record of the history has one origin. -/
  origins : (start.run as).broker.trades.length = start.broker.trades.length + (start.runEntries as).length
  /-- No order has left two records. -/
  once : ∀ n, (start.runEntries as).countP (·.source = some n) ≤ 1
  /-- No order has left a record before its timer had run down. -/
  not_early : ∀ before o v locked later n s', as = before ++ .submit o v locked :: later →
    submit o v locked (start.run before) = .ok (.pending n) s' →
    ∀ e ∈ start.runEntries as, e.source = some n → (start.run before).now + timer start.latency ≤ e.time
  /-- To abort a pending order only asks for its end: the order and its asset stay in flight. -/
  requested : ∀ (n : ℕ) (d : DelayedOrder), (start.run as).orders[n]? = some d → d.isPending = true →
    d.collected = false → ((start.run as).abort n).orders[n]? = some { d with stage := .aborting } ∧
      ((start.run as).abort n).inFlight = (start.run as).inFlight
  /-- When the runtime has let any time pass, nothing that was aborted is live. -/
  dropped : ∀ held ms (n : ℕ) (d : DelayedOrder), ((start.run as).advance held ms).orders[n]? = some d →
    d.stage ≠ .aborting
  /-- An order that was aborted while it was pending has left no record. -/
  aborted : ∀ before (n : ℕ) later (d : DelayedOrder), as = before ++ .abort n :: later →
    (start.run before).orders[n]? = some d → d.isPending = true → d.collected = false →
    ∀ e ∈ start.runEntries as, e.source ≠ some n
  /-- When an order ends, its asset is free and takes the next order. -/
  released : ∀ a (n : ℕ) (d d' : DelayedOrder), (start.run as).orders[n]? = some d → d.isLive = true →
    ((start.run as).step a).orders[n]? = some d' → d'.isLive = false →
    d.order.asset ∉ ((start.run as).step a).inFlight ∧
      ∀ o v locked, o.asset = d.order.asset → ∃ s', submit o v locked ((start.run as).step a) =
        .ok (.pending ((start.run as).step a).orders.size) s'

/-- Every session with a latency is orderly, whatever is done to it in whichever order. -/
theorem orderly_of_latency (broker : Broker) {latency : ℕ} (hl : latency ≠ 0) (as : List Action) :
    Orderly (new broker latency) as := by
  have hm := moves_run (s := new broker latency) hl as
  have hacc := (accounted_new broker latency).moves hm
  rw [List.nil_append] at hacc
  have hlat : ((new broker latency).run as).latency ≠ 0 := hm.latency_eq ▸ hl
  refine ⟨?_, ?_, submit_answers hlat, hm.length_trades, hacc.once, ?_, fun n d => orders_abort,
    fun held ms n d => not_aborting_of_runUntil, ?_, ?_⟩
  · intro m n d e hd he hpd hpe hde
    exact hacc.exclusive.unique m n _ (liveAsset_eq_some_iff.2 ⟨d, hd, hpd, hde⟩)
      (liveAsset_eq_some_iff.2 ⟨e, he, hpe, rfl⟩)
  · intro asset
    simp only [hacc.exclusive.mem_iff, liveAsset_eq_some_iff]
  · intro before o v locked later n s' has hsub e he hn
    exact hacc.not_early hl has hsub he hn
  · intro before n later d has hd hp hc e he
    exact hacc.source_ne_of_aborted hl has hd hp hc he
  · intro a n d d' hd hp hd' hp'
    have he := (hacc.moves (moves_step hlat a)).exclusive
    have hfree := not_mem_inFlight_of_ended hlat hacc.exclusive he hd hp hd' hp'
    refine ⟨hfree, fun o v locked ho => ?_⟩
    obtain ⟨s', hs, _⟩ := submit_of_free v locked
      ((moves_step hlat a).latency_eq ▸ hlat) (ho ▸ hfree)
    exact ⟨s', hs⟩

/-- Three orders for one asset. The first is aborted, but it is still on its way when the second comes, which is
dropped; once time has passed the asset takes the third, which has the time that it needs. -/
theorem orderly_of_three_submissions : Orderly (new (.new .standard .oldestFirst) 50)
    [.submit ⟨"rain", .buyYes, .lit 6 1, .lit 10 0⟩ (.live "rain") false, .abort 0,
      .submit ⟨"rain", .buyNo, .lit 6 1, .lit 10 0⟩ (.live "rain") false, .advance none 1,
      .submit ⟨"rain", .buyNo, .lit 6 1, .lit 10 0⟩ (.live "rain") false, .advance none 50] :=
  orderly_of_latency (.new .standard .oldestFirst) (by decide) _

/-- An asset is not free as soon as its order is aborted, but as soon as time passes. -/
example :
    let o : Order := ⟨"rain", .buyYes, .lit 6 1, .lit 10 0⟩
    let aborted := (new (.new .standard .oldestFirst) 50).run [.submit o (.live "rain") false, .abort 0]
    (aborted.delay o (.live "rain")).1 = .dropped ∧
      ((aborted.advance none 1).delay o (.live "rain")).1 = .pending 1 := by
  decide +kernel

/-- The timer stops at thirty years: of an order with a longer latency there is a record before the latency is
over. -/
theorem early_record_of_long_latency :
    let start := new (.new .standard .oldestFirst) 1000000000000
    let o : Order := ⟨"a", .buyYes, .lit 6 1, .lit 10 0⟩
    (∃ s', submit o (.live "a") false start = .ok (.pending 0) s') ∧
      start.runEntries [.submit o (.live "a") false, .advance none 946080000000] = [⟨some 0, 946080000000⟩] ∧
      946080000000 < start.now + start.latency :=
  ⟨⟨_, rfl⟩, by decide +kernel, by decide⟩

end Session
end OutcomeMarket
