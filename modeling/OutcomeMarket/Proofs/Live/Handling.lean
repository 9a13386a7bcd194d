import OutcomeMarket.Live.Trader
import OutcomeMarket.Proofs.Account.Booking
import OutcomeMarket.Proofs.Book.Soundness
import OutcomeMarket.Proofs.TextMap

/-! What a trader does with one event. First it takes in the news, which cannot go wrong: the book, the count of
skipped entries, and the middle of the book as the price of its asset. Then it serves the strategy of that asset, which
is made if the asset is new. A heartbeat in between hands over what has been measured, if the account has a value. -/
namespace OutcomeMarket

theorem Session.book_setBook (s : Session) (asset other : String) (book : Book) :
    (s.setBook asset book).book other = if other = asset then book else s.book other := by
  unfold Session.book setBook
  dsimp only
  rw [TextMap.find?_insert]
  split <;> rfl

/-- The book after an event. -/
def Book.receive (b : Book) (e : BookEvent) : Book :=
  if e.isSnapshot then (b.applySnapshot e.bids e.asks).1 else (b.applyRaw e.bids e.asks).1

theorem Book.Sound.receive {b : Book} (h : b.Sound) (e : BookEvent) : (b.receive e).Sound := by
  unfold Book.receive
  split
  · exact (Book.Sound.empty b.asset).applyRaw e.bids e.asks
  · exact h.applyRaw e.bids e.asks

namespace Session

/-- Note the middle of an asset's book as its price, if there is one. -/
def notePrice (asset : String) (s : Session) : Session :=
  match (s.book asset).mid with
  | .ok (some price) => { s with broker := s.broker.withPrice asset price }
  | _ => s

/-- Take in the news of an event. -/
def receive (e : BookEvent) (s : Session) : Session :=
  (s.setBook e.asset ((s.book e.asset).receive e)).notePrice e.asset

end Session

/-- Orders take fifty milliseconds. -/
def TraderConfig.patient : TraderConfig :=
  { standard with broker := { BrokerConfig.standard with latencyMillis := 50 } }

namespace Trader

variable {ν σ : Type}

/-- Take in the news of an event, and note what was skipped. -/
def receive (e : BookEvent) (t : Trader ν σ) : Trader ν σ :=
  { noteSkipped e.asset (updateBook e t).1 t with session := t.session.receive e, events := t.events + 1 }

/-- The desk of an asset, or a new one. -/
def deskFor (make : Maker ν σ) (asset : String) (t : Trader ν σ) : Desk ν σ :=
  (t.desks.find? asset).getD
    ⟨(make asset).1, (make asset).2, .new s!"{(make asset).1.metadata.name}:{asset}"⟩

/-- Have the strategy of an asset made, unless it was made before. -/
def consult (asset : String) (t : Trader ν σ) : Trader ν σ :=
  if (t.desks.find? asset).isSome then t else { t with made := t.made ++ [asset] }

/-- What the strategy of an event's asset does about the book. -/
def reaction (make : Maker ν σ) (e : BookEvent) (t : Trader ν σ) : Program ν (Except StrategyError Unit × σ) :=
  let d := t.deskFor make e.asset
  d.strategy.react d.state ⟨e.asset, t.session.book e.asset⟩

/-- What the strategy of an asset works on. -/
def workplace (make : Maker ν σ) (asset : String) (t : Trader ν σ) : Workspace ν :=
  ⟨t.session, (t.deskFor make asset).context, t.journal⟩

/-- Let the strategy of an event's asset look at the book. -/
def serve (make : Maker ν σ) (e : BookEvent) : TraderM ν σ Unit := do
  let d ← desk make e.asset
  let book := (← get).session.book e.asset
  let (answer, state) ← onDesk e.asset d (d.strategy.react d.state ⟨e.asset, book⟩)
  modify fun t =>
    { t with desks := t.desks.insert e.asset { (t.desks.find? e.asset).getD d with state := state } }
  (tolerate answer : Except StrategyError Unit)

variable {make : Maker ν σ} {e : BookEvent} {t : Trader ν σ}

theorem updateBook_eq (e : BookEvent) (t : Trader ν σ) :
    (updateBook e t).2 = { t with session := t.session.setBook e.asset ((t.session.book e.asset).receive e) } := by
  unfold updateBook Book.receive
  split <;> rfl

theorem receive_eq (e : BookEvent) (t : Trader ν σ) : (t.receive e).desks = t.desks ∧
    (t.receive e).journal = t.journal ∧ (t.receive e).made = t.made := by
  unfold receive noteSkipped
  split <;> exact ⟨rfl, rfl, rfl⟩

/-- An event is taken in and then served, if its book has a middle or none is to be had. -/
theorem handle_eq_of_mid {mid : Option Decimal}
    (hmid : ((t.session.setBook e.asset ((t.session.book e.asset).receive e)).book e.asset).mid = .ok mid) :
    handle make e t = serve make e (t.receive e) := by
  unfold handle
  rw [run_modify_bind, run_modifyGet_bind, updateBook_eq, run_get_bind]
  dsimp only
  rw [hmid]
  unfold receive Session.receive Session.notePrice noteSkipped
  rw [hmid]
  -- the summary is the same before and after the event is counted
  have hsummary : (updateBook e { t with events := t.events + 1 }).1 = (updateBook e t).1 := rfl
  rw [hsummary]
  cases mid with
  | none =>
    change serve make e _ = serve make e _
    split <;> rfl
  | some price =>
    change serve make e _ = serve make e _
    split <;> rfl

/-- An event is taken in, whatever it says, and then served. -/
theorem handle_eq (hb : (t.session.book e.asset).Sound) : handle make e t = serve make e (t.receive e) := by
  have hbook : ((t.session.setBook e.asset ((t.session.book e.asset).receive e)).book e.asset).Sound := by
    rw [Session.book_setBook, if_pos rfl]
    exact hb.receive e
  obtain ⟨mid, hmid, -⟩ := hbook.mid
  exact handle_eq_of_mid hmid

/-- The same for any book, where nothing faulted. -/
theorem handle_eq_of_not_fault (hf : ∀ f u, handle make e t ≠ .error (.fault f) u) :
    handle make e t = serve make e (t.receive e) := by
  cases hmid : ((t.session.setBook e.asset ((t.session.book e.asset).receive e)).book e.asset).mid with
  | ok mid => exact handle_eq_of_mid hmid
  | error c =>
    have herror : ∃ u, handle make e t = .error (.fault (.arithmetic c)) u := by
      unfold handle
      rw [run_modify_bind, run_modifyGet_bind, updateBook_eq, run_get_bind]
      dsimp only
      rw [hmid]
      exact ⟨_, rfl⟩
    obtain ⟨u, hu⟩ := herror
    exact absurd hu (hf _ u)

theorem made_consult (asset : String) (t : Trader ν σ) :
    (t.consult asset).made = if (t.desks.find? asset).isSome then t.made else t.made ++ [asset] := by
  unfold consult
  split <;> rfl

/-- To have a strategy made is seen in nothing but the list of those that were made. -/
theorem restore_consult (asset : String) (t : Trader ν σ) (d : Desk ν σ) (w : Workspace ν) :
    (t.consult asset).restore asset d w = { t.restore asset d w with made := (t.consult asset).made } := by
  unfold consult
  split <;> rfl

/-- The desk of an asset is found or put in its place, where it stands until the next write. -/
theorem desk_eq_ok (make : Maker ν σ) (asset : String) (t : Trader ν σ) : ∃ u,
    desk make asset t = .ok (t.deskFor make asset) u ∧ u.session = t.session ∧ u.journal = t.journal ∧
      ∀ d w, u.restore asset d w = (t.consult asset).restore asset d w := by
  unfold desk deskFor consult
  rw [run_get_bind]
  cases t.desks.find? asset with
  | some d => exact ⟨t, rfl, rfl, rfl, fun _ _ => rfl⟩
  | none =>
    refine ⟨_, rfl, rfl, rfl, fun d w => ?_⟩
    unfold restore
    dsimp only
    rw [TextMap.insert_insert]
    rfl

theorem onDesk_eq {α : Type} {asset : String} {u : Trader ν σ} (p : Program ν α) (make : Maker ν σ)
    (hs : u.session = t.session) (hj : u.journal = t.journal)
    (hr : ∀ d w, u.restore asset d w = (t.consult asset).restore asset d w) :
    onDesk asset (t.deskFor make asset) p u = match p.run (t.workplace make asset) with
      | .ok a w => .ok a ((t.consult asset).restore asset (t.deskFor make asset) w)
      | .error f w => .error (.fault f) ((t.consult asset).restore asset (t.deskFor make asset) w) := by
  unfold onDesk workplace
  rw [hs, hj]
  cases p.run ⟨t.session, (t.deskFor make asset).context, t.journal⟩ with
  | ok a w => exact congrArg (EStateM.Result.ok a) (hr _ w)
  | error f w => exact congrArg (EStateM.Result.error (Halt.fault f)) (hr _ w)

/-- To serve an event is to let its strategy work and to keep its state, unless it faults. -/
theorem serve_eq (make : Maker ν σ) (e : BookEvent) (t : Trader ν σ) : serve make e t =
    match (t.reaction make e).run (t.workplace make e.asset) with
    | .ok (answer, state) w => (liftM (tolerate answer) : TraderM ν σ Unit)
      ((t.consult e.asset).restore e.asset { t.deskFor make e.asset with state := state } w)
    | .error f w => .error (.fault f) ((t.consult e.asset).restore e.asset (t.deskFor make e.asset) w) := by
  obtain ⟨u, hu, hs, hj, hr⟩ := desk_eq_ok make e.asset t
  have hd := onDesk_eq (t.reaction make e) make hs hj hr
  unfold reaction at hd ⊢
  dsimp only at hd ⊢
  unfold serve
  rw [run_bind_of_ok hu, run_get_bind, hs]
  cases hrun : ((t.deskFor make e.asset).strategy.react (t.deskFor make e.asset).state
      ⟨e.asset, t.session.book e.asset⟩).run (t.workplace make e.asset) with
  | ok a w =>
    rw [hrun] at hd
    obtain ⟨answer, state⟩ := a
    rw [run_bind_of_ok hd]
    dsimp only
    rw [run_modify_bind]
    simp only [restore, TextMap.find?_insert_self, TextMap.insert_insert, Option.getD_some]
  | error f w =>
    rw [hrun] at hd
    simp only [bind, EStateM.bind, hd]

/-- However an event ends, what the strategy worked on is put back, and its state unless it faulted. -/
theorem after_handle_eq (hb : (t.session.book e.asset).Sound) : after (handle make e) t =
    match ((t.receive e).reaction make e).run ((t.receive e).workplace make e.asset) with
    | .ok (_, state) w =>
      ((t.receive e).consult e.asset).restore e.asset { (t.receive e).deskFor make e.asset with state := state } w
    | .error _ w => ((t.receive e).consult e.asset).restore e.asset ((t.receive e).deskFor make e.asset) w := by
  unfold after
  rw [handle_eq hb, serve_eq]
  cases ((t.receive e).reaction make e).run ((t.receive e).workplace make e.asset) with
  | ok a w =>
    obtain ⟨answer, state⟩ := a
    dsimp only
    cases tolerate answer <;> rfl
  | error f w => rfl

/-- The heart beats, or the account cannot be valued; no strategy has a part in it. -/
theorem heartbeat_cases (t : Trader ν σ) :
    (∃ snapshot account, t.session.broker.snapshot = .ok snapshot ∧ Metric.ofSnapshot source snapshot = .ok account ∧
      heartbeat t = .ok ()
        { (drainDesks t).2 with latest := account ++ t.pending ++ (drainDesks t).1, pending := [] }) ∨
      ∃ f, heartbeat t = .error (.fault f) t := by
  have hget : heartbeat t = (do
      let snapshot ← (t.session.broker.snapshot : Decimal.Checked Snapshot)
      let account ← (Metric.ofSnapshot source snapshot : Faultable (List Metric))
      let drained ← modifyGet drainDesks
      modify fun t => { t with latest := account ++ t.pending ++ drained, pending := [] } : TraderM ν σ Unit) t :=
    run_get_bind
  rw [hget]
  cases hs : t.session.broker.snapshot with
  | error c => exact .inr ⟨.arithmetic c, rfl⟩
  | ok snapshot =>
    -- the metrics of the account may fault on their own
    cases hm : Metric.ofSnapshot source snapshot with
    | error f =>
      refine .inr ⟨f, ?_⟩
      change (liftM (Metric.ofSnapshot source snapshot) >>= _ : TraderM ν σ Unit) t = _
      rw [hm]
      rfl
    | ok account =>
      refine .inl ⟨snapshot, account, rfl, hm, ?_⟩
      change (liftM (Metric.ofSnapshot source snapshot) >>= _ : TraderM ν σ Unit) t = _
      rw [hm]
      rfl

/-- Where the heart has beaten the account was valued. -/
theorem exists_account_of_heartbeat {t t' : Trader ν σ} (h : heartbeat t = .ok () t') :
    ∃ snapshot account, t.session.broker.snapshot = .ok snapshot ∧ Metric.ofSnapshot source snapshot = .ok account ∧
      { (drainDesks t).2 with latest := account ++ t.pending ++ (drainDesks t).1, pending := [] } = t' := by
  obtain ⟨snapshot, account, hs, ha, hok⟩ | ⟨f, herror⟩ := heartbeat_cases t
  · rw [h] at hok
    cases hok
    exact ⟨snapshot, account, hs, ha, rfl⟩
  · rw [h] at herror
    cases herror

end Trader
end OutcomeMarket
