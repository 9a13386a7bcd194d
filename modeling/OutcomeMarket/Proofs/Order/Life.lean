import OutcomeMarket.Order.Session
import OutcomeMarket.Proofs.Account.Writes

/-! The life of delayed orders. A session moves in small steps: an order is taken in, decided, asked to be cancelled,
dropped or collected, or the session does something else. Each step leaves the assets in flight to be those of the live
orders, one order for each, and tells from which order the records that it writes come. An order whose cancellation is
asked for is live until it is dropped, but it is never decided. -/
namespace OutcomeMarket

namespace Stage

/-- What an order comes to when its time has come, a fault included. -/
def IsDecision : Stage → Prop
  | decided _ | faulted _ => True
  | pending | aborting | cancelled => False

/-- How an order may go on: a pending one in every way, one that is to be cancelled only to its end, and one that has
ended not at all. -/
def Leads : Stage → Stage → Prop
  | pending, _ => True
  | aborting, t => t = aborting ∨ t = cancelled
  | s, t => t = s

variable {s t u : Stage}

theorem IsDecision.not_live (h : s.IsDecision) : s.isLive = false := by
  cases s with
  | decided _ | faulted _ => rfl
  | pending | aborting | cancelled => exact h.elim

theorem Leads.refl (s : Stage) : s.Leads s := by
  cases s with
  | aborting => exact .inl rfl
  | pending => trivial
  | decided _ | faulted _ | cancelled => rfl

theorem Leads.eq_of_not_live (h : s.Leads t) (hs : s.isLive = false) : t = s := by
  cases s with
  | decided _ | faulted _ | cancelled => exact h
  | pending | aborting => cases hs

theorem Leads.trans (h : s.Leads t) (h' : t.Leads u) : s.Leads u := by
  cases s with
  | pending => trivial
  | aborting =>
    obtain rfl | rfl := h
    · exact h'
    · exact .inr h'
  | decided _ | faulted _ | cancelled =>
    cases h
    exact h'

/-- What is to be cancelled is never decided. -/
theorem Leads.not_isDecision (h : aborting.Leads t) : ¬ t.IsDecision := by
  obtain rfl | rfl := h <;> exact id

end Stage

namespace Session

/-- Where a record of the history comes from: the number of a delayed order, if from one, and the time on the
session's clock. -/
structure Entry where
  source : Option ℕ
  time : ℕ
  deriving DecidableEq, Repr

/-- The asset of an order that is still live. -/
def liveAsset (s : Session) (n : ℕ) : Option String :=
  s.orders[n]?.bind fun d => if d.isLive then some d.order.asset else none

/-- The assets in flight are those of the live orders, and no two live orders share one. -/
structure Exclusive (s : Session) : Prop where
  unique : ∀ m n asset, s.liveAsset m = some asset → s.liveAsset n = some asset → m = n
  mem_iff : ∀ asset, asset ∈ s.inFlight ↔ ∃ n, s.liveAsset n = some asset

/-- One small step, with the origins of the records that it writes. -/
inductive Move (s : Session) : List Entry → Session → Prop where
  | worked {s' : Session} {k : ℕ} (ho : s'.orders = s.orders) (hi : s'.inFlight = s.inFlight)
      (hl : s'.latency = s.latency) (ht : s'.broker.trades.length = s.broker.trades.length + k) :
      Move s (List.replicate k ⟨none, s'.now⟩) s'
  | submitted {o : Order} {v : Venue} {f : InFlight} (h : s.inFlight.acquire? o.asset = some f) :
      Move s [] { s with
        inFlight := f
        orders := s.orders.push ⟨o, v, s.now + timer s.latency, .pending, false⟩ }
  | decided {n : ℕ} {d : DelayedOrder} {u : Session} {stage : Stage} {k : ℕ} (hd : s.orders[n]? = some d)
      (hp : d.stage = .pending) (hdue : d.due ≤ s.now) (hs : stage.IsDecision) (ho : u.orders = s.orders)
      (hi : u.inFlight = s.inFlight) (hl : u.latency = s.latency)
      (ht : u.broker.trades.length = s.broker.trades.length + k) (hk : k ≤ 1) :
      Move s (List.replicate k ⟨some n, s.now⟩) (u.finish n d stage)
  | aborted {n : ℕ} {d : DelayedOrder} (hd : s.orders[n]? = some d) (hp : d.stage = .pending) :
      Move s [] { s with orders := s.orders.setIfInBounds n { d with stage := .aborting } }
  | dropped {n : ℕ} {d : DelayedOrder} (hd : s.orders[n]? = some d) (hp : d.stage = .aborting) :
      Move s [] (s.finish n d .cancelled)
  | collected {n : ℕ} {d : DelayedOrder} (hd : s.orders[n]? = some d) :
      Move s [] { s with orders := s.orders.setIfInBounds n { d with collected := true } }

/-- Any number of small steps, with the origins of all records in order. -/
inductive Moves (s : Session) : List Entry → Session → Prop where
  | refl : Moves s [] s
  | tail {u v : Session} {es fs : List Entry} (h : Moves s es u) (hm : Move u fs v) : Moves s (es ++ fs) v

variable {s s' u : Session} {n : ℕ} {d d' : DelayedOrder} {stage : Stage} {o : Order} {asset : String}
  {es fs log : List Entry} {f : InFlight}

theorem Moves.single (h : Move s es s') : Moves s es s' := Moves.refl.tail h

theorem Moves.trans (h : Moves s es u) (h' : Moves u fs s') : Moves s (es ++ fs) s' := by
  induction h' with
  | refl =>
    rw [List.append_nil]
    exact h
  | tail _ hm ih =>
    rw [← List.append_assoc]
    exact ih.tail hm

theorem Move.latency_eq (h : Move s es s') : s'.latency = s.latency := by
  cases h with
  | worked _ _ hl => exact hl
  | submitted => rfl
  | decided _ _ _ _ _ _ hl => exact hl
  | aborted => rfl
  | dropped => rfl
  | collected => rfl

/-- Each new record has one origin. -/
theorem Move.length_trades (h : Move s es s') :
    s'.broker.trades.length = s.broker.trades.length + es.length := by
  cases h with
  | worked _ _ _ ht => rw [ht, List.length_replicate]
  | submitted => rfl
  | decided _ _ _ _ _ _ _ ht => rw [List.length_replicate, ← ht]; rfl
  | aborted => rfl
  | dropped => rfl
  | collected => rfl

theorem Moves.latency_eq (h : Moves s es s') : s'.latency = s.latency := by
  induction h with
  | refl => rfl
  | tail _ hm ih => exact hm.latency_eq.trans ih

theorem Moves.length_trades (h : Moves s es s') :
    s'.broker.trades.length = s.broker.trades.length + es.length := by
  induction h with
  | refl => rfl
  | tail _ hm ih => rw [hm.length_trades, ih, List.length_append, Nat.add_assoc]

theorem isLive_of_pending (h : d.stage = .pending) : d.isLive = true := by
  unfold DelayedOrder.isLive
  rw [h]
  rfl

theorem isLive_of_aborting (h : d.stage = .aborting) : d.isLive = true := by
  unfold DelayedOrder.isLive
  rw [h]
  rfl

theorem liveAsset_eq_some_iff : s.liveAsset n = some asset ↔
    ∃ d, s.orders[n]? = some d ∧ d.isLive = true ∧ d.order.asset = asset := by
  unfold liveAsset
  cases s.orders[n]? with
  | none => simp
  | some d => simp

theorem liveAsset_congr (h : s'.orders = s.orders) (n : ℕ) : s'.liveAsset n = s.liveAsset n := by
  unfold liveAsset
  rw [h]

theorem getElem?_finish (hd : u.orders[n]? = some d) (m : ℕ) :
    (u.finish n d stage).orders[m]? = if m = n then some { d with stage := stage } else u.orders[m]? := by
  obtain ⟨hn, _⟩ := Array.getElem?_eq_some_iff.1 hd
  unfold finish
  rw [Array.getElem?_setIfInBounds]
  by_cases h : m = n
  · rw [if_pos h, if_pos h.symm, if_pos hn]
  · rw [if_neg h, if_neg (Ne.symm h)]

theorem liveAsset_finish (hd : u.orders[n]? = some d) (hs : stage.isLive = false) (m : ℕ) :
    (u.finish n d stage).liveAsset m = if m = n then none else u.liveAsset m := by
  unfold liveAsset
  rw [getElem?_finish hd]
  by_cases h : m = n
  · rw [if_pos h, if_pos h]
    simp [DelayedOrder.isLive, hs]
  · rw [if_neg h, if_neg h]

namespace Exclusive

theorem congr (h : s.Exclusive) (ho : s'.orders = s.orders) (hi : s'.inFlight = s.inFlight) : s'.Exclusive := by
  refine ⟨fun m n asset hm hn => ?_, fun asset => ?_⟩
  · rw [liveAsset_congr ho] at hm hn
    exact h.unique m n asset hm hn
  · rw [hi, h.mem_iff]
    simp only [liveAsset_congr ho]

/-- The asset of an order that ends is free, and no other is. -/
theorem finish (h : s.Exclusive) (hd : s.orders[n]? = some d) (hp : d.isLive = true)
    (hs : stage.isLive = false) : (s.finish n d stage).Exclusive := by
  have hlive : s.liveAsset n = some d.order.asset := liveAsset_eq_some_iff.2 ⟨d, hd, hp, rfl⟩
  refine ⟨fun m k asset hm hk => ?_, fun asset => ?_⟩
  · rw [liveAsset_finish hd hs] at hm hk
    split at hm
    · cases hm
    · split at hk
      · cases hk
      · exact h.unique m k asset hm hk
  · simp only [liveAsset_finish hd hs]
    change asset ∈ s.inFlight.release d.order.asset ↔ _
    rw [InFlight.mem_release, h.mem_iff]
    constructor
    · rintro ⟨hne, m, hm⟩
      have hmn : m ≠ n := by
        rintro rfl
        exact hne (Option.some.inj (hm.symm.trans hlive))
      exact ⟨m, by rw [if_neg hmn, hm]⟩
    · rintro ⟨m, hm⟩
      split at hm
      · cases hm
      · rename_i hmn
        refine ⟨?_, m, hm⟩
        rintro rfl
        exact hmn (h.unique m n _ hm hlive)

theorem submit (h : s.Exclusive) (hf : s.inFlight.acquire? o.asset = some f) (hd : d.order = o)
    (hp : d.isLive = true) : { s with inFlight := f, orders := s.orders.push d }.Exclusive := by
  have hfree : o.asset ∉ s.inFlight := fun hm => by simp [InFlight.acquire?_eq_none_iff.2 hm] at hf
  have hlive : ∀ m, { s with inFlight := f, orders := s.orders.push d }.liveAsset m =
      if m = s.orders.size then some o.asset else s.liveAsset m := by
    intro m
    unfold liveAsset
    rw [Array.getElem?_push]
    split
    · simp [hp, hd]
    · rfl
  refine ⟨fun m k asset hm hk => ?_, fun asset => ?_⟩
  · rw [hlive] at hm hk
    split at hm
    · split at hk
      · omega
      · cases hm
        exact absurd ((h.mem_iff _).2 ⟨k, hk⟩) hfree
    · split at hk
      · cases hk
        exact absurd ((h.mem_iff _).2 ⟨m, hm⟩) hfree
      · exact h.unique m k asset hm hk
  · simp only [hlive]
    rw [InFlight.mem_of_acquire? hf, h.mem_iff]
    constructor
    · rintro (rfl | ⟨m, hm⟩)
      · exact ⟨s.orders.size, by rw [if_pos rfl]⟩
      · have hlt : m ≠ s.orders.size := by
          rintro rfl
          simp [liveAsset] at hm
        exact ⟨m, by rw [if_neg hlt, hm]⟩
    · rintro ⟨m, hm⟩
      split at hm
      · exact .inl (Option.some.inj hm).symm
      · exact .inr ⟨m, hm⟩

/-- An order may be rewritten if it stays for its asset and as live as it was. -/
theorem rewrite (h : s.Exclusive) (hd : s.orders[n]? = some d) (ho : d'.order = d.order)
    (hl : d'.isLive = d.isLive) : { s with orders := s.orders.setIfInBounds n d' }.Exclusive := by
  have hlive : ∀ m, { s with orders := s.orders.setIfInBounds n d' }.liveAsset m = s.liveAsset m := by
    intro m
    obtain ⟨hn, _⟩ := Array.getElem?_eq_some_iff.1 hd
    unfold liveAsset
    rw [Array.getElem?_setIfInBounds]
    by_cases hnm : n = m
    · subst m
      rw [if_pos rfl, if_pos hn, hd, Option.bind_some, Option.bind_some, hl, ho]
    · rw [if_neg hnm]
  refine ⟨fun m k asset hm hk => ?_, fun asset => ?_⟩
  · rw [hlive] at hm hk
    exact h.unique m k asset hm hk
  · simp only [hlive]
    exact h.mem_iff asset

end Exclusive

/-- How an order may have changed: it is the same order, only further on. -/
structure Becomes (d d' : DelayedOrder) : Prop where
  order_eq : d'.order = d.order
  due_eq : d'.due = d.due
  leads : d.stage.Leads d'.stage

theorem Becomes.refl (d : DelayedOrder) : Becomes d d := ⟨rfl, rfl, .refl _⟩

theorem Becomes.trans {d'' : DelayedOrder} (h : Becomes d d') (h' : Becomes d' d'') : Becomes d d'' :=
  ⟨h'.order_eq.trans h.order_eq, h'.due_eq.trans h.due_eq, h.leads.trans h'.leads⟩

theorem becomes_rewrite {k : ℕ} {e e' : DelayedOrder} (he : s.orders[k]? = some e) (hb : Becomes e e')
    (hd : s.orders[n]? = some d) : ∃ d', (s.orders.setIfInBounds k e')[n]? = some d' ∧ Becomes d d' := by
  obtain ⟨hk, _⟩ := Array.getElem?_eq_some_iff.1 he
  rw [Array.getElem?_setIfInBounds]
  by_cases hkn : k = n
  · subst k
    cases he.symm.trans hd
    exact ⟨e', by rw [if_pos rfl, if_pos hk], hb⟩
  · exact ⟨d, by rw [if_neg hkn, hd], .refl d⟩

/-- No order is lost, and one that has ended stays as it ended. -/
theorem Move.becomes (h : Move s es s') (hd : s.orders[n]? = some d) :
    ∃ d', s'.orders[n]? = some d' ∧ Becomes d d' := by
  cases h with
  | worked ho => exact ⟨d, ho ▸ hd, .refl d⟩
  | submitted =>
    obtain ⟨hn, _⟩ := Array.getElem?_eq_some_iff.1 hd
    refine ⟨d, ?_, .refl d⟩
    change (s.orders.push _)[n]? = some d
    rw [Array.getElem?_push, if_neg hn.ne]
    exact hd
  | @decided k e u stage _ he hp _ _ ho =>
    have hb : Becomes e { e with stage := stage } := ⟨rfl, rfl, by rw [hp]; trivial⟩
    rw [← ho] at he hd
    exact becomes_rewrite he hb hd
  | aborted he hp => exact becomes_rewrite he ⟨rfl, rfl, by rw [hp]; trivial⟩ hd
  | dropped he hp => exact becomes_rewrite he ⟨rfl, rfl, by rw [hp]; exact .inr rfl⟩ hd
  | collected he => exact becomes_rewrite he ⟨rfl, rfl, .refl _⟩ hd

theorem Moves.becomes (h : Moves s es s') (hd : s.orders[n]? = some d) :
    ∃ d', s'.orders[n]? = some d' ∧ Becomes d d' := by
  induction h with
  | refl => exact ⟨d, hd, .refl d⟩
  | tail _ hm ih =>
    obtain ⟨d', hd', hb⟩ := ih
    obtain ⟨d'', hd'', hb'⟩ := hm.becomes hd'
    exact ⟨d'', hd'', hb.trans hb'⟩

/-- The order books of a session are in order: the assets in flight are exclusive, every record that comes from
an order comes from one that was decided, not before its time, and none has left two. -/
structure Accounted (s : Session) (log : List Entry) : Prop where
  exclusive : s.Exclusive
  known : ∀ e ∈ log, ∀ n, e.source = some n →
    ∃ d, s.orders[n]? = some d ∧ d.due ≤ e.time ∧ d.stage.IsDecision
  once : ∀ n, log.countP (·.source = some n) ≤ 1

namespace Accounted

/-- An order that is not decided has left no record. -/
theorem countP_eq_zero (h : s.Accounted log) (hd : s.orders[n]? = some d) (hp : ¬ d.stage.IsDecision) :
    log.countP (·.source = some n) = 0 := by
  rw [List.countP_eq_zero]
  intro e he hs
  obtain ⟨d', hd', _, hn⟩ := h.known e he n (of_decide_eq_true hs)
  cases hd.symm.trans hd'
  exact hp hn

/-- Records that come from no order change nothing. -/
theorem append_unowned (h : s.Accounted log) (he : s'.Exclusive)
    (hb : ∀ (n : ℕ) d, s.orders[n]? = some d → ∃ d', s'.orders[n]? = some d' ∧ Becomes d d')
    (hf : ∀ e ∈ fs, e.source = none) : s'.Accounted (log ++ fs) := by
  refine ⟨he, fun e hm n hs => ?_, fun n => ?_⟩
  · obtain hm | hm := List.mem_append.1 hm
    · obtain ⟨d, hd, hdue, hn⟩ := h.known e hm n hs
      obtain ⟨d', hd', hb⟩ := hb n d hd
      have hst := hb.leads.eq_of_not_live hn.not_live
      exact ⟨d', hd', hb.due_eq ▸ hdue, hst ▸ hn⟩
    · rw [hf e hm] at hs
      cases hs
  · have h0 : fs.countP (·.source = some n) = 0 := by
      rw [List.countP_eq_zero]
      intro e hm
      simp [hf e hm]
    rw [List.countP_append, h0]
    exact h.once n

theorem decided {k : ℕ} (h : s.Accounted log) (hd : s.orders[n]? = some d) (hp : d.stage = .pending)
    (hdue : d.due ≤ s.now) (hs : stage.IsDecision) (ho : u.orders = s.orders) (hi : u.inFlight = s.inFlight)
    (hk : k ≤ 1) : (u.finish n d stage).Accounted (log ++ List.replicate k ⟨some n, s.now⟩) := by
  have hu : u.orders[n]? = some d := ho ▸ hd
  have hundecided : ¬ d.stage.IsDecision := by
    rw [hp]
    exact id
  refine ⟨(h.exclusive.congr ho hi).finish hu (isLive_of_pending hp) hs.not_live, fun e hm m hsm => ?_, fun m => ?_⟩
  · rw [getElem?_finish hu]
    obtain hm | hm := List.mem_append.1 hm
    · obtain ⟨d', hd', hdue', hn⟩ := h.known e hm m hsm
      have hmn : m ≠ n := by
        rintro rfl
        cases hd.symm.trans hd'
        exact hundecided hn
      rw [if_neg hmn, ho]
      exact ⟨d', hd', hdue', hn⟩
    · obtain rfl := List.eq_of_mem_replicate hm
      cases hsm
      rw [if_pos rfl]
      exact ⟨_, rfl, hdue, hs⟩
  · rw [List.countP_append, List.countP_replicate]
    by_cases hmn : m = n
    · subst m
      rw [h.countP_eq_zero hd hundecided]
      simpa using hk
    · have hne : ¬ (some n = some m) := fun he => hmn (Option.some.inj he).symm
      simp only [hne, decide_false, Bool.false_eq_true, if_false, Nat.add_zero]
      exact h.once m

theorem move (h : s.Accounted log) (hm : Move s fs s') : s'.Accounted (log ++ fs) := by
  have hb := fun n d => hm.becomes (n := n) (d := d)
  cases hm with
  | worked ho hi =>
    exact h.append_unowned (h.exclusive.congr ho hi) hb fun e he => by rw [List.eq_of_mem_replicate he]
  | submitted hf => exact h.append_unowned (h.exclusive.submit hf rfl rfl) hb (by simp)
  | decided hd hp hdue hs ho hi _ _ hk => exact h.decided hd hp hdue hs ho hi hk
  | aborted hd hp => exact h.append_unowned (h.exclusive.rewrite hd rfl (isLive_of_pending hp).symm) hb (by simp)
  | dropped hd hp => exact h.append_unowned (h.exclusive.finish hd (isLive_of_aborting hp) rfl) hb (by simp)
  | collected hd => exact h.append_unowned (h.exclusive.rewrite hd rfl rfl) hb (by simp)

theorem moves (h : s.Accounted log) (hm : Moves s fs s') : s'.Accounted (log ++ fs) := by
  induction hm with
  | refl =>
    rw [List.append_nil]
    exact h
  | tail _ hm ih =>
    rw [← List.append_assoc]
    exact ih.move hm

end Accounted

theorem accounted_new (broker : Broker) (latency : ℕ) : (new broker latency).Accounted [] := by
  have hlive : ∀ n, (new broker latency).liveAsset n = none := by simp [liveAsset, new]
  refine ⟨⟨fun m n asset hm _ => by simp [hlive] at hm, fun asset => ?_⟩, by simp, by simp⟩
  simp only [hlive, reduceCtorEq, exists_false, iff_false]
  exact List.not_mem_nil

end Session
end OutcomeMarket
