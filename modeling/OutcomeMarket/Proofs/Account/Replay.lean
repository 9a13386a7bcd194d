import OutcomeMarket.Proofs.Account.Step

/-! The history as an audit trail. An account statement is written from the records alone, each of which moves
cash, one holding and the counters; after every operation it tells the account as it is, digit for digit. -/
namespace OutcomeMarket

/-- An account as its history tells it. -/
structure Statement where
  cash : Decimal
  holding : String → OutcomeSide → Position
  actions : Nat
  wins : Nat
  losses : Nat
  /-- Sales and settled markets -/
  executed : Nat
  /-- The asset whose YES side the last record settled -/
  settling : Option String

namespace Statement

/-- The statement before the first record. -/
def opening (cash : Decimal) : Statement := ⟨cash, fun _ _ => .flat, 0, 0, 0, 0, none⟩

def hold (s : Statement) (asset : String) (side : OutcomeSide) (p : Position) : Statement :=
  { s with holding := fun other t => if other = asset ∧ t = side then p else s.holding other t }

/-- An exit above the entry price is a win, any other a loss. -/
def exit (s : Statement) (price entry : Decimal) : Statement :=
  { s with
    wins := if entry < price then s.wins + 1 else s.wins
    losses := if entry < price then s.losses else s.losses + 1 }

/-- A purchase: the entry price becomes the average over old and new shares. -/
def postBuy (s : Statement) (side : OutcomeSide) (t : Trade) : Decimal.Checked Statement := do
  let held := s.holding t.asset side
  let cash ← s.cash.sub t.value
  let shares ← held.shares.add t.shares
  let basis ← held.shares.mul held.averagePrice
  let cost ← basis.add t.value
  let average ← cost.div shares
  let s := s.hold t.asset side ⟨shares, average⟩
  return { s with cash := cash, actions := s.actions + 1, settling := none }

/-- A sale: the entry price stays until no shares are left. -/
def postSell (s : Statement) (side : OutcomeSide) (t : Trade) : Decimal.Checked Statement := do
  let held := s.holding t.asset side
  let cash ← s.cash.add t.value
  let rest ← held.shares.sub t.shares
  let average := if rest.isZero then .zero else held.averagePrice
  let s := (s.exit t.price held.averagePrice).hold t.asset side ⟨rest, average⟩
  return { s with cash := cash, actions := s.actions + 1, executed := s.executed + 1, settling := none }

/-- A settled side. The two sides of one settlement, which follow each other, count once. -/
def postSettlement (s : Statement) (side : OutcomeSide) (t : Trade) : Decimal.Checked Statement := do
  let cash ← s.cash.add t.value
  let s' := (s.exit t.price (s.holding t.asset side).averagePrice).hold t.asset side .flat
  return { s' with
    cash := cash
    executed := if side = .no ∧ s.settling = some t.asset then s.executed else s.executed + 1
    settling := if side = .yes then some t.asset else none }

/-- The statement with one more record. -/
def post (s : Statement) (t : Trade) : Decimal.Checked Statement :=
  match t.kind with
  | .buy => s.postBuy .yes t
  | .buyNo => s.postBuy .no t
  | .sell => s.postSell .yes t
  | .sellNo => s.postSell .no t
  | .resolveYes => s.postSettlement .yes t
  | .resolveNo => s.postSettlement .no t
  | .rejectBuy | .rejectSell => return { s with settling := none }

/-- The statement with more records, oldest first. -/
def replay (s : Statement) (trades : List Trade) : Decimal.Checked Statement := trades.foldlM post s

/-- The statement tells what an account holds. -/
structure Describes (s : Statement) (b : Broker) : Prop where
  cash : s.cash = b.cash
  holding : ∀ asset side, s.holding asset side = b.position asset side
  actions : s.actions = b.actions
  wins : s.wins = b.wins
  losses : s.losses = b.losses

/-- The statement also tells the executed trades. After the record of a settled YES side there are no NO shares
left that an earlier settlement should have taken. -/
structure Audits (s : Statement) (b : Broker) : Prop extends s.Describes b where
  executed : s.executed = b.tradesExecuted
  settling : ∀ asset, s.settling = some asset → (b.position asset .no).shares ≤ .zero

variable {s s' : Statement} {b b' : Broker} {asset : String} {side : OutcomeSide} {fill : Broker.Fill}
  {p : Position} {cash rest price net fee : Decimal} {t : Trade} {ts us : List Trade}

theorem replay_append (h : s.replay ts = .ok s') : s.replay (ts ++ us) = s'.replay us := by
  unfold replay at *
  rw [List.foldlM_append, h]
  rfl

theorem replay_cons (h : s.post t = .ok s') : s.replay (t :: ts) = s'.replay ts := by
  unfold replay
  rw [List.foldlM_cons, h]
  rfl

theorem replay_single (t : Trade) : s.replay [t] = s.post t := by
  unfold replay
  rw [List.foldlM_cons]
  cases s.post t <;> rfl

theorem Describes.hold (h : s.Describes b) (asset : String) (side : OutcomeSide) (p : Position) (cash : Decimal)
    (other : String) (side' : OutcomeSide) :
    (s.hold asset side p).holding other side' = (b.withPosition asset side p cash).position other side' := by
  unfold Statement.hold Broker.withPosition Broker.position
  rw [Ledger.get_set, ← Broker.position, ← h.holding]

theorem Describes.exit (h : s.Describes b) (price entry : Decimal) :
    (s.exit price entry).Describes (b.withExit price entry) := by
  refine ⟨h.cash, h.holding, h.actions, ?_, ?_⟩
  · simp only [Statement.exit, Broker.withExit, h.wins]
  · simp only [Statement.exit, Broker.withExit, h.losses]

theorem post_buyOf (h : t.kind = .buyOf side) : s.post t = s.postBuy side t := by
  unfold post
  rw [h]
  cases side <;> rfl

theorem post_sellOf (h : t.kind = .sellOf side) : s.post t = s.postSell side t := by
  unfold post
  rw [h]
  cases side <;> rfl

theorem post_resolveOf (h : t.kind = .resolveOf side) : s.post t = s.postSettlement side t := by
  unfold post
  rw [h]
  cases side <;> rfl

theorem post_rejection (h : t.kind.isRejection = true) : s.post t = .ok { s with settling := none } := by
  unfold post
  cases hk : t.kind <;> simp [hk, TradeKind.isRejection] at h <;> rfl

/-- The record of a purchase tells the purchase. -/
theorem Describes.post_buy (h : s.Describes b)
    (hp : (b.position asset side).bought fill.shares fill.value = .ok p) (hc : b.cash.sub fill.value = .ok cash) :
    ∃ s', s.post ⟨asset, b.clock, .buyOf side, fill.price, fill.shares, fill.value, .zero⟩ = .ok s' ∧
      s'.Describes (b.withPurchase asset side fill p cash) ∧ s'.executed = s.executed ∧ s'.settling = none := by
  obtain ⟨_, shares, basis, cost, average, hs, hb, hcost, ha, rfl⟩ := Broker.bought_eq_ok_iff.1 hp
  refine ⟨{ s.hold asset side ⟨shares, average⟩ with cash := cash, actions := s.actions + 1, settling := none },
    ?_, ⟨rfl, h.hold asset side _ cash, congrArg (· + 1) h.actions, h.wins, h.losses⟩, rfl, rfl⟩
  rw [post_buyOf rfl]
  simp only [postBuy, h.holding, h.cash, bind_eq_ok_iff, pure_eq_ok_iff]
  exact ⟨cash, hc, shares, hs, basis, hb, cost, hcost, average, ha, rfl⟩

/-- The record of a sale tells the sale. -/
theorem Describes.post_sell (h : s.Describes b) (hr : (b.position asset side).shares.sub fill.shares = .ok rest)
    (hc : b.cash.add fill.value = .ok cash) :
    ∃ s', s.post ⟨asset, b.clock, .sellOf side, fill.price, fill.shares, fill.value, .zero⟩ = .ok s' ∧
      s'.Describes (b.withSale asset side fill rest cash) ∧ s'.executed = s.executed + 1 ∧
      s'.settling = none := by
  have he := h.exit fill.price (b.position asset side).averagePrice
  refine ⟨{ (s.exit fill.price (b.position asset side).averagePrice).hold asset side
      ((b.position asset side).withShares rest) with
      cash := cash, actions := s.actions + 1, executed := s.executed + 1, settling := none },
    ?_, ⟨rfl, he.hold asset side _ cash, congrArg (· + 1) h.actions, he.wins, he.losses⟩, rfl, rfl⟩
  rw [post_sellOf rfl]
  simp only [postSell, h.holding, h.cash, bind_eq_ok_iff, pure_eq_ok_iff]
  exact ⟨cash, hc, rest, hr, rfl⟩

/-- The record of a settled side tells the settlement. -/
theorem Describes.post_settlement (h : s.Describes b) (side : OutcomeSide) (hc : b.cash.add net = .ok cash) :
    ∃ s', s.post ⟨asset, b.clock, .resolveOf side, price, (b.position asset side).shares, net, fee⟩ = .ok s' ∧
      s'.Describes (b.withSettlement asset side price net fee cash) ∧
      s'.executed = (if side = .no ∧ s.settling = some asset then s.executed else s.executed + 1) ∧
      s'.settling = if side = .yes then some asset else none := by
  have he := h.exit price (b.position asset side).averagePrice
  refine ⟨{ (s.exit price (b.position asset side).averagePrice).hold asset side .flat with
      cash := cash
      executed := if side = .no ∧ s.settling = some asset then s.executed else s.executed + 1
      settling := if side = .yes then some asset else none },
    ?_, ⟨rfl, he.hold asset side _ cash, h.actions, he.wins, he.losses⟩, rfl, rfl⟩
  rw [post_resolveOf rfl]
  simp only [postSettlement, h.holding, h.cash, bind_eq_ok_iff, pure_eq_ok_iff]
  exact ⟨cash, hc, rfl⟩

theorem Describes.sameBooks (h : s.Describes b) (hb : b.SameBooks b') : s.Describes b' := by
  refine ⟨h.cash.trans hb.cash.symm, fun asset side => ?_, h.actions.trans hb.actions.symm,
    h.wins.trans hb.wins.symm, h.losses.trans hb.losses.symm⟩
  unfold Broker.position
  rw [hb.ledger]
  exact h.holding asset side

theorem Audits.sameBooks (h : s.Audits b) (hb : b.SameBooks b') (he : b'.tradesExecuted = b.tradesExecuted) :
    s.Audits b' := by
  refine ⟨h.toDescribes.sameBooks hb, h.executed.trans he.symm, fun asset hs => ?_⟩
  unfold Broker.position
  rw [hb.ledger]
  exact h.settling asset hs

/-- After any record but that of a settled YES side nothing is open. -/
theorem Audits.of_describes (h : s.Describes b) (he : s.executed = b.tradesExecuted) (hs : s.settling = none) :
    s.Audits b := by
  refine ⟨h, he, fun asset ha => ?_⟩
  rw [hs] at ha
  cases ha

end Statement

namespace Broker

/-- The trades that one operation executes, from its records: each sale, and all settled sides at once. -/
def executedIn (ts : List Trade) : Nat :=
  ts.countP (·.kind.isSell) + if ts.any (·.kind.isResolution) then 1 else 0

/-- From one account to another the history grows by `ts` and the executed trades by `n`, and the new records
tell what else has changed. -/
structure Posts (b b' : Broker) (ts : List Trade) (n : Nat) : Prop where
  trades : b'.trades = b.trades ++ ts
  executed : b'.tradesExecuted = b.tradesExecuted + n
  audits : ∀ s : Statement, s.Audits b → ∃ s', s.replay ts = .ok s' ∧ s'.Audits b'

variable {b b' u : Broker} {asset : String} {side : OutcomeSide} {fill : Fill} {p : Position}
  {quote dollars available price outcome cash rest x : Decimal} {limit : Option Decimal} {ts us : List Trade}
  {m n : Nat}

theorem Posts.trans (h : Posts b u ts m) (h' : Posts u b' us n) : Posts b b' (ts ++ us) (m + n) := by
  refine ⟨?_, ?_, fun s hs => ?_⟩
  · rw [h'.trades, h.trades, List.append_assoc]
  · rw [h'.executed, h.executed, Nat.add_assoc]
  · obtain ⟨s', hr, hs'⟩ := h.audits s hs
    obtain ⟨s'', hr', hs''⟩ := h'.audits s' hs'
    exact ⟨s'', (Statement.replay_append hr).trans hr', hs''⟩

theorem Posts.of_eq (h : Posts b b' ts m) (ht : us = ts) (hn : n = m) : Posts b b' us n := by
  rw [ht, hn]
  exact h

theorem Posts.noted (h : b.SameBooks b') (he : b'.tradesExecuted = b.tradesExecuted) : Posts b b' [] 0 :=
  ⟨by rw [h.trades, List.append_nil], he, fun s hs => ⟨s, rfl, hs.sameBooks h he⟩⟩

theorem posts_withPrice (b : Broker) (asset : String) (price : Decimal) :
    Posts b (b.withPrice asset price) [] 0 := .noted (sameBooks_withPrice b asset price) rfl

theorem posts_of_buy (h : buy asset side quote dollars available b = .ok x b') :
    ∃ ts, Posts b b' ts (executedIn ts) := by
  have hn := posts_withPrice b asset quote
  obtain rfl | ⟨fill, _, hb⟩ := buy_eq_ok h
  · exact ⟨[], hn⟩
  obtain ⟨p, cash, hp, hc, _, rfl⟩ := bookBuy_eq_ok_iff.1 hb
  have hpost : Posts (b.withPrice asset quote) ((b.withPrice asset quote).withPurchase asset side fill p cash)
      [⟨asset, b.clock, .buyOf side, fill.price, fill.shares, fill.value, .zero⟩] 0 := by
    refine ⟨rfl, rfl, fun s hs => ?_⟩
    obtain ⟨s', hs', hd, he, hl⟩ := hs.toDescribes.post_buy hp hc
    exact ⟨s', (Statement.replay_single _).trans hs', .of_describes hd (he.trans hs.executed) hl⟩
  have he : ∀ t : Trade, t.kind = .buyOf side → executedIn [t] = 0 := by
    intro t ht
    cases side <;> simp [executedIn, ht, TradeKind.buyOf] <;> decide
  exact ⟨_, (hn.trans hpost).of_eq rfl (he _ rfl)⟩

/-- A sale leaves no record of a settlement. -/
theorem posts_of_sell (h : sell asset side quote limit b = .ok x b') :
    ∃ ts, Posts b b' ts (ts.countP (·.kind.isSell)) ∧ ∀ t ∈ ts, t.kind.isResolution = false := by
  have hn := posts_withPrice b asset quote
  obtain rfl | ⟨fill, _, hb⟩ := sell_eq_ok h
  · exact ⟨[], hn, by simp⟩
  obtain ⟨rest, cash, _, hr, _, hc, hm⟩ := bookSell_eq_ok_iff.1 hb
  have hpost : Posts (b.withPrice asset quote) ((b.withPrice asset quote).withSale asset side fill rest cash)
      [⟨asset, b.clock, .sellOf side, fill.price, fill.shares, fill.value, .zero⟩] 1 := by
    refine ⟨rfl, rfl, fun s hs => ?_⟩
    obtain ⟨s', hs', hd, he, hl⟩ := hs.toDescribes.post_sell hr hc
    have hx := he.trans (congrArg (· + 1) hs.executed)
    exact ⟨s', (Statement.replay_single _).trans hs', .of_describes hd hx hl⟩
  have hmark := Posts.noted (sameBooks_of_markEquity hm) (tradesExecuted_of_markEquity hm)
  have he : ∀ t : Trade, t.kind = .sellOf side →
      [t].countP (·.kind.isSell) = 1 ∧ t.kind.isResolution = false := by
    intro t ht
    cases side <;> simp [ht, TradeKind.sellOf] <;> decide
  refine ⟨[_], ((hn.trans hpost).trans hmark).of_eq rfl (he _ rfl).1, fun t ht => ?_⟩
  rw [List.mem_singleton.1 ht]
  exact (he _ rfl).2

theorem executedIn_of_sales (h : ∀ t ∈ ts, t.kind.isResolution = false) :
    executedIn ts = ts.countP (·.kind.isSell) := by
  have hn : ts.any (·.kind.isResolution) = false := by
    rw [List.any_eq_false]
    exact fun t ht => by simp [h t ht]
  unfold executedIn
  rw [hn]
  rfl

/-- However many sides were settled, the settlement counts once in the account and in the statement. -/
theorem Posts.counted {equity : Decimal}
    (hm : markEquity { u with tradesExecuted := u.tradesExecuted + 1 } = .ok equity b')
    (ht : u.trades = b.trades ++ ts) (he : u.tradesExecuted = b.tradesExecuted)
    (ha : ∀ s : Statement, s.Audits b → ∃ s', s.replay ts = .ok s' ∧ s'.Describes u ∧
      s'.executed = s.executed + 1 ∧ ∀ a, s'.settling = some a → (u.position a .no).shares ≤ .zero) :
    Posts b b' ts 1 := by
  have hb := sameBooks_of_markEquity hm
  have hn := tradesExecuted_of_markEquity hm
  refine ⟨hb.trades.trans ht, hn.trans (congrArg (· + 1) he), fun s hs => ?_⟩
  obtain ⟨s', hr, hd, hx, hl⟩ := ha s hs
  refine ⟨s', hr, hd.sameBooks ((sameBooks_counted u).trans hb), ?_, ?_⟩
  · rw [hn, hx, hs.executed, ← he]
  · intro a h
    rw [hb.position_eq]
    exact hl a h

theorem posts_of_resolve (h : resolve asset outcome b = .ok x b') : ∃ ts, Posts b b' ts (executedIn ts) := by
  have hb := sameBooks_withPrice b asset outcome
  obtain ⟨yes, u, no, v, hy, hn, hv⟩ := resolve_eq_ok h
  obtain ⟨_, rfl, rfl⟩ | ⟨price, net, fee, cash, h0, _, _, hc, rfl, rfl⟩ := resolveSide_eq_ok hy
  · obtain ⟨_, rfl, rfl⟩ | ⟨price, net, fee, cash, h0, _, _, hc, rfl, rfl⟩ := resolveSide_eq_ok hn
    · obtain ⟨_, _, rfl⟩ | ⟨hs, _⟩ := hv
      · exact ⟨[], posts_withPrice b asset outcome⟩
      · simp at hs
    · obtain ⟨_, hs, _⟩ | ⟨_, equity, hm⟩ := hv
      · cases hs
      -- NO shares are left, so the last record is not the settlement of this asset's YES side
      have hpost : Posts b b'
          [⟨asset, b.clock, .resolveNo, price, (b.position asset .no).shares, net, fee⟩] 1 := by
        refine .counted hm rfl rfl fun s hs => ?_
        obtain ⟨s', hp, hd, hx, hl⟩ := (hs.toDescribes.sameBooks hb).post_settlement .no hc
        have hr := (Statement.replay_single _).trans hp
        refine ⟨s', hr, hd, hx.trans (if_neg ?_), fun a ha => by simp [hl] at ha⟩
        rintro ⟨_, ha⟩
        exact Decimal.not_le.2 h0 (hs.settling asset ha)
      exact ⟨_, hpost⟩
  · set u := (b.withPrice asset outcome).withSettlement asset .yes price net fee cash
    obtain ⟨h0', rfl, rfl⟩ | ⟨price', net', fee', cash', _, _, _, hc', rfl, rfl⟩ := resolveSide_eq_ok hn
    · obtain ⟨hs, _⟩ | ⟨_, equity, hm⟩ := hv
      · cases hs
      have hpost : Posts b b'
          [⟨asset, b.clock, .resolveYes, price, (b.position asset .yes).shares, net, fee⟩] 1 := by
        refine .counted hm rfl rfl fun s hs => ?_
        obtain ⟨s', hp, hd, hx, hl⟩ := (hs.toDescribes.sameBooks hb).post_settlement .yes hc
        refine ⟨s', (Statement.replay_single _).trans hp, hd, hx.trans (if_neg (by simp)), fun a ha => ?_⟩
        cases hl.symm.trans ha
        exact h0'
      exact ⟨_, hpost⟩
    · obtain ⟨hs, _⟩ | ⟨_, equity, hm⟩ := hv
      · cases hs
      have hpost : Posts b b' [⟨asset, b.clock, .resolveYes, price, (b.position asset .yes).shares, net, fee⟩,
          ⟨asset, b.clock, .resolveNo, price', (u.position asset .no).shares, net', fee'⟩] 1 := by
        refine .counted hm (List.append_assoc _ _ _) rfl fun s hs => ?_
        obtain ⟨s₁, hp, hd, hx, hl⟩ := (hs.toDescribes.sameBooks hb).post_settlement .yes hc
        obtain ⟨s₂, hp', hd', hx', hl'⟩ := hd.post_settlement .no hc'
        refine ⟨s₂, ?_, hd', ?_, fun a ha => by simp [hl'] at ha⟩
        · exact (Statement.replay_cons hp).trans ((Statement.replay_single _).trans hp')
        · exact (hx'.trans (if_pos ⟨rfl, hl⟩)).trans (hx.trans (if_neg (by simp)))
      exact ⟨_, hpost⟩

/-- Every operation only adds to the history, and what it adds tells what it did. -/
theorem posts_of_run {op : Operation} {r : Option Decimal} (h : op.run b = .ok r b') :
    ∃ ts, Posts b b' ts (executedIn ts) := by
  cases op with
  | buy asset side quote dollars available =>
    obtain ⟨_, hb, _⟩ := run_map_eq_ok_iff.1 h
    exact posts_of_buy hb
  | sellAll asset side quote available =>
    obtain ⟨_, hs, _⟩ := run_map_eq_ok_iff.1 h
    obtain ⟨limit, _, hs⟩ := sellAll_eq_ok_iff.1 hs
    obtain ⟨ts, hp, hn⟩ := posts_of_sell hs
    exact ⟨ts, executedIn_of_sales hn ▸ hp⟩
  | liquidate asset quote =>
    obtain ⟨_, hl, _⟩ := run_map_eq_ok_iff.1 h
    obtain ⟨yes, u, no, hy, hn⟩ := liquidate_eq_ok hl
    obtain ⟨ts, hp, ht⟩ := posts_of_sell hy
    obtain ⟨us, hp', hu⟩ := posts_of_sell hn
    have ha : ∀ t ∈ ts ++ us, t.kind.isResolution = false := by
      intro t hm
      exact (List.mem_append.1 hm).elim (ht t) (hu t)
    refine ⟨ts ++ us, (hp.trans hp').of_eq rfl ?_⟩
    rw [executedIn_of_sales ha, List.countP_append]
  | resolve asset outcome =>
    obtain ⟨_, hr, _⟩ := run_map_eq_ok_iff.1 h
    exact posts_of_resolve hr
  | reject asset kind price =>
    obtain ⟨_, u, hr, hu⟩ := run_bind_eq_ok_iff.1 h
    obtain ⟨hk, rfl⟩ := reject_eq_ok hr
    obtain ⟨_, rfl⟩ := run_pure_eq_ok_iff.1 hu
    have he : executedIn [⟨asset, b.clock, kind, price, .zero, .zero, .zero⟩] = 0 := by
      cases kind <;> first | rfl | cases hk
    refine ⟨_, rfl, he ▸ rfl, fun s hs => ?_⟩
    have hd : { s with settling := none }.Describes (b.withRecord asset kind price .zero .zero .zero) :=
      ⟨hs.cash, hs.holding, hs.actions, hs.wins, hs.losses⟩
    exact ⟨_, (Statement.replay_single _).trans (Statement.post_rejection hk), .of_describes hd hs.executed rfl⟩
  | setClock now =>
    obtain ⟨_, rfl⟩ := run_pure_eq_ok_iff.1 h
    exact ⟨[], .noted ⟨rfl, rfl, rfl, rfl, rfl, rfl, rfl⟩ rfl⟩
  | setPrice asset price =>
    obtain ⟨_, rfl⟩ := run_pure_eq_ok_iff.1 h
    exact ⟨[], posts_withPrice b asset price⟩
  | markEquity =>
    obtain ⟨_, hm, _⟩ := run_map_eq_ok_iff.1 h
    exact ⟨[], .noted (sameBooks_of_markEquity hm) (tradesExecuted_of_markEquity hm)⟩

theorem posts_of_runAll {ops : List Operation} (h : b.runAll ops = .ok b') : ∃ ts n, Posts b b' ts n := by
  refine runAll_induction (motive := fun b _ b' => ∃ ts n, Posts b b' ts n) ?_ ?_ h
  · exact fun b => ⟨[], 0, .noted (.refl b) rfl⟩
  · rintro b op ops r u b' hr _ ⟨us, n, hp'⟩
    obtain ⟨ts, hp⟩ := posts_of_run hr
    exact ⟨ts ++ us, _, hp.trans hp'⟩

theorem audits_opening (config : BrokerConfig) (visiting : Visiting) :
    (Statement.opening config.startingCash).Audits (new config visiting) :=
  ⟨⟨rfl, fun asset side => (position_new config visiting asset side).symm, rfl, rfl, rfl⟩, rfl, nofun⟩

/-- The history is a complete audit trail. Replayed from the starting cash it tells the whole account, and each
further operation only adds to it, with one executed trade for each sale and one for a settlement. -/
theorem replay_of_runAll {config : BrokerConfig} {visiting : Visiting} {ops : List Operation} {b : Broker}
    (h : (new config visiting).runAll ops = .ok b) :
    (∃ s, (Statement.opening config.startingCash).replay b.trades = .ok s ∧ s.Describes b ∧
      s.executed = b.tradesExecuted) ∧
    ∀ (op : Operation) r b', op.run b = .ok r b' →
      ∃ ts, b'.trades = b.trades ++ ts ∧ b'.tradesExecuted = b.tradesExecuted + executedIn ts := by
  constructor
  · obtain ⟨ts, n, hp⟩ := posts_of_runAll h
    obtain ⟨s, hs, ha⟩ := hp.audits _ (audits_opening config visiting)
    have ht : b.trades = ts := hp.trades
    rw [ht]
    exact ⟨s, hs, ha.toDescribes, ha.executed⟩
  · intro op r b' hr
    obtain ⟨ts, hp⟩ := posts_of_run hr
    exact ⟨ts, hp.trades, hp.executed⟩

theorem replay_after_sale : ∃ b, (new .standard .oldestFirst).runAll
      [.buy "rain" .yes (.lit 50 2) (.lit 100 0) (.lit 1000 0), .reject "rain" .rejectBuy (.lit 50 2),
        .sellAll "rain" .yes (.lit 61 2) (.lit 7 0)] = .ok b ∧
    (∃ s, (Statement.opening (BrokerConfig.standard.startingCash)).replay b.trades = .ok s ∧ s.Describes b ∧
      s.executed = b.tradesExecuted) ∧
    ∀ (op : Operation) r b', op.run b = .ok r b' →
      ∃ ts, b'.trades = b.trades ++ ts ∧ b'.tradesExecuted = b.tradesExecuted + executedIn ts := by
  obtain ⟨b, hb⟩ := exists_of_isOk (x := (new .standard .oldestFirst).runAll
    [.buy "rain" .yes (.lit 50 2) (.lit 100 0) (.lit 1000 0), .reject "rain" .rejectBuy (.lit 50 2),
      .sellAll "rain" .yes (.lit 61 2) (.lit 7 0)]) (by decide +kernel)
  exact ⟨b, hb, replay_of_runAll hb⟩

end Broker
end OutcomeMarket
