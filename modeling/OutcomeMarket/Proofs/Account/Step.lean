import Mathlib.Logic.Relation
import OutcomeMarket.Proofs.Account.Booking

/-! The steps of which every operation is made. Each either posts one record and moves what the record says, or
leaves the books alone and changes prices, the clock, the extremes of equity or the count of executed trades. A buy
spends cash once; no other operation spends any. -/
namespace OutcomeMarket

/-- Whether every outcome that the operation settles at is admitted. -/
def Operation.SettlesWithin (admits : Decimal → Prop) : Operation → Prop
  | resolve _ outcome => admits outcome
  | _ => True

instance (admits : Decimal → Prop) [DecidablePred admits] : DecidablePred (Operation.SettlesWithin admits)
  | .resolve _ outcome => inferInstanceAs (Decidable (admits outcome))
  | .buy .. | .sellAll .. | .liquidate .. | .reject .. | .setClock _ | .setPrice .. | .markEquity =>
    inferInstanceAs (Decidable True)

theorem Operation.settlesWithin_true (op : Operation) : op.SettlesWithin fun _ => True := by cases op <;> trivial

namespace Broker

/-- Two accounts with the same books: all but prices, clock, extremes and the count of executed trades. -/
structure SameBooks (b b' : Broker) : Prop where
  config : b'.config = b.config
  cash : b'.cash = b.cash
  ledger : b'.ledger = b.ledger
  trades : b'.trades = b.trades
  actions : b'.actions = b.actions
  wins : b'.wins = b.wins
  losses : b'.losses = b.losses

/-- A step that spends cash. -/
inductive Purchase (b : Broker) : Broker → Prop where
  | bought {asset : String} {side : OutcomeSide} {quote dollars available cash : Decimal} {fill : Fill}
      {p : Position} (hq : b.quoteBuy side quote dollars available = .ok (some fill))
      (hp : (b.position asset side).bought fill.shares fill.value = .ok p)
      (hc : b.cash.sub fill.value = .ok cash) : Purchase b (b.withPurchase asset side fill p cash)

/-- A step that brings cash in or leaves it as it is. -/
inductive Credit (admits : Decimal → Prop) (b : Broker) : Broker → Prop where
  | noted {b' : Broker} (h : b.SameBooks b') : Credit admits b b'
  | sold {asset : String} {side : OutcomeSide} {quote rest cash : Decimal} {limit : Option Decimal}
      {fill : Fill} (hq : b.quoteSell asset side quote limit = .ok (some fill))
      (hr : (b.position asset side).shares.sub fill.shares = .ok rest)
      (hc : b.cash.add fill.value = .ok cash) : Credit admits b (b.withSale asset side fill rest cash)
  | settled {asset : String} {side : OutcomeSide} {outcome price net fee cash : Decimal} (ha : admits outcome)
      (h0 : .zero < (b.position asset side).shares) (hp : side.priceFromYes outcome = .ok price)
      (hs : b.settlement (b.position asset side) price = .ok (net, fee)) (hc : b.cash.add net = .ok cash) :
      Credit admits b (b.withSettlement asset side price net fee cash)
  | refused {asset : String} {kind : TradeKind} {price : Decimal} (hk : kind.isRejection = true) :
      Credit admits b (b.withRecord asset kind price .zero .zero .zero)

/-- Any number of steps that spend nothing. -/
abbrev Credits (admits : Decimal → Prop) : Broker → Broker → Prop := Relation.ReflTransGen (Credit admits)

/-- What an operation does: one purchase, or steps that spend nothing. -/
inductive Moves (admits : Decimal → Prop) (b b' : Broker) : Prop where
  | purchase {u : Broker} (h : b.SameBooks u) (hp : Purchase u b')
  | credits (h : Credits admits b b')

variable {admits : Decimal → Prop} {b b' u : Broker} {asset : String} {side : OutcomeSide}
  {quote dollars available price outcome n : Decimal} {limit : Option Decimal} {op : Operation}

theorem SameBooks.refl (b : Broker) : b.SameBooks b := ⟨rfl, rfl, rfl, rfl, rfl, rfl, rfl⟩

theorem SameBooks.trans (h : b.SameBooks u) (h' : u.SameBooks b') : b.SameBooks b' :=
  ⟨h'.config.trans h.config, h'.cash.trans h.cash, h'.ledger.trans h.ledger, h'.trades.trans h.trades,
    h'.actions.trans h.actions, h'.wins.trans h.wins, h'.losses.trans h.losses⟩

theorem SameBooks.position_eq (h : b.SameBooks b') (asset : String) (side : OutcomeSide) :
    b'.position asset side = b.position asset side := by
  unfold position
  rw [h.ledger]

theorem sameBooks_counted (b : Broker) : b.SameBooks { b with tradesExecuted := b.tradesExecuted + 1 } :=
  ⟨rfl, rfl, rfl, rfl, rfl, rfl, rfl⟩

theorem sameBooks_withPrice (b : Broker) (asset : String) (price : Decimal) :
    b.SameBooks (b.withPrice asset price) := ⟨rfl, rfl, rfl, rfl, rfl, rfl, rfl⟩

theorem sameBooks_of_markEquity (h : markEquity b = .ok n b') : b.SameBooks b' := by
  obtain ⟨_, _, _, rfl⟩ := markEquity_eq_ok_iff.1 h
  exact ⟨rfl, rfl, rfl, rfl, rfl, rfl, rfl⟩

theorem tradesExecuted_of_markEquity (h : markEquity b = .ok n b') : b'.tradesExecuted = b.tradesExecuted := by
  obtain ⟨_, _, _, rfl⟩ := markEquity_eq_ok_iff.1 h
  rfl

theorem credits_withPrice (b : Broker) (asset : String) (price : Decimal) :
    Credits admits b (b.withPrice asset price) := .single (.noted (sameBooks_withPrice b asset price))

theorem moves_of_buy (h : buy asset side quote dollars available b = .ok n b') : Moves admits b b' := by
  obtain rfl | ⟨fill, hq, hb⟩ := buy_eq_ok h
  · exact .credits (credits_withPrice b asset quote)
  · obtain ⟨p, cash, hp, hc, _, rfl⟩ := bookBuy_eq_ok_iff.1 hb
    exact .purchase (sameBooks_withPrice b asset quote) (.bought hq hp hc)

theorem credits_of_sell (h : sell asset side quote limit b = .ok n b') : Credits admits b b' := by
  have hn : Credits admits b (b.withPrice asset quote) := credits_withPrice b asset quote
  obtain rfl | ⟨fill, hq, hb⟩ := sell_eq_ok h
  · exact hn
  · obtain ⟨rest, cash, _, hr, _, hc, hm⟩ := bookSell_eq_ok_iff.1 hb
    exact (hn.tail (.sold hq hr hc)).tail (.noted (sameBooks_of_markEquity hm))

theorem credits_of_resolveSide (ha : admits outcome) {r : Option Decimal}
    (h : resolveSide asset outcome side b = .ok r b') : Credits admits b b' := by
  obtain ⟨_, _, rfl⟩ | ⟨price, net, fee, cash, h0, hp, hs, hc, _, rfl⟩ := resolveSide_eq_ok h
  · exact .refl
  · exact .single (.settled ha h0 hp hs hc)

theorem credits_of_resolve (ha : admits outcome) (h : resolve asset outcome b = .ok n b') :
    Credits admits b b' := by
  obtain ⟨yes, u, no, v, hy, hn, hv⟩ := resolve_eq_ok h
  have hp : Credits admits b (b.withPrice asset outcome) := credits_withPrice b asset outcome
  have hs : Credits admits b v := (hp.trans (credits_of_resolveSide ha hy)).trans (credits_of_resolveSide ha hn)
  obtain ⟨_, _, rfl⟩ | ⟨_, equity, hm⟩ := hv
  · exact hs
  · exact (hs.tail (.noted (sameBooks_counted v))).tail (.noted (sameBooks_of_markEquity hm))

theorem moves_of_run {r : Option Decimal} (ha : op.SettlesWithin admits) (h : op.run b = .ok r b') :
    Moves admits b b' := by
  cases op with
  | buy asset side quote dollars available =>
    obtain ⟨n, hb, _⟩ := run_map_eq_ok_iff.1 h
    exact moves_of_buy hb
  | sellAll asset side quote available =>
    obtain ⟨n, hs, _⟩ := run_map_eq_ok_iff.1 h
    obtain ⟨limit, _, hs⟩ := sellAll_eq_ok_iff.1 hs
    exact .credits (credits_of_sell hs)
  | liquidate asset quote =>
    obtain ⟨n, hl, _⟩ := run_map_eq_ok_iff.1 h
    obtain ⟨yes, u, no, hy, hn⟩ := liquidate_eq_ok hl
    exact .credits ((credits_of_sell hy).trans (credits_of_sell hn))
  | resolve asset outcome =>
    obtain ⟨n, hr, _⟩ := run_map_eq_ok_iff.1 h
    exact .credits (credits_of_resolve ha hr)
  | reject asset kind price =>
    obtain ⟨_, u, hr, hu⟩ := run_bind_eq_ok_iff.1 h
    obtain ⟨hk, rfl⟩ := reject_eq_ok hr
    obtain ⟨_, rfl⟩ := run_pure_eq_ok_iff.1 hu
    exact .credits (.single (.refused hk))
  | setClock now =>
    obtain ⟨_, rfl⟩ := run_pure_eq_ok_iff.1 h
    exact .credits (.single (.noted ⟨rfl, rfl, rfl, rfl, rfl, rfl, rfl⟩))
  | setPrice asset price =>
    obtain ⟨_, rfl⟩ := run_pure_eq_ok_iff.1 h
    exact .credits (credits_withPrice b asset price)
  | markEquity =>
    obtain ⟨n, hm, _⟩ := run_map_eq_ok_iff.1 h
    exact .credits (.single (.noted (sameBooks_of_markEquity hm)))

/-- What every operation keeps, a run keeps. -/
theorem runAll_induction {motive : Broker → List Operation → Broker → Prop} (nil : ∀ b, motive b [] b)
    (cons : ∀ b op ops r u b', op.run b = .ok r u → u.runAll ops = .ok b' → motive u ops b' →
      motive b (op :: ops) b') {ops : List Operation} (h : b.runAll ops = .ok b') : motive b ops b' := by
  induction ops generalizing b with
  | nil =>
    cases h
    exact nil _
  | cons op ops ih =>
    unfold runAll at h
    cases hr : op.run b with
    | error f u =>
      rw [hr] at h
      cases h
    | ok r u =>
      rw [hr] at h
      exact cons b op ops r u b' hr h (ih h)

end Broker
end OutcomeMarket
