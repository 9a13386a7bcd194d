import OutcomeMarket.Proofs.Account.Mirror

/-! What a buy fills. A buy looks at the cash twice: first at the dollars that it is given, then at the cost of the
shares that they pay for, which may have been rounded above the cash. The second look never changes the fill. What the
cash pays for is then the same number of shares, perhaps in another form, and only what is spent is capped. -/
namespace OutcomeMarket

/-- Two computations that end alike: with the same error, or with results that correspond. -/
inductive Agrees {ε α β : Type} (R : α → β → Prop) : Except ε α → Except ε β → Prop where
  | ok {a : α} {b : β} (h : R a b) : Agrees R (.ok a) (.ok b)
  | error (e : ε) : Agrees R (.error e) (.error e)

theorem Agrees.bind {ε α β γ : Type} {R : β → γ → Prop} {x : Except ε α} {f : α → Except ε β} {g : α → Except ε γ}
    (h : ∀ a, x = .ok a → Agrees R (f a) (g a)) : Agrees R (x >>= f) (x >>= g) := by
  cases x with
  | ok a => exact h a rfl
  | error e => exact .error e

theorem Agrees.ite {ε α β : Type} {R : α → β → Prop} {p : Prop} [Decidable p] {a : α} {b : β} {x : Except ε α}
    {y : Except ε β} (h : R a b) (h' : ¬ p → Agrees R x y) :
    Agrees R (if p then pure a else x) (if p then pure b else y) := by
  by_cases hp : p
  · rw [if_pos hp, if_pos hp]
    exact .ok h
  · rw [if_neg hp, if_neg hp]
    exact h' hp

namespace Decimal

variable {cash dollars price desired wanted cost : Decimal}

/-- If a number of shares that the dollars pay for costs more than the cash, which is as much as the dollars, then the
cost was rounded up, and the cash pays for that number of shares too. -/
theorem exists_div_of_lt_cost (h0 : zero ≤ dollars) (hd : dollars ≤ cash) (hp : zero < price)
    (hq : dollars.div price = .ok desired) (hw : wanted ≤ desired) (hc : wanted.mul price = .ok cost)
    (hlt : cash < cost) : ∃ again, cash.div price = .ok again ∧ SameValue again wanted := by
  rw [le_iff_toRat] at hd hw
  rw [zero_le_iff_toRat] at h0
  have hp0 := zero_lt_iff_toRat.1 hp
  -- the exact cost is above the cash already, since rounding does not cross a decimal
  have hcost : cash.toRat < wanted.toRat * price.toRat := by
    by_contra hle
    have hle' : cost ≤ cash := le_iff_toRat.2 ((rounds_mul hc).le_of_le (le_of_not_gt hle))
    exact absurd hle' (not_le.2 hlt)
  have hquot : cash.toRat / price.toRat ≤ wanted.toRat := ((div_lt_iff₀ hp0).2 hcost).le
  have hquot0 : 0 ≤ cash.toRat / price.toRat := div_nonneg (h0.trans hd) hp0.le
  have hfits : Fits (cash.toRat / price.toRat) := by
    apply fits_of_abs_le
    rw [abs_of_nonneg hquot0]
    exact hquot.trans ((le_abs_self _).trans (abs_toRat_le wanted))
  obtain ⟨again, ha⟩ := (exists_div_iff (isZero_of_pos hp)).2 hfits
  have hr := rounds_div ha
  refine ⟨again, ha, sameValue_iff_toRat.2 (le_antisymm (hr.le_of_le hquot) (hw.trans ?_))⟩
  refine (rounds_div hq).mono hr ?_
  gcongr

end Decimal

namespace Broker

/-- What a buy would be worked out to without the second look at the cash: as many shares as the dollars pay for, no
more than the cap, for their cost or all the cash. -/
def quotePlainly (b : Broker) (side : OutcomeSide) (quote dollars available : Decimal) :
    Decimal.Checked (Option Fill) := do
  if dollars ≤ minOrderDollars ∨ b.cash < dollars then return none
  let price ← b.buyPrice side quote
  if price ≤ .zero then return none
  let desired ← dollars.div price
  let most ← b.cap available
  let shares := desired.min most
  let cost ← shares.mul price
  if shares ≤ .zero then return none
  return some ⟨price, shares, cost.min b.cash⟩

/-- A buy ends as was worked out: it fails at once, fills nothing, or books a fill of these values. If that can be
booked, the buy answers its shares, pays its value out of the cash, and leaves a record of it. -/
def BuysAs (b : Broker) (asset : String) (side : OutcomeSide) (quote dollars available : Decimal) :
    Decimal.Checked (Option Fill) → Prop
  | .error c => buy asset side quote dollars available b = .error (.arithmetic c) (b.withPrice asset quote)
  | .ok none => buy asset side quote dollars available b = .ok .zero (b.withPrice asset quote)
  | .ok (some plain) => ∃ fill : Fill, fill.SameValue plain ∧
      buy asset side quote dollars available b =
        ((fun _ => fill.shares) <$> bookBuy asset side fill) (b.withPrice asset quote) ∧
      ∀ n b', buy asset side quote dollars available b = .ok n b' → n = fill.shares ∧
        b.cash.sub fill.value = .ok b'.cash ∧
        b'.trades = b.trades ++ [⟨asset, b.clock, .buyOf side, fill.price, fill.shares, fill.value, .zero⟩]

variable {b : Broker} {asset : String} {side : OutcomeSide} {quote dollars available price desired most cost : Decimal}

theorem Fill.SameValue.refl (fill : Fill) : fill.SameValue fill := ⟨.refl _, .refl _, .refl _⟩

/-- Where the second look at the cash finds too little, it finds enough for the same shares. -/
theorem exists_recheck (hd : .zero ≤ dollars) (hc : dollars ≤ b.cash) (hp : .zero < price)
    (hq : dollars.div price = .ok desired) (hcost : (desired.min most).mul price = .ok cost) (hlt : b.cash < cost) :
    ∃ again, b.cash.div price = .ok again ∧ again.SameValue (desired.min most) :=
  Decimal.exists_div_of_lt_cost hd hc hp hq (Decimal.min_le_left _ _) hcost hlt

theorem agrees_quoteBuy (hd : .zero ≤ dollars) :
    Agrees (Option.Rel Fill.SameValue) (b.quoteBuy side quote dollars available)
      (b.quotePlainly side quote dollars available) := by
  unfold quoteBuy quotePlainly
  refine .ite .none fun hskip => .bind fun price hp => .ite .none fun hfree => ?_
  refine .bind fun desired hq => .bind fun most hm => .bind fun cost hcost => ?_
  simp only [not_or, Decimal.not_le, Decimal.not_lt] at hskip hfree
  by_cases hlt : b.cash < cost
  · obtain ⟨again, ha, hsame⟩ := exists_recheck hd hskip.2 hfree hq hcost hlt
    obtain ⟨worth, hw, hworth⟩ := Decimal.carries_mul hsame.symm (.refl price) cost hcost
    rw [if_pos hlt, ha]
    change Agrees _ (if again ≤ .zero then pure none else again.mul price >>= _) _
    rw [hw]
    by_cases h0 : again ≤ .zero
    · rw [if_pos h0, if_pos ((Decimal.le_congr hsame (.refl _)).1 h0)]
      exact .ok .none
    · rw [if_neg h0, if_neg (mt (Decimal.le_congr hsame (.refl _)).2 h0)]
      exact .ok (.some ⟨.refl _, hsame, Decimal.min_congr hworth.symm (.refl _)⟩)
  · rw [if_neg hlt]
    refine .ite .none fun _ => ?_
    rw [hcost]
    exact .ok (.some (.refl _))

/-- What a buy is worked out to, and what it would be without the second look at the cash. -/
theorem exists_plain_of_quoteBuy {filled : Option Fill} (hd : .zero ≤ dollars)
    (h : b.quoteBuy side quote dollars available = .ok filled) :
    ∃ plain, b.quotePlainly side quote dollars available = .ok plain ∧ Option.Rel Fill.SameValue filled plain := by
  have ha : Agrees (Option.Rel Fill.SameValue) (b.quoteBuy side quote dollars available)
      (b.quotePlainly side quote dollars available) := agrees_quoteBuy hd
  rw [h] at ha
  generalize b.quotePlainly side quote dollars available = x at ha
  cases ha with
  | ok hr => exact ⟨_, rfl, hr⟩

theorem quotePlainly_eq_some {plain : Fill} (h : b.quotePlainly side quote dollars available = .ok (some plain)) :
    minOrderDollars < dollars ∧ dollars ≤ b.cash ∧ b.buyPrice side quote = .ok plain.price ∧ .zero < plain.price ∧
      ∃ desired most cost, dollars.div plain.price = .ok desired ∧ b.cap available = .ok most ∧
        plain.shares = desired.min most ∧ plain.shares.mul plain.price = .ok cost ∧ plain.value = cost.min b.cash := by
  unfold quotePlainly at h
  obtain ⟨hd, h⟩ := ite_pure_none_eq_some h
  simp only [not_or, Decimal.not_le, Decimal.not_lt] at hd
  obtain ⟨price, hp, h⟩ := OutcomeMarket.bind_eq_ok_iff.1 h
  obtain ⟨h0, h⟩ := ite_pure_none_eq_some h
  simp only [OutcomeMarket.bind_eq_ok_iff] at h
  obtain ⟨desired, hdesired, most, hmost, cost, hcost, h⟩ := h
  obtain ⟨-, h⟩ := ite_pure_none_eq_some h
  cases h
  exact ⟨hd.1, hd.2, hp, Decimal.not_le.1 h0, desired, most, cost, hdesired, hmost, rfl, hcost, rfl⟩

theorem buysAs_of_agrees {plain : Decimal.Checked (Option Fill)} (hd : .zero ≤ dollars) (ha : .zero ≤ available)
    (h : Agrees (Option.Rel Fill.SameValue) ((b.withPrice asset quote).quoteBuy side quote dollars available) plain) :
    b.BuysAs asset side quote dollars available plain := by
  unfold BuysAs
  rw [run_buy hd ha]
  generalize (b.withPrice asset quote).quoteBuy side quote dollars available = filled at h
  cases h with
  | error c => rfl
  | ok hr =>
    cases hr with
    | none => rfl
    | some hf =>
      refine ⟨_, hf, rfl, fun n b' hb => ?_⟩
      obtain ⟨u, hbook, rfl⟩ := run_map_eq_ok_iff.1 hb
      obtain ⟨p, cash, -, hcash, -, rfl⟩ := bookBuy_eq_ok_iff.1 hbook
      exact ⟨rfl, hcash, rfl⟩

/-- A buy of so many dollars fills the shares that they pay for, up to the cap, whatever the cost is rounded to. -/
theorem buysAs_quotePlainly (hd : .zero ≤ dollars) (ha : .zero ≤ available) :
    b.BuysAs asset side quote dollars available (b.quotePlainly side quote dollars available) ∧
    ∀ price desired most cost, b.buyPrice side quote = .ok price → .zero < price → dollars ≤ b.cash →
      dollars.div price = .ok desired → b.cap available = .ok most → (desired.min most).mul price = .ok cost →
      b.cash < cost → ∃ again, b.cash.div price = .ok again ∧ again.SameValue (desired.min most) :=
  ⟨buysAs_of_agrees hd ha (agrees_quoteBuy hd),
    fun _ _ _ _ _ hp hc hq _ hcost hlt => exists_recheck hd hc hp hq hcost hlt⟩

/-- All of the cash for shares whose cost is rounded above it. -/
theorem buysAs_with_all_cash : ∃ (b : Broker) (plain : Fill) (cost : Decimal),
    b = new { BrokerConfig.standard with startingCash := .lit 790 0, spreadPenalty := .zero } .oldestFirst ∧
    b.quotePlainly .yes (.lit 97 2) (.lit 790 0) (.lit 1000 0) = .ok (some plain) ∧
    plain.shares.mul plain.price = .ok cost ∧ b.cash < cost ∧
    b.BuysAs "rain" .yes (.lit 97 2) (.lit 790 0) (.lit 1000 0) (.ok (some plain)) := by
  refine ⟨_, ⟨.lit 97 2, .lit 8144329896907216494845360825 25, .lit 790 0⟩, .lit 79000000000000000000000000002 26,
    rfl, ?_⟩
  have hq : (new { BrokerConfig.standard with startingCash := .lit 790 0, spreadPenalty := .zero }
      .oldestFirst).quotePlainly .yes (.lit 97 2) (.lit 790 0) (.lit 1000 0) =
      .ok (some ⟨.lit 97 2, .lit 8144329896907216494845360825 25, .lit 790 0⟩) := by decide +kernel
  refine ⟨hq, by decide +kernel, by decide +kernel, ?_⟩
  rw [← hq]
  exact (buysAs_quotePlainly (by decide) (by decide)).1

end Broker
end OutcomeMarket
