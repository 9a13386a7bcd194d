import OutcomeMarket.Proofs.Account.Soundness

/-! Conservation of cash. The records say exactly how much cash has come and gone; the balance differs from that by
one rounding for each record that moved cash, and the roundings do not compound. -/
namespace OutcomeMarket

/-- Whether a record moves cash: all but the rejections do. -/
def TradeKind.movesCash (k : TradeKind) : Bool := k.isBuy || k.isSell || k.isResolution

namespace Broker

/-- What the purchases of a history have cost. -/
def spent (ts : List Trade) : ℚ := ((ts.filter (·.kind.isBuy)).map (·.value.toRat)).sum

/-- What the sales and settlements of a history have brought in. -/
def received (ts : List Trade) : ℚ :=
  ((ts.filter fun t => t.kind.isSell || t.kind.isResolution).map (·.value.toRat)).sum

/-- The number of records that move cash. -/
def cashMoves (ts : List Trade) : ℕ := ts.countP (·.kind.movesCash)

/-- The largest cash balance in a run, between its operations. -/
def peakCash (b : Broker) : List Operation → ℚ
  | [] => b.cash.toRat
  | op :: ops =>
    match op.run b with
    | .ok _ b' => Max.max b.cash.toRat (b'.peakCash ops)
    | .error _ b' => Max.max b.cash.toRat b'.cash.toRat

/-- How far the balance is from what the history makes of the cash at the start. -/
def drift (start : ℚ) (b : Broker) : ℚ := |b.cash.toRat - (start - spent b.trades + received b.trades)|

/-- The most that one rounding takes from a balance of at most `m` dollars. -/
def roundingLoss (m : ℚ) : ℚ := 1 / 10 ^ 28 * Max.max 1 m

variable {b b' u : Broker} {start m m' x y z : ℚ} {t : Trade}

theorem roundingLoss_mono (h : m ≤ m') : roundingLoss m ≤ roundingLoss m' := by
  unfold roundingLoss
  gcongr

theorem spent_append_single (ts : List Trade) (t : Trade) :
    spent (ts ++ [t]) = spent ts + if t.kind.isBuy then t.value.toRat else 0 := by
  unfold spent
  rw [List.filter_append, List.map_append, List.sum_append]
  congr 1
  cases h : t.kind.isBuy <;> simp [h]

theorem received_append_single (ts : List Trade) (t : Trade) :
    received (ts ++ [t]) = received ts + if t.kind.isSell || t.kind.isResolution then t.value.toRat else 0 := by
  unfold received
  rw [List.filter_append, List.map_append, List.sum_append]
  congr 1
  cases h : t.kind.isSell || t.kind.isResolution <;> simp [h]

theorem cashMoves_append_single (ts : List Trade) (t : Trade) :
    cashMoves (ts ++ [t]) = cashMoves ts + if t.kind.movesCash then 1 else 0 := by
  unfold cashMoves
  rw [List.countP_append]
  congr 1
  cases h : t.kind.movesCash <;> simp [h]

/-- From one account to another the drift grows by at most one rounding of `m` dollars for each record. -/
structure DriftsWithin (start m : ℚ) (b b' : Broker) : Prop where
  moves_le : cashMoves b.trades ≤ cashMoves b'.trades
  drift_le : b'.drift start ≤ b.drift start + (cashMoves b'.trades - cashMoves b.trades : ℕ) * roundingLoss m

/-- A rounded balance after one more movement. -/
theorem abs_sub_le_of_rounds {d : Decimal} (h : Decimal.Rounds (x + y) d) (hd : 0 ≤ d.toRat) :
    |d.toRat - (z + y)| ≤ |x - z| + roundingLoss d.toRat := by
  have hr := h.abs_sub_le
  rw [abs_of_nonneg hd] at hr
  have ht := abs_add_le (d.toRat - (x + y)) (x - z)
  have he : d.toRat - (x + y) + (x - z) = d.toRat - (z + y) := by ring
  rw [he] at ht
  unfold roundingLoss
  linarith

namespace DriftsWithin

theorem mono (h : DriftsWithin start m b b') (hm : m ≤ m') : DriftsWithin start m' b b' := by
  refine ⟨h.moves_le, h.drift_le.trans ?_⟩
  have hl := roundingLoss_mono hm
  gcongr

theorem trans (h : DriftsWithin start m b u) (h' : DriftsWithin start m u b') : DriftsWithin start m b b' := by
  refine ⟨h.moves_le.trans h'.moves_le, ?_⟩
  have hn : cashMoves b'.trades - cashMoves b.trades =
      (cashMoves u.trades - cashMoves b.trades) + (cashMoves b'.trades - cashMoves u.trades) := by
    have hbu := h.moves_le
    have hub := h'.moves_le
    omega
  rw [hn, Nat.cast_add, add_mul]
  linarith [h.drift_le, h'.drift_le]

theorem sameBooks (h : b.SameBooks b') : DriftsWithin start m b b' := by
  refine ⟨by rw [h.trades], ?_⟩
  unfold drift
  rw [h.cash, h.trades]
  simp

/-- One record that moves cash, by its value in or out. -/
theorem record (ht : b'.trades = b.trades ++ [t]) (hm : t.kind.movesCash = true)
    (hy : y = (if t.kind.isSell || t.kind.isResolution then t.value.toRat else 0) -
      if t.kind.isBuy then t.value.toRat else 0)
    (hr : Decimal.Rounds (b.cash.toRat + y) b'.cash) (hc : .zero ≤ b'.cash) :
    DriftsWithin start b'.cash.toRat b b' := by
  have hn : cashMoves b'.trades = cashMoves b.trades + 1 := by rw [ht, cashMoves_append_single, if_pos hm]
  refine ⟨by omega, ?_⟩
  have ha := abs_sub_le_of_rounds (z := start - spent b.trades + received b.trades) hr
    (Decimal.zero_le_iff_toRat.1 hc)
  have hz : start - spent b.trades + received b.trades + y =
      start - spent b'.trades + received b'.trades := by
    rw [ht, spent_append_single, received_append_single, hy]
    ring
  rw [hz] at ha
  rw [hn, Nat.add_sub_cancel_left, Nat.cast_one, one_mul]
  exact ha

theorem refusal (hc : b'.cash = b.cash) (ht : b'.trades = b.trades ++ [t])
    (hk : t.kind.isRejection = true) : DriftsWithin start m b b' := by
  have hb : t.kind.isBuy = false ∧ (t.kind.isSell || t.kind.isResolution) = false ∧
      t.kind.movesCash = false := by
    cases h : t.kind <;> simp [h, TradeKind.isRejection] at hk <;> decide
  have hn : cashMoves b'.trades = cashMoves b.trades := by simp [ht, cashMoves_append_single, hb.2.2]
  refine ⟨hn.ge, ?_⟩
  unfold drift
  rw [hn, hc, ht, spent_append_single, received_append_single, hb.1, hb.2.1]
  simp

theorem purchase (h : b.Sound) (hp : Purchase b b') : DriftsWithin start b'.cash.toRat b b' := by
  have hs := (h.purchase hp).cash_nonneg
  obtain @⟨asset, side, _, _, _, cash, fill, p, hq, hp, hc⟩ := hp
  have hr := Decimal.rounds_sub hc
  rw [sub_eq_add_neg] at hr
  refine record (y := -fill.value.toRat) rfl ?_ ?_ hr hs
  · cases side <;> rfl
  · cases side <;> simp [TradeKind.buyOf, TradeKind.isBuy, TradeKind.isSell, TradeKind.isResolution]

/-- A step that spends nothing keeps or raises the balance. -/
theorem credit (h : b.Sound) (hc : Credit FairOutcome b b') :
    DriftsWithin start b'.cash.toRat b b' ∧ b.cash ≤ b'.cash := by
  have hs := (h.credit hc).cash_nonneg
  cases hc with
  | noted hb => exact ⟨sameBooks hb, hb.cash ▸ Decimal.le_refl _⟩
  | @sold asset side _ rest cash _ fill hq hr hc =>
    refine ⟨record (y := fill.value.toRat) rfl ?_ ?_ (Decimal.rounds_add hc) hs,
      Decimal.le_add_right (quoteSell_value hq) hc⟩
    · cases side <;> rfl
    · cases side <;> simp [TradeKind.sellOf, TradeKind.isBuy, TradeKind.isSell, TradeKind.isResolution]
  | @settled asset side _ price net fee cash ha _ hp hset hc =>
    have hnet := settlement_nonneg h.config_valid (h.position_sound _ _) (priceFromYes_nonneg ha hp) hset
    refine ⟨record (y := net.toRat) rfl ?_ ?_ (Decimal.rounds_add hc) hs, Decimal.le_add_right hnet hc⟩
    · cases side <;> rfl
    · cases side <;> simp [TradeKind.resolveOf, TradeKind.isBuy, TradeKind.isSell, TradeKind.isResolution]
  | refused hk => exact ⟨refusal rfl rfl hk, Decimal.le_refl _⟩

/-- The balance rises over several steps that spend nothing, so the last one bounds every rounding. -/
theorem credits (h : b.Sound) (hc : Credits FairOutcome b b') : DriftsWithin start b'.cash.toRat b b' := by
  induction hc with
  | refl => exact sameBooks (.refl b)
  | tail hcs hc ih =>
    obtain ⟨hd, hle⟩ := credit (h.credits hcs) hc
    exact (ih.mono (Decimal.le_iff_toRat.1 hle)).trans hd

theorem moves (h : b.Sound) (hm : Moves FairOutcome b b') : DriftsWithin start b'.cash.toRat b b' := by
  cases hm with
  | purchase hb hp => exact (sameBooks hb).trans (purchase (h.sameBooks hb) hp)
  | credits hc => exact credits h hc

end DriftsWithin

theorem cash_le_peakCash (b : Broker) (ops : List Operation) : b.cash.toRat ≤ b.peakCash ops := by
  cases ops with
  | nil => exact le_rfl
  | cons op ops =>
    unfold peakCash
    split
    · exact le_sup_left
    · exact le_sup_left

theorem driftsWithin_of_runAll {ops : List Operation} (hs : b.Sound)
    (ho : ∀ op ∈ ops, op.SettlesWithin FairOutcome) (hr : b.runAll ops = .ok b') :
    DriftsWithin start (b.peakCash ops) b b' := by
  refine runAll_induction (motive := fun b ops b' => b.Sound →
    (∀ op ∈ ops, op.SettlesWithin FairOutcome) → DriftsWithin start (b.peakCash ops) b b') ?_ ?_ hr hs ho
  · exact fun b _ _ => .sameBooks (.refl b)
  · intro b op ops r u b' hu _ ih hs ho
    have hm := moves_of_run (ho op List.mem_cons_self) hu
    have hd : DriftsWithin start u.cash.toRat b u := .moves hs hm
    have hds := ih (hs.moves hm) fun op hop => ho op (List.mem_cons_of_mem _ hop)
    have hp : b.peakCash (op :: ops) = Max.max b.cash.toRat (u.peakCash ops) := by
      conv_lhs => unfold peakCash
      rw [hu]
    have hle : u.peakCash ops ≤ b.peakCash (op :: ops) := hp ▸ le_sup_right
    exact (hd.mono ((cash_le_peakCash u ops).trans hle)).trans (hds.mono hle)

/-- Cash is conserved up to one rounding of the balance for each record that moved cash. -/
theorem cash_conserved {config : BrokerConfig} {visiting : Visiting} {ops : List Operation} {b : Broker}
    (hv : config.validate = .ok ()) (ho : ∀ op ∈ ops, op.SettlesWithin FairOutcome)
    (hr : (new config visiting).runAll ops = .ok b) :
    |b.cash.toRat - (config.startingCash.toRat - spent b.trades + received b.trades)| ≤
      cashMoves b.trades * (1 / 10 ^ 28) * Max.max 1 ((new config visiting).peakCash ops) := by
  have hs := Sound.new (BrokerConfig.validate_eq_ok_iff.1 hv) visiting
  have hr : DriftsWithin config.startingCash.toRat ((new config visiting).peakCash ops) (new config visiting) b :=
    driftsWithin_of_runAll hs ho hr
  have hd := hr.drift_le
  have h0 : (new config visiting).drift config.startingCash.toRat = 0 := by simp [drift, new, spent, received]
  have hn : cashMoves (new config visiting).trades = 0 := rfl
  rw [h0, hn, zero_add, Nat.sub_zero] at hd
  rw [mul_assoc]
  exact hd

theorem cash_conserved_over_settlement : ∃ b, (new .standard .oldestFirst).runAll
      [.buy "rain" .no (.lit 50 2) (.lit 33 0) (.lit 90 0), .resolve "rain" .zero] = .ok b ∧
    |b.cash.toRat - (BrokerConfig.standard.startingCash.toRat - spent b.trades + received b.trades)| ≤
      cashMoves b.trades * (1 / 10 ^ 28) * Max.max 1 ((new .standard .oldestFirst).peakCash
        [.buy "rain" .no (.lit 50 2) (.lit 33 0) (.lit 90 0), .resolve "rain" .zero]) := by
  obtain ⟨b, hb⟩ := exists_of_isOk (x := (new .standard .oldestFirst).runAll
    [.buy "rain" .no (.lit 50 2) (.lit 33 0) (.lit 90 0), .resolve "rain" .zero]) (by decide +kernel)
  exact ⟨b, hb, cash_conserved rfl (by decide) hb⟩

end Broker
end OutcomeMarket
