import OutcomeMarket.Proofs.Account.Step

/-! The extremes of equity as the history of all marks tells them. An account keeps two numbers and forgets the
equities that they came from; the peak is still the highest of them all, and the drawdown the deepest fall, in parts
of the peak of its time. Equity is marked after a sale that filled, after a settlement that settled something, and
on demand, and nowhere else. -/
namespace OutcomeMarket

namespace Decimal

/-- The highest of a start and the numbers that follow it. -/
def highest (start : Decimal) (es : List Decimal) : Decimal := es.foldl max start

variable {start e : Decimal} {es : List Decimal}

theorem highest_snoc : highest start (es ++ [e]) = (highest start es).max e := List.foldl_append

end Decimal

namespace Broker

/-- What the account is worth, if that can be told. -/
def worth? (b : Broker) : Option Decimal := b.value.toOption

/-- The equity that a sale marks: the worth of the account it leaves, if it filled anything. -/
def soldBy (b : Broker) (sale : BrokerM Decimal) : Option Decimal :=
  match sale b with
  | .ok n b' => if .zero < n then b'.worth? else none
  | .error _ _ => none

/-- Whether there are shares on some side of an asset. -/
def Holds (b : Broker) (asset : String) : Prop :=
  .zero < (b.position asset .yes).shares ∨ .zero < (b.position asset .no).shares

instance (b : Broker) (asset : String) : Decidable (b.Holds asset) := inferInstanceAs (Decidable (_ ∨ _))

end Broker

/-- The equities that an operation marks, in order. -/
def Operation.marks (b : Broker) : Operation → List Decimal
  | sellAll asset side quote available => (b.soldBy (Broker.sellAll asset side quote available)).toList
  | liquidate asset quote =>
    let yes := Broker.sell asset .yes quote none
    (b.soldBy yes).toList ++ ((after yes b).soldBy (Broker.sell asset .no quote none)).toList
  | resolve asset outcome =>
    if b.Holds asset then (after (Broker.resolve asset outcome) b).worth?.toList else []
  | markEquity => b.worth?.toList
  | buy .. | reject .. | setClock _ | setPrice .. => []

namespace Broker

/-- The equities that a run marks, in order. -/
def runMarks (b : Broker) : List Operation → List Decimal
  | [] => []
  | op :: ops => op.marks b ++ runMarks (after op.run b) ops

/-- The peak and the drawdown after one more mark. -/
def extend (x : Decimal × Decimal) (equity : Decimal) : Decimal.Checked (Decimal × Decimal) := do
  let peak := x.1.max equity
  let fall ← drawdown peak equity
  return (peak, x.2.max fall)

/-- From one account to another these equities were marked, in this order: one for each executed trade, and `k` on
demand. -/
structure Marked (es : List Decimal) (k : ℕ) (b b' : Broker) : Prop where
  extremes : es.foldlM extend (b.peakEquity, b.maxDrawdown) = .ok (b'.peakEquity, b'.maxDrawdown)
  count : b.tradesExecuted + es.length = b'.tradesExecuted + k

variable {b b' u v : Broker} {es fs : List Decimal} {k l : ℕ} {asset : String} {side : OutcomeSide} {op : Operation}
  {quote dollars available price outcome n e peak fall : Decimal} {limit : Option Decimal}

theorem extend_eq_ok_iff {x y : Decimal × Decimal} : extend x e = .ok y ↔
    ∃ fall, drawdown (x.1.max e) e = .ok fall ∧ (x.1.max e, x.2.max fall) = y := by
  simp only [extend, OutcomeMarket.bind_eq_ok_iff, pure_eq_ok_iff]

theorem foldlM_extend_cons {x y : Decimal × Decimal} : (e :: es).foldlM extend x = .ok y ↔
    ∃ fall, drawdown (x.1.max e) e = .ok fall ∧ es.foldlM extend (x.1.max e, x.2.max fall) = .ok y := by
  rw [List.foldlM_cons, OutcomeMarket.bind_eq_ok_iff]
  constructor
  · rintro ⟨z, hz, h⟩
    obtain ⟨fall, hf, rfl⟩ := extend_eq_ok_iff.1 hz
    exact ⟨fall, hf, h⟩
  · rintro ⟨fall, hf, h⟩
    exact ⟨_, extend_eq_ok_iff.2 ⟨fall, hf, rfl⟩, h⟩

/-- What leaves the extremes and the count alone marks nothing. -/
theorem marked_nil (hp : b'.peakEquity = b.peakEquity) (hd : b'.maxDrawdown = b.maxDrawdown)
    (he : b'.tradesExecuted = b.tradesExecuted) : Marked [] 0 b b' := by
  refine ⟨?_, he.symm⟩
  rw [hp, hd]
  rfl

theorem Marked.trans (h : Marked es k b u) (h' : Marked fs l u b') : Marked (es ++ fs) (k + l) b b' := by
  refine ⟨?_, ?_⟩
  · rw [List.foldlM_append, h.extremes]
    exact h'.extremes
  · have hc := h.count
    have hc' := h'.count
    rw [List.length_append]
    omega

/-- The mark of a trade that was counted before it is not one on demand. -/
theorem Marked.counted (h : Marked es (k + 1) u b') (hp : u.peakEquity = b.peakEquity)
    (hd : u.maxDrawdown = b.maxDrawdown) (he : u.tradesExecuted = b.tradesExecuted + 1) : Marked es k b b' := by
  obtain ⟨hx, hc⟩ := h
  rw [hp, hd] at hx
  rw [he] at hc
  exact ⟨hx, by omega⟩

/-- Extremes have no part in what an account is worth. -/
theorem value_withExtremes (b : Broker) (peak fall : Decimal) : (b.withExtremes peak fall).value = b.value := rfl

/-- One mark, of the worth that the account has before it and after it. -/
theorem marked_of_markEquity (h : markEquity b = .ok e b') :
    Marked [e] 1 b b' ∧ b.value = .ok e ∧ b'.value = .ok e := by
  obtain ⟨fall, hv, hf, rfl⟩ := markEquity_eq_ok_iff.1 h
  refine ⟨⟨foldlM_extend_cons.2 ⟨fall, hf, rfl⟩, rfl⟩, hv, ?_⟩
  rw [value_withExtremes]
  exact hv

theorem worth?_of_ok (h : b.value = .ok e) : b.worth? = some e := by
  unfold worth?
  rw [h]
  rfl

theorem marked_of_buy (h : buy asset side quote dollars available b = .ok n b') : Marked [] 0 b b' := by
  obtain rfl | ⟨fill, -, hb⟩ := buy_eq_ok h
  · exact marked_nil rfl rfl rfl
  · obtain ⟨p, cash, -, -, -, rfl⟩ := bookBuy_eq_ok_iff.1 hb
    exact marked_nil rfl rfl rfl

/-- A sale that fills marks once, and one that does not fill marks nothing. -/
theorem marked_of_sell (h : sell asset side quote limit b = .ok n b') :
    Marked (if .zero < n then b'.worth? else none).toList 0 b b' := by
  obtain ⟨rfl, rfl⟩ | ⟨fill, rfl, hq, hb⟩ := filled_of_sell h
  · have h0 : ¬ Decimal.zero < .zero := by decide
    rw [if_neg h0]
    exact marked_nil rfl rfl rfl
  · obtain ⟨-, h0, -, -⟩ := quoteSell_eq_some hq
    obtain ⟨rest, cash, equity, -, -, -, hm⟩ := bookSell_eq_ok_iff.1 hb
    obtain ⟨hmark, -, hv⟩ := marked_of_markEquity hm
    rw [if_pos h0, worth?_of_ok hv]
    exact hmark.counted rfl rfl rfl

theorem soldBy_of_ok {sale : BrokerM Decimal} (h : sale b = .ok n b') :
    b.soldBy sale = if .zero < n then b'.worth? else none := by
  unfold soldBy
  rw [h]

theorem marked_of_sale {sale : BrokerM Decimal} (hs : sell asset side quote limit b = .ok n b')
    (h : sale b = .ok n b') : Marked (b.soldBy sale).toList 0 b b' := by
  rw [soldBy_of_ok h]
  exact marked_of_sell hs

/-- Settling a side leaves the other one and the extremes alone; something is settled if there are shares. -/
theorem resolveSide_frame {r : Option Decimal} (h : resolveSide asset outcome side b = .ok r b') :
    (r.isSome ↔ .zero < (b.position asset side).shares) ∧ Marked [] 0 b b' ∧
      b'.position asset side.opposite = b.position asset side.opposite := by
  obtain ⟨h0, rfl, rfl⟩ | ⟨price, net, fee, cash, h0, -, -, -, rfl, rfl⟩ := resolveSide_eq_ok h
  · refine ⟨?_, marked_nil rfl rfl rfl, rfl⟩
    simpa using Decimal.not_lt.2 h0
  · refine ⟨iff_of_true rfl h0, marked_nil rfl rfl rfl, ?_⟩
    exact Ledger.get_set_of_ne _ (.inr (by cases side <;> decide)) _

theorem marked_of_resolve (h : resolve asset outcome b = .ok n b') :
    Marked (if b.Holds asset then b'.worth?.toList else []) 0 b b' := by
  obtain ⟨yes, u, no, v, hy, hn, hv⟩ := resolve_eq_ok h
  obtain ⟨hyes, hu, hother⟩ := resolveSide_frame hy
  obtain ⟨hno, hv', -⟩ := resolveSide_frame hn
  have hkept : u.position asset .no = b.position asset .no := hother
  rw [hkept] at hno
  have hyes : yes.isSome ↔ .zero < (b.position asset .yes).shares := hyes
  have hsides : Marked [] 0 (b.withPrice asset outcome) v := hu.trans hv'
  have hsides : Marked [] 0 b v := ⟨hsides.extremes, hsides.count⟩
  obtain ⟨rfl, rfl, rfl⟩ | ⟨hs, equity, hm⟩ := hv
  · have hflat : ¬ b.Holds asset := by
      rintro (hp | hp)
      · exact absurd (hyes.2 hp) (by simp)
      · exact absurd (hno.2 hp) (by simp)
    rw [if_neg hflat]
    exact hsides
  · obtain ⟨hmark, -, hval⟩ := marked_of_markEquity hm
    have hholds : b.Holds asset := hs.imp hyes.1 hno.1
    rw [if_pos hholds, worth?_of_ok hval]
    exact hsides.trans (hmark.counted rfl rfl rfl)

/-- Whether an operation is a mark on demand. -/
def demands (op : Operation) : ℕ := if op = .markEquity then 1 else 0

/-- An operation marks what it is said to mark. -/
theorem marked_of_run {r : Option Decimal} (h : op.run b = .ok r b') : Marked (op.marks b) (demands op) b b' := by
  cases op with
  | buy asset side quote dollars available =>
    obtain ⟨n, hb, -⟩ := run_map_eq_ok_iff.1 h
    exact marked_of_buy hb
  | sellAll asset side quote available =>
    obtain ⟨n, hs, -⟩ := run_map_eq_ok_iff.1 h
    obtain ⟨limit, -, hsell⟩ := sellAll_eq_ok_iff.1 hs
    exact marked_of_sale hsell hs
  | liquidate asset quote =>
    obtain ⟨n, hl, -⟩ := run_map_eq_ok_iff.1 h
    obtain ⟨yes, u, no, hy, hn⟩ := liquidate_eq_ok hl
    dsimp only [Operation.marks]
    rw [after_of_ok hy]
    exact (marked_of_sale hy hy).trans (marked_of_sale hn hn)
  | resolve asset outcome =>
    obtain ⟨n, hr, -⟩ := run_map_eq_ok_iff.1 h
    dsimp only [Operation.marks]
    rw [after_of_ok hr]
    exact marked_of_resolve hr
  | reject asset kind price =>
    obtain ⟨_, u, hr, hu⟩ := run_bind_eq_ok_iff.1 h
    obtain ⟨-, rfl⟩ := reject_eq_ok hr
    obtain ⟨-, rfl⟩ := run_pure_eq_ok_iff.1 hu
    exact marked_nil rfl rfl rfl
  | setClock now =>
    obtain ⟨-, rfl⟩ := run_pure_eq_ok_iff.1 h
    exact marked_nil rfl rfl rfl
  | setPrice asset price =>
    obtain ⟨-, rfl⟩ := run_pure_eq_ok_iff.1 h
    exact marked_nil rfl rfl rfl
  | markEquity =>
    obtain ⟨n, hm, -⟩ := run_map_eq_ok_iff.1 h
    obtain ⟨hmark, hv, -⟩ := marked_of_markEquity hm
    have hw : Operation.markEquity.marks b = [n] := congrArg Option.toList (worth?_of_ok hv)
    rw [hw]
    exact hmark

theorem marked_of_runAll {ops : List Operation} (h : b.runAll ops = .ok b') :
    Marked (b.runMarks ops) (ops.count .markEquity) b b' := by
  refine runAll_induction (motive := fun b ops b' => Marked (b.runMarks ops) (ops.count .markEquity) b b') ?_ ?_ h
  · exact fun b => marked_nil rfl rfl rfl
  · intro b op ops r u b' hr _ ih
    have hcount : (op :: ops).count .markEquity = demands op + ops.count .markEquity := by
      rw [List.count_cons, Nat.add_comm]
      simp only [demands, beq_iff_eq]
    rw [runMarks, after_of_ok hr, hcount]
    exact (marked_of_run hr).trans ih

/-- The fall at the mark `j`, in parts of the highest equity up to it. There is none as long as no equity, nor the
start, was positive. -/
def FallAt (start : Decimal) (es : List Decimal) (j : ℕ) (fall : Decimal) : Prop :=
  let peak := Decimal.highest start (es.take (j + 1))
  ∃ equity drop, es[j]? = some equity ∧ .zero < peak ∧ peak.sub equity = .ok drop ∧ drop.div peak = .ok fall

/-- The extremes of an account are those of the equities that were marked since its start. -/
structure RunningExtremes (start : Decimal) (es : List Decimal) (b : Broker) : Prop where
  peak : b.peakEquity = Decimal.highest start es
  drawdown_nonneg : .zero ≤ b.maxDrawdown
  fall_le : ∀ j < es.length, .zero < Decimal.highest start (es.take (j + 1)) →
    ∃ fall, FallAt start es j fall ∧ fall ≤ b.maxDrawdown
  drawdown_mem : b.maxDrawdown = .zero ∨ ∃ j, FallAt start es j b.maxDrawdown

theorem fallAt_append {start fall : Decimal} {j : ℕ} (hj : j < es.length) :
    FallAt start (es ++ fs) j fall ↔ FallAt start es j fall := by
  unfold FallAt
  rw [List.take_append_of_le_length hj, List.getElem?_append_left hj]

theorem FallAt.lt_length {start fall : Decimal} {j : ℕ} (h : FallAt start es j fall) : j < es.length := by
  obtain ⟨equity, -, he, -⟩ := h
  exact (List.getElem?_eq_some_iff.1 he).1

/-- The extremes after the last mark, from those before it. -/
theorem RunningExtremes.snoc {start : Decimal} (h : RunningExtremes start es b)
    (hf : drawdown (b.peakEquity.max e) e = .ok fall) (hp : b'.peakEquity = b.peakEquity.max e)
    (hd : b'.maxDrawdown = b.maxDrawdown.max fall) : RunningExtremes start (es ++ [e]) b' := by
  have htake : (es ++ [e]).take (es.length + 1) = es ++ [e] := List.take_of_length_le (by simp)
  have hhigh : b.peakEquity.max e = Decimal.highest start (es ++ [e]) := by rw [h.peak, Decimal.highest_snoc]
  have hle : b.maxDrawdown ≤ b'.maxDrawdown := by
    rw [hd]
    exact Decimal.le_max_left _ _
  rw [hhigh] at hf
  -- the fall at the last mark, if the peak is positive
  have hlast : .zero < Decimal.highest start (es ++ [e]) → FallAt start (es ++ [e]) es.length fall := by
    intro h0
    unfold drawdown at hf
    rw [if_pos h0] at hf
    obtain ⟨drop, hdrop, hdiv⟩ := OutcomeMarket.bind_eq_ok_iff.1 hf
    unfold FallAt
    rw [htake]
    exact ⟨e, drop, by simp, h0, hdrop, hdiv⟩
  refine ⟨hp.trans hhigh, Decimal.le_trans h.drawdown_nonneg hle, fun j hj h0 => ?_, ?_⟩
  · by_cases hlt : j < es.length
    · rw [List.take_append_of_le_length hlt] at h0
      obtain ⟨f, hf, hfle⟩ := h.fall_le j hlt h0
      exact ⟨f, (fallAt_append hlt).2 hf, Decimal.le_trans hfle hle⟩
    · have hj : j = es.length := by
        rw [List.length_append, List.length_singleton] at hj
        omega
      subst hj
      rw [htake] at h0
      refine ⟨fall, hlast h0, ?_⟩
      rw [hd]
      exact Decimal.le_max_right _ _
  · by_cases hlt : b.maxDrawdown < fall
    · have hmax : b'.maxDrawdown = fall := hd.trans (if_pos hlt)
      rw [hmax]
      by_cases h0 : .zero < Decimal.highest start (es ++ [e])
      · exact .inr ⟨es.length, hlast h0⟩
      · unfold drawdown at hf
        rw [if_neg h0] at hf
        cases hf
        exact .inl rfl
    · have hmax : b'.maxDrawdown = b.maxDrawdown := hd.trans (if_neg hlt)
      rw [hmax]
      exact h.drawdown_mem.imp_right fun ⟨j, hj⟩ => ⟨j, (fallAt_append hj.lt_length).2 hj⟩

/-- Along any marks the extremes stay those of all equities. -/
theorem RunningExtremes.extended {start : Decimal} (h : RunningExtremes start fs b)
    (hm : es.foldlM extend (b.peakEquity, b.maxDrawdown) = .ok (b'.peakEquity, b'.maxDrawdown)) :
    RunningExtremes start (fs ++ es) b' := by
  induction es generalizing b fs with
  | nil =>
    obtain ⟨hp, hd⟩ : b.peakEquity = b'.peakEquity ∧ b.maxDrawdown = b'.maxDrawdown := by
      rwa [List.foldlM_nil, pure_eq_ok_iff, Prod.mk.injEq] at hm
    rw [List.append_nil]
    exact ⟨hp ▸ h.peak, hd ▸ h.drawdown_nonneg, hd ▸ h.fall_le, hd ▸ h.drawdown_mem⟩
  | cons e es ih =>
    obtain ⟨fall, hf, hrest⟩ := foldlM_extend_cons.1 hm
    have hnext : RunningExtremes start (fs ++ [e])
        (b.withExtremes (b.peakEquity.max e) (b.maxDrawdown.max fall)) := h.snoc hf rfl rfl
    have hcons : fs ++ e :: es = fs ++ [e] ++ es := by rw [List.append_assoc]; rfl
    rw [hcons]
    exact ih hnext hrest

/-- Neither extreme falls. -/
theorem le_of_foldlM_extend {x y : Decimal × Decimal} (h : es.foldlM extend x = .ok y) : x.1 ≤ y.1 ∧ x.2 ≤ y.2 := by
  induction es generalizing x with
  | nil =>
    rw [List.foldlM_nil, pure_eq_ok_iff] at h
    subst h
    exact ⟨Decimal.le_refl _, Decimal.le_refl _⟩
  | cons e es ih =>
    obtain ⟨fall, -, hrest⟩ := foldlM_extend_cons.1 h
    have hle := ih hrest
    exact ⟨Decimal.le_trans (Decimal.le_max_left _ _) hle.1, Decimal.le_trans (Decimal.le_max_left _ _) hle.2⟩

theorem runningExtremes_new (config : BrokerConfig) (visiting : Visiting) :
    RunningExtremes config.startingCash [] (new config visiting) :=
  ⟨rfl, Decimal.le_refl _, fun j hj => absurd hj (Nat.not_lt_zero j), .inl rfl⟩

/-- Peak and drawdown are the running extrema over every mark of a run: one mark for each executed trade and one for
each demand. None of the two falls when the run goes on. -/
theorem runningExtremes_of_runAll {config : BrokerConfig} {visiting : Visiting} {ops : List Operation} {b : Broker}
    (h : (new config visiting).runAll ops = .ok b) :
    RunningExtremes config.startingCash ((new config visiting).runMarks ops) b ∧
    ((new config visiting).runMarks ops).length = b.tradesExecuted + ops.count .markEquity ∧
    ∀ more b', b.runAll more = .ok b' → b.peakEquity ≤ b'.peakEquity ∧ b.maxDrawdown ≤ b'.maxDrawdown := by
  have hm := marked_of_runAll h
  have hcount : 0 + ((new config visiting).runMarks ops).length = b.tradesExecuted + ops.count .markEquity := hm.count
  refine ⟨?_, by rwa [Nat.zero_add] at hcount, fun more b' hr => le_of_foldlM_extend (marked_of_runAll hr).extremes⟩
  have hx := (runningExtremes_new config visiting).extended hm.extremes
  rwa [List.nil_append] at hx

/-- Both sides bought, a fall and a rise marked, then both sides sold at once. -/
def liquidatedRun : List Operation :=
  [.buy "rain" .yes (.lit 40 2) (.lit 100 0) (.lit 1000 0), .buy "rain" .no (.lit 45 2) (.lit 50 0) (.lit 900 0),
    .setPrice "rain" (.lit 30 2), .markEquity, .setPrice "rain" (.lit 90 2), .markEquity,
    .liquidate "rain" (.lit 35 2)]

theorem runningExtremes_of_liquidatedRun : ∃ b, (new .standard .oldestFirst).runAll liquidatedRun = .ok b ∧
    RunningExtremes BrokerConfig.standard.startingCash ((new .standard .oldestFirst).runMarks liquidatedRun) b ∧
    ((new .standard .oldestFirst).runMarks liquidatedRun).length = b.tradesExecuted + liquidatedRun.count .markEquity ∧
    ∀ more b', b.runAll more = .ok b' → b.peakEquity ≤ b'.peakEquity ∧ b.maxDrawdown ≤ b'.maxDrawdown := by
  obtain ⟨b, hb⟩ := exists_of_isOk (x := (new .standard .oldestFirst).runAll liquidatedRun) (by decide +kernel)
  exact ⟨b, hb, runningExtremes_of_runAll hb⟩

/-- Its four marks: two on demand, two by sales. -/
example : ((new .standard .oldestFirst).runMarks liquidatedRun).length = 4 := by decide +kernel

end Broker
end OutcomeMarket
