import OutcomeMarket.Proofs.Account.Soundness

/-! The inventory that a history tells. On each side of an asset a buy adds its shares, a sale takes them and a
settlement takes all there are. Read so, record by record, the history never tells of fewer than no shares, ends with
what the account holds, and settles just what there is. -/
namespace OutcomeMarket

namespace TradeKind

@[simp] theorem sellOf_ne_buyOf (s t : OutcomeSide) : sellOf s ≠ buyOf t := by cases s <;> cases t <;> decide

@[simp] theorem resolveOf_ne_buyOf (s t : OutcomeSide) : resolveOf s ≠ buyOf t := by cases s <;> cases t <;> decide

@[simp] theorem resolveOf_ne_sellOf (s t : OutcomeSide) : resolveOf s ≠ sellOf t := by cases s <;> cases t <;> decide

end TradeKind

/-- The shares on one side of an asset with one more record in the books. -/
def Trade.restock (asset : String) (side : OutcomeSide) (held : Decimal) (t : Trade) : Decimal.Checked Decimal :=
  if t.asset ≠ asset then .ok held
  else if t.kind = .buyOf side then held.add t.shares
  else if t.kind = .sellOf side then held.sub t.shares
  else if t.kind = .resolveOf side then .ok .zero
  else .ok held

/-- The shares on one side of an asset after these records, oldest first. -/
def stock (asset : String) (side : OutcomeSide) (ts : List Trade) : Decimal.Checked Decimal :=
  ts.foldlM (Trade.restock asset side) .zero

section Restock

variable {asset : String} {side s : OutcomeSide} {t : Trade} {ts : List Trade} {held : Decimal}

theorem restock_buyOf (ha : t.asset = asset) (hk : t.kind = .buyOf side) :
    t.restock asset side held = held.add t.shares := by simp [Trade.restock, ha, hk]

theorem restock_sellOf (ha : t.asset = asset) (hk : t.kind = .sellOf side) :
    t.restock asset side held = held.sub t.shares := by simp [Trade.restock, ha, hk]

theorem restock_resolveOf (ha : t.asset = asset) (hk : t.kind = .resolveOf side) :
    t.restock asset side held = .ok .zero := by simp [Trade.restock, ha, hk]

/-- A record about nothing on this side leaves its shares as they are. -/
theorem restock_of_side?_ne (hs : t.asset = asset → t.kind.side? ≠ some side) :
    t.restock asset side held = .ok held := by
  unfold Trade.restock
  split
  · rfl
  rename_i ha
  have hne : t.kind.side? ≠ some side := hs (not_not.1 ha)
  have hb : t.kind ≠ .buyOf side := fun hk => hne (hk ▸ TradeKind.side?_buyOf side)
  have hsell : t.kind ≠ .sellOf side := fun hk => hne (hk ▸ TradeKind.side?_sellOf side)
  have hr : t.kind ≠ .resolveOf side := fun hk => hne (hk ▸ TradeKind.side?_resolveOf side)
  rw [if_neg hb, if_neg hsell, if_neg hr]

theorem stock_snoc (h : stock asset side ts = .ok held) :
    stock asset side (ts ++ [t]) = t.restock asset side held := by
  unfold stock at h ⊢
  rw [List.foldlM_append, h]
  change [t].foldlM (Trade.restock asset side) held = _
  rw [List.foldlM_cons]
  cases t.restock asset side held <;> rfl

end Restock

namespace Broker

/-- Between the two accounts one record was added, which tells what became of every holding; it settles what was
held. -/
structure Restocks (t : Trade) (b b' : Broker) : Prop where
  trades : b'.trades = b.trades ++ [t]
  shares : ∀ asset side,
    t.restock asset side (b.position asset side).shares = .ok (b'.position asset side).shares
  settled : ∀ side, t.kind = .resolveOf side →
    .zero < t.shares ∧ (b.position t.asset side).shares = t.shares

/-- The history is an inventory: after each of its records the shares on every side can be told and are not less
than none, after the last one they are those held, and a settlement takes what there is, which is something. -/
structure Stocked (b : Broker) : Prop where
  shares : ∀ asset side, stock asset side b.trades = .ok (b.position asset side).shares
  nonneg : ∀ asset side ts, ts <+: b.trades → ∃ held, stock asset side ts = .ok held ∧ .zero ≤ held
  settled : ∀ ts t side, ts ++ [t] <+: b.trades → t.kind = .resolveOf side →
    .zero < t.shares ∧ stock t.asset side ts = .ok t.shares

variable {admits : Decimal → Prop} {b b' : Broker} {t : Trade} {p : Position} {side : OutcomeSide}

/-- A record about one holding, which is written anew. -/
theorem restocks_written (ht : b'.trades = b.trades ++ [t]) (hk : t.kind.side? = some side)
    (hl : b'.ledger = b.ledger.set t.asset side p)
    (hp : t.restock t.asset side (b.position t.asset side).shares = .ok p.shares)
    (hs : t.kind = .resolveOf side → .zero < t.shares ∧ (b.position t.asset side).shares = t.shares) :
    Restocks t b b' := by
  have hpos := position_of_set hl
  refine ⟨ht, fun other s => ?_, fun s hr => ?_⟩
  · rw [hpos]
    by_cases h : other = t.asset ∧ s = side
    · rw [if_pos h, h.1, h.2]
      exact hp
    · rw [if_neg h]
      refine restock_of_side?_ne fun ha hs => h ⟨ha.symm, ?_⟩
      rw [hk] at hs
      exact (Option.some.inj hs).symm
  · rw [hr, TradeKind.side?_resolveOf] at hk
    cases hk
    exact hs hr

theorem stocked_new (config : BrokerConfig) (visiting : Visiting) : (new config visiting).Stocked := by
  refine ⟨fun asset side => ?_, fun asset side ts hts => ?_, fun ts t side hts => ?_⟩
  · rw [position_new]
    rfl
  · rw [List.prefix_nil.1 hts]
    exact ⟨.zero, rfl, Decimal.le_refl _⟩
  · have hnil : ts ++ [t] = [] := List.prefix_nil.1 hts
    exact absurd hnil (by simp)

namespace Stocked

theorem sameBooks (h : b.Stocked) (hb : b.SameBooks b') : b'.Stocked := by
  obtain ⟨hshares, hnonneg, hsettled⟩ := h
  rw [← hb.trades] at hshares hnonneg hsettled
  refine ⟨fun asset side => ?_, hnonneg, hsettled⟩
  rw [hb.position_eq]
  exact hshares asset side

/-- One record more, if it leaves no side with fewer than no shares. -/
theorem restocks (h : b.Stocked) (hr : Restocks t b b') (h0 : b'.SoundPositions) : b'.Stocked := by
  have hlast : ∀ asset side, stock asset side (b.trades ++ [t]) = .ok (b'.position asset side).shares :=
    fun asset side => (stock_snoc (h.shares asset side)).trans (hr.shares asset side)
  refine ⟨fun asset side => ?_, fun asset side ts hts => ?_, fun ts t' side hts hk => ?_⟩
  · rw [hr.trades]
    exact hlast asset side
  · rw [hr.trades, List.prefix_concat_iff] at hts
    obtain rfl | hts := hts
    · exact ⟨_, hlast asset side, (h0 asset side).shares_nonneg⟩
    · exact h.nonneg asset side ts hts
  · rw [hr.trades, List.prefix_concat_iff] at hts
    obtain heq | hts := hts
    · obtain ⟨rfl, rfl⟩ := List.append_singleton_inj.1 heq
      obtain ⟨hpos, hheld⟩ := hr.settled side hk
      refine ⟨hpos, ?_⟩
      rw [h.shares, hheld]
    · exact h.settled ts t' side hts hk

theorem purchase (h : b.Stocked) (hs : b.SoundPositions) (hp : Purchase b b') : b'.Stocked := by
  have h0 := hs.purchase hp
  obtain ⟨hq, hb, hc⟩ := hp
  obtain ⟨-, shares, -, -, average, hadd, -, -, -, rfl⟩ := bought_eq_ok_iff.1 hb
  refine h.restocks (restocks_written rfl (TradeKind.side?_buyOf _) rfl ?_ fun hk => ?_) h0
  · exact (restock_buyOf rfl rfl).trans hadd
  · exact absurd hk.symm (TradeKind.resolveOf_ne_buyOf _ _)

theorem credit (h : b.Stocked) (hs : b.SoundPositions) (hc : Credit admits b b') : b'.Stocked := by
  have h0 := hs.credit hc
  cases hc with
  | noted hb => exact h.sameBooks hb
  | sold hq hr hc =>
    refine h.restocks (restocks_written rfl (TradeKind.side?_sellOf _) rfl ?_ fun hk => ?_) h0
    · exact (restock_sellOf rfl rfl).trans hr
    · exact absurd hk.symm (TradeKind.resolveOf_ne_sellOf _ _)
  | settled ha hpos hp hs hc =>
    refine h.restocks (restocks_written rfl (TradeKind.side?_resolveOf _) rfl ?_ fun _ => ⟨hpos, rfl⟩) h0
    exact restock_resolveOf rfl rfl
  | @refused asset kind price hk =>
    have hside : ∀ side, kind.side? ≠ some side := TradeKind.side?_ne_of_isRejection hk
    have hkind : ∀ side, kind ≠ .resolveOf side := fun side hr => hside side (hr ▸ TradeKind.side?_resolveOf side)
    exact h.restocks ⟨rfl, fun asset side => restock_of_side?_ne fun _ => hside side,
      fun side hr => absurd hr (hkind side)⟩ h0

theorem moves (h : b.Stocked) (hs : b.SoundPositions) (hm : Moves admits b b') : b'.Stocked := by
  cases hm with
  | purchase hb hp => exact (h.sameBooks hb).purchase (hs.sameLedger hb.ledger) hp
  | credits hc =>
    suffices b'.SoundPositions ∧ b'.Stocked from this.2
    induction hc with
    | refl => exact ⟨hs, h⟩
    | tail _ hc ih => exact ⟨ih.1.credit hc, ih.2.credit ih.1 hc⟩

/-- Whatever a run does, the history stays an inventory. -/
theorem runAll {ops : List Operation} (h : b.Stocked) (hs : b.SoundPositions) (hr : b.runAll ops = .ok b') :
    b'.Stocked := by
  refine runAll_induction (motive := fun b _ b' => b.Stocked → b.SoundPositions → b'.Stocked) ?_ ?_ hr h hs
  · exact fun b h _ => h
  · intro b op ops r u b' hu _ ih h hs
    exact ih (h.moves hs (moves_of_run op.settlesWithin_true hu)) (hs.run hu)

end Stocked
end Broker
end OutcomeMarket
