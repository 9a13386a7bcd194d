import OutcomeMarket.Account.Snapshot
import OutcomeMarket.Order.Execution
import OutcomeMarket.Proofs.Agreement

/-! An account that holds one asset at most. There is one order only in which such holdings can be visited, so that
nothing that is done with the asset can tell which order it is that the account keeps to. -/
namespace OutcomeMarket

/-- What can be done with one asset, besides what trades nothing at all. -/
def Operation.Concerns (asset : String) : Operation → Prop
  | buy other .. | sellAll other .. | liquidate other _ | resolve other _ => other = asset
  | reject .. | setClock _ | setPrice .. | markEquity => True

namespace Ledger

variable {l l' : Ledger} {asset : String} {side : OutcomeSide} {p : Position} {shares spent : Decimal}

/-- Whether no other asset has an entry. -/
def Sole (asset : String) (l : Ledger) : Prop := ∀ key ∈ l.pairs.keys, key = asset

theorem sole_empty (asset : String) : empty.Sole asset := fun _ h => nomatch h

theorem Sole.set (h : l.Sole asset) (side : OutcomeSide) (p : Position) : (l.set asset side p).Sole asset := by
  intro key hk
  have hk : key ∈ (TextMap.put asset ((l.pair asset).setSide side p) l.pairs.entries).map Prod.fst := hk
  by_cases hm : asset ∈ l.pairs.entries.map Prod.fst
  · rw [TextMap.map_fst_put_of_mem hm] at hk
    exact h key hk
  · rw [TextMap.map_fst_put_of_not_mem hm, List.mem_append, List.mem_singleton] at hk
    exact hk.elim (h key) id

theorem Sole.applyBuy (h : l.Sole asset) (hb : l.applyBuy asset side shares spent = .ok l') : l'.Sole asset := by
  obtain ⟨p, -, hp⟩ := bind_eq_ok_iff.1 hb
  obtain rfl := pure_eq_ok_iff.1 hp
  exact h.set side p

theorem Sole.applySell (h : l.Sole asset) (hs : l.applySell asset side shares = .ok l') : l'.Sole asset := by
  obtain ⟨rest, -, hr⟩ := bind_eq_ok_iff.1 hs
  obtain ⟨-, -, hp⟩ := bind_eq_ok_iff.1 hr
  obtain rfl := pure_eq_ok_iff.1 hp
  exact h.set side _

/-- A list without another asset has one order only, as no asset is listed twice. -/
theorem Sole.eq_of_perm (h : l.Sole asset) {es : List (String × PositionPair)} (hes : es.Perm l.pairs.entries) :
    es = l.pairs.entries := by
  have hn := l.pairs.nodup
  unfold Sole TextMap.keys at h
  cases he : l.pairs.entries with
  | nil =>
    rw [he] at hes
    exact hes.eq_nil
  | cons e rest =>
    rw [he] at hes h hn
    cases rest with
    | nil => exact List.perm_singleton.1 hes
    | cons e' rest =>
      have hsame : e.1 = e'.1 := (h e.1 (by simp)).trans (h e'.1 (by simp)).symm
      rw [List.map_cons, List.map_cons, hsame] at hn
      exact absurd List.mem_cons_self (List.nodup_cons.1 hn).1

end Ledger

namespace Broker

/-- The account, with another order in which it visits its holdings. -/
def revisit (b : Broker) (v : Visiting) : Broker := { b with visiting := v }

/-- Accounts without another asset that are the same but for the order in which they visit their holdings. -/
def Revisited (asset : String) (b b' : Broker) : Prop := b.ledger.Sole asset ∧ ∃ v, b' = b.revisit v

variable {b b' : Broker} {asset : String} {side : OutcomeSide} {quote dollars available outcome price : Decimal}
  {limit : Option Decimal} {kind : TradeKind} {fill : Fill} {α : Type}

theorem value_revisit (h : b.ledger.Sole asset) (v : Visiting) : (b.revisit v).value = b.value := by
  have hb := h.eq_of_perm (b.visiting.perm b.ledger.pairs.entries)
  have hv := h.eq_of_perm (v.perm b.ledger.pairs.entries)
  change b.valueAlong (v.order b.ledger.pairs.entries) = b.valueAlong (b.visiting.order b.ledger.pairs.entries)
  rw [hb, hv]

theorem Revisited.value (h : Revisited asset b b') : b.value = b'.value := by
  obtain ⟨hsole, v, rfl⟩ := h
  exact (value_revisit hsole v).symm

theorem Revisited.snapshot (h : Revisited asset b b') : b.snapshot = b'.snapshot := by
  unfold Broker.snapshot
  rw [h.value]
  obtain ⟨-, v, rfl⟩ := h
  rfl

/-- A look at what the order of visits has no part in. -/
theorem respects_read {f : Broker → BrokerM α} (hsame : ∀ b v, f (b.revisit v) = f b)
    (hf : ∀ b, b.ledger.Sole asset → Respects (Revisited asset) (f b)) : Respects (Revisited asset) (get >>= f) := by
  refine respects_get_bind fun b b' h => ⟨?_, hf b h.1⟩
  obtain ⟨-, v, rfl⟩ := h
  exact (hsame b v).symm

/-- A write of something else than holdings. -/
theorem respects_write {g : Broker → Broker} (hl : ∀ b, (g b).ledger = b.ledger)
    (hv : ∀ b v, g (b.revisit v) = (g b).revisit v) : Respects (Revisited asset) (modify g : BrokerM Unit) := by
  refine respects_modify fun b b' h => ?_
  obtain ⟨hsole, v, rfl⟩ := h
  exact ⟨by rwa [hl], v, hv b v⟩

theorem respects_rewrite {l : Ledger} (hl : l.Sole asset) :
    Respects (Revisited asset) (modify fun b => { b with ledger := l } : BrokerM Unit) := by
  refine respects_modify fun b b' h => ?_
  obtain ⟨-, v, rfl⟩ := h
  exact ⟨hl, v, rfl⟩

theorem respects_setPrice (other : String) (price : Decimal) : Respects (Revisited asset) (setPrice other price) :=
  respects_write (fun _ => rfl) fun _ _ => rfl

theorem respects_setClock (now : Instant) : Respects (Revisited asset) (setClock now) :=
  respects_write (fun _ => rfl) fun _ _ => rfl

theorem respects_classify (exit entry : Decimal) : Respects (Revisited asset) (classify exit entry) :=
  respects_write (fun _ => by split <;> rfl) fun _ _ => by split <;> rfl

theorem respects_countAction : Respects (Revisited asset) countAction :=
  respects_write (fun _ => rfl) fun _ _ => rfl

theorem respects_countExecuted : Respects (Revisited asset) countExecuted :=
  respects_write (fun _ => rfl) fun _ _ => rfl

theorem respects_record {other : String} {kind : TradeKind} {price shares value fee : Decimal} :
    Respects (Revisited asset) (record other kind price shares value fee) :=
  respects_write (fun _ => rfl) fun _ _ => rfl

theorem respects_markEquity : Respects (Revisited asset) markEquity := by
  refine respects_get_bind fun b b' h => ⟨by rw [h.value], ?_⟩
  refine respects_checked.bind fun equity => ?_
  refine (respects_write (fun _ => by rfl) fun _ _ => by rfl).bind fun _ => ?_
  refine respects_read (fun _ _ => rfl) fun b _ => respects_checked.bind fun fall => ?_
  exact (respects_write (fun _ => by rfl) fun _ _ => by rfl).bind fun _ => respects_pure _

theorem respects_bookBuy : Respects (Revisited asset) (bookBuy asset side fill) := by
  refine respects_read (fun _ _ => rfl) fun b hb => respects_lift_bind fun ledger hl => ?_
  refine (respects_rewrite (hb.applyBuy hl)).bind fun _ => ?_
  refine respects_read (fun _ _ => rfl) fun u _ => respects_checked.bind fun cash => ?_
  refine (respects_write (fun _ => by rfl) fun _ _ => by rfl).bind fun _ => ?_
  exact respects_countAction.bind fun _ => respects_record.bind fun _ => respects_lift _

theorem respects_bookSell : Respects (Revisited asset) (bookSell asset side fill) := by
  refine respects_read (fun _ _ => rfl) fun b _ => (respects_classify _ _).bind fun _ => ?_
  refine respects_read (fun _ _ => rfl) fun u hu => respects_lift_bind fun ledger hl => ?_
  refine (respects_rewrite (hu.applySell hl)).bind fun _ => ?_
  refine respects_read (fun _ _ => rfl) fun w _ => respects_checked.bind fun cash => ?_
  refine (respects_write (fun _ => by rfl) fun _ _ => by rfl).bind fun _ => ?_
  refine respects_countExecuted.bind fun _ => respects_countAction.bind fun _ => ?_
  exact respects_record.bind fun _ => respects_markEquity.discard

theorem respects_buy : Respects (Revisited asset) (buy asset side quote dollars available) := by
  refine (respects_lift _).bind fun _ => (respects_lift _).bind fun _ => (respects_setPrice _ _).bind fun _ => ?_
  refine respects_read (fun _ _ => rfl) fun b _ => respects_checked.bind fun filled => ?_
  cases filled with
  | none => exact respects_pure _
  | some fill => exact respects_bookBuy.bind fun _ => respects_pure _

theorem respects_sell : Respects (Revisited asset) (sell asset side quote limit) := by
  refine (respects_setPrice _ _).bind fun _ => ?_
  refine respects_read (fun _ _ => rfl) fun b _ => respects_checked.bind fun filled => ?_
  cases filled with
  | none => exact respects_pure _
  | some fill => exact respects_bookSell.bind fun _ => respects_pure _

theorem respects_sellAll : Respects (Revisited asset) (sellAll asset side quote available) :=
  respects_read (fun _ _ => rfl) fun _ _ => respects_checked.bind fun _ => respects_sell

theorem respects_liquidate : Respects (Revisited asset) (liquidate asset quote) :=
  respects_sell.bind fun _ => respects_sell.bind fun _ => respects_checked

theorem respects_close (side : OutcomeSide) :
    Respects (Revisited asset) (modify fun b => { b with ledger := b.ledger.close asset side } : BrokerM Unit) := by
  refine respects_modify fun b b' h => ?_
  obtain ⟨hsole, v, rfl⟩ := h
  exact ⟨hsole.set side .flat, v, rfl⟩

theorem respects_resolveSide : Respects (Revisited asset) (resolveSide asset outcome side) := by
  refine respects_read (fun _ _ => rfl) fun b _ => ?_
  by_cases h0 : (b.position asset side).shares ≤ .zero
  · rw [if_pos h0]
    exact respects_pure _
  · rw [if_neg h0]
    refine respects_checked.bind fun price => ?_
    refine respects_read (fun _ _ => rfl) fun u _ => respects_checked.bind fun ⟨net, fee⟩ => ?_
    refine respects_read (fun _ _ => rfl) fun w _ => respects_checked.bind fun cash => ?_
    refine (respects_write (fun _ => by rfl) fun _ _ => by rfl).bind fun _ => (respects_classify _ _).bind fun _ => ?_
    exact (respects_close side).bind fun _ => respects_record.bind fun _ => respects_pure _

theorem respects_resolve : Respects (Revisited asset) (resolve asset outcome) := by
  refine (respects_setPrice _ _).bind fun _ => respects_resolveSide.bind fun yes => ?_
  refine respects_checked.bind fun _ => respects_resolveSide.bind fun no => respects_checked.bind fun total => ?_
  split
  · exact respects_countExecuted.bind fun _ => respects_markEquity.discard.bind fun _ => respects_pure _
  · exact respects_pure _

theorem respects_reject (other : String) (kind : TradeKind) (price : Decimal) :
    Respects (Revisited asset) (reject other kind price) :=
  (respects_lift _).bind fun _ => respects_record

/-- What is done with the asset goes the same way, whatever the order of visits. -/
theorem respects_run {op : Operation} (hop : op.Concerns asset) : Respects (Revisited asset) op.run := by
  cases op with
  | buy other side quote dollars available =>
    obtain rfl : other = asset := hop
    exact respects_buy.map _
  | sellAll other side quote available =>
    obtain rfl : other = asset := hop
    exact respects_sellAll.map _
  | liquidate other quote =>
    obtain rfl : other = asset := hop
    exact respects_liquidate.map _
  | resolve other outcome =>
    obtain rfl : other = asset := hop
    exact respects_resolve.map _
  | reject other kind price => exact (respects_reject other kind price).bind fun _ => respects_pure none
  | setClock now => exact (respects_setClock now).bind fun _ => respects_pure none
  | setPrice other price => exact (respects_setPrice other price).bind fun _ => respects_pure none
  | markEquity => exact respects_markEquity.map _

end Broker

namespace Order

open Broker

theorem respects_fillNow (o : Order) (locked : Bool) (book : Book) :
    Respects (Revisited o.asset) (o.fillNow locked book) := by
  have hfill : ∀ quote size, Respects (Revisited o.asset) (o.intent.fill o.asset quote o.dollars size) := by
    intro quote size
    unfold OrderIntent.fill
    split
    · exact respects_buy
    · exact respects_sellAll
  have htrade : Respects (Revisited o.asset) (o.trade book) := by
    refine (hfill _ _).bind fun filled => ?_
    split
    · exact (respects_lift _).bind fun _ => respects_pure _
    · exact respects_pure _
  cases locked with
  | true => exact respects_pure _
  | false => exact htrade.bind fun ⟨filled, book⟩ => respects_pure _

end Order
end OutcomeMarket
