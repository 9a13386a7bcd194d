import Mathlib.Algebra.BigOperators.Group.List.Basic
import OutcomeMarket.Proofs.Account.Valuation

/-! How close the value of an account is to its exact worth, in whatever order the holdings are visited. A holding costs
two roundings, of a product and of a sum. No holding takes from the value, so both are off by a part of the value at
the end, and that is the same for every order but for these errors. -/
namespace OutcomeMarket

namespace Decimal

variable {a p v w d : Decimal} {k j : ℕ} {x y s c : ℚ} {m : Checked Decimal} {f : Decimal → Checked Decimal}

/-- How far off one product that is added may be, as a part of the sum. -/
def stepError : ℚ := 4 / 3 / 10 ^ 28

/-- How far off k such products are taken to be, for an exact sum of x. -/
def tolerance (k : ℕ) (x : ℚ) : ℚ := k / 10 ^ 27 * Max.max 1 x

theorem tolerance_mono (hk : k ≤ j) (hx : x ≤ y) : tolerance k x ≤ tolerance j y := by
  unfold tolerance
  gcongr

/-- An error that is a small part of the result is hardly a larger part of the exact number. -/
theorem abs_sub_le_of_part (hc0 : 0 ≤ c) (hc : c ≤ 1 / 2) (h : |s - y| ≤ c * Max.max 1 s) :
    |s - y| ≤ 2 * c * Max.max 1 y := by
  have hs : Max.max 1 s ≤ 2 * Max.max 1 y := by
    have hone : 1 ≤ Max.max 1 y := le_sup_left
    have hy : y ≤ Max.max 1 y := le_sup_right
    obtain hle | hlt := le_or_gt s 1
    · rw [max_eq_left hle]
      linarith
    · rw [max_eq_right hlt.le] at h ⊢
      have hhalf : c * s ≤ 1 / 2 * s := by gcongr
      linarith [le_abs_self (s - y)]
  calc |s - y| ≤ c * Max.max 1 s := h
    _ ≤ c * (2 * Max.max 1 y) := by gcongr
    _ = 2 * c * Max.max 1 y := by ring

theorem abs_sub_le_tolerance (hk : k ≤ 10 ^ 20) (h : |s - y| ≤ k * stepError * Max.max 1 s) :
    |s - y| ≤ tolerance k y := by
  have hk' : (k : ℚ) ≤ 10 ^ 20 := by exact_mod_cast hk
  have hstep : 0 ≤ stepError := by
    unfold stepError
    norm_num
  have hsmall : (k : ℚ) * stepError ≤ 1 / 2 := by
    unfold stepError
    linarith
  refine (abs_sub_le_of_part (by positivity) hsmall h).trans ?_
  have hpart : 2 * (k * stepError) ≤ (k : ℚ) / 10 ^ 27 := by
    unfold stepError
    linarith [Nat.cast_nonneg (α := ℚ) k]
  unfold tolerance
  gcongr

/-- A value that comes near x by adding k products. -/
structure Near (k : ℕ) (x : ℚ) (v : Decimal) : Prop where
  nonneg : zero ≤ v
  near : |v.toRat - x| ≤ k * stepError * Max.max 1 v.toRat

namespace Near

theorem start (h : zero ≤ v) : Near 0 v.toRat v := ⟨h, by simp⟩

section Product

variable (h : Near k x v) (ha : zero ≤ a) (hp : zero ≤ p) (hw : a.mul p = .ok w)
include h ha hp hw

/-- What is off before the addition, as a part of anything that exceeds both summands. -/
theorem abs_add_sub_le (hv : v.toRat ≤ y) (hy : w.toRat ≤ y) :
    |v.toRat + w.toRat - (x + a.toRat * p.toRat)| ≤ (k * stepError + 2 / 3 / 10 ^ 28) * Max.max 1 y := by
  have hstep : 0 ≤ stepError := by
    unfold stepError
    norm_num
  have hw0 := zero_le_iff_toRat.1 (zero_le_mul ha hp hw)
  have hprod := (rounds_mul hw).abs_sub_le_of_le hw0 hy
  calc |v.toRat + w.toRat - (x + a.toRat * p.toRat)|
      = |(v.toRat - x) + (w.toRat - a.toRat * p.toRat)| := by ring_nf
    _ ≤ |v.toRat - x| + |w.toRat - a.toRat * p.toRat| := abs_add_le _ _
    _ ≤ k * stepError * Max.max 1 v.toRat + 2 / 3 / 10 ^ 28 * Max.max 1 y := by linarith [h.near]
    _ ≤ k * stepError * Max.max 1 y + 2 / 3 / 10 ^ 28 * Max.max 1 y := by gcongr
    _ = (k * stepError + 2 / 3 / 10 ^ 28) * Max.max 1 y := by ring

theorem add (hd : v.add w = .ok d) : Near (k + 1) (x + a.toRat * p.toRat) d := by
  have hw0 := zero_le_mul ha hp hw
  have hd0 := zero_le_add h.nonneg hw0 hd
  have hbefore := h.abs_add_sub_le ha hp hw (le_iff_toRat.1 (le_add_right hw0 hd))
    (le_iff_toRat.1 (le_add_left h.nonneg hd))
  have hsum := (rounds_add hd).abs_sub_le_of_le (zero_le_iff_toRat.1 hd0) le_rfl
  refine ⟨hd0, ?_⟩
  calc |d.toRat - (x + a.toRat * p.toRat)|
      = |(d.toRat - (v.toRat + w.toRat)) + (v.toRat + w.toRat - (x + a.toRat * p.toRat))| := by ring_nf
    _ ≤ |d.toRat - (v.toRat + w.toRat)| + |v.toRat + w.toRat - (x + a.toRat * p.toRat)| := abs_add_le _ _
    _ ≤ 2 / 3 / 10 ^ 28 * Max.max 1 d.toRat + (k * stepError + 2 / 3 / 10 ^ 28) * Max.max 1 d.toRat :=
      by linarith
    _ = ((k + 1 : ℕ) : ℚ) * stepError * Max.max 1 d.toRat := by
      unfold stepError
      push_cast
      ring

/-- The sum fits if the exact one does with the tolerance. -/
theorem exists_add (hk : k + 1 ≤ 10 ^ 20)
    (hfits : x + a.toRat * p.toRat + tolerance (k + 1) (x + a.toRat * p.toRat) ≤ maxMantissa) :
    ∃ d, v.add w = .ok d := by
  have hv0 := zero_le_iff_toRat.1 h.nonneg
  have hw0 := zero_le_iff_toRat.1 (zero_le_mul ha hp hw)
  have hbefore := h.abs_add_sub_le ha hp hw (y := v.toRat + w.toRat) (by linarith) (by linarith)
  have hnear : |v.toRat + w.toRat - (x + a.toRat * p.toRat)| ≤
      ((k + 1 : ℕ) : ℚ) * stepError * Max.max 1 (v.toRat + w.toRat) := by
    refine hbefore.trans ?_
    gcongr
    unfold stepError
    push_cast
    linarith
  have htol := abs_sub_le_tolerance hk hnear
  apply Decimal.exists_add
  rw [abs_of_nonneg (by linarith)]
  linarith [le_abs_self (v.toRat + w.toRat - (x + a.toRat * p.toRat))]

end Product
end Near

/-- A computation that comes near x by adding k products, unless x is close to what can be written at most. -/
structure Tracks (k : ℕ) (x : ℚ) (m : Checked Decimal) : Prop where
  near : ∀ d, m = .ok d → Near k x d
  answers : x + tolerance k x ≤ maxMantissa → ∃ d, m = .ok d

namespace Tracks

theorem pure (h : Near k x v) : Tracks k x (pure v) := by
  refine ⟨?_, fun _ => ⟨v, rfl⟩⟩
  rintro _ ⟨⟩
  exact h

/-- What is added to a sum takes nothing from it, so if all of it fits then the sum does. -/
theorem bind (h : Tracks k x m) (hy : 0 ≤ y) (hf : ∀ v, Near k x v → Tracks (k + j) (x + y) (f v)) :
    Tracks (k + j) (x + y) (m >>= f) := by
  constructor
  · intro d hd
    obtain ⟨v, hv, hd⟩ := bind_eq_ok_iff.1 hd
    exact (hf v (h.near v hv)).near d hd
  · intro hfits
    have hmono := tolerance_mono (Nat.le_add_right k j) (le_add_of_nonneg_right (a := x) hy)
    obtain ⟨v, hv⟩ := h.answers (by linarith)
    obtain ⟨d, hd⟩ := (hf v (h.near v hv)).answers hfits
    exact ⟨d, bind_eq_ok_iff.2 ⟨v, hv, hd⟩⟩

end Tracks
end Decimal

/-- One for a position that counts, none for a flat one. -/
def Position.heldSides (p : Position) : ℕ := if p.isFlat then 0 else 1

def PositionPair.heldSides (p : PositionPair) : ℕ := p.yes.heldSides + p.no.heldSides

namespace Broker

/-- The exact price of a share, if this is the last known YES price: half a dollar for NO and nothing for YES if there
is none. -/
def exactPrice (last : Option Decimal) : OutcomeSide → ℚ
  | .yes => last.elim 0 Decimal.toRat
  | .no => last.elim (1 / 2) fun p => 1 - p.toRat

/-- The exact worth of the holdings in one asset. -/
def exactWorth (last : Option Decimal) (pair : PositionPair) : ℚ :=
  pair.yes.shares.toRat * exactPrice last .yes + pair.no.shares.toRat * exactPrice last .no

/-- What the account is worth, without any rounding. -/
def exactValue (b : Broker) : ℚ :=
  b.cash.toRat + (b.ledger.pairs.entries.map fun e => exactWorth (b.prices.find? e.1) e.2).sum

/-- How many positions are not flat. -/
def heldSides (b : Broker) : ℕ := (b.ledger.pairs.entries.map fun e => e.2.heldSides).sum

section Holdings

open Decimal

variable {k : ℕ} {x : ℚ} {v price : Decimal} {held : Position} {pair : PositionPair} {last : Option Decimal}
  {prices : TextMap Decimal} {es : List (String × PositionPair)}

/-- What a value becomes with one position more. -/
def addPosition (held : Position) (price : Checked Decimal) (v : Decimal) : Checked Decimal :=
  if held.isFlat then pure v
  else do
    let price ← price
    let worth ← held.shares.mul price
    v.add worth

/-- The price at which a holding is valued. -/
def valuation (last : Option Decimal) : OutcomeSide → Checked Decimal
  | .yes => pure (last.getD .zero)
  | .no => match last with
    | some p => Decimal.one.sub p
    | none => pure unknownNoValuation

theorem addHolding_eq (last : Option Decimal) (v : Decimal) (pair : PositionPair) : addHolding last v pair =
    addPosition pair.yes (valuation last .yes) v >>= addPosition pair.no (valuation last .no) := by
  unfold addHolding addPosition
  by_cases hf : pair.yes.isFlat = true
  · rw [if_pos hf, if_pos hf, pure_bind, pure_bind]
    cases last <;> rfl
  · rw [if_neg hf, if_neg hf]
    cases last <;> simp only [valuation, pure_bind, bind_assoc]

/-- No price is rounded. -/
theorem exists_valuation (h : ∀ p, last = some p → FairOutcome p) (side : OutcomeSide) :
    ∃ price, valuation last side = .ok price ∧ FairOutcome price ∧ price.toRat = exactPrice last side := by
  cases last with
  | none =>
    cases side with
    | yes => exact ⟨.zero, rfl, by decide, toRat_zero⟩
    | no => exact ⟨unknownNoValuation, rfl, by decide, by norm_num [unknownNoValuation, exactPrice]⟩
  | some p =>
    obtain ⟨hp0, hp1⟩ := h p rfl
    cases side with
    | yes => exact ⟨p, rfl, ⟨hp0, hp1⟩, rfl⟩
    | no =>
      obtain ⟨price, hprice, hexact⟩ := exists_one_sub hp0 hp1
      exact ⟨price, hprice, ⟨zero_le_sub hp1 hprice, sub_le_left hp0 hprice⟩, hexact⟩

theorem tracks_addPosition (h : Near k x v) (h0 : .zero ≤ held.shares) (hp : FairOutcome price)
    (hk : k + held.heldSides ≤ 10 ^ 20) :
    Tracks (k + held.heldSides) (x + held.shares.toRat * price.toRat) (addPosition held (.ok price) v) := by
  unfold addPosition
  unfold Position.heldSides at *
  by_cases hf : held.isFlat = true
  · rw [if_pos hf, if_pos hf, isZero_iff_toRat.1 hf, zero_mul, add_zero, add_zero]
    exact .pure h
  · rw [if_neg hf] at hk ⊢
    rw [if_neg hf]
    obtain ⟨worth, hw, -⟩ := exists_worth h0 hp
    change Tracks _ _ (held.shares.mul price >>= v.add)
    rw [hw]
    exact ⟨fun d hd => h.add h0 hp.1 hw hd, h.exists_add h0 hp.1 hw hk⟩

theorem exactWorth_nonneg (hy : .zero ≤ pair.yes.shares) (hn : .zero ≤ pair.no.shares)
    (hl : ∀ p, last = some p → FairOutcome p) : 0 ≤ exactWorth last pair := by
  obtain ⟨p, -, hfair, hpx⟩ := exists_valuation hl .yes
  obtain ⟨q, -, hfair', hqx⟩ := exists_valuation hl .no
  unfold exactWorth
  rw [← hpx, ← hqx]
  have hyes := mul_nonneg (zero_le_iff_toRat.1 hy) (zero_le_iff_toRat.1 hfair.1)
  have hno := mul_nonneg (zero_le_iff_toRat.1 hn) (zero_le_iff_toRat.1 hfair'.1)
  linarith

theorem tracks_addHolding (h : Near k x v) (hy : .zero ≤ pair.yes.shares) (hn : .zero ≤ pair.no.shares)
    (hl : ∀ p, last = some p → FairOutcome p) (hk : k + pair.heldSides ≤ 10 ^ 20) :
    Tracks (k + pair.heldSides) (x + exactWorth last pair) (addHolding last v pair) := by
  obtain ⟨p, hp, hfair, hpx⟩ := exists_valuation hl .yes
  obtain ⟨q, hq, hfair', hqx⟩ := exists_valuation hl .no
  unfold PositionPair.heldSides exactWorth at *
  rw [addHolding_eq, hp, hq, ← hpx, ← hqx, ← add_assoc, ← add_assoc]
  have hyes := tracks_addPosition h hy hfair (by omega)
  refine hyes.bind ?_ fun w hw => tracks_addPosition hw hn hfair' (by omega)
  exact mul_nonneg (zero_le_iff_toRat.1 hn) (zero_le_iff_toRat.1 hfair'.1)

theorem tracks_foldlM (hes : ∀ e ∈ es, .zero ≤ e.2.yes.shares ∧ .zero ≤ e.2.no.shares)
    (hp : ∀ asset p, prices.find? asset = some p → FairOutcome p) (h : Near k x v)
    (hk : k + (es.map fun e => e.2.heldSides).sum ≤ 10 ^ 20) :
    Tracks (k + (es.map fun e => e.2.heldSides).sum) (x + (es.map fun e => exactWorth (prices.find? e.1) e.2).sum)
      (es.foldlM (fun v e => addHolding (prices.find? e.1) v e.2) v) := by
  induction es generalizing k x v with
  | nil => simpa using Tracks.pure h
  | cons e es ih =>
    obtain ⟨hhead, htail⟩ := List.forall_mem_cons.1 hes
    rw [List.map_cons, List.sum_cons, ← add_assoc] at hk ⊢
    rw [List.map_cons, List.sum_cons, List.foldlM_cons, ← add_assoc]
    have hfirst := tracks_addHolding h hhead.1 hhead.2 (hp e.1) (by omega)
    refine hfirst.bind (List.sum_nonneg (List.forall_mem_map.2 fun e he => ?_)) fun w hw => ih htail hw hk
    exact exactWorth_nonneg (htail e he).1 (htail e he).2 (hp e.1)

end Holdings

/-- How the value comes out, in whatever order the holdings are visited. -/
structure ValuedInAnyOrder (b : Broker) : Prop where
  visited : ∃ es, es.Perm b.ledger.pairs.entries ∧ b.value = b.valueAlong es
  near : ∀ es v, es.Perm b.ledger.pairs.entries → b.valueAlong es = .ok v →
    |v.toRat - b.exactValue| ≤ b.heldSides / 10 ^ 27 * Max.max 1 b.exactValue
  cash_le : ∀ es v, es.Perm b.ledger.pairs.entries → b.valueAlong es = .ok v → b.cash ≤ v
  agree : ∀ es es' v v', es.Perm b.ledger.pairs.entries → es'.Perm b.ledger.pairs.entries →
    b.valueAlong es = .ok v → b.valueAlong es' = .ok v' →
      |v.toRat - v'.toRat| ≤ 2 * (b.heldSides / 10 ^ 27 * Max.max 1 b.exactValue)
  /-- There is a value unless the exact one comes as near to the largest number as it may be off -/
  answers : ∀ es, es.Perm b.ledger.pairs.entries →
    b.exactValue + b.heldSides / 10 ^ 27 * Max.max 1 b.exactValue ≤ Decimal.maxMantissa →
      ∃ v, b.valueAlong es = .ok v
  overflow : ∀ es f, es.Perm b.ledger.pairs.entries → b.valueAlong es = .error f → f = .additionOverflow

variable {b : Broker}

theorem Solvent.tracks (h : b.Solvent) (hk : b.heldSides ≤ 10 ^ 20) {es : List (String × PositionPair)}
    (hes : es.Perm b.ledger.pairs.entries) : Decimal.Tracks b.heldSides b.exactValue (b.valueAlong es) := by
  have hworth := (hes.map fun e => exactWorth (b.prices.find? e.1) e.2).sum_eq
  have hheld := (hes.map fun e => e.2.heldSides).sum_eq
  unfold heldSides exactValue at *
  rw [← hworth]
  rw [← hheld] at hk ⊢
  have hfold := tracks_foldlM (fun e he => h.shares_nonneg e (hes.mem_iff.1 he)) h.price (.start h.cash_nonneg)
    (by rwa [zero_add])
  rwa [zero_add] at hfold

/-- Every order comes as close to the exact worth as there are positions to add. -/
theorem Solvent.valuedInAnyOrder (h : b.Solvent) (hk : b.heldSides ≤ 10 ^ 20) : b.ValuedInAnyOrder := by
  have hnear : ∀ es v, es.Perm b.ledger.pairs.entries → b.valueAlong es = .ok v →
      |v.toRat - b.exactValue| ≤ Decimal.tolerance b.heldSides b.exactValue := fun es v hes hv =>
    Decimal.abs_sub_le_tolerance hk ((h.tracks hk hes).near v hv).near
  have hrises : ∀ es, es.Perm b.ledger.pairs.entries → Rises b.cash (b.valueAlong es) := fun es hes =>
    rises_foldlM (fun e he => h.shares_nonneg e (hes.mem_iff.1 he)) h.price
  refine ⟨⟨_, b.visiting.perm _, rfl⟩, hnear, fun es v hes hv => ?_, fun es es' v v' hes hes' hv hv' => ?_,
    fun es hes => (h.tracks hk hes).answers, fun es f hes hf => ?_⟩
  · obtain ⟨w, hw, hle⟩ | hw := hrises es hes
    · rw [hv] at hw
      cases hw
      exact hle
    · rw [hv] at hw
      cases hw
  · have hdist := abs_sub_le v.toRat b.exactValue v'.toRat
    have hv := hnear es v hes hv
    have hv' := hnear es' v' hes' hv'
    rw [abs_sub_comm] at hv'
    unfold Decimal.tolerance at hv hv'
    linarith
  · obtain ⟨w, hw, -⟩ | hw := hrises es hes
    · rw [hf] at hw
      cases hw
    · rw [hf] at hw
      cases hw
      rfl

/-- A position that leaves room for five shares more, and two of less than half a share each. -/
def crowdedHoldings : Broker :=
  { new .standard .oldestFirst with
    cash := .zero
    ledger := ((Ledger.empty.set "hail" .yes ⟨.lit 79228162514264337593543950330 0, .lit 5 1⟩).set "rain" .yes
      ⟨.lit 4 1, .lit 5 1⟩).set "snow" .no ⟨.lit 8 1, .lit 5 1⟩
    prices := (TextMap.empty.insert "hail" .one).insert "rain" .one }

theorem solvent_crowdedHoldings : crowdedHoldings.Solvent where
  cash_nonneg := Decimal.le_refl _
  shares_nonneg := by decide
  price asset p hp := by
    unfold lastKnownPrice crowdedHoldings at hp
    rw [TextMap.find?_insert, TextMap.find?_insert] at hp
    split_ifs at hp <;> cases hp
    all_goals exact ⟨by decide, Decimal.le_refl _⟩

/-- The order matters: two small holdings are lost one after the other, and come to one share if they come first. -/
theorem valuedInAnyOrder_crowdedHoldings : crowdedHoldings.Solvent ∧ crowdedHoldings.heldSides ≤ 10 ^ 20 ∧
    crowdedHoldings.ValuedInAnyOrder ∧
    crowdedHoldings.valueAlong crowdedHoldings.ledger.pairs.entries = .ok (.lit 79228162514264337593543950330 0) ∧
    crowdedHoldings.valueAlong crowdedHoldings.ledger.pairs.entries.reverse =
      .ok (.lit 79228162514264337593543950331 0) :=
  have hk : crowdedHoldings.heldSides ≤ 10 ^ 20 := by decide
  ⟨solvent_crowdedHoldings, hk, solvent_crowdedHoldings.valuedInAnyOrder hk, by decide +kernel, by decide +kernel⟩

end Broker
end OutcomeMarket
