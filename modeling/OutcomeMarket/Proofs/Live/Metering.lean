import OutcomeMarket.Proofs.Book.LastWrite
import OutcomeMarket.Proofs.Decimal.Sum
import OutcomeMarket.Proofs.Live.Handling
import OutcomeMarket.Proofs.Strategy.Outputs

/-! Where the metrics of a trader go. Each one that is made waits in one buffer, the trader's or that of a desk, until
the next heartbeat hands it over; so the batches of the heartbeats together are all that was made, once. Entries that
were skipped and orders that were dropped can then be counted off the batches. -/
namespace OutcomeMarket

namespace Metric

/-- Whether a metric has this name, and is labelled with this asset. -/
def IsAbout (name asset : String) (m : Metric) : Prop := m.name = name ∧ m.labels.find? "asset" = some asset

instance (name asset : String) : DecidablePred (IsAbout name asset) := fun m =>
  inferInstanceAs (Decidable (m.name = name ∧ m.labels.find? "asset" = some asset))

/-- The values of the metrics with this name that are labelled with this asset. -/
def values (name asset : String) (ms : List Metric) : List Decimal :=
  (ms.filter fun m => m.IsAbout name asset).map Metric.value

variable {name asset : String} {ms ms' : List Metric}

theorem values_append (name asset : String) (ms ms' : List Metric) :
    values name asset (ms ++ ms') = values name asset ms ++ values name asset ms' := by simp [values]

theorem values_perm (name asset : String) (h : ms.Perm ms') : (values name asset ms).Perm (values name asset ms') :=
  (h.filter _).map _

theorem values_flatMap {α : Type} (name asset : String) (f : α → List Metric) (xs : List α) :
    values name asset (xs.flatMap f) = xs.flatMap fun x => values name asset (f x) := by
  unfold values
  rw [List.filter_flatMap, List.map_flatMap]

theorem values_of_unlabelled (h : ∀ m ∈ ms, m.labels.find? "asset" = none) : values name asset ms = [] := by
  have hnone : (ms.filter fun m => m.IsAbout name asset) = [] := by
    rw [List.filter_eq_nil_iff]
    intro m hm
    simp [IsAbout, h m hm]
  unfold values
  rw [hnone, List.map_nil]

/-- The metrics of an account have no labels. -/
theorem labels_of_ofSnapshot {source : String} {s : Snapshot} (h : ofSnapshot source s = .ok ms) :
    ∀ m ∈ ms, m.labels = .empty := by
  unfold ofSnapshot at h
  obtain ⟨rate, -, h⟩ := bind_eq_ok_iff.1 h
  cases h
  simp [counter, gauge, atTime]

end Metric

/-- The number of entries of an event that cannot be read. -/
def BookEvent.malformed (e : BookEvent) : ℕ := (RawLevel.refusals e.bids).length + (RawLevel.refusals e.asks).length

/-- What is noted about an event: the number of its malformed entries, unless it has none. -/
def BookEvent.noted (e : BookEvent) : List Metric :=
  if e.malformed = 0 then [] else [.entriesSkipped Trader.source e.asset e.malformed]

/-- Of the metrics with the trader's name for skipped entries, the value for an event that has some. -/
def BookEvent.skippedValues (asset : String) (e : BookEvent) : List Decimal :=
  if e.asset = asset ∧ e.malformed ≠ 0 then [.ofNat e.malformed] else []

namespace Metric

theorem values_skipped_noted (asset : String) (e : BookEvent) :
    values bookEntriesSkipped asset e.noted = e.skippedValues asset := by
  unfold BookEvent.noted BookEvent.skippedValues
  by_cases h0 : e.malformed = 0
  · rw [if_pos h0, if_neg fun h => h.2 h0]
    rfl
  · rw [if_neg h0]
    by_cases ha : e.asset = asset
    · rw [if_pos ⟨ha, h0⟩]
      simp [values, IsAbout, entriesSkipped, withLabel, counter, ha]
    · rw [if_neg fun h => ha h.1]
      simp [values, IsAbout, entriesSkipped, withLabel, counter, ha]

theorem values_dropped_noted (asset : String) (e : BookEvent) : values ordersDropped asset e.noted = [] := by
  unfold BookEvent.noted
  split
  · rfl
  · simp [values, IsAbout, entriesSkipped, withLabel, counter, bookEntriesSkipped, ordersDropped]

theorem values_orderDropped (name asset id other : String) :
    values name asset [.orderDropped id other] = if ordersDropped = name ∧ other = asset then [.one] else [] := by
  by_cases h : ordersDropped = name ∧ other = asset <;> simp_all [values, IsAbout, orderDropped, withLabel, counter]

/-- No order that was dropped is taken for a skipped entry. -/
theorem values_skipped_metrics (asset id : String) (o : Output) :
    values bookEntriesSkipped asset (o.metrics id) = values bookEntriesSkipped asset o.own := by
  cases o with
  | emitted m => rfl
  | answered other answer =>
    cases answer
    case dropped =>
      change values bookEntriesSkipped asset [.orderDropped id other] = []
      rw [values_orderDropped, if_neg]
      exact fun h => absurd h.1 (by decide)
    all_goals rfl

theorem values_skipped_outputs (asset id : String) (os : List Output) :
    values bookEntriesSkipped asset (os.flatMap (Output.metrics id)) =
      values bookEntriesSkipped asset (os.flatMap Output.own) := by
  rw [values_flatMap, values_flatMap]
  exact List.flatMap_congr fun o _ => values_skipped_metrics asset id o

theorem length_values_dropped_metrics (asset id : String) (o : Output) :
    (values ordersDropped asset (o.metrics id)).length =
      (if o.isDropped asset then 1 else 0) + (values ordersDropped asset o.own).length := by
  cases o with
  | emitted m => exact (Nat.zero_add _).symm
  | answered other answer =>
    cases answer
    case dropped =>
      change (values ordersDropped asset [.orderDropped id other]).length = (if other == asset then 1 else 0) + 0
      rw [values_orderDropped]
      by_cases h : other = asset <;> simp [h]
    all_goals rfl

/-- There is one metric for each order that was dropped. -/
theorem length_values_dropped_outputs (asset id : String) (os : List Output) :
    (values ordersDropped asset (os.flatMap (Output.metrics id))).length =
      os.countP (·.isDropped asset) + (values ordersDropped asset (os.flatMap Output.own)).length := by
  induction os with
  | nil => rfl
  | cons o os ih =>
    rw [List.flatMap_cons, List.flatMap_cons, values_append, values_append, List.length_append, List.length_append,
      List.countP_cons, length_values_dropped_metrics, ih]
    omega

end Metric

/-- One event that was handled, and what its strategy put out meanwhile, through a context with this name. -/
structure Handling where
  event : BookEvent
  id : String
  outputs : List Output

namespace Handling

/-- All metrics that were made. -/
def metrics (h : Handling) : List Metric := h.event.noted ++ h.outputs.flatMap (Output.metrics h.id)

/-- The metrics that the strategy made itself. -/
def own (h : Handling) : List Metric := h.outputs.flatMap Output.own

open OutcomeMarket.Metric

theorem values_skipped (asset : String) (h : Handling) : values bookEntriesSkipped asset h.metrics =
    h.event.skippedValues asset ++ values bookEntriesSkipped asset h.own := by
  unfold metrics own
  rw [values_append, values_skipped_noted, values_skipped_outputs]

theorem values_skipped_perm (asset : String) (hs : List Handling) :
    (values bookEntriesSkipped asset (hs.flatMap metrics)).Perm
      ((hs.flatMap fun h => h.event.skippedValues asset) ++ values bookEntriesSkipped asset (hs.flatMap own)) := by
  rw [values_flatMap, values_flatMap, List.flatMap_congr fun h _ => values_skipped asset h]
  exact (List.flatMap_append_perm hs _ _).symm

theorem length_values_dropped (asset : String) (hs : List Handling) :
    (values ordersDropped asset (hs.flatMap metrics)).length =
      (hs.flatMap outputs).countP (·.isDropped asset) + (values ordersDropped asset (hs.flatMap own)).length := by
  induction hs with
  | nil => rfl
  | cons h hs ih =>
    have hhead := length_values_dropped_outputs asset h.id h.outputs
    unfold metrics own at *
    simp only [List.flatMap_cons, values_append, values_dropped_noted, List.nil_append, List.length_append,
      List.countP_append] at *
    omega

/-- All values together are the number of entries, as far as a decimal can count. -/
theorem total_skippedValues {hs : List Handling} (asset : String)
    (h : ∀ h ∈ hs, h.event.malformed ≤ Decimal.maxMantissa) :
    Decimal.total (hs.flatMap fun h => h.event.skippedValues asset) =
      (((hs.filter fun h => h.event.asset = asset).map fun h => h.event.malformed).sum : ℕ) := by
  induction hs with
  | nil => rfl
  | cons x hs ih =>
    obtain ⟨hx, hhs⟩ := List.forall_mem_cons.1 h
    have hhead : Decimal.total (x.event.skippedValues asset) =
        if x.event.asset = asset then (x.event.malformed : ℚ) else 0 := by
      unfold BookEvent.skippedValues Decimal.total
      by_cases h0 : x.event.malformed = 0
      · simp [h0]
      · by_cases ha : x.event.asset = asset <;> simp [ha, h0, Decimal.toRat_ofNat hx]
    rw [List.flatMap_cons, Decimal.total_append, ih hhs, hhead]
    by_cases ha : x.event.asset = asset <;> simp [ha]

end Handling

/-- One heartbeat: the metrics of the account at that time, what was handled since the heartbeat before, and all the
metrics that were collected. -/
structure Beat where
  account : List Metric
  since : List Handling
  latest : List Metric

namespace Trader

variable {ν σ : Type} {make : Maker ν σ} {e : BookEvent} {t t' : Trader ν σ} {c : TraderConfig}

/-- What handling an event will put out. -/
def handling (make : Maker ν σ) (e : BookEvent) (t : Trader ν σ) : Handling :=
  let u := t.receive e
  ⟨e, (u.deskFor make e.asset).context.id, (u.reaction make e).outputs u.session⟩

/-- An event is handled without a fault, but maybe with an error of its strategy. -/
def Handled (make : Maker ν σ) (e : BookEvent) (t t' : Trader ν σ) : Prop :=
  handle make e t = .ok () t' ∨ ∃ cause, handle make e t = .error (.error cause) t'

/-- The life of a trader: the heartbeats it had, what it handled since the last one, and its state. Time may pass
between any two events or heartbeats. -/
inductive History (c : TraderConfig) : List Beat → List Handling → Trader ν σ → Prop where
  | start {visiting : Visiting} {t : Trader ν σ} (h : new c visiting = .ok t) : History c [] [] t
  | handled {bs : List Beat} {hs : List Handling} {t t' : Trader ν σ} {make : Maker ν σ} {e : BookEvent}
      (hist : History c bs hs t) (h : Handled make e t t') : History c bs (hs ++ [t.handling make e]) t'
  | passed {bs : List Beat} {hs : List Handling} {t : Trader ν σ} (held : Option String) (time : ℕ)
      (hist : History c bs hs t) : History c bs hs { t with session := t.session.runUntil held time }
  | beat {bs : List Beat} {hs : List Handling} {t t' : Trader ν σ} {snapshot : Snapshot} {account : List Metric}
      (hist : History c bs hs t) (hs' : t.session.broker.snapshot = .ok snapshot)
      (ha : Metric.ofSnapshot source snapshot = .ok account) (h : heartbeat t = .ok () t') :
      History c (bs ++ [⟨account, hs, t'.latest⟩]) [] t'

/-- The metrics that wait for the next heartbeat. -/
def buffered (t : Trader ν σ) : List Metric := t.pending ++ t.desks.entries.flatMap fun e => e.2.context.metrics

theorem skipped_updateBook (e : BookEvent) (t : Trader ν σ) :
    (updateBook e t).1.skipped = RawLevel.refusals e.bids ++ RawLevel.refusals e.asks := by
  unfold updateBook
  split
  · exact congrArg (fun r => r.2.skipped) (Book.applyRaw_eq (.empty (t.session.book e.asset).asset) e.bids e.asks)
  · exact congrArg (fun r => r.2.skipped) (Book.applyRaw_eq (t.session.book e.asset) e.bids e.asks)

theorem pending_receive (e : BookEvent) (t : Trader ν σ) : (t.receive e).pending = t.pending ++ e.noted := by
  have hlength : (updateBook e t).1.skipped.length = e.malformed := by
    rw [skipped_updateBook, List.length_append]
    rfl
  have hclean : (updateBook e t).1.isClean = true ↔ e.malformed = 0 := by
    unfold DeltaSummary.isClean
    rw [List.isEmpty_iff, ← List.length_eq_zero_iff, hlength]
  unfold receive noteSkipped BookEvent.noted
  dsimp only
  by_cases h0 : e.malformed = 0
  · rw [if_pos (hclean.2 h0), if_pos h0, List.append_nil]
  · rw [if_neg fun hc => h0 (hclean.1 hc), if_neg h0, hlength]

/-- Where nothing faulted, the program of the strategy came to its end. -/
theorem restore_of_handled (h : Handled make e t t') :
    ∃ state, t' = ((t.receive e).consult e.asset).restore e.asset
      { (t.receive e).deskFor make e.asset with state := state }
      (after ((t.receive e).reaction make e).run ((t.receive e).workplace make e.asset)) := by
  have hf : ∀ f u, handle make e t ≠ .error (.fault f) u := by
    intro f u hu
    unfold Handled at h
    rw [hu] at h
    obtain h | ⟨cause, h⟩ := h <;> cases h
  unfold Handled at h
  rw [handle_eq_of_not_fault hf, serve_eq] at h
  cases hrun : ((t.receive e).reaction make e).run ((t.receive e).workplace make e.asset) with
  | ok a w =>
    obtain ⟨answer, state⟩ := a
    rw [hrun] at h
    rw [after_of_ok hrun]
    refine ⟨state, ?_⟩
    dsimp only at h
    cases htol : tolerate answer with
    | ok u =>
      rw [htol] at h
      obtain h | ⟨cause, h⟩ := h <;> cases h
      rfl
    | error err =>
      rw [htol] at h
      obtain h | ⟨cause, h⟩ := h <;> cases h
      rfl
  | error f w =>
    rw [hrun] at h
    obtain h | ⟨cause, h⟩ := h <;> cases h

/-- A new desk has nothing to hand over. -/
theorem metrics_deskFor (make : Maker ν σ) (asset : String) (t : Trader ν σ) :
    (t.deskFor make asset).context.metrics = (t.desks.find? asset).elim [] fun d => d.context.metrics := by
  unfold deskFor
  cases t.desks.find? asset <;> rfl

/-- What handling an event puts out comes to what waited before. -/
theorem buffered_of_handled (h : Handled make e t t') :
    t'.buffered.Perm (t.buffered ++ (t.handling make e).metrics) := by
  obtain ⟨state, rfl⟩ := restore_of_handled h
  have hcontext := Program.context_after_run ((t.receive e).reaction make e) ((t.receive e).workplace make e.asset)
  have hmore := congrArg (· ++ (t.handling make e).outputs.flatMap (Output.metrics (t.handling make e).id))
    (metrics_deskFor make e.asset (t.receive e))
  rw [(receive_eq e t).1] at hmore
  have hdesks := TextMap.flatMap_put_perm (f := fun d : Desk ν σ => d.context.metrics)
    (a := ⟨((t.receive e).deskFor make e.asset).strategy, state,
      ((t.receive e).workplace make e.asset).context.keep (t.handling make e).outputs⟩) hmore
  rw [restore_consult]
  unfold buffered restore TextMap.insert Handling.metrics
  dsimp only
  rw [hcontext, pending_receive, (receive_eq e t).1]
  refine (hdesks.append_left (t.pending ++ e.noted)).trans ?_
  rw [List.append_assoc, List.append_assoc]
  exact (List.perm_append_comm_assoc _ _ _).append_left t.pending

/-- A heartbeat hands over all that waits. -/
theorem latest_of_heartbeat {snapshot : Snapshot} {account : List Metric}
    (hs : t.session.broker.snapshot = .ok snapshot) (ha : Metric.ofSnapshot source snapshot = .ok account)
    (h : heartbeat t = .ok () t') : t'.latest = account ++ t.buffered ∧ t'.buffered = [] := by
  obtain ⟨snapshot', account', hs', ha', rfl⟩ := exists_account_of_heartbeat h
  rw [hs] at hs'
  cases hs'
  rw [ha] at ha'
  cases ha'
  refine ⟨List.append_assoc _ _ _, ?_⟩
  unfold buffered drainDesks TextMap.map Context.drain
  simp [List.flatMap_map]

/-- Between two heartbeats all that was put out waits, and a heartbeat hands it over. -/
theorem buffered_of_history {bs : List Beat} {hs : List Handling} (h : History c bs hs t) :
    t.buffered.Perm (hs.flatMap Handling.metrics) ∧
      ∀ b ∈ bs, b.latest.Perm (b.account ++ b.since.flatMap Handling.metrics) := by
  induction h with
  | start h =>
    unfold new at h
    obtain ⟨_, -, h⟩ := bind_eq_ok_iff.1 h
    cases h
    exact ⟨.refl _, nofun⟩
  | handled hist h ih =>
    rw [List.flatMap_append, List.flatMap_singleton]
    exact ⟨(buffered_of_handled h).trans (ih.1.append_right _), ih.2⟩
  | passed held time hist ih => exact ih
  | beat hist hs' ha h ih =>
    obtain ⟨hlatest, hnone⟩ := latest_of_heartbeat hs' ha h
    rw [hnone, List.forall_mem_append, List.forall_mem_singleton, hlatest]
    exact ⟨.refl _, ih.2, ih.1.append_left _⟩

end Trader

/-- What the batches of the heartbeats tell. -/
structure Metered (bs : List Beat) : Prop where
  /-- A batch is the metrics of the account and all that was made since the batch before -/
  batch : ∀ b ∈ bs, b.latest.Perm (b.account ++ b.since.flatMap Handling.metrics)
  /-- So all of them together hold each metric as often as it was made -/
  collected : (bs.flatMap Beat.latest).Perm
    (bs.flatMap Beat.account ++ (bs.flatMap Beat.since).flatMap Handling.metrics)
  /-- There is one value for each event with malformed entries, and those that strategies emit under that name -/
  skipped : ∀ asset, (Metric.values Metric.bookEntriesSkipped asset (bs.flatMap Beat.latest)).Perm
    (((bs.flatMap Beat.since).flatMap fun h => h.event.skippedValues asset) ++
      Metric.values Metric.bookEntriesSkipped asset ((bs.flatMap Beat.since).flatMap Handling.own))
  /-- The values come to the number of malformed entries, and to what strategies emit under that name -/
  skipped_total : ∀ asset, (∀ h ∈ bs.flatMap Beat.since, h.event.malformed ≤ Decimal.maxMantissa) →
    Decimal.total (Metric.values Metric.bookEntriesSkipped asset (bs.flatMap Beat.latest)) =
      ((((bs.flatMap Beat.since).filter fun h => h.event.asset = asset).map fun h => h.event.malformed).sum : ℕ) +
        Decimal.total (Metric.values Metric.bookEntriesSkipped asset ((bs.flatMap Beat.since).flatMap Handling.own))
  /-- There is one metric for each order that was dropped, and those that strategies emit under that name -/
  dropped : ∀ asset, (Metric.values Metric.ordersDropped asset (bs.flatMap Beat.latest)).length =
    ((bs.flatMap Beat.since).flatMap Handling.outputs).countP (·.isDropped asset) +
      (Metric.values Metric.ordersDropped asset ((bs.flatMap Beat.since).flatMap Handling.own)).length

/-- The batches tell this if none has lost a metric or got one twice, and the account's own have no labels. -/
theorem metered_of_batches {bs : List Beat}
    (hbatch : ∀ b ∈ bs, b.latest.Perm (b.account ++ b.since.flatMap Handling.metrics))
    (hlabels : ∀ b ∈ bs, ∀ m ∈ b.account, m.labels = .empty) : Metered bs := by
  have hcollected : (bs.flatMap Beat.latest).Perm
      (bs.flatMap Beat.account ++ (bs.flatMap Beat.since).flatMap Handling.metrics) := by
    rw [List.flatMap_assoc]
    exact (List.Perm.flatMap_left bs hbatch).trans (List.flatMap_append_perm bs _ _).symm
  have hvalues : ∀ name asset, (Metric.values name asset (bs.flatMap Beat.latest)).Perm
      (Metric.values name asset ((bs.flatMap Beat.since).flatMap Handling.metrics)) := by
    intro name asset
    have haccount : Metric.values name asset (bs.flatMap Beat.account) = [] := by
      refine Metric.values_of_unlabelled fun m hm => ?_
      obtain ⟨b, hb, hm⟩ := List.mem_flatMap.1 hm
      rw [hlabels b hb m hm]
      rfl
    have hperm := Metric.values_perm name asset hcollected
    rwa [Metric.values_append, haccount, List.nil_append] at hperm
  have hskipped := fun asset => (hvalues Metric.bookEntriesSkipped asset).trans (Handling.values_skipped_perm asset _)
  refine ⟨hbatch, hcollected, hskipped, fun asset hmax => ?_, fun asset => ?_⟩
  · rw [Decimal.total_perm (hskipped asset), Decimal.total_append, Handling.total_skippedValues asset hmax]
  · rw [(hvalues Metric.ordersDropped asset).length_eq, Handling.length_values_dropped]

namespace Trader

variable {ν σ : Type} {t : Trader ν σ} {c : TraderConfig} {bs : List Beat} {hs : List Handling}

theorem unlabelled_of_history (h : History c bs hs t) : ∀ b ∈ bs, ∀ m ∈ b.account, m.labels = .empty := by
  induction h with
  | start h => exact nofun
  | handled hist h ih => exact ih
  | passed held time hist ih => exact ih
  | beat hist hs' ha h ih =>
    rw [List.forall_mem_append, List.forall_mem_singleton]
    exact ⟨ih, Metric.labels_of_ofSnapshot ha⟩

/-- A trader shows the batch of its last heartbeat. -/
theorem latest_of_history (h : History c bs hs t) : t.latest = (bs.getLast?.map Beat.latest).getD [] := by
  have hreceive : ∀ e (t : Trader ν σ), (t.receive e).latest = t.latest := by
    intro e t
    unfold receive noteSkipped
    split <;> rfl
  induction h with
  | start h =>
    unfold new at h
    obtain ⟨_, -, h⟩ := bind_eq_ok_iff.1 h
    cases h
    rfl
  | handled hist h ih =>
    obtain ⟨state, rfl⟩ := restore_of_handled h
    rw [restore_consult]
    exact (hreceive _ _).trans ih
  | passed held time hist ih => exact ih
  | beat hist hs' ha h ih => rw [List.getLast?_concat, Option.map_some, Option.getD_some]

/-- Whatever happens to a trader, no metric is lost and none is handed over twice; what the last heartbeat has not
handed over waits for the next. -/
theorem metered_of_history (h : History c bs hs t) :
    Metered bs ∧ t.latest = (bs.getLast?.map Beat.latest).getD [] ∧ t.buffered.Perm (hs.flatMap Handling.metrics) := by
  obtain ⟨hwaits, hbatch⟩ := buffered_of_history h
  exact ⟨metered_of_batches hbatch (unlabelled_of_history h), latest_of_history h, hwaits⟩

namespace History

/-- An event that is handled without an error takes the history on. -/
theorem after_handle (hist : History c bs hs t) (make : Maker ν σ) (e : BookEvent)
    (h : () ∈ (handle make e).run' t) : History c bs (hs ++ [t.handling make e]) (after (handle make e) t) :=
  hist.handled (.inl (eq_ok_of_mem_run' h))

/-- And so does a heartbeat that comes off. -/
theorem after_heartbeat (hist : History c bs hs t) (h : () ∈ heartbeat.run' t) :
    ∃ account, History c (bs ++ [⟨account, hs, (after heartbeat t).latest⟩]) [] (after heartbeat t) := by
  have hok := eq_ok_of_mem_run' h
  obtain ⟨snapshot, account, hs', ha, -⟩ := exists_account_of_heartbeat hok
  exact ⟨account, hist.beat hs' ha hok⟩

end History

/-- Two orders for a dollar and a metric whenever a book changes. -/
def pushy : Maker Unit Unit := fun _ =>
  (⟨⟨"pushy", "1.0.0", "asks twice"⟩, fun _ view =>
    let order : Order := ⟨view.asset, .buyYes, .lit 60 2, .one⟩
    .submit order (.live view.asset) false fun _ => .submit order (.live view.asset) false fun _ =>
      .emit (.gauge "pushy" "seen" .one) (.done (.ok (), ()))⟩, ())

/-- A trader before its first event. -/
def unmetered : Trader Unit Unit :=
  ⟨.new (.new TraderConfig.patient.broker .oldestFirst) 50, .empty, [], [], 0, [], []⟩

/-- News with two malformed entries. -/
def roughRain : BookEvent := ⟨"rain", [⟨"0.40", "100"⟩, ⟨"x", "1"⟩], [⟨"0.50", "100"⟩, ⟨"2", "1"⟩], true⟩

def snow : BookEvent := ⟨"snow", [], [⟨"0.30", "20"⟩], true⟩

def moreRain : BookEvent := ⟨"rain", [⟨"0.41", "7"⟩], [], false⟩

def pushyMorning : Trader Unit Unit := after heartbeat (after (handle pushy roughRain) unmetered)

/-- The orders of the morning have fallen due. -/
def pushyEvening : Trader Unit Unit :=
  after heartbeat (after (handle pushy moreRain)
    (after (handle pushy snow) { pushyMorning with session := pushyMorning.session.runUntil none 50 }))

/-- Each second order was dropped. -/
theorem metered_of_pushy : ∃ (bs : List Beat) (hs : List Handling), History .patient bs hs pushyEvening ∧
    bs.map Beat.latest = [pushyMorning.latest, pushyEvening.latest] ∧ Metered bs ∧
      pushyEvening.latest = (bs.getLast?.map Beat.latest).getD [] ∧
      pushyEvening.buffered.Perm (hs.flatMap Handling.metrics) ∧
      Metric.values Metric.bookEntriesSkipped "rain" (pushyMorning.latest ++ pushyEvening.latest) = [.ofNat 2] ∧
      (Metric.values Metric.ordersDropped "rain" (pushyMorning.latest ++ pushyEvening.latest)).length = 2 := by
  have hstart : History .patient [] [] unmetered := .start rfl
  obtain ⟨account, hmorning⟩ := (hstart.after_handle pushy roughRain (by decide +kernel)).after_heartbeat
    (by decide +kernel)
  have hsnow := (hmorning.passed none 50).after_handle pushy snow (by decide +kernel)
  obtain ⟨account', hevening⟩ := (hsnow.after_handle pushy moreRain (by decide +kernel)).after_heartbeat
    (by decide +kernel)
  obtain ⟨hmetered, hlatest, hwaits⟩ := metered_of_history hevening
  exact ⟨_, _, hevening, rfl, hmetered, hlatest, hwaits, by decide +kernel, by decide +kernel⟩

/-- Emits, under the names of skipped entries and of dropped orders, metrics of its own. -/
def pretender : Maker Unit Unit := fun _ =>
  (⟨⟨"pretender", "1.0.0", "borrows names"⟩, fun _ view =>
    .emit (.entriesSkipped "pretender" view.asset 1) (.emit (.orderDropped "pretender" view.asset)
      (.done (.ok (), ())))⟩, ())

def pretended : Trader Unit Unit := after heartbeat (after (handle pretender snow) unmetered)

/-- So the values under these names are not those of malformed entries and dropped orders alone: here there are
neither. -/
theorem values_of_pretender : ∃ bs : List Beat, History .patient bs [] pretended ∧
    (∀ h ∈ bs.flatMap Beat.since, h.event.malformed = 0) ∧
    ((bs.flatMap Beat.since).flatMap Handling.outputs).countP (·.isDropped "snow") = 0 ∧
    Metric.values Metric.bookEntriesSkipped "snow" (bs.flatMap Beat.latest) = [.ofNat 1] ∧
    (Metric.values Metric.ordersDropped "snow" (bs.flatMap Beat.latest)).length = 1 := by
  have hstart : History .patient [] [] unmetered := .start rfl
  obtain ⟨account, hbeat⟩ := (hstart.after_handle pretender snow (by decide +kernel)).after_heartbeat
    (by decide +kernel)
  let h : Handling := unmetered.handling pretender snow
  have hclean : ∀ h' ∈ [h], h'.event.malformed = 0 := by decide +kernel
  have hnone : ([h].flatMap Handling.outputs).countP (·.isDropped "snow") = 0 := by decide +kernel
  have hskipped : Metric.values Metric.bookEntriesSkipped "snow" pretended.latest = [.ofNat 1] := by decide +kernel
  have hdropped : (Metric.values Metric.ordersDropped "snow" pretended.latest).length = 1 := by decide +kernel
  refine ⟨[⟨account, [h], pretended.latest⟩], hbeat, hclean, hnone, ?_, ?_⟩
  · rw [List.flatMap_singleton]
    exact hskipped
  · rw [List.flatMap_singleton]
    exact hdropped

end Trader
end OutcomeMarket
