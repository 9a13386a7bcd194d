import OutcomeMarket.Proofs.Live.Handling
import OutcomeMarket.Proofs.Strategy.Recording

/-! The feeds of different assets do not interfere. Whatever order the events of several assets come in, the book, the
price and the strategy of an asset are those of its own events. So two feeds that agree asset by asset lead to the same
books and prices and show the same to every strategy. -/
namespace OutcomeMarket

/-- A strategy that does nothing to the account and sends no orders. -/
def Strategy.Quiet {ν ω σ : Type} (s : Strategy ν ω σ) : Prop := s.Uses (fun _ => False) fun _ _ => False

/-- The events of one asset. -/
def ownEvents (asset : String) (es : List BookEvent) : List BookEvent := es.filter (·.asset == asset)

namespace Book

/-- The states of a book after each of its events. -/
def states (b : Book) : List BookEvent → List Book
  | [] => []
  | e :: es => b.receive e :: (b.receive e).states es

/-- The price that the states of a book leave: the middle of the last one with both sides, if there was one. -/
def Priced (states : List Book) (price : Option Decimal) : Prop :=
  match (states.filter hasTouch).getLast? with
  | none => price = none
  | some b => ∃ m, b.mid = .ok (some m) ∧ price = some m

variable {b : Book} {bs : List Book} {es : List BookEvent} {e : BookEvent} {price price' : Option Decimal}

theorem states_append (b : Book) (es fs : List BookEvent) :
    b.states (es ++ fs) = b.states es ++ (es.foldl receive b).states fs := by
  induction es generalizing b with
  | nil => rfl
  | cons e es ih =>
    simp only [List.cons_append, states, List.foldl_cons]
    rw [ih]

theorem sound_foldl_receive (h : b.Sound) (es : List BookEvent) : (es.foldl receive b).Sound := by
  induction es generalizing b with
  | nil => exact h
  | cons e es ih => exact ih (h.receive e)

theorem Priced.unique (h : Priced bs price) (h' : Priced bs price') : price = price' := by
  unfold Priced at h h'
  cases hl : (bs.filter hasTouch).getLast? with
  | none =>
    rw [hl] at h h'
    exact h.trans h'.symm
  | some b =>
    rw [hl] at h h'
    obtain ⟨m, hm, rfl⟩ := h
    obtain ⟨m', hm', rfl⟩ := h'
    rw [hm] at hm'
    cases hm'
    rfl

/-- A state with both sides sets the price. -/
theorem priced_append_of_touch {m : Decimal} (ht : b.hasTouch = true) (hm : b.mid = .ok (some m)) :
    Priced (bs ++ [b]) (some m) := by
  unfold Priced
  rw [List.filter_append, List.filter_cons_of_pos ht, List.filter_nil, List.getLast?_concat]
  exact ⟨m, hm, rfl⟩

/-- Any other state leaves it. -/
theorem Priced.append (h : Priced bs price) (ht : ¬ b.hasTouch = true) : Priced (bs ++ [b]) price := by
  unfold Priced at h ⊢
  rwa [List.filter_append, List.filter_cons_of_neg ht, List.filter_nil, List.append_nil]

end Book

/-- From one session without orders to another nothing happened but that time has passed. -/
structure Session.Still (s s' : Session) : Prop where
  broker : s'.broker = s.broker
  books : s'.books = s.books
  orders : s'.orders = #[]

theorem Session.still_of_strides {s s' : Session} (ho : s.orders = #[]) (h : Strides s s') : s.Still s' := by
  induction h with
  | refl => exact ⟨rfl, rfl, ho⟩
  | tail _ h ih =>
    cases h with
    | turned now => exact ⟨ih.broker, ih.books, ih.orders⟩
    | rewritten f hd =>
      rw [ih.orders] at hd
      cases hd
    | fired held hd =>
      rw [ih.orders] at hd
      cases hd

/-- What a quiet program does is not seen in the session, even if it faults: time passes at most. -/
theorem Program.Uses.still_of_quiet {ν α : Type} {p : Program ν α} (hp : p.Uses (fun _ => False) fun _ _ => False)
    (w : Workspace ν) (ho : w.session.orders = #[]) : w.session.Still (after p.run w).session := by
  induction p generalizing w with
  | done a => exact ⟨rfl, rfl, ho⟩
  | fault k => exact ⟨rfl, rfl, ho⟩
  | look next ih => exact ih _ (hp _) w ho
  | operate op next ih => exact hp.1.elim
  | submit o v locked next ih => exact hp.1.elim
  | attend e held next ih =>
    have hs := Session.still_of_strides ho (e.strides held w.session)
    have hrest := ih (e.run held w.session).1 (hp _) { w with session := (e.run held w.session).2 } hs.orders
    exact ⟨hrest.broker.trans hs.broker, hrest.books.trans hs.books, hrest.orders⟩
  | emit m p ih => exact ih hp { w with context := w.context.emit m } ho
  | note n p ih => exact ih hp { w with journal := w.journal ++ [n] } ho

namespace Session

variable {s : Session} {e : BookEvent}

theorem book_notePrice (s : Session) (asset : String) : (s.notePrice asset).books = s.books := by
  unfold notePrice
  split <;> rfl

theorem orders_receive (s : Session) (e : BookEvent) : (s.receive e).orders = s.orders := by
  unfold receive notePrice
  split <;> rfl

theorem find?_receive (s : Session) (e : BookEvent) (asset : String) : (s.receive e).books.find? asset =
    if asset = e.asset then some ((s.book e.asset).receive e) else s.books.find? asset := by
  unfold receive
  rw [book_notePrice]
  exact TextMap.find?_insert s.books e.asset asset _

theorem book_receive (s : Session) (e : BookEvent) (asset : String) : (s.receive e).book asset =
    if asset = e.asset then (s.book e.asset).receive e else s.book asset := by
  have hfind : (s.receive e).book asset = ((s.receive e).books.find? asset).getD (.empty asset) := rfl
  rw [hfind, find?_receive]
  split <;> rfl

/-- The news of one asset leave the prices of the others alone. -/
theorem price_receive_of_ne {asset : String} (h : asset ≠ e.asset) :
    (s.receive e).broker.lastKnownPrice asset = s.broker.lastKnownPrice asset := by
  unfold receive notePrice
  split
  · exact TextMap.find?_insert_of_ne s.broker.prices h _
  · rfl

theorem priced_receive {bs : List Book} (hb : (s.book e.asset).Sound)
    (h : Book.Priced bs (s.broker.lastKnownPrice e.asset)) :
    Book.Priced (bs ++ [(s.book e.asset).receive e]) ((s.receive e).broker.lastKnownPrice e.asset) := by
  have hbook : (s.setBook e.asset ((s.book e.asset).receive e)).book e.asset = (s.book e.asset).receive e := by
    rw [book_setBook, if_pos rfl]
  obtain ⟨mid, hmid, hsome, -⟩ := (hb.receive e).mid
  rw [← Book.hasTouch_iff] at hsome
  unfold receive notePrice
  rw [hbook, hmid]
  cases mid with
  | none =>
    refine h.append fun ht => ?_
    have hn := hsome.2 ht
    cases hn
  | some m =>
    have hprice : (s.broker.withPrice e.asset m).lastKnownPrice e.asset = some m :=
      TextMap.find?_insert_self s.broker.prices e.asset m
    have hp : Book.Priced (bs ++ [(s.book e.asset).receive e]) (some m) :=
      Book.priced_append_of_touch (hsome.1 rfl) hmid
    rw [← hprice] at hp
    exact hp

end Session

namespace Trader

variable {ν σ : Type}

/-- Handle events one after the other, with a maker for each. Errors and faults of strategies end nothing but the
handling of their event. -/
def handleAll (make : ℕ → Maker ν σ) (es : List BookEvent) (t : Trader ν σ) : Trader ν σ :=
  es.zipIdx.foldl (fun t x => after (handle (make x.2) x.1) t) t

/-- What a trader has come to over these events. -/
structure Fed (make : ℕ → Maker ν σ) (es : List BookEvent) (t : Trader ν σ) : Prop where
  /-- Each book is the fold of its own events, and there is one if there was an event -/
  book : ∀ asset, t.session.books.find? asset =
    if ownEvents asset es = [] then none else some ((ownEvents asset es).foldl Book.receive (.empty asset))
  /-- Each price is the middle of the last own state with both sides -/
  price : ∀ asset, Book.Priced ((Book.empty asset).states (ownEvents asset es)) (t.session.broker.lastKnownPrice asset)
  /-- Each asset has one strategy, which was made at its first event -/
  made : ∀ asset, (t.desks.find? asset).map Desk.strategy =
    (es.findIdx? (·.asset == asset)).map fun i => (make i asset).1
  /-- A strategy was asked for once for each asset with an event, and for no other -/
  asked : ∀ asset, t.made.count asset = if ownEvents asset es = [] then 0 else 1
  /-- There are no orders that time could bring on -/
  idle : t.session.orders = #[]
  events : t.events = es.length

variable {make make' : ℕ → Maker ν σ} {es fs : List BookEvent} {e : BookEvent} {t : Trader ν σ} {asset : String}

theorem handleAll_append (make : ℕ → Maker ν σ) (es : List BookEvent) (e : BookEvent) (t : Trader ν σ) :
    handleAll make (es ++ [e]) t = after (handle (make es.length) e) (handleAll make es t) := by
  unfold handleAll
  rw [List.zipIdx_append, List.foldl_append, Nat.zero_add]
  rfl

theorem ownEvents_append (asset : String) (es : List BookEvent) (e : BookEvent) :
    ownEvents asset (es ++ [e]) = if asset = e.asset then ownEvents asset es ++ [e] else ownEvents asset es := by
  unfold ownEvents
  rw [List.filter_append]
  by_cases h : asset = e.asset
  · simp [h]
  · rw [if_neg h]
    simp [Ne.symm h]

theorem deskFor_receive (make : Maker ν σ) (e : BookEvent) (t : Trader ν σ) (asset : String) :
    (t.receive e).deskFor make asset = t.deskFor make asset := by
  unfold deskFor
  rw [(receive_eq e t).1]

/-- An event that a quiet strategy is shown has been taken in, its strategy was asked for if there was none, and its
desk is written; nothing else happens but that time may pass. -/
structure TakenIn (make : Maker ν σ) (e : BookEvent) (t t' : Trader ν σ) : Prop where
  still : (t.session.receive e).Still t'.session
  events : t'.events = t.events + 1
  made : t'.made = (t.consult e.asset).made
  desk : ∃ d, t'.desks = t.desks.insert e.asset d ∧ d.strategy = (t.deskFor make e.asset).strategy

theorem takenIn_restore (make : Maker ν σ) {d : Desk ν σ} {w : Workspace ν}
    (hd : d.strategy = (t.deskFor make e.asset).strategy) (hw : (t.session.receive e).Still w.session) :
    TakenIn make e t (((t.receive e).consult e.asset).restore e.asset d w) := by
  obtain ⟨hdesks, -, hmade⟩ := receive_eq e t
  refine ⟨hw, ?_, ?_, { d with context := w.context }, ?_, hd⟩
  · rw [restore_consult]
    rfl
  · rw [restore_consult, made_consult, made_consult, hdesks, hmade]
  · rw [restore_consult]
    unfold restore
    rw [hdesks]

theorem takenIn_of_quiet {make : Maker ν σ} (hb : (t.session.book e.asset).Sound) (ho : t.session.orders = #[])
    (hq : (t.deskFor make e.asset).strategy.Quiet) : TakenIn make e t (after (handle make e) t) := by
  have hd := deskFor_receive make e t e.asset
  rw [← hd] at hq
  have ho : (t.receive e).session.orders = #[] := (Session.orders_receive t.session e).trans ho
  have hp : ((t.receive e).reaction make e).Uses (fun _ => False) fun _ _ => False := hq _ _
  have hs := hp.still_of_quiet ((t.receive e).workplace make e.asset) ho
  have hstrategy := congrArg Desk.strategy hd
  unfold after at hs
  rw [after_handle_eq hb]
  -- however the strategy ends, its desk is put back
  cases hrun : ((t.receive e).reaction make e).run ((t.receive e).workplace make e.asset) with
  | ok a w =>
    rw [hrun] at hs
    exact takenIn_restore make hstrategy hs
  | error f w =>
    rw [hrun] at hs
    exact takenIn_restore make hstrategy hs

theorem Fed.book_eq (h : Fed make es t) (asset : String) :
    t.session.book asset = (ownEvents asset es).foldl Book.receive (.empty asset) := by
  unfold Session.book
  rw [h.book]
  split
  · rename_i hnil
    rw [hnil]
    rfl
  · rfl

theorem Fed.sound (h : Fed make es t) (asset : String) : (t.session.book asset).Sound := by
  rw [h.book_eq]
  exact Book.sound_foldl_receive (Book.Sound.empty asset) _

/-- The strategy that is shown an event was made at the first event of its asset. -/
theorem Fed.strategy (h : Fed make es t) (e : BookEvent) :
    ((es ++ [e]).findIdx? (·.asset == e.asset)).map (fun i => (make i e.asset).1) =
      some (t.deskFor (make es.length) e.asset).strategy := by
  have hm := h.made e.asset
  unfold deskFor
  rw [List.findIdx?_append]
  cases hf : es.findIdx? (·.asset == e.asset) with
  | none =>
    rw [hf, Option.map_none, Option.map_eq_none_iff] at hm
    rw [hm]
    simp
  | some i =>
    rw [hf, Option.map_some, Option.map_eq_some_iff] at hm
    obtain ⟨d, hd, hs⟩ := hm
    rw [hd]
    simp [hs]

/-- A desk stands for each asset that had an event, and for no other. -/
theorem Fed.isSome_desk_iff (h : Fed make es t) (asset : String) :
    (t.desks.find? asset).isSome = true ↔ ownEvents asset es ≠ [] := by
  have hm := congrArg Option.isSome (h.made asset)
  rw [Option.isSome_map, Option.isSome_map, List.findIdx?_isSome] at hm
  unfold ownEvents
  rw [hm, ne_eq, List.filter_eq_nil_iff]
  simp

theorem fed_new {c : TraderConfig} {visiting : Visiting} (h : new c visiting = .ok t) : Fed make [] t := by
  unfold new at h
  obtain ⟨_, -, h⟩ := bind_eq_ok_iff.1 h
  cases h
  exact ⟨fun asset => rfl, fun asset => rfl, fun asset => rfl, fun asset => rfl, rfl, rfl⟩

/-- The strategy of an asset is asked for at its first event only. -/
theorem Fed.count_consult (h : Fed make es t) (e : BookEvent) (asset : String) :
    (t.consult e.asset).made.count asset = if ownEvents asset (es ++ [e]) = [] then 0 else 1 := by
  have hdesk := h.isSome_desk_iff e.asset
  have hasked := h.asked asset
  rw [made_consult, ownEvents_append]
  by_cases ha : asset = e.asset
  · subst ha
    by_cases hown : ownEvents e.asset es = []
    · rw [if_pos hown] at hasked
      rw [if_neg fun hs => hdesk.1 hs hown, List.count_append, hasked]
      simp
    · rw [if_neg hown] at hasked
      rw [if_pos (hdesk.2 hown), hasked]
      simp
  · rw [if_neg ha, ← hasked]
    split
    · rfl
    · rw [List.count_append, List.count_singleton, beq_eq_false_iff_ne.2 (Ne.symm ha)]
      rfl

theorem Fed.append (h : Fed make es t) (hq : ∀ i asset, (make i asset).1.Quiet) (e : BookEvent) :
    Fed make (es ++ [e]) (after (handle (make es.length) e) t) := by
  have hmade := h.strategy e
  have hquiet : (t.deskFor (make es.length) e.asset).strategy.Quiet := by
    obtain ⟨i, -, hi⟩ := Option.map_eq_some_iff.1 hmade
    rw [← hi]
    exact hq i e.asset
  obtain ⟨hstill, hevents, hmadeNow, d, hdesks, hd⟩ := takenIn_of_quiet (h.sound e.asset) h.idle hquiet
  refine ⟨fun asset => ?_, fun asset => ?_, fun asset => ?_, fun asset => ?_, hstill.orders, ?_⟩
  · rw [hstill.books, Session.find?_receive, ownEvents_append, h.book_eq]
    by_cases ha : asset = e.asset
    · subst ha
      rw [if_pos rfl, if_pos rfl, if_neg (by simp), List.foldl_append]
      rfl
    · rw [if_neg ha, if_neg ha, h.book]
  · rw [hstill.broker, ownEvents_append]
    by_cases ha : asset = e.asset
    · subst ha
      rw [if_pos rfl, Book.states_append, ← h.book_eq]
      exact Session.priced_receive (h.sound e.asset) (h.price e.asset)
    · rw [if_neg ha, Session.price_receive_of_ne ha]
      exact h.price asset
  · rw [hdesks, TextMap.find?_insert]
    by_cases ha : asset = e.asset
    · subst ha
      rw [if_pos rfl, hmade, Option.map_some, hd]
    · rw [if_neg ha, h.made, List.findIdx?_append]
      have hne : (e.asset == asset) = false := beq_eq_false_iff_ne.2 (Ne.symm ha)
      simp [List.findIdx?_cons, hne]
  · rw [hmadeNow]
    exact h.count_consult e asset
  · rw [hevents, h.events, List.length_append, List.length_singleton]

theorem fed_handleAll {c : TraderConfig} {visiting : Visiting} (hn : new c visiting = .ok t)
    (hq : ∀ i asset, (make i asset).1.Quiet) (es : List BookEvent) : Fed make es (handleAll make es t) := by
  induction es using List.reverseRecOn with
  | nil => exact fed_new hn
  | append_singleton es e ih =>
    rw [handleAll_append]
    exact ih.append hq e

/-- A maker is asked at the first event of an asset and at no other. -/
theorem handleAll_congr {c : TraderConfig} {visiting : Visiting} (hn : new c visiting = .ok t)
    (hq : ∀ i asset, (make i asset).1.Quiet) (es : List BookEvent)
    (h : ∀ i asset, es.findIdx? (·.asset == asset) = some i → make' i asset = make i asset) :
    handleAll make' es t = handleAll make es t := by
  induction es using List.reverseRecOn with
  | nil => rfl
  | append_singleton es e ih =>
    have hf := fed_handleAll hn hq es
    have heq : handleAll make' es t = handleAll make es t := ih fun i asset hi => h i asset (by
      rw [List.findIdx?_append, hi]
      rfl)
    have hdesk : ((handleAll make es t).receive e).deskFor (make' es.length) e.asset =
        ((handleAll make es t).receive e).deskFor (make es.length) e.asset := by
      rw [deskFor_receive, deskFor_receive]
      unfold deskFor
      cases hd : (handleAll make es t).desks.find? e.asset with
      | some d => rfl
      | none =>
        have hm := hf.made e.asset
        rw [hd, Option.map_none, eq_comm, Option.map_eq_none_iff] at hm
        rw [h es.length e.asset (by simp [List.findIdx?_append, hm])]
    rw [handleAll_append, handleAll_append, heq, after_handle_eq (hf.sound e.asset), after_handle_eq (hf.sound e.asset)]
    unfold reaction workplace
    rw [hdesk]

end Trader
end OutcomeMarket
