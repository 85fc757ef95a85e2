import MarketData.Book.MboGrid

/-!
# `Book/FastBooks.lean` — a consumer that keeps fast books

`crates/book/src/fast.rs`. A consumer of the feed may keep the reference books or the fast ones.
Held against each other on one stream, the fast books take a message the reference books take
exactly when it puts no order off its symbol's grid, as long as they have the room; and as long
as they have taken every message, the two sets of books look alike.

## Room is a hypothesis, the grid is not

A fast book refuses for three reasons the reference book does not have: its slab is full, the window
is not wide enough, or the price is off the grid. The first two depend on how the book was sized and
on everything that rests, so they are asked for along the run (`RoomAlong`), one message at a time,
in the state the message meets; `RoomAlong` is decidable, and a concrete stream is checked by
evaluating it. The grid depends on the message and on the symbol's reference price and tick alone,
whatever the window has done since, so it is what the statement is **about** (`OnItsGrid`).

`HasRoom` also keeps the tick arithmetic inside the 64-bit range. Where a price is so far away that
it overflows, the book may misfile it, which is the subject of `Book/MboExtreme.lean`.

Configured symbols get a book of their own size and every other symbol the fallback size
(`capacityOf`); the set starts with the configured books already there, which a digest does not see
and a lookup does not either.
-/

set_option autoImplicit false

namespace MarketData.Book

open MarketData.Wire

/-! ## Configured symbols -/

/-- Inserts a configured symbol's book, unless the set has one for it. -/
def FastBooks.configure (set : FastBooks) (symbol : UInt16 × MboCapacity) : FastBooks :=
  match set.get symbol.1 with
  | some _ => set
  | none => set.put symbol.1 (MboBook.new symbol.2)

/-- Builds every configured symbol's book up front, each at its own size. -/
def FastBooks.withSymbols (symbols : List (UInt16 × MboCapacity)) (fallback : MboCapacity) :
    FastBooks :=
  symbols.foldl configure (FastBooks.new fallback)

/-- The size a symbol's book gets. -/
def capacityOf (symbols : List (UInt16 × MboCapacity)) (fallback : MboCapacity)
    (symbolId : UInt16) : MboCapacity :=
  ((symbols.find? fun e => e.1 = symbolId).map (·.2)).getD fallback

theorem capacityOf_cons (symbol : UInt16 × MboCapacity) (symbols : List (UInt16 × MboCapacity))
    (fallback : MboCapacity) (symbolId : UInt16) :
    capacityOf (symbol :: symbols) fallback symbolId =
      if symbol.1 = symbolId then symbol.2 else capacityOf symbols fallback symbolId := by
  unfold capacityOf
  by_cases heq : symbol.1 = symbolId
  · rw [if_pos heq, List.find?_cons_of_pos (by simpa using heq), Option.map_some, Option.getD_some]
  · rw [if_neg heq, List.find?_cons_of_neg (by simpa using heq)]

theorem BookSet.get_put {B : Type} (s : BookSet B) (symbolId symbolId' : UInt16) (b : B) :
    (s.put symbolId b).get symbolId' = if symbolId = symbolId' then some b else s.get symbolId' := by
  simp only [get, put, Std.TreeMap.getElem?_insert, Std.LawfulEqCmp.compare_eq_iff_eq]

theorem FastBooks.book_withSymbols (symbols : List (UInt16 × MboCapacity))
    (fallback : MboCapacity) (symbolId : UInt16) :
    (withSymbols symbols fallback).book symbolId =
      MboBook.new (capacityOf symbols fallback symbolId) := by
  -- over the fold: a book already in the set stays, and the default book never changes
  have hfold : ∀ set : FastBooks, set.fresh = MboBook.new fallback →
      (symbols.foldl configure set).book symbolId =
        (set.get symbolId).getD (MboBook.new (capacityOf symbols fallback symbolId)) := by
    induction symbols with
    | nil =>
      intro set hfresh
      show (set.get symbolId).getD set.fresh = (set.get symbolId).getD (MboBook.new fallback)
      rw [hfresh]
    | cons entry symbols ih =>
      intro set hfresh
      obtain ⟨configured, capacity⟩ := entry
      rw [List.foldl_cons]
      cases hget : set.get configured with
      | some b =>
        have hkept : configure set (configured, capacity) = set := by
          rw [configure, hget]
        rw [hkept, ih set hfresh, capacityOf_cons]
        by_cases heq : configured = symbolId
        · rw [← heq, hget, Option.getD_some, Option.getD_some]
        · rw [if_neg heq]
      | none =>
        have hput : configure set (configured, capacity) =
            set.put configured (MboBook.new capacity) := by
          rw [configure, hget]
        rw [hput, ih (set.put configured (MboBook.new capacity)) hfresh, BookSet.get_put,
          capacityOf_cons]
        by_cases heq : configured = symbolId
        · rw [if_pos heq, if_pos heq, ← heq, hget, Option.getD_some, Option.getD_none]
        · rw [if_neg heq, if_neg heq]
  have hnone : (FastBooks.new fallback).get symbolId = none := Std.TreeMap.getElem?_emptyc
  rw [withSymbols, hfold _ rfl, hnone, Option.getD_none]

/-! ## Side by side -/

/-- An operation the reference book takes is taken by a fast book with room exactly when it keeps
to the grid, and then the two still hold the same orders. -/
theorem Both.Inv.taken_iff {cap : MboCapacity} {p : Both} (h : p.Inv) (hgrid : p.fast.Gridded cap)
    {op : Op} (hroom : p.fast.HasRoom op)
    (hok : (OrderBook.step p.reference op).1.toOption.isSome) :
    ((OrderBook.step p.fast op).1.toOption.isSome ↔
      ∀ price, op.placed = some price → cap.OnGrid price) ∧
    ((OrderBook.step p.fast op).1.toOption.isSome →
      Both.Inv ⟨(OrderBook.step p.fast op).2, (OrderBook.step p.reference op).2⟩) := by
  obtain ⟨live, free, hwhole, hreps⟩ := h
  have hanswer := (hreps.step op).1
  obtain ⟨hinv, hsame⟩ := Both.Inv.step ⟨live, free, hwhole, hreps⟩ hroom.exactFor
  have hrefused := hwhole.refused_iff hgrid hroom (by rw [← hanswer]; exact hok)
  have htaken : (OrderBook.step p.fast op).1.toOption.isSome ↔
      MboBook.refusedForCapacity (OrderBook.step p.fast op).1 = false := by
    constructor
    · intro hsome
      cases hr : (OrderBook.step p.fast op).1 with
      | ok a => rfl
      | error e =>
        rw [hr] at hsome
        cases hsome
    · intro hroom
      rw [hsame hroom]
      exact hok
  refine ⟨htaken.trans hrefused, fun hsome => ?_⟩
  unfold Both.step at hinv
  rw [htaken.mp hsome] at hinv
  exact hinv

/-- **The fast books mirror the reference books**: symbol by symbol they hold the same orders,
and each keeps to its symbol's grid. -/
def Mirrors (caps : UInt16 → MboCapacity) (fast : FastBooks) (books : Books) : Prop :=
  ∀ symbolId, Both.Inv ⟨fast.book symbolId, books.book symbolId⟩ ∧
    (fast.book symbolId).Gridded (caps symbolId)

namespace Mirrors

variable {caps : UInt16 → MboCapacity} {fast : FastBooks} {books : Books}

theorem congr {fast' : FastBooks} {books' : Books} (h : Mirrors caps fast books)
    (hfast : fast'.Agree fast) (hbooks : books'.Agree books) : Mirrors caps fast' books' := by
  intro symbolId
  rw [hfast symbolId, hbooks symbolId]
  exact h symbolId

theorem sameView (h : Mirrors caps fast books) (symbolId : UInt16) :
    SameView (fast.book symbolId) (books.book symbolId) := by
  obtain ⟨⟨live, free, hwhole, hreps⟩, -⟩ := h symbolId
  exact hwhole.shows.sameView hreps.shows

end Mirrors

/-- Sets that were just built. -/
theorem mirrors_new (symbols : List (UInt16 × MboCapacity)) (fallback : MboCapacity)
    (hsound : ∀ symbolId, (capacityOf symbols fallback symbolId).Sound) :
    Mirrors (capacityOf symbols fallback) (FastBooks.withSymbols symbols fallback) Books.new := by
  intro symbolId
  rw [FastBooks.book_withSymbols]
  exact ⟨⟨[], _, MboBook.whole_new (hsound symbolId).addressable, Reps.new⟩,
    MboBook.gridded_new (hsound symbolId)⟩

/-- There is room for what the message asks. -/
def FastBooks.HasRoom (fast : FastBooks) (m : Message) : Prop :=
  match opOf m with
  | none => True
  | some (symbolId, op) => (fast.book symbolId).HasRoom op

instance (fast : FastBooks) (m : Message) : Decidable (fast.HasRoom m) := by
  unfold FastBooks.HasRoom
  split <;> infer_instance

/-- There is room for every message of the stream when its turn comes. -/
def FastBooks.RoomAlong (fast : FastBooks) : List (UInt64 × Message) → Prop
  | [] => True
  | (_, m) :: rest => fast.HasRoom m ∧ RoomAlong (applyMessage fast m).2 rest

def FastBooks.decRoomAlong : (fast : FastBooks) → (ms : List (UInt64 × Message)) →
    Decidable (fast.RoomAlong ms)
  | _, [] => .isTrue trivial
  | fast, (_, m) :: rest =>
    have := decRoomAlong (applyMessage fast m).2 rest
    inferInstanceAs (Decidable (_ ∧ _))

instance (fast : FastBooks) (ms : List (UInt64 × Message)) : Decidable (fast.RoomAlong ms) :=
  fast.decRoomAlong ms

/-- Everything the message puts on a book is on the grid of its symbol. -/
def OnItsGrid (caps : UInt16 → MboCapacity) (m : Message) : Prop :=
  ∀ symbolId price, placedBy m = some (symbolId, price) → (caps symbolId).OnGrid price

namespace Mirrors

variable {caps : UInt16 → MboCapacity} {fast : FastBooks} {books : Books}

/-- **One message**: the fast books take it exactly when it keeps to the grid, and then they still
mirror the others. -/
theorem apply (h : Mirrors caps fast books) {m : Message} (hplain : isSnapshot m = false)
    (hroom : fast.HasRoom m) (hok : (applyMessage books m).1 = .ok ()) :
    ((applyMessage fast m).1 = .ok () ↔ OnItsGrid caps m) ∧
    ((applyMessage fast m).1 = .ok () →
      Mirrors caps (applyMessage fast m).2 (applyMessage books m).2) := by
  unfold OnItsGrid placedBy
  unfold FastBooks.HasRoom at hroom
  cases hop : opOf m with
  | none =>
    obtain ⟨hanswer, hfast⟩ := applyMessage_of_none fast books hop hplain
    obtain ⟨-, hbooks⟩ := applyMessage_of_none books fast hop hplain
    refine ⟨⟨fun _ _ _ hplaced => (nomatch hplaced), fun _ => hanswer.trans hok⟩, fun _ => ?_⟩
    exact h.congr hfast hbooks
  | some asked =>
    obtain ⟨symbolId, op⟩ := asked
    rw [hop] at hroom
    obtain ⟨hfast, hfast'⟩ := applyMessage_of_op fast hop
    obtain ⟨hbooks, hbooks'⟩ := applyMessage_of_op books hop
    obtain ⟨hinv, hgrid⟩ := h symbolId
    obtain ⟨htaken, hstill⟩ := hinv.taken_iff hgrid hroom (hbooks.mp hok)
    refine ⟨hfast.trans (htaken.trans ?_), fun hsome t => ?_⟩
    · constructor
      · intro hon t price hplaced
        obtain ⟨price', hprice, heq⟩ := Option.map_eq_some_iff.mp hplaced
        obtain ⟨rfl, rfl⟩ := Prod.mk.inj heq
        exact hon _ hprice
      · intro hon price hprice
        exact hon symbolId price (Option.map_eq_some_iff.mpr ⟨price, hprice, rfl⟩)
    · rw [hfast' t, hbooks' t]
      split
      · rename_i heq
        obtain ⟨live, free, hwhole, -⟩ := hinv
        exact ⟨hstill (hfast.mp hsome), heq ▸ hgrid.step hwhole.store hroom.exactFor⟩
      · exact h t

/-- **A whole stream.** -/
theorem stream (h : Mirrors caps fast books) {ms : List (UInt64 × Message)}
    (hplain : ∀ e ∈ ms, isSnapshot e.2 = false) (hroom : fast.RoomAlong ms)
    (hok : ∀ r ∈ replay books ms, r.result = .ok ()) :
    ((∀ r ∈ replay fast ms, r.result = .ok ()) ↔ ∀ e ∈ ms, OnItsGrid caps e.2) ∧
    ((∀ r ∈ replay fast ms, r.result = .ok ()) →
      Mirrors caps (replayed fast ms) (replayed books ms)) := by
  induction ms generalizing fast books with
  | nil => exact ⟨⟨fun _ _ h => (nomatch h), fun _ _ h => (nomatch h)⟩, fun _ => h⟩
  | cons e ms ih =>
    obtain ⟨sequence, m⟩ := e
    obtain ⟨hroom, hrooms⟩ := hroom
    obtain ⟨hfirst, hok⟩ := List.forall_mem_cons.mp hok
    obtain ⟨hplain, hplains⟩ := List.forall_mem_cons.mp hplain
    obtain ⟨hiff, hmirrors⟩ := h.apply hplain hroom hfirst
    simp only [replay, List.forall_mem_cons]
    constructor
    · constructor
      · rintro ⟨hnow, hlater⟩
        exact ⟨hiff.mp hnow, (ih (hmirrors hnow) hplains hrooms hok).1.mp hlater⟩
      · rintro ⟨hnow, hlater⟩
        have htaken := hiff.mpr hnow
        exact ⟨htaken, (ih (hmirrors htaken) hplains hrooms hok).1.mpr hlater⟩
    · rintro ⟨hnow, hlater⟩
      exact (ih (hmirrors hnow) hplains hrooms hok).2 hlater

end Mirrors

end MarketData.Book
