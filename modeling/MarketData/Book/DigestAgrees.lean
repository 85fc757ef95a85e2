import MarketData.Book.Histories
import MarketData.Book.MboExtreme

/-!
# `Book/DigestAgrees.lean` — one digest for one set of levels

`FastBooks` of `crates/book/src/fast.rs` as it is laid out, a vector of books sorted by symbol id,
and against it and against `Books` the promise the digest is there for: whatever was done to two
sets of books, in whatever order their symbols came up, as long as they hold the same levels their
digests are the same, and the operations that were taken say which levels those are.

## The shape of the argument

Three steps, each of them about one difference between the two sets.

1. The vector is the list of the map (`Lays`), so `for_each_symbol` visits the symbols in id order
   either way, whatever order they were configured or first touched in.
2. Of a history only the operations that were taken leave anything behind
   (`Book/Histories.lean`), so a symbol's orders are a function of those.
3. A digest is a matter of what is shown (`Book/Digest.lean`).

A `Keeper` is a set of either kind as it is made, and the statement quantifies over two of them, so
that it covers two sets of one kind as well as one of each.

## Where the fast books need a condition

An operation whose tick arithmetic overflows can move the window off the orders and leave the cached
counts behind, and then the walk and `len` disagree. `Spared` asks that no operation of the history
does that. It asks nothing of one that is refused for its arguments, since such an operation never
gets to the window, and nothing at all of the reference books.
-/

set_option autoImplicit false

namespace MarketData.Book

open MarketData.Wire (Side)
open MarketData.Run
open Arrivals

/-! ## The vector of books -/

/-- `FastBooks`: the books, kept sorted by symbol id, and the size of one that was not configured. -/
structure SymbolVec where
  books : List (UInt16 × MboBook) := []
  fallback : MboCapacity

namespace SymbolVec

def new (fallback : MboCapacity) : SymbolVec := { fallback }

/-- One configured symbol of `with_symbols`. -/
def configure (v : SymbolVec) (symbol : UInt16 × MboCapacity) : SymbolVec :=
  match SortedVec.search v.books symbol.1 with
  | .ok _ => v
  | .error i => { v with books := v.books.insertIdx i (symbol.1, MboBook.new symbol.2) }

def withSymbols (symbols : List (UInt16 × MboCapacity)) (fallback : MboCapacity) : SymbolVec :=
  symbols.foldl configure (new fallback)

/-- `get_or_create`, with what the caller makes of the book. -/
def getOrCreate (v : SymbolVec) (symbolId : UInt16) (f : MboBook → MboBook) : SymbolVec :=
  match SortedVec.search v.books symbolId with
  | .ok i => { v with books := v.books.modify i fun e => (e.1, f e.2) }
  -- First touch for this symbol.
  | .error i =>
    { v with books := v.books.insertIdx i (symbolId, f (MboBook.new v.fallback)) }

def clearAll (v : SymbolVec) : SymbolVec :=
  { v with books := v.books.map fun e => (e.1, e.2.clear) }

def clearSymbol (v : SymbolVec) (symbolId : UInt16) : SymbolVec :=
  match SortedVec.search v.books symbolId with
  | .ok i => { v with books := v.books.modify i fun e => (e.1, e.2.clear) }
  | .error _ => v

def deed (v : SymbolVec) : Deed → SymbolVec
  | .on symbolId op => v.getOrCreate symbolId fun b => (OrderBook.step b op).2
  | .touch symbolId => v.getOrCreate symbolId id
  | .clearAll => v.clearAll
  | .clearSymbol symbolId => v.clearSymbol symbolId

/-- The vector is the list of the set's books. -/
structure Lays (v : SymbolVec) (s : FastBooks) : Prop where
  books : v.books = s.toList
  fresh : s.fresh = MboBook.new v.fallback

variable {v : SymbolVec} {s : FastBooks}

theorem modify_found {books : List (UInt16 × MboBook)} (h : SortedVec.Sorted books)
    {symbolId : UInt16} {i : Nat} (hsearch : SortedVec.search books symbolId = .ok i)
    (f : MboBook → MboBook) :
    ∃ b, SortedVec.get books symbolId = some b ∧
      books.modify i (fun e => (e.1, f e.2)) = SortedVec.insert books symbolId (f b) := by
  have hsearched := h.searched symbolId
  unfold SortedVec.get SortedVec.insert
  rw [hsearch] at hsearched ⊢
  cases hsearched with
  | found b hl hr =>
    rename_i l r
    refine ⟨b, ?_, ?_⟩
    · simp
    · simp [List.modify_eq_set_getElem?]

theorem missing {books : List (UInt16 × MboBook)} {symbolId : UInt16} {i : Nat}
    (hsearch : SortedVec.search books symbolId = .error i) (b : MboBook) :
    SortedVec.get books symbolId = none ∧
      books.insertIdx i (symbolId, b) = SortedVec.insert books symbolId b := by
  unfold SortedVec.get SortedVec.insert
  rw [hsearch]
  exact ⟨rfl, rfl⟩

theorem Lays.get (h : v.Lays s) (symbolId : UInt16) :
    SortedVec.get v.books symbolId = s.get symbolId := by
  rw [h.books]
  exact SortedVec.get_toList s.books symbolId

/-- Books put into the set under their symbol are inserted into the vector. -/
theorem Lays.put (h : v.Lays s) (symbolId : UInt16) (b : MboBook) :
    Lays { v with books := SortedVec.insert v.books symbolId b } (s.put symbolId b) where
  books := by
    show SortedVec.insert v.books symbolId b = _
    rw [h.books]
    exact SortedVec.insert_toList s.books symbolId b
  fresh := h.fresh

theorem Lays.sorted (h : v.Lays s) : SortedVec.Sorted v.books := by
  rw [h.books]
  exact SortedVec.sorted_toList s.books

theorem Lays.getOrCreate (h : v.Lays s) (symbolId : UInt16) (f : MboBook → MboBook) :
    Lays (v.getOrCreate symbolId f) (s.put symbolId (f (s.book symbolId))) := by
  have hget := h.get symbolId
  unfold SymbolVec.getOrCreate BookSet.book
  cases hsearch : SortedVec.search v.books symbolId with
  | ok i =>
    obtain ⟨b, hfound, hmodify⟩ := modify_found h.sorted hsearch f
    rw [← hget, hfound]
    dsimp only
    rw [hmodify]
    exact h.put symbolId (f b)
  | error i =>
    obtain ⟨hmissing, hinsert⟩ := missing hsearch (f (MboBook.new v.fallback))
    rw [← hget, hmissing, Option.getD_none, h.fresh]
    dsimp only
    rw [hinsert]
    exact h.put symbolId (f (MboBook.new v.fallback))

theorem Lays.clearAll (h : v.Lays s) : Lays v.clearAll s.clearAll where
  books := by
    show v.books.map _ = (s.books.map fun _ b => OrderBook.clear b).toList
    rw [h.books, Std.TreeMap.toList_map]
    rfl
  fresh := h.fresh

theorem Lays.clearSymbol (h : v.Lays s) (symbolId : UInt16) :
    Lays (v.clearSymbol symbolId) (s.clearSymbol symbolId) := by
  have hget := h.get symbolId
  unfold SymbolVec.clearSymbol BookSet.clearSymbol
  cases hsearch : SortedVec.search v.books symbolId with
  | ok i =>
    obtain ⟨b, hfound, hmodify⟩ := modify_found h.sorted hsearch MboBook.clear
    rw [← hget, hfound]
    dsimp only
    rw [hmodify]
    exact h.put symbolId b.clear
  | error i =>
    obtain ⟨hmissing, -⟩ := missing hsearch (MboBook.new v.fallback)
    rw [← hget, hmissing]
    exact h

/-- **The vector follows the set.** -/
theorem Lays.deed (h : v.Lays s) (d : Deed) : Lays (v.deed d) (s.deed d) := by
  cases d with
  | on symbolId op => exact h.getOrCreate symbolId fun b => (OrderBook.step b op).2
  | touch symbolId => exact h.getOrCreate symbolId id
  | clearAll => exact h.clearAll
  | clearSymbol symbolId => exact h.clearSymbol symbolId

theorem Lays.run (h : v.Lays s) (ds : List Deed) :
    Lays (ds.foldl SymbolVec.deed v) (ds.foldl BookSet.deed s) := by
  induction ds generalizing v s with
  | nil => exact h
  | cons d ds ih => exact ih (h.deed d)

theorem Lays.configure (h : v.Lays s) (symbol : UInt16 × MboCapacity) :
    Lays (v.configure symbol) (FastBooks.configure s symbol) := by
  have hget := h.get symbol.1
  unfold SymbolVec.configure FastBooks.configure
  cases hsearch : SortedVec.search v.books symbol.1 with
  | ok i =>
    obtain ⟨b, hfound, -⟩ := modify_found h.sorted hsearch id
    rw [← hget, hfound]
    exact h
  | error i =>
    obtain ⟨hmissing, hinsert⟩ := missing hsearch (MboBook.new symbol.2)
    rw [← hget, hmissing]
    dsimp only
    rw [hinsert]
    exact h.put symbol.1 (MboBook.new symbol.2)

theorem fallback_withSymbols (symbols : List (UInt16 × MboCapacity)) (fallback : MboCapacity) :
    (withSymbols symbols fallback).fallback = fallback := by
  suffices h : ∀ v : SymbolVec, (symbols.foldl configure v).fallback = v.fallback from h _
  induction symbols with
  | nil =>
    intro v
    rfl
  | cons symbol symbols ih =>
    intro v
    rw [List.foldl_cons, ih]
    unfold configure
    split <;> rfl

theorem lays_withSymbols (symbols : List (UInt16 × MboCapacity)) (fallback : MboCapacity) :
    Lays (withSymbols symbols fallback) (FastBooks.withSymbols symbols fallback) := by
  have hnew : Lays (new fallback) (FastBooks.new fallback) := by
    refine ⟨?_, rfl⟩
    exact (List.isEmpty_iff.mp (by rfl)).symm
  unfold withSymbols FastBooks.withSymbols
  generalize new fallback = v at hnew
  generalize FastBooks.new fallback = s at hnew
  induction symbols generalizing v s with
  | nil => exact hnew
  | cons symbol symbols ih => exact ih (v.configure symbol) _ (hnew.configure symbol)

end SymbolVec

/-! ## Any two sets -/

/-- The two kinds of sets, as they are made. -/
inductive Keeper where
  | reference
  | fast (symbols : List (UInt16 × MboCapacity)) (fallback : MboCapacity)

namespace Keeper

def BookType : Keeper → Type
  | reference => ReferenceBook
  | fast .. => MboBook

instance (k : Keeper) : OrderBook k.BookType :=
  match k with
  | reference => inferInstanceAs (OrderBook ReferenceBook)
  | fast .. => inferInstanceAs (OrderBook MboBook)

def start : (k : Keeper) → BookSet k.BookType
  | reference => Books.new
  | fast symbols fallback => FastBooks.withSymbols symbols fallback

/-- What `for_each_symbol` visits after everything that was done. -/
def visited : (k : Keeper) → List Deed → List (UInt16 × k.BookType)
  | reference, ds => (ds.foldl BookSet.deed Books.new).toList
  | fast symbols fallback, ds =>
    (ds.foldl SymbolVec.deed (SymbolVec.withSymbols symbols fallback)).books

/-- The book of a symbol; a symbol without one has no orders. -/
def book (k : Keeper) (ds : List Deed) (symbolId : UInt16) : k.BookType :=
  bookOf (k.visited ds) k.start.fresh symbolId

/-- The operations on a symbol's book that were taken. -/
def taken (k : Keeper) (ds : List Deed) (symbolId : UInt16) : List Op :=
  k.start.taken symbolId ds

/-- Slots and nodes fit their 32 bits, and no operation of the history made the tick arithmetic of a
fast book overflow. -/
def Spared : Keeper → List Deed → Prop
  | reference, _ => True
  | fast symbols fallback, ds =>
    ((∀ e ∈ symbols, e.2.Addressable) ∧ fallback.Addressable) ∧
      Along BookSet.deed (FitsDeed MboBook.Spared) (FastBooks.withSymbols symbols fallback) ds

theorem visited_eq (k : Keeper) (ds : List Deed) :
    k.visited ds = (ds.foldl BookSet.deed k.start).toList := by
  cases k with
  | reference => rfl
  | fast symbols fallback => exact ((SymbolVec.lays_withSymbols symbols fallback).run ds).books

theorem book_eq (k : Keeper) (ds : List Deed) (symbolId : UInt16) :
    k.book ds symbolId = (ds.foldl BookSet.deed k.start).book symbolId := by
  rw [book, bookOf, visited_eq, BookSet.book, BookSet.fresh_run]
  exact congrArg (fun o => o.getD k.start.fresh) (SortedVec.get_toList _ symbolId)

/-- **The orders of a symbol** are what the operations taken for it make of none. -/
theorem shows (k : Keeper) {ds : List Deed} (h : k.Spared ds) (symbolId : UInt16) :
    Shows (k.book ds symbolId) (ordersAfter [] (k.taken ds symbolId)) := by
  rw [book_eq]
  cases k with
  | reference =>
    have hfits : Along BookSet.deed (FitsDeed fun _ _ => True) Books.new ds := by
      refine along_of_forall fun s d _ => ?_
      cases d <;> trivial
    have hnew : ∀ t, Reps (Books.new.book t) [] := by
      intro t
      rw [BookSet.book, show Books.new.get t = none from Std.TreeMap.getElem?_emptyc]
      exact Reps.new
    exact keeps_reference.shows (keeps_reference.run Reps.new hnew hfits symbolId)
  | fast symbols fallback =>
    obtain ⟨⟨hsymbols, hfallback⟩, hspared⟩ := h
    have hempty : ∀ cap : MboCapacity, cap.Addressable → MboBook.Holds (MboBook.new cap) [] :=
      fun cap hcap => ⟨[], _, MboBook.whole_new hcap, rfl⟩
    have hfresh : (FastBooks.withSymbols symbols fallback).fresh = MboBook.new fallback := by
      rw [(SymbolVec.lays_withSymbols symbols fallback).fresh, SymbolVec.fallback_withSymbols]
    have hnew : ∀ t, MboBook.Holds ((FastBooks.withSymbols symbols fallback).book t) [] := by
      intro t
      rw [FastBooks.book_withSymbols]
      refine hempty _ ?_
      unfold capacityOf
      cases hfind : symbols.find? fun e => e.1 = t with
      | none => exact hfallback
      | some e => exact hsymbols e (List.mem_of_find?_eq_some hfind)
    have hholds := MboBook.keeps.run (by rw [hfresh]; exact hempty fallback hfallback) hnew hspared
      symbolId
    exact MboBook.keeps.shows hholds

theorem sorted_visited (k : Keeper) (ds : List Deed) : SortedVec.Sorted (k.visited ds) := by
  rw [visited_eq]
  exact SortedVec.sorted_toList _

theorem len_fresh (k : Keeper) : OrderBook.len k.start.fresh = 0 := by
  cases k with
  | reference => rfl
  | fast symbols fallback =>
    show (FastBooks.withSymbols symbols fallback).fresh.len = 0
    rw [(SymbolVec.lays_withSymbols symbols fallback).fresh]
    rfl

end Keeper

/-- **One digest for one set of levels.** Two sets of books of either kind, whatever was done to
them as long as no tick arithmetic overflowed, have the same digest where they hold the same levels
for every symbol; and they hold the same levels where the same operations were taken. -/
theorem digest_agrees (k k' : Keeper) {ds ds' : List Deed} (h : k.Spared ds) (h' : k'.Spared ds') :
    ((∀ t, SameLevels (k.book ds t) (k'.book ds' t)) →
      BookDigest.of (k.visited ds) = BookDigest.of (k'.visited ds')) ∧
    ((∀ t, k.taken ds t = k'.taken ds' t) →
      BookDigest.of (k.visited ds) = BookDigest.of (k'.visited ds')) := by
  have hlevels : (∀ t, SameLevels (k.book ds t) (k'.book ds' t)) →
      BookDigest.of (k.visited ds) = BookDigest.of (k'.visited ds') := by
    intro hsame
    refine digest_congr (k.sorted_visited ds) (k'.sorted_visited ds') k.len_fresh k'.len_fresh ?_
    exact fun t => (hsame t).shown_eq (k.shows h t) (k'.shows h' t)
  refine ⟨hlevels, fun htaken => hlevels fun t => ?_⟩
  have hshows := k.shows h t
  rw [htaken t] at hshows
  exact .of_shows hshows (k'.shows h' t)

/-- One symbol configured, in a window of four prices. -/
def oneConfigured : Keeper := .fast [(1, ⟨8, 4, 100, 1⟩)] ⟨8, 4, 0, 1⟩

def firstBid : Deed := .on 1 (.add 1 .bid 100 10)

/-- A bid that the window of four prices has no room for, and nothing else. -/
def refusedInWindow : List Deed := [firstBid, .on 1 (.add 2 .bid 200 10)]

theorem taken_firstBid {k : Keeper}
    (h : (OrderBook.step (k.start.book 1) (.add 1 .bid 100 10)).1.toOption.isSome) (t : UInt16) :
    k.taken [firstBid] t = if 1 = t then [.add 1 .bid 100 10] else [] := by
  show k.start.takes t firstBid ++ [] = _
  rw [List.append_nil]
  unfold BookSet.takes firstBid
  simp [h]

theorem taken_then_refused {k : Keeper} {d : Deed} {op : Op}
    (hrefused : ¬(OrderBook.step ((k.start.deed d).book 1) op).1.toOption.isSome) (t : UInt16) :
    k.taken [d, .on 1 op] t = k.taken [d] t := by
  have htakes : (k.start.deed d).takes t (.on 1 op) = [] :=
    if_neg fun hboth => hrefused hboth.2
  show k.start.takes t d ++ ((k.start.deed d).takes t (.on 1 op) ++ []) = _
  rw [htakes]
  rfl

theorem firstBid_taken_twice (t : UInt16) :
    Keeper.reference.taken [firstBid] t = oneConfigured.taken [firstBid] t := by
  have hreference := taken_firstBid (k := .reference) (by decide +kernel) t
  rw [hreference, taken_firstBid (k := oneConfigured) (by decide +kernel)]

theorem digest_agrees_refused :
    BookDigest.of (Keeper.reference.visited [firstBid]) =
      BookDigest.of (oneConfigured.visited refusedInWindow) := by
  have hsizes : ∀ e ∈ [((1 : UInt16), (⟨8, 4, 100, 1⟩ : MboCapacity))], e.2.Addressable := by
    intro e he
    rw [List.mem_singleton.mp he]
    exact ⟨by decide, by decide⟩
  have hspared : oneConfigured.Spared refusedInWindow := by
    refine ⟨⟨hsizes, by decide, by decide⟩, ?_, ?_, trivial⟩
    · show MboBook.Spared _ _
      decide +kernel
    · show MboBook.Spared _ _
      decide +kernel
  refine (digest_agrees .reference oneConfigured trivial hspared).2 fun t => ?_
  rw [firstBid_taken_twice, refusedInWindow, taken_then_refused (by decide +kernel)]

/-- A bid is added, and one near the lower end of the range is refused. -/
def refusedFarBelow : List Deed := [firstBid, .on 1 MboBook.farBelow]

theorem digest_differs_far_below :
    (∀ t, Keeper.reference.taken [firstBid] t = oneConfigured.taken refusedFarBelow t) ∧
    BookDigest.of (Keeper.reference.visited [firstBid]) ≠
      BookDigest.of (oneConfigured.visited refusedFarBelow) := by
  refine ⟨fun t => ?_, by decide +kernel⟩
  rw [firstBid_taken_twice, refusedFarBelow, taken_then_refused (by decide +kernel)]

end MarketData.Book
