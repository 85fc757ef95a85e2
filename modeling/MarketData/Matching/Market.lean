import MarketData.Book.Digest
import MarketData.Book.Received
import MarketData.Lib.Distinct
import MarketData.Matching.Flows
import MarketData.Matching.Generator
import MarketData.Matching.Recycled

/-!
# `Matching/Market.lean` — the engine's process

`crates/matching-engine/src/main.rs`, over the settings that `crates/mdconfig/src/lib.rs` lets
through. A pass of the loop pumps the order path, lets the generator act on one symbol, and calls on
the feed where a timer expired; here these are inputs, in any order. An index past the end of a list
stops the process (`Stop.outOfRange`), as does an error of the feed or of a book.

## Everything that can stop it

The process is a loop of calls that each may return an error, and of lookups that each may be out of
range. `never_stops` says that none of it happens, under any settings that `validate` accepts and as
long as the sends succeed, with the self-check on or off and whatever comes over the path. The
reasons are spread over the modules before: a steady feed fails only where the self-check objects
(`Matching/Steady.lean`), an engine that announces what it does gives it no reason
(`Matching/Flows.lean`), a book refuses nothing the generator asks for (`Matching/Generator.lean`),
and an index comes from a list that is as long as it should be.

`Kept` holds after `n` steps, and speaks of `n` because **the ids run out**: an engine gives out
fewer than `2 ^ 64` of them. Settings are read of the source's type with what the process uses of
it; the texts of the configuration errors are the source's.
-/

set_option autoImplicit false

namespace MarketData.Matching

open MarketData.Wire MarketData.Book FeedPublisher

/-! ## Settings -/

inductive ConfigError where
  | invalid (message : String)
  deriving DecidableEq, Repr

/-- One symbol of `market.symbols`. -/
structure Listing where
  id : UInt16
  name : String
  tickSize : Int64
  referencePrice : Int64

/-- What the engine's process reads of the configuration. -/
structure Config where
  symbols : List Listing
  batchSize : UInt16
  maxDatagramBytes : Nat
  snapshotIntervalMillis : UInt64
  recoveryTimeoutMillis : UInt64
  seed : UInt64
  selfCheck : Bool
  targetDepth : Nat
  priceSpreadTicks : Int64
  aggressiveChance : ℚ
  cancelChance : ℚ
  modifyChance : ℚ
  minQuantity : UInt32
  maxQuantity : UInt32

namespace Config

/-- 24 bytes of packet header plus the largest fixed message. -/
def floor : Nat := 24 + 8 + 40

def validate (c : Config) : Except ConfigError Unit :=
  if c.symbols = [] then
    .error (.invalid "market.symbols is empty; the engine would have nothing to trade")
  else if (Distinct.sortDedup (c.symbols.map (·.id.toNat))).length ≠ c.symbols.length then
    .error (.invalid "market.symbols contains a duplicate id")
  else match c.symbols.find? fun s => s.tickSize ≤ 0 with
    | some s => .error (.invalid ("symbol " ++ s.name ++ " has tick_size " ++
        toString s.tickSize.toInt ++ "; it must be positive"))
    | none =>
      if c.batchSize = 0 then .error (.invalid "feed.batch_size must be at least 1")
      else if c.maxDatagramBytes < floor then
        .error (.invalid ("feed.max_datagram_bytes is " ++ toString c.maxDatagramBytes ++
          "; it must be at least " ++ toString floor ++
          " to hold a packet header and one Trade"))
      else if 0 < c.snapshotIntervalMillis ∧
          c.recoveryTimeoutMillis ≤ c.snapshotIntervalMillis * 2 then
        .error (.invalid ("handler.recovery_timeout_millis is " ++
          toString c.recoveryTimeoutMillis.toNat ++ " but the snapshot cycle is every " ++
          toString c.snapshotIntervalMillis.toNat ++ "ms; recovery must outlive two cycles or it " ++
          "can time out before the first snapshot that could close the gap was ever due"))
      else .ok ()

/-- What a validated configuration promises the engine. -/
theorem validate_ok {c : Config} (h : c.validate = .ok ()) :
    c.symbols ≠ [] ∧ (c.symbols.map (·.id)).Nodup ∧ (∀ s ∈ c.symbols, 0 < s.tickSize) ∧
      largestDatagram ≤ c.maxDatagramBytes := by
  unfold validate at h
  split at h
  · cases h
  rename_i hsome
  split at h
  · cases h
  rename_i hdistinct
  split at h
  · cases h
  rename_i hticks
  split at h
  · cases h
  split at h
  · cases h
  rename_i hfloor
  refine ⟨hsome, ?_, fun s hs => ?_, Nat.not_lt.mp hfloor⟩
  · have hlen := not_not.mp hdistinct
    rw [← List.length_map (f := fun s : Listing => s.id.toNat)] at hlen
    have hnodup := (Distinct.length_sortDedup_iff _).mp hlen
    refine List.Nodup.of_map UInt16.toNat ?_
    rw [List.map_map]
    exact hnodup
  · have hpos := List.find?_eq_none.mp hticks s hs
    exact Int64.not_le.mp (by simpa using hpos)

/-- `Shape::from` -/
def shape (c : Config) : Shape where
  targetDepth := c.targetDepth
  priceSpreadTicks := max c.priceSpreadTicks 1
  aggressiveChance := c.aggressiveChance
  cancelChance := c.cancelChance
  modifyChance := c.modifyChance
  minQuantity := max c.minQuantity 1
  maxQuantity := max c.maxQuantity 1

end Config

/-! ## The process -/

/-- What stops the process. -/
inductive Stop where
  | io (e : IoError)
  /-- `engine.symbols[idx]`, `live[idx]` -/
  | outOfRange
  /-- The feed does not rebuild the engine's own book. -/
  | selfCheckFailed

structure Market where
  desk : Desk
  generator : Generator
  /-- What the generator keeps of the symbols, in the order of `engine.symbols`. -/
  quotes : List Quote

inductive Market.Input where
  | arrives (m : OrderMessage)
  | read
  | catchUp
  | take
  /-- The generator acts on one symbol. -/
  | turn
  | flushOnTimer
  | heartbeat
  | snapshot

namespace Market

def new (c : Config) (orders reports : Nat) : Market where
  desk := .new (c.symbols.map (·.id)) c.batchSize c.maxDatagramBytes
    (if c.selfCheck then some Books.new else none) orders reports
  generator := .new c.seed c.shape
  quotes := c.symbols.map fun s => ⟨s.tickSize, s.referencePrice⟩

variable (env : Env)

def onDesk (m : Market) (i : Desk.Input) : Except Stop Market :=
  match m.desk.step env i with
  | .ok desk => .ok { m with desk }
  | .error e => .error (.io e)

def withFeed (m : Market) (r : Except IoError FeedPublisher) : Except Stop Market :=
  match r with
  | .ok feed => .ok { m with desk := { m.desk with exchange := { m.desk.exchange with feed } } }
  | .error e => .error (.io e)

/-- The mid of a symbol drifts, and the generator decides. -/
def actOn (m : Market) (g : Generator) (idx : Nat) (sym : SymbolState) (quote : Quote) :
    Except Stop Market :=
  let drifted := g.driftMid quote
  (drifted.2.next sym drifted.1).elim (.error .outOfRange) fun drawn =>
    onDesk env { m with generator := drawn.2, quotes := m.quotes.set idx drifted.1 }
      (.flow drawn.1.call)

def turn (m : Market) : Except Stop Market :=
  let (idx, g) := m.generator.pickSymbol m.desk.exchange.engine.symbols.length
  match m.desk.exchange.engine.symbols[idx]?, m.quotes[idx]? with
  | some sym, some quote => m.actOn env g idx sym quote
  | _, _ => .error .outOfRange

def publishSnapshot (m : Market) : Except Stop Market :=
  m.withFeed ((m.desk.exchange.feed.publishSnapshot env m.desk.exchange.engine.books).map (·.1))

def step (m : Market) : Input → Except Stop Market
  | .arrives message => m.onDesk env (.arrives message)
  | .read => m.onDesk env .read
  | .catchUp => m.onDesk env .catchUp
  | .take => m.onDesk env .take
  | .turn => m.turn env
  | .flushOnTimer => m.onDesk env (.flow .flushOnTimer)
  | .heartbeat => m.withFeed
      ((m.desk.exchange.feed.heartbeat env m.desk.exchange.feed.lastSequence).map (·.2))
  | .snapshot => m.publishSnapshot env

/-- The parting snapshot cycles. -/
def linger : Nat → Market → Except Stop Market
  | 0, m => .ok m
  | cycles + 1, m => do
    let m ← m.publishSnapshot env
    linger cycles m

/-- Whether the feed rebuilds the engine's own book, if that is watched. -/
def verdict (m : Market) : Except Stop Market :=
  match m.desk.exchange.feed.shadow with
  | none => .ok m
  | some shadow =>
    if BookDigest.of m.desk.exchange.engine.books.toList ≠ BookDigest.of shadow.toList then
      .error .selfCheckFailed
    else .ok m

/-- The end of the process: a last flush, the parting cycles, and the self-check's verdict. -/
def finish (m : Market) (cycles : Nat) : Except Stop Market := do
  let m ← m.onDesk env (.flow .flushOnTimer)
  let m ← linger env cycles m
  m.verdict

end Market

/-! ## The desk does not stop -/

section Desk

variable {env : Env} {batchSize : UInt16} {maxBytes : Nat} {s s' : Desk}

theorem OrderPath.catchUp_flow {p : OrderPath} {x : Exchange} (hx : Flow batchSize maxBytes x) :
    Flow batchSize maxBytes (p.catchUp x).2 := by
  obtain ⟨watched, hengine, -⟩ := OrderPath.catchUp_engine p x
  obtain ⟨ms, hx⟩ := hx
  refine ⟨ms, hx.flowing, hx.apply, ?_⟩
  rw [hengine]
  exact hx.books

/-- A message is acted on, whatever it asks for. -/
theorem OrderPath.dispatch_succeeds (hsend : ∀ n, env.sendOk n = true)
    (hroom : largestDatagram ≤ maxBytes) {p : OrderPath} {x : Exchange}
    (hx : Flow batchSize maxBytes x) (hs : x.engine.Sound) (m : OrderMessage) :
    ∃ r, p.dispatch env x m = .ok r ∧ Flow batchSize maxBytes r.2 := by
  cases m with
  | newOrder m =>
    cases hside : m.side with
    | none =>
      refine ⟨(p.emitReject m.clientOrderId m.symbolId .bid .unknownSymbol, x), ?_, hx⟩
      show p.onNewOrder env x m = _
      rw [OrderPath.onNewOrder, hside]
    | some side =>
      obtain ⟨⟨x', outcome, fills⟩, hsubmit, hx'⟩ :=
        (Flow.submitReported hsend hroom hx m.symbolId side m.price m.quantity false).ok_of_not
          fun e he hrefused => hrefused (Exchange.submitReported_unrefused hs he)
      refine ⟨(p.reportOutcome m side outcome fills, x'), ?_, hx'⟩
      show p.onNewOrder env x m = _
      rw [OrderPath.onNewOrder, hside]
      dsimp only
      rw [hsubmit]
      rfl
  | cancelOrder m =>
    obtain ⟨⟨x', answer⟩, hcancel, hx'⟩ :=
      (Flow.cancelReported hsend hroom hx m.symbolId m.origClientOrderId).ok_of_not
        fun e he hrefused => hrefused (Exchange.cancelReported_unrefused hs he)
    show ∃ r, p.onCancel env x m = .ok r ∧ _
    rw [OrderPath.onCancel, hcancel]
    cases answer with
    | none => exact ⟨_, rfl, hx'⟩
    | some remaining => exact ⟨_, rfl, hx'⟩
  | reconcileRequest requestId => exact ⟨_, rfl, hx⟩

/-- **A step of the desk succeeds**, if a call of the generator's leaves what it amends with
something. -/
theorem Desk.step_succeeds (hsend : ∀ n, env.sendOk n = true) (hroom : largestDatagram ≤ maxBytes)
    (hx : Flow batchSize maxBytes s.exchange) (hs : s.Sound) {i : Desk.Input}
    (hi : ∀ c, i = .flow c → c.Leaves) :
    ∃ s', s.step env i = .ok s' ∧ Flow batchSize maxBytes s'.exchange := by
  cases i with
  | arrives m => exact ⟨_, rfl, hx⟩
  | read =>
    unfold Desk.step
    dsimp only
    split
    · exact ⟨_, rfl, hx⟩
    · exact ⟨_, rfl, hx⟩
  | catchUp => exact ⟨_, rfl, OrderPath.catchUp_flow hx⟩
  | take =>
    show ∃ s', s.take env = .ok s' ∧ _
    unfold Desk.take
    split
    · exact ⟨_, rfl, hx⟩
    · rename_i m orders hpop
      obtain ⟨⟨path, x'⟩, hdispatch, hx'⟩ :=
        OrderPath.dispatch_succeeds (p := { s.path with orders }) hsend hroom hx hs.engine m
      rw [hdispatch]
      exact ⟨_, rfl, hx'⟩
  | flow c =>
    obtain ⟨x', hcall, hx'⟩ := call_succeeds hsend hroom hx hs.engine (hi c rfl)
    show ∃ s', (s.exchange.call env c >>= _) = .ok s' ∧ _
    rw [hcall]
    exact ⟨_, rfl, hx'⟩

theorem Desk.step_flush {p : FeedPublisher}
    (h : FeedPublisher.flush env s.exchange.feed = .ok p) :
    s.step env (.flow .flushOnTimer) = .ok { s with
      exchange := { s.exchange with feed := p }
      struck := s.struck ++ s.ofClients (s.exchange.struckBy .flushOnTimer) } := by
  show ((FeedPublisher.flush env s.exchange.feed).map _ >>= _) = _
  rw [h]
  rfl

/-- A step gives out one order id at most. -/
theorem Desk.step_next {i : Desk.Input} (hs : s.Sound) (h : s.step env i = .ok s') :
    s'.exchange.engine.nextOrderId = s.exchange.engine.nextOrderId ∨
      s'.exchange.engine.nextOrderId = s.exchange.engine.nextOrderId + 1 := by
  cases i with
  | arrives m =>
    cases h
    exact .inl rfl
  | read =>
    unfold Desk.step at h
    dsimp only at h
    split at h
    · cases h
      exact .inl rfl
    · cases h
      exact .inl rfl
  | catchUp =>
    cases h
    obtain ⟨watched, hengine, -⟩ := OrderPath.catchUp_engine s.path s.exchange
    left
    show (s.path.catchUp s.exchange).2.engine.nextOrderId = _
    rw [hengine]
  | take =>
    rcases Desk.take_took h with rfl | ⟨m, orders, -, htook⟩
    · exact .inl rfl
    · cases htook with
      | refused hside => exact .inl rfl
      | submitted hside hsubmit => exact (Exchange.submitReported_numbers hsubmit).next
      | canceled hcancel => exact .inl (Exchange.canceled hcancel).spares.next
      | unknown hcancel => exact .inl (Exchange.canceled hcancel).spares.next
      | reconciled => exact .inl rfl
  | flow c =>
    obtain ⟨x', hcall, h⟩ := bind_eq_ok h
    cases h
    obtain ⟨new, -, hn⟩ := Exchange.call_moves hs.engine.reps hcall
    exact hn.next

end Desk

/-! ## The self-check's verdict -/

theorem fresh_replayed (books : Books) (stream : List (UInt64 × Message)) :
    (replayed books stream).fresh = books.fresh := by
  induction stream generalizing books with
  | nil => rfl
  | cons entry stream ih =>
    obtain ⟨sequence, m⟩ := entry
    rw [replayed, ih, BookSet.fresh_applyMessage]

/-- Books that agree have one digest, whichever of them hold a symbol without orders. -/
theorem digest_of_agree {books books' : Books} (hfresh : books.fresh = ReferenceBook.new)
    (hfresh' : books'.fresh = ReferenceBook.new) (h : books.Agree books') :
    BookDigest.of books.toList = BookDigest.of books'.toList := by
  have hbook : ∀ (s : Books) (t : UInt16), bookOf s.toList s.fresh t = s.book t := fun s t =>
    congrArg (fun found => found.getD s.fresh) (SortedVec.get_toList s.books t)
  have hempty : ∀ s : Books, s.fresh = ReferenceBook.new → OrderBook.len s.fresh = 0 := by
    intro s hs
    rw [hs]
    rfl
  refine digest_congr (SortedVec.sorted_toList _) (SortedVec.sorted_toList _) (hempty _ hfresh)
    (hempty _ hfresh') fun t => ?_
  rw [hbook, hbook, h t]

/-! ## The process does not stop -/

namespace Market

variable {env : Env} {c : Config} {m m' : Market} {n : Nat}

/-- What holds after `n` steps. -/
structure Kept (c : Config) (n : Nat) (m : Market) : Prop where
  sound : m.desk.Sound
  recycles : m.desk.Recycles (c.symbols.map (·.id))
  quotes : m.quotes.length = c.symbols.length
  shape : m.generator.shape = c.shape
  ids : m.desk.exchange.engine.nextOrderId.toNat ≤ n + 1

theorem kept_new (hvalid : c.validate = .ok ()) (orders reports : Nat) :
    Kept c 0 (new c orders reports) where
  sound := Desk.sound_new _ _ _ _ _ _
  recycles := Desk.recycles_new (Config.validate_ok hvalid).2.1 _ _ _ _ _
  quotes := List.length_map _
  shape := rfl
  ids := Nat.le_refl 1

theorem Kept.desk {i : Desk.Input} (h : Kept c n m) (env : Env) (hn : n + 2 < 2 ^ 64)
    (hi : ∀ call, i = .flow call → call.Generated) (hstep : m.onDesk env i = .ok m') :
    Kept c (n + 1) m' := by
  unfold onDesk at hstep
  cases hdesk : m.desk.step env i with
  | error e =>
    rw [hdesk] at hstep
    cases hstep
  | ok desk =>
    rw [hdesk] at hstep
    cases hstep
    have hids := h.ids
    refine ⟨h.sound.step (fun _ => by omega) hdesk, h.recycles.step h.sound hi hdesk, h.quotes,
      h.shape, ?_⟩
    show desk.exchange.engine.nextOrderId.toNat ≤ n + 1 + 1
    rcases Desk.step_next h.sound hdesk with hsame | hnext
    · rw [hsame]
      omega
    · rw [hnext, UInt64.toNat_add, UInt64.toNat_one, Nat.mod_eq_of_lt (by omega)]
      omega

theorem Kept.feed {r : Except IoError FeedPublisher} (h : Kept c n m)
    (hstep : m.withFeed r = .ok m') : Kept c (n + 1) m' := by
  unfold withFeed at hstep
  cases r with
  | error e => cases hstep
  | ok feed =>
    cases hstep
    refine ⟨⟨h.sound.engine, h.sound.below, h.sound.once, h.sound.owned, h.sound.bounded⟩,
      h.recycles.of_same rfl fun _ _ => rfl, h.quotes, h.shape, ?_⟩
    exact Nat.le_succ_of_le h.ids

/-! ### The generator's turn -/

-- What is drawn is generalised below; nothing is to be computed of it.
attribute [local irreducible] Generator.driftMid Generator.next Generator.pickSymbol

/-- Numbers below a bound that are all different are no more than the bound. -/
theorem length_le_of_nodup (bound : Nat) {xs : List Nat} (hnodup : xs.Nodup)
    (hlt : ∀ x ∈ xs, x < bound) : xs.length ≤ bound := by
  have hsub : xs ⊆ List.range bound := fun x hx => List.mem_range.mpr (hlt x hx)
  have hlen := (hnodup.subperm hsub).length_le
  rwa [List.length_range] at hlen

/-- The orders of a list are ids that were given out. -/
theorem Kept.length_live (h : Kept c n m) {s : SymbolState}
    (hs : s ∈ m.desk.exchange.engine.symbols) : s.live.length < 2 ^ 64 := by
  have hnodup : (s.live.map UInt64.toNat).Nodup :=
    (h.recycles.once s hs).map fun _ _ => UInt64.toNat_inj.mp
  have hlen := length_le_of_nodup m.desk.exchange.engine.nextOrderId.toNat hnodup (by
    intro x hx
    obtain ⟨id, hid, rfl⟩ := List.mem_map.mp hx
    exact UInt64.lt_iff_toNat_lt.mp
      (h.sound.engine.below s.id id ((h.recycles.live s hs id).mp hid).1))
  rw [List.length_map] at hlen
  exact Nat.lt_of_le_of_lt hlen (UInt64.toNat_lt _)

theorem Kept.length_symbols (h : Kept c n m) :
    m.desk.exchange.engine.symbols.length = c.symbols.length := by
  have hlen := congrArg List.length h.recycles.listed
  rwa [List.length_map, List.length_map] at hlen

/-- A symbol that is picked is there. -/
theorem Kept.pickSymbol_lt (h : Kept c n m) (hsome : c.symbols ≠ []) :
    (m.generator.pickSymbol m.desk.exchange.engine.symbols.length).1 < c.symbols.length := by
  have hnodup : ((c.symbols.map (·.id)).map UInt16.toNat).Nodup :=
    h.recycles.distinct.map fun _ _ => UInt16.toNat_inj.mp
  have hfew := length_le_of_nodup (2 ^ 16) hnodup (by
    intro x hx
    obtain ⟨id, -, rfl⟩ := List.mem_map.mp hx
    exact id.toNat_lt)
  rw [List.length_map, List.length_map] at hfew
  have hcount : (UInt64.ofNat c.symbols.length).toNat = c.symbols.length :=
    UInt64.toNat_ofNat_of_lt' (Nat.lt_of_le_of_lt hfew (by decide))
  have hlt := m.generator.rng.below_lt (n := UInt64.ofNat c.symbols.length) fun hzero => by
    rw [hzero] at hcount
    exact hsome (List.length_eq_zero_iff.mp hcount.symm)
  rw [UInt64.lt_iff_toNat_lt, hcount] at hlt
  rw [h.length_symbols, Generator.pickSymbol_fst]
  exact hlt

theorem leaves_of_fits {intent : Intent} {sym : SymbolState} {shape : Shape}
    (hfits : intent.Fits sym shape) (hleast : 1 ≤ shape.minQuantity) :
    intent.call.Leaves ∧ intent.call.Generated := by
  cases intent with
  | submit => exact ⟨trivial, trivial⟩
  | cancel => exact ⟨trivial, trivial⟩
  | amend symbolId orderId newPrice newQuantity =>
    refine ⟨fun hzero => ?_, trivial⟩
    obtain ⟨-, -, hquantity, -⟩ := hfits
    rw [hzero] at hquantity
    exact absurd (UInt32.le_trans hleast hquantity) (by decide)

theorem Config.one_le_minQuantity (c : Config) : 1 ≤ c.shape.minQuantity := by
  show 1 ≤ if c.minQuantity ≤ 1 then 1 else c.minQuantity
  split
  · exact UInt32.le_refl 1
  · rename_i h
    exact UInt32.le_of_lt (UInt32.not_le.mp h)

/-- The generator makes a call of what it decides for a symbol. -/
theorem Kept.actOn (h : Kept c n m) {g : Generator} (hg : g.shape = c.shape) (idx : Nat)
    {sym : SymbolState} (hsym : sym ∈ m.desk.exchange.engine.symbols) (quote : Quote) :
    ∃ g' quotes intent, Kept c n { m with generator := g', quotes } ∧
      intent.call.Leaves ∧ intent.call.Generated ∧
      m.actOn env g idx sym quote =
        onDesk env { m with generator := g', quotes } (.flow (Intent.call intent)) := by
  have hdrifted := Generator.shape_driftMid (g := g) quote
  unfold Market.actOn
  generalize g.driftMid quote = drifted at hdrifted ⊢
  obtain ⟨drawn, hnext, hfits, hshape⟩ := drifted.2.next_fits sym drifted.1 (h.length_live hsym)
  have hall : drifted.2.shape = c.shape := hdrifted.trans hg
  rw [hall] at hfits hshape
  obtain ⟨hleaves, hgenerated⟩ := leaves_of_fits hfits (Config.one_le_minQuantity c)
  refine ⟨drawn.2, m.quotes.set idx drifted.1, drawn.1, ⟨h.sound, h.recycles, ?_, hshape, h.ids⟩,
    hleaves, hgenerated, ?_⟩
  · rw [List.length_set]
    exact h.quotes
  · dsimp only
    rw [hnext]
    rfl

/-- **A turn** is a call on the engine that the generator decides on, for a symbol that is there. -/
theorem Kept.turn (h : Kept c n m) (env : Env) (hsome : c.symbols ≠ []) :
    ∃ g quotes intent, Kept c n { m with generator := g, quotes } ∧
      intent.call.Leaves ∧ intent.call.Generated ∧
      m.turn env = onDesk env { m with generator := g, quotes } (.flow (Intent.call intent)) := by
  have hidx := h.pickSymbol_lt hsome
  have hg := Generator.shape_pickSymbol (g := m.generator) m.desk.exchange.engine.symbols.length
  unfold Market.turn
  generalize m.generator.pickSymbol m.desk.exchange.engine.symbols.length = picked at hidx hg ⊢
  obtain ⟨idx, g⟩ := picked
  have hsym : idx < m.desk.exchange.engine.symbols.length := by rwa [h.length_symbols]
  have hquote : idx < m.quotes.length := by rwa [h.quotes]
  dsimp only
  rw [List.getElem?_eq_getElem hsym, List.getElem?_eq_getElem hquote]
  exact h.actOn (hg.trans h.shape) idx (List.getElem_mem hsym) _

/-! ### Steps and runs -/

theorem Kept.step {i : Input} (h : Kept c n m) (hsome : c.symbols ≠ []) (hn : n + 2 < 2 ^ 64)
    (hstep : m.step env i = .ok m') : Kept c (n + 1) m' := by
  cases i with
  | arrives message => exact h.desk (i := .arrives message) env hn (fun call hcall => by cases hcall) hstep
  | read => exact h.desk (i := .read) env hn (fun call hcall => by cases hcall) hstep
  | catchUp => exact h.desk (i := .catchUp) env hn (fun call hcall => by cases hcall) hstep
  | take => exact h.desk (i := .take) env hn (fun call hcall => by cases hcall) hstep
  | turn =>
    obtain ⟨g, quotes, intent, hkept, -, hgenerated, hturn⟩ := h.turn env hsome
    replace hstep : m.turn env = .ok m' := hstep
    rw [hturn] at hstep
    refine hkept.desk env hn (fun call hcall => ?_) hstep
    cases hcall
    exact hgenerated
  | flushOnTimer =>
    refine h.desk env hn (fun call hcall => ?_) hstep
    cases hcall
    trivial
  | heartbeat => exact h.feed hstep
  | snapshot => exact h.feed hstep

theorem onDesk_succeeds {i : Desk.Input} (hsend : ∀ n, env.sendOk n = true) {batchSize : UInt16}
    {maxBytes : Nat} (hroom : largestDatagram ≤ maxBytes) (h : Kept c n m)
    (hx : Flow batchSize maxBytes m.desk.exchange) (hi : ∀ call, i = .flow call → call.Leaves) :
    ∃ m', m.onDesk env i = .ok m' ∧ Flow batchSize maxBytes m'.desk.exchange := by
  obtain ⟨desk, hdesk, hx'⟩ := Desk.step_succeeds hsend hroom hx h.sound hi
  unfold onDesk
  rw [hdesk]
  exact ⟨_, rfl, hx'⟩

/-- **A step succeeds**, whatever it is. -/
theorem step_succeeds (hsend : ∀ n, env.sendOk n = true) {batchSize : UInt16} {maxBytes : Nat}
    (hroom : largestDatagram ≤ maxBytes) (h : Kept c n m) (hsome : c.symbols ≠ [])
    (hx : Flow batchSize maxBytes m.desk.exchange) (i : Input) :
    ∃ m', m.step env i = .ok m' ∧ Flow batchSize maxBytes m'.desk.exchange := by
  cases i with
  | arrives message =>
    exact onDesk_succeeds (i := .arrives message) hsend hroom h hx fun call hcall => by cases hcall
  | read =>
    exact onDesk_succeeds (i := .read) hsend hroom h hx fun call hcall => by cases hcall
  | catchUp =>
    exact onDesk_succeeds (i := .catchUp) hsend hroom h hx fun call hcall => by cases hcall
  | take =>
    exact onDesk_succeeds (i := .take) hsend hroom h hx fun call hcall => by cases hcall
  | turn =>
    obtain ⟨g, quotes, intent, hkept, hleaves, -, hturn⟩ := h.turn env hsome
    show ∃ m', m.turn env = .ok m' ∧ _
    rw [hturn]
    refine onDesk_succeeds hsend hroom hkept hx fun call hcall => ?_
    cases hcall
    exact hleaves
  | flushOnTimer =>
    refine onDesk_succeeds hsend hroom h hx fun call hcall => ?_
    cases hcall
    trivial
  | heartbeat =>
    obtain ⟨seq, p, hbeat, hp⟩ := Flow.heartbeat hsend hroom hx m.desk.exchange.feed.lastSequence
    show ∃ m', m.withFeed ((m.desk.exchange.feed.heartbeat env _).map _) = .ok m' ∧ _
    rw [hbeat]
    exact ⟨_, rfl, hp⟩
  | snapshot =>
    obtain ⟨p, cycle, hcycle, hp⟩ := Flow.publishSnapshot hsend hroom hx
    show ∃ m', m.withFeed ((m.desk.exchange.feed.publishSnapshot env _).map _) = .ok m' ∧ _
    rw [hcycle]
    exact ⟨_, rfl, hp.flow⟩

theorem flow_new (c : Config) (orders reports : Nat) :
    Flow (FeedPublisher.new c.batchSize c.maxDatagramBytes).batchSize c.maxDatagramBytes
      (new c orders reports).desk.exchange := by
  refine ⟨[], ⟨[], [], rfl, ⟨sequenced_new Env.lossless _ _ _, List.length_replicate, ?_⟩⟩, ?_,
    .refl _⟩
  · intro books hbooks
    replace hbooks : (if c.selfCheck then some Books.new else none) = some books := hbooks
    split at hbooks
    · cases hbooks
      rfl
    · cases hbooks
  · intro a ha
    cases ha

theorem runs_kept {inputs : List Input} (h : Kept c n m) (hsome : c.symbols ≠ [])
    (hshort : n + inputs.length + 1 < 2 ^ 64) (hrun : Run.runs (step env) m inputs = .ok m') :
    Kept c (n + inputs.length) m' := by
  induction inputs generalizing m n with
  | nil =>
    cases hrun
    exact h
  | cons i inputs ih =>
    rw [List.length_cons] at hshort ⊢
    cases hi : m.step env i with
    | error e =>
      rw [Run.runs, hi] at hrun
      cases hrun
    | ok m₁ =>
      rw [Run.runs_cons hi] at hrun
      have hkept := ih (h.step hsome (by omega) hi) (by omega) hrun
      rwa [Nat.add_assoc, Nat.add_comm 1] at hkept

theorem runs_succeeds (hsend : ∀ n, env.sendOk n = true) {batchSize : UInt16} {maxBytes : Nat}
    (hroom : largestDatagram ≤ maxBytes) (inputs : List Input) (h : Kept c n m)
    (hsome : c.symbols ≠ []) (hx : Flow batchSize maxBytes m.desk.exchange)
    (hshort : n + inputs.length + 1 < 2 ^ 64) :
    ∃ m', Run.runs (step env) m inputs = .ok m' ∧ Flow batchSize maxBytes m'.desk.exchange := by
  induction inputs generalizing m n with
  | nil => exact ⟨m, rfl, hx⟩
  | cons i inputs ih =>
    rw [List.length_cons] at hshort
    obtain ⟨m₁, hi, hx₁⟩ := step_succeeds hsend hroom h hsome hx i
    rw [Run.runs_cons hi]
    exact ih (h.step hsome (by omega) hi) hx₁ (by omega)

/-! ### The end of the process -/

theorem linger_succeeds (hsend : ∀ n, env.sendOk n = true) {batchSize : UInt16} {maxBytes : Nat}
    (hroom : largestDatagram ≤ maxBytes) (cycles : Nat)
    (hx : Settled batchSize maxBytes m.desk.exchange) :
    ∃ m', linger env cycles m = .ok m' ∧ Settled batchSize maxBytes m'.desk.exchange ∧
      m'.desk.exchange.engine = m.desk.exchange.engine := by
  induction cycles generalizing m with
  | zero => exact ⟨m, rfl, hx, rfl⟩
  | succ cycles ih =>
    obtain ⟨p, cycle, hcycle, hp⟩ := Flow.publishSnapshot hsend hroom hx.flow
    have hpublish : m.publishSnapshot env = .ok { m with desk := { m.desk with
        exchange := { m.desk.exchange with feed := p } } } := by
      unfold publishSnapshot
      rw [hcycle]
      rfl
    obtain ⟨m', hlinger, hx', hengine⟩ := ih (m := { m with desk := { m.desk with
      exchange := { m.desk.exchange with feed := p } } }) hp
    refine ⟨m', ?_, hx', hengine⟩
    show (m.publishSnapshot env >>= fun m => linger env cycles m) = _
    rw [hpublish]
    exact hlinger

/-- The self-check has seen everything, and finds the engine's books. -/
theorem finish_succeeds (hsend : ∀ n, env.sendOk n = true) {batchSize : UInt16} {maxBytes : Nat}
    (hroom : largestDatagram ≤ maxBytes) (h : Kept c n m)
    (hx : Flow batchSize maxBytes m.desk.exchange) (cycles : Nat) :
    ∃ m', m.finish env cycles = .ok m' := by
  obtain ⟨p, hflush, hp⟩ := Flow.flush hsend hroom hx
  have hdesk : m.onDesk env (.flow .flushOnTimer) = .ok { m with desk := { m.desk with
      exchange := { m.desk.exchange with feed := p }
      struck := m.desk.struck ++ m.desk.ofClients (m.desk.exchange.struckBy .flushOnTimer) } } := by
    unfold onDesk
    rw [Desk.step_flush hflush]
  obtain ⟨m', hlinger, ⟨ms, hsteady, -, hbooks⟩, hengine⟩ :=
    linger_succeeds (m := { m with desk := { m.desk with
      exchange := { m.desk.exchange with feed := p }
      struck := m.desk.struck ++ m.desk.ofClients (m.desk.exchange.struckBy .flushOnTimer) } })
      hsend hroom cycles hp
  have hverdict : m.finish env cycles = m'.verdict := by
    unfold finish
    rw [hdesk]
    show (linger env cycles _ >>= fun m => m.verdict) = _
    rw [hlinger]
    rfl
  rw [hverdict]
  unfold verdict
  split
  · exact ⟨m', rfl⟩
  · rename_i shadow hshadow
    have hsame := hsteady.shadow shadow hshadow
    have hfresh : m'.desk.exchange.engine.books.fresh = ReferenceBook.new := by
      rw [hengine]
      exact h.sound.engine.fresh
    refine ⟨m', if_neg (not_not.mpr (digest_of_agree hfresh ?_ ?_))⟩
    · rw [hsame, fresh_replayed]
      rfl
    · rw [hsame]
      exact hbooks.symm

/-- **The engine's process never stops by itself**: under any configuration that is let through, and
while the sends succeed, no message of a client, no intent of the generator and no timer makes a step
fail, with or without the self-check, and the self-check's last word is that the feed rebuilds the
books. -/
theorem never_stops (env : Env) (hsend : ∀ n, env.sendOk n = true) (c : Config)
    (hvalid : c.validate = .ok ()) (orders reports : Nat) (inputs : List Input)
    (hshort : inputs.length + 1 < 2 ^ 64) (cycles : Nat) :
    ∃ m m', Run.runs (step env) (new c orders reports) inputs = .ok m ∧
      m.finish env cycles = .ok m' := by
  obtain ⟨hsome, -, -, hroom⟩ := Config.validate_ok hvalid
  have hkept := kept_new hvalid orders reports
  obtain ⟨m, hrun, hx⟩ := runs_succeeds hsend hroom inputs hkept hsome
    (flow_new c orders reports) (by omega)
  have hend := runs_kept hkept hsome (by omega) hrun
  obtain ⟨m', hfinish⟩ := finish_succeeds hsend hroom hend hx cycles
  exact ⟨m, m', hrun, hfinish⟩

/-- One symbol, traded with the self-check on. -/
def oneListed : Config where
  symbols := [⟨7, "ACME", 25, 10000⟩]
  batchSize := 4
  maxDatagramBytes := 1400
  snapshotIntervalMillis := 0
  recoveryTimeoutMillis := 0
  seed := 1
  selfCheck := true
  targetDepth := 8
  priceSpreadTicks := 4
  aggressiveChance := 1 / 4
  cancelChance := 1 / 4
  modifyChance := 1 / 4
  minQuantity := 1
  maxQuantity := 100

theorem validate_oneListed : oneListed.validate = .ok () := by
  simp [Config.validate, Distinct.sortDedup, oneListed, Config.floor]

theorem never_stops_oneListed :
    ∃ m m', Run.runs (step Env.lossless) (new oneListed 16 16)
        [.turn, .arrives (.newOrder ⟨3, 10000, 5, 7, some .bid⟩), .take, .snapshot, .turn,
          .heartbeat, .catchUp] = .ok m ∧ m.finish Env.lossless 2 = .ok m' :=
  never_stops Env.lossless (fun _ => rfl) oneListed validate_oneListed 16 16 _ (by decide) 2

/-- **The generator's lists are right in every run**: each names, once, the orders that rest on the
symbol's book and are no client's. -/
theorem lists_name_recyclable (env : Env) (c : Config) (hvalid : c.validate = .ok ())
    (orders reports : Nat) (inputs : List Input) (hshort : inputs.length + 1 < 2 ^ 64)
    (hrun : Run.runs (step env) (new c orders reports) inputs = .ok m) :
    ∀ s ∈ m.desk.exchange.engine.symbols, s.live.Nodup ∧ ∀ id, id ∈ s.live ↔
      ((m.desk.exchange.engine.books.book s.id).get id).isSome = true ∧
        id ∉ m.desk.arrived.map Owned.exchangeOrderId := by
  obtain ⟨hsome, -, -, -⟩ := Config.validate_ok hvalid
  have hkept := runs_kept (kept_new hvalid orders reports) hsome (by omega) hrun
  exact fun s hs => ⟨hkept.recycles.once s hs, hkept.recycles.live s hs⟩

theorem lists_name_recyclable_oneListed :
    ∃ m, Run.runs (step Env.lossless) (new oneListed 16 16) [.turn, .turn, .snapshot, .turn] = .ok m ∧
      ∀ s ∈ m.desk.exchange.engine.symbols, s.live.Nodup ∧ ∀ id, id ∈ s.live ↔
        ((m.desk.exchange.engine.books.book s.id).get id).isSome = true ∧
          id ∉ m.desk.arrived.map Owned.exchangeOrderId := by
  obtain ⟨hsome, -, -, hroom⟩ := Config.validate_ok validate_oneListed
  obtain ⟨m, hrun, -⟩ := runs_succeeds (fun n => (rfl : Env.lossless.sendOk n = true)) hroom
    [.turn, .turn, .snapshot, .turn] (kept_new validate_oneListed 16 16) hsome
    (flow_new oneListed 16 16) (by decide)
  exact ⟨m, hrun, lists_name_recyclable Env.lossless oneListed validate_oneListed 16 16 _
    (by decide) hrun⟩

end Market

end MarketData.Matching
