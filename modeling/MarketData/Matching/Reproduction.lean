import MarketData.Book.Operations
import MarketData.Matching.Engine
import MarketData.Matching.Publishing

/-!
# `Matching/Reproduction.lean` — the feed reproduces the engine's book

A consumer that decodes the flushed datagrams and applies their messages to an empty set of books
holds, after every sequence, exactly the books the engine held when it announced that sequence.
`Engine.publish_reproduces` is the step: the message a change is announced with does to any books
that agree with the engine's what the change did to the engine's. `Continues` carries it over the
matching loop and over any sequence of calls, with the prices at which the messages put orders on
the books.

## Every sequence, not only the last

Two sets of books that agree in the end could have disagreed on the way, and a consumer that joins
or recovers in the middle starts from the middle. The checkpoints are therefore recorded with the
books as they were, and `Reproduces` passes through all of them. A trade changes nothing and has a
sequence of its own; a heartbeat changes nothing and has none.

`Announces` quantifies over books that *agree* with the engine's, not over equal ones. A consumer
may have a book for a symbol that the engine has not touched, or the other way round, and may keep
books of another kind. **That is what makes the step compose** with the self-check's books and with
a snapshot.

A run ends with a flush and succeeds in all of its calls; which calls succeed is asked elsewhere.
-/

set_option autoImplicit false

namespace MarketData.Matching

open MarketData.Wire MarketData.Book FeedPublisher

variable {env : Env} {ms : List Message}

/-! ## One change -/

/-- Applying `m` to any books that agree with `before` succeeds and leaves books that agree with
`after`. -/
def Announces (m : Message) (before after : Books) : Prop :=
  ∀ books : Books, books.Agree before →
    ∃ books', applyMessage books m = (.ok (), books') ∧ books'.Agree after

/-- The message a change is announced with. -/
def Change.message (symbolId : UInt16) : Change → Message
  | .add orderId side price quantity =>
    .addOrder ⟨orderId, price, quantity, symbolId, side.toU8⟩
  | .reduce orderId side price newQuantity =>
    .modifyOrder ⟨orderId, price, newQuantity, symbolId, side.toU8, ModifyReason.reduce.toU8⟩
  | .replace orderId side newPrice newQuantity =>
    .modifyOrder ⟨orderId, newPrice, newQuantity, symbolId, side.toU8, ModifyReason.replace.toU8⟩
  | .delete orderId side => .deleteOrder ⟨orderId, symbolId, side.toU8⟩
  | .trade tradeId aggressorOrderId restingOrderId price quantity aggressorSide =>
    .trade ⟨tradeId, aggressorOrderId, restingOrderId, price, quantity, symbolId,
      aggressorSide.toU8⟩

/-- The operation a change is. -/
def Change.op : Change → Option Op
  | .add orderId side price quantity => some (.add orderId side price quantity)
  | .reduce orderId _ _ newQuantity => some (.reduce orderId newQuantity)
  | .replace orderId _ newPrice newQuantity => some (.replace orderId newPrice newQuantity)
  | .delete orderId _ => some (.delete orderId)
  | .trade .. => none

/-- The price at which a change puts an order on the book. -/
def Change.placed (change : Change) : Option Int64 := change.op.bind Op.placed

theorem opOf_message (symbolId : UInt16) (change : Change) :
    opOf (change.message symbolId) = change.op.map fun op => (symbolId, op) := by
  cases change <;>
    simp only [Change.message, Change.op, opOf, AddOrder.side, ModifyOrder.reason,
      Side.fromU8_toU8, ModifyReason.fromU8_toU8, Except.toOption, Option.map_some,
      Option.map_none]

theorem placedBy_message (symbolId : UInt16) (change : Change) :
    placedBy (change.message symbolId) = change.placed.map fun price => (symbolId, price) := by
  unfold placedBy Change.placed
  rw [opOf_message]
  cases change.op <;> rfl

theorem isSnapshot_message (symbolId : UInt16) (change : Change) :
    isSnapshot (change.message symbolId) = false := by
  cases change <;> rfl

/-- A book operation and the message that repeats it. -/
theorem announces_of_op {α : Type} {m : Message} {before : Books} {symbolId : UInt16} {op : Op}
    (hop : opOf m = some (symbolId, op)) {r : Except BookError α × ReferenceBook}
    {g : α → Option RestingOrder} {a : α} {b : ReferenceBook}
    (hstep : OrderBook.step (before.book symbolId) op = (r.1.map g, r.2)) (hr : r = (.ok a, b)) :
    Announces m before (before.put symbolId b) := by
  intro books hbooks
  obtain ⟨happly, hbook⟩ := applyMessage_of_op books hop
  rw [hbooks symbolId, hstep, hr] at happly hbook
  refine ⟨(applyMessage books m).2, ?_, fun t => ?_⟩
  · rw [← happly.mpr rfl]
  · rw [hbook t, BookSet.book_put, hbooks t]

/-- **A change and its message do the same.** -/
theorem Engine.publish_reproduces {e e' : Engine} {p p' : FeedPublisher} {symbolId : UInt16}
    {change : Change} {seq : UInt64} (hp : Emitted env p ms)
    (h : e.publish env p symbolId change = .ok (seq, e', p')) :
    seq = 1 + UInt64.ofNat ms.length ∧ Emitted env p' (ms ++ [change.message symbolId]) ∧
      Announces (change.message symbolId) e.books e'.books := by
  have hop := opOf_message symbolId change
  unfold Engine.publish at h
  cases change with
  | add orderId side price quantity =>
    obtain ⟨e₁, hstore, h⟩ := bind_eq_ok h
    obtain ⟨⟨seq₁, p₁⟩, hemit, h⟩ := bind_eq_ok h
    obtain ⟨a, b, hadd, rfl⟩ := Engine.store_ok hstore
    obtain ⟨hseq, hp'⟩ := hp.emit (decodes_addOrder orderId price quantity symbolId side) hemit
    cases h
    exact ⟨hseq, hp', announces_of_op hop rfl hadd⟩
  | reduce orderId side price newQuantity =>
    obtain ⟨e₁, hstore, h⟩ := bind_eq_ok h
    obtain ⟨⟨seq₁, p₁⟩, hemit, h⟩ := bind_eq_ok h
    obtain ⟨a, b, hreduce, rfl⟩ := Engine.store_ok hstore
    obtain ⟨hseq, hp'⟩ :=
      hp.emit (decodes_modifyOrder orderId price newQuantity symbolId side .reduce) hemit
    cases h
    exact ⟨hseq, hp', announces_of_op hop rfl hreduce⟩
  | replace orderId side newPrice newQuantity =>
    obtain ⟨e₁, hstore, h⟩ := bind_eq_ok h
    obtain ⟨⟨seq₁, p₁⟩, hemit, h⟩ := bind_eq_ok h
    obtain ⟨a, b, hreplace, rfl⟩ := Engine.store_ok hstore
    obtain ⟨hseq, hp'⟩ :=
      hp.emit (decodes_modifyOrder orderId newPrice newQuantity symbolId side .replace) hemit
    cases h
    exact ⟨hseq, hp', announces_of_op hop rfl hreplace⟩
  | delete orderId side =>
    obtain ⟨e₁, hstore, h⟩ := bind_eq_ok h
    obtain ⟨⟨seq₁, p₁⟩, hemit, h⟩ := bind_eq_ok h
    obtain ⟨order, b, hdelete, rfl⟩ := Engine.store_ok hstore
    obtain ⟨hseq, hp'⟩ := hp.emit (decodes_deleteOrder orderId symbolId side) hemit
    cases h
    exact ⟨hseq, hp', announces_of_op hop rfl hdelete⟩
  | trade tradeId aggressorOrderId restingOrderId price quantity aggressorSide =>
    obtain ⟨⟨seq₁, p₁⟩, hemit, h⟩ := bind_eq_ok h
    obtain ⟨hseq, hp'⟩ := hp.emit (decodes_trade tradeId aggressorOrderId restingOrderId price
      quantity symbolId aggressorSide) hemit
    cases h
    refine ⟨hseq, hp', fun books hagree => ⟨books, rfl, ?_⟩⟩
    exact hagree.trans (BookSet.agree_put_self e.books symbolId).symm

/-! ## One call -/

/-- After a message the consumer is where the engine was when it announced the message. -/
structure Reproduced (after : Applied ReferenceBook) (checkpoint : Checkpoint) : Prop where
  sequence : after.sequence = checkpoint.sequence
  applied : after.result = .ok ()
  books : after.books.Agree checkpoint.books

/-- A consumer of the messages emitted so far passes through every checkpoint taken so far, and
ends where the engine is. -/
structure Reproduces (env : Env) (x : Exchange) (ms : List Message) : Prop where
  emitted : Emitted env x.feed ms
  checkpoints : List.Forall₂ Reproduced (replay Books.new (numbered 1 ms)) x.checkpoints
  books : (replayed Books.new (numbered 1 ms)).Agree x.engine.books

variable {x x' : Exchange}

/-- The exchange reproduces what it did, and messages since: none of them a snapshot, and between
them putting orders on the books at `prices`. -/
def Continues (env : Env) (x : Exchange) (ms : List Message) (prices : List (UInt16 × Int64)) :
    Prop :=
  ∃ more, Reproduces env x (ms ++ more) ∧ (∀ m ∈ more, isSnapshot m = false) ∧
    more.filterMap placedBy = prices

theorem Reproduces.continues (hx : Reproduces env x ms) : Continues env x ms [] :=
  ⟨[], by rw [List.append_nil]; exact hx, fun _ h => (nomatch h), rfl⟩

theorem Continues.trans {prices prices' : List (UInt16 × Int64)} (hx : Continues env x ms prices)
    (h : ∀ ms', Reproduces env x ms' → Continues env x' ms' prices') :
    Continues env x' ms (prices ++ prices') := by
  obtain ⟨more, hmore, hplain, rfl⟩ := hx
  obtain ⟨more', hmore', hplain', rfl⟩ := h _ hmore
  refine ⟨more ++ more', ?_, fun m hm => ?_, List.filterMap_append⟩
  · rw [← List.append_assoc]
    exact hmore'
  · rcases List.mem_append.mp hm with hm | hm
    · exact hplain m hm
    · exact hplain' m hm

/-- What changes nothing that is reproduced may come last. -/
theorem Continues.aside {prices : List (UInt16 × Int64)} (hx : Continues env x ms prices)
    (h : ∀ ms', Reproduces env x ms' → Reproduces env x' ms') : Continues env x' ms prices := by
  obtain ⟨more, hmore, hplain, hprices⟩ := hx
  exact ⟨more, h _ hmore, hplain, hprices⟩

/-- A stretch that publishes and puts nothing new anywhere may come first. -/
theorem Continues.andThen {prices : List (UInt16 × Int64)} (hx : Continues env x ms [])
    (h : ∀ ms', Reproduces env x ms' → Continues env x' ms' prices) :
    Continues env x' ms prices :=
  hx.trans h

theorem Reproduces.publish {symbolId : UInt16} {change : Change} (hx : Reproduces env x ms)
    (h : x.publish env symbolId change = .ok x') :
    Continues env x' ms (change.placed.map fun price => (symbolId, price)).toList := by
  obtain ⟨⟨seq, e', p'⟩, hpublish, h⟩ := bind_eq_ok h
  obtain rfl := Except.ok.inj h
  obtain ⟨hseq, hemitted, hannounces⟩ := Engine.publish_reproduces hx.emitted hpublish
  have hplaced := placedBy_message symbolId change
  have hplain := isSnapshot_message symbolId change
  generalize change.message symbolId = m at hemitted hannounces hplaced hplain
  obtain ⟨books', happly, hagree⟩ := hannounces _ hx.books
  have hnumbered : numbered 1 (ms ++ [m]) = numbered 1 ms ++ [(seq, m)] := by
    rw [numbered_append, hseq]
    rfl
  refine ⟨[m], ⟨hemitted, ?_, ?_⟩, fun m' hm' => ?_, ?_⟩
  · rw [hnumbered, replay_append]
    refine List.rel_append hx.checkpoints (.cons ⟨rfl, ?_, ?_⟩ .nil)
    · show (applyMessage _ m).1 = .ok ()
      rw [happly]
    · show (applyMessage _ m).2.Agree e'.books
      rw [happly]
      exact hagree
  · rw [hnumbered, replayed_append]
    show (applyMessage _ m).2.Agree e'.books
    rw [happly]
    exact hagree
  · rw [List.mem_singleton.mp hm']
    exact hplain
  · rw [List.filterMap_cons, hplaced]
    cases change.placed.map fun price => (symbolId, price) <;> rfl

/-- What the engine does beside the feed may create a book and nothing else. -/
theorem Reproduces.mapEngine {f : Engine → Engine} (hx : Reproduces env x ms)
    (hf : (f x.engine).books.Agree x.engine.books) : Reproduces env (x.mapEngine f) ms :=
  ⟨hx.emitted, hx.checkpoints, hx.books.trans hf.symm⟩

theorem Reproduces.getOrCreate (hx : Reproduces env x ms) (symbolId : UInt16) :
    Reproduces env (x.mapEngine fun e => e.getOrCreate symbolId) ms :=
  hx.mapEngine (BookSet.agree_put_self _ _)

theorem Reproduces.removeLive (hx : Reproduces env x ms) (symbolId : UInt16) (orderId : UInt64) :
    Reproduces env (x.mapEngine fun e => e.removeLive symbolId orderId) ms := by
  apply hx.mapEngine
  simp only [Engine.removeLive, Engine.books_modifySymbol]
  exact .refl _

theorem placed_fillChange (o : Aggressor) (restingId : UInt64) (resting : RestingOrder)
    (fill : UInt32) : (Exchange.fillChange o restingId resting fill).placed = none := by
  unfold Exchange.fillChange
  split <;> rfl

theorem Reproduces.fillResting {o : Aggressor} {bestPrice : Int64} {restingId : UInt64}
    {resting : RestingOrder} {remaining remaining' : UInt32} {fill : Fill}
    (hx : Reproduces env x ms)
    (h : x.fillResting env o bestPrice restingId resting remaining = .ok (x', remaining', fill)) :
    Continues env x' ms [] := by
  obtain ⟨x₁, htrade, h⟩ := bind_eq_ok h
  obtain ⟨x₂, hchange, h⟩ := bind_eq_ok h
  have htraded := (hx.mapEngine (.refl _)).publish htrade
  refine htraded.andThen fun ms₁ hx₁ => ?_
  have hchanged := hx₁.publish hchange
  rw [placed_fillChange] at hchanged
  refine hchanged.aside fun ms₂ hx₂ => ?_
  have hx₃ : ∀ P : Prop, ∀ _ : Decidable P, Reproduces env
      (if P then x₂.mapEngine fun e => e.removeLive o.symbolId restingId else x₂) ms₂ := by
    intro P _
    split
    · exact hx₂.removeLive o.symbolId restingId
    · exact hx₂
  cases h
  refine (hx₃ _ _).mapEngine ?_
  simp only [Engine.books_recordPassiveFill]
  exact .refl _

theorem Reproduces.matchTurn {o : Aggressor} {remaining : UInt32} {turn : Option (UInt32 × Fill)}
    (hx : Reproduces env x ms) (h : x.matchTurn env o remaining = .ok (x', turn)) :
    Continues env x' ms [] := by
  have hx₁ := hx.getOrCreate o.symbolId
  unfold Exchange.matchTurn at h
  dsimp only at h
  split at h
  · cases h
    exact hx₁.continues
  · split at h
    · split at h
      · cases h
      · obtain ⟨⟨x₂, remaining₂, fill⟩, hfill, h⟩ := bind_eq_ok h
        cases h
        exact hx₁.fillResting hfill
    · cases h
      exact hx₁.continues

/-- The matching loop puts nothing on the books. -/
theorem Reproduces.matchLoop {o : Aggressor} {fuel : Nat} {remaining remaining' : UInt32}
    {fills : List Fill} (hx : Reproduces env x ms)
    (h : Exchange.matchLoop env o fuel x remaining = .ok (x', remaining', fills)) :
    Continues env x' ms [] := by
  induction fuel generalizing x ms remaining fills with
  | zero =>
    cases h
    exact hx.continues
  | succ fuel ih =>
    unfold Exchange.matchLoop at h
    split at h
    · cases h
      exact hx.continues
    · obtain ⟨⟨x₁, turn⟩, hturn, h⟩ := bind_eq_ok h
      have hx₁ := hx.matchTurn hturn
      cases turn with
      | none =>
        cases h
        exact hx₁
      | some taken =>
        obtain ⟨⟨x₂, remaining₂, fills₂⟩, hloop, h⟩ := bind_eq_ok h
        cases h
        exact hx₁.andThen fun _ hx₁ => ih hx₁ hloop

/-- What rests of an order is put on the book at the order's price. -/
theorem Reproduces.rest {o : Aggressor} {remaining : UInt32} {generatorMayRecycle : Bool}
    (hx : Reproduces env x ms) (h : x.rest env o remaining generatorMayRecycle = .ok x') :
    Continues env x' ms (if remaining = 0 then [] else [(o.symbolId, o.price)]) := by
  unfold Exchange.rest at h
  split at h
  · rename_i hzero
    rw [if_pos hzero]
    cases h
    exact hx.continues
  · rename_i hleft
    rw [if_neg hleft]
    obtain ⟨x₁, hadd, h⟩ := bind_eq_ok h
    obtain rfl := Except.ok.inj h
    have hadded : Continues env x₁ ms [(o.symbolId, o.price)] := hx.publish hadd
    refine hadded.aside fun ms₁ hx₁ => ?_
    split
    · refine hx₁.mapEngine ?_
      simp only [Engine.pushLive, Engine.books_modifySymbol]
      exact .refl _
    · exact hx₁

theorem Reproduces.submitReported {symbolId : UInt16} {side : Side} {price : Int64}
    {quantity : UInt32} {generatorMayRecycle : Bool} {outcome : SubmitOutcome} {fills : List Fill}
    (hx : Reproduces env x ms)
    (h : x.submitReported env symbolId side price quantity generatorMayRecycle =
      .ok (x', outcome, fills)) :
    Continues env x' ms (if outcome.resting = 0 then [] else [(symbolId, price)]) := by
  obtain ⟨⟨x₁, remaining, fills₁⟩, hloop, h⟩ := bind_eq_ok h
  obtain ⟨x₂, hrest, h⟩ := bind_eq_ok h
  have hx₁ := (hx.mapEngine (.refl _)).matchLoop hloop
  cases h
  exact hx₁.andThen fun _ hx₁ => hx₁.rest hrest

theorem Reproduces.cancelReported {symbolId : UInt16} {orderId : UInt64} {answer : Option UInt32}
    (hx : Reproduces env x ms)
    (h : x.cancelReported env symbolId orderId = .ok (x', answer)) : Continues env x' ms [] := by
  have hx₁ := hx.getOrCreate symbolId
  unfold Exchange.cancelReported at h
  dsimp only at h
  split at h
  · cases h
    exact hx₁.continues
  · obtain ⟨x₂, hdelete, h⟩ := bind_eq_ok h
    have hx₂ : Continues env x₂ ms [] := hx₁.publish hdelete
    cases h
    exact hx₂.aside fun _ hx₂ => hx₂.removeLive symbolId orderId

/-- The price an amend puts an order at: none if the book does not hold it, and none if its size
goes down where it stands. -/
def Exchange.amendedTo (x : Exchange) (symbolId : UInt16) (orderId : UInt64)
    (newPrice : Option Int64) (newQuantity : UInt32) : List (UInt16 × Int64) :=
  match (x.engine.books.book symbolId).get orderId with
  | none => []
  | some resting =>
    ((amendChange resting orderId (newPrice.getD resting.price) newQuantity).placed.map
      fun price => (symbolId, price)).toList

theorem Reproduces.amend {symbolId : UInt16} {orderId : UInt64} {newPrice : Option Int64}
    {newQuantity : UInt32} (hx : Reproduces env x ms)
    (h : x.amend env symbolId orderId newPrice newQuantity = .ok x') :
    Continues env x' ms (x.amendedTo symbolId orderId newPrice newQuantity) := by
  have hx₁ := hx.getOrCreate symbolId
  have hbook : (x.mapEngine fun e => e.getOrCreate symbolId).engine.books.book symbolId =
      x.engine.books.book symbolId := BookSet.agree_put_self x.engine.books symbolId symbolId
  unfold Exchange.amendedTo
  unfold Exchange.amend at h
  dsimp only at h
  rw [hbook] at h
  generalize (x.engine.books.book symbolId).get orderId = found at h ⊢
  cases found with
  | none =>
    cases h
    exact hx₁.continues
  | some resting => exact hx₁.publish h

/-! ## A whole run -/

/-- What is called on an engine. The flush timer may expire between any two calls. -/
inductive Call where
  | submit (symbolId : UInt16) (side : Side) (price : Int64) (quantity : UInt32)
  | submitReported (symbolId : UInt16) (side : Side) (price : Int64) (quantity : UInt32)
      (generatorMayRecycle : Bool)
  | cancel (symbolId : UInt16) (orderId : UInt64)
  | amend (symbolId : UInt16) (orderId : UInt64) (newPrice : Option Int64) (newQuantity : UInt32)
  | flushOnTimer

/-- One call; what it answers beside success is left to its own definition. -/
def Exchange.call (env : Env) (x : Exchange) : Call → Except IoError Exchange
  | .submit symbolId side price quantity => x.submit env symbolId side price quantity
  | .submitReported symbolId side price quantity generatorMayRecycle =>
    (x.submitReported env symbolId side price quantity generatorMayRecycle).map (·.1)
  | .cancel symbolId orderId => x.cancel env symbolId orderId
  | .amend symbolId orderId newPrice newQuantity =>
    x.amend env symbolId orderId newPrice newQuantity
  | .flushOnTimer => (x.feed.flushOnTimer env).map fun p => { x with feed := p }

/-- The calls in order, ended by a flush. Any call that fails ends the run. -/
def Exchange.run (env : Env) (x : Exchange) : List Call → Except IoError Exchange
  | [] => (x.feed.flush env).map fun p => { x with feed := p }
  | c :: cs => do
    let x ← x.call env c
    x.run env cs

theorem Reproduces.flushOnTimer {p : FeedPublisher} (hx : Reproduces env x ms)
    (h : x.feed.flushOnTimer env = .ok p) : Reproduces env { x with feed := p } ms := by
  have hp := (hx.emitted.flush h).emitted
  rw [List.append_nil] at hp
  exact ⟨hp, hx.checkpoints, hx.books⟩

theorem Reproduces.call {c : Call} (hx : Reproduces env x ms) (h : x.call env c = .ok x') :
    ∃ prices, Continues env x' ms prices := by
  cases c with
  | submit symbolId side price quantity =>
    obtain ⟨⟨x₁, outcome, fills⟩, hsubmit, rfl⟩ := map_eq_ok h
    exact ⟨_, hx.submitReported hsubmit⟩
  | submitReported symbolId side price quantity generatorMayRecycle =>
    obtain ⟨⟨x₁, outcome, fills⟩, hsubmit, rfl⟩ := map_eq_ok h
    exact ⟨_, hx.submitReported hsubmit⟩
  | cancel symbolId orderId =>
    obtain ⟨⟨x₁, answer⟩, hcancel, rfl⟩ := map_eq_ok h
    exact ⟨_, hx.cancelReported hcancel⟩
  | amend symbolId orderId newPrice newQuantity => exact ⟨_, hx.amend h⟩
  | flushOnTimer =>
    obtain ⟨p, hflush, rfl⟩ := map_eq_ok h
    exact ⟨_, (hx.flushOnTimer hflush).continues⟩

/-- A run keeps what every call keeps, and its last flush leaves nothing in the buffer. -/
theorem Reproduces.run {cs : List Call} (hx : Reproduces env x ms)
    (h : x.run env cs = .ok x') :
    ∃ ms', Reproduces env x' ms' ∧ Published env x'.feed ms' [] := by
  induction cs generalizing x ms with
  | nil =>
    obtain ⟨p, hflush, rfl⟩ := map_eq_ok h
    have hp := hx.emitted.flush hflush
    have hemitted := hp.emitted
    rw [List.append_nil] at hemitted
    exact ⟨ms, ⟨hemitted, hx.checkpoints, hx.books⟩, hp⟩
  | cons c cs ih =>
    obtain ⟨x₁, hcall, h⟩ := bind_eq_ok h
    obtain ⟨prices, more, hx₁, -⟩ := hx.call hcall
    exact ih hx₁ h

/-- An engine without orders, and a publisher that has published nothing. -/
def Exchange.new (symbols : List UInt16) (batchSize : UInt16) (maxDatagramBytes : Nat)
    (shadow : Option Books) : Exchange :=
  { engine := Engine.new symbols
    feed := { FeedPublisher.new batchSize maxDatagramBytes with shadow := shadow } }

theorem reproduces_new (env : Env) (symbols : List UInt16) (batchSize : UInt16)
    (maxDatagramBytes : Nat) (shadow : Option Books) :
    Reproduces env (Exchange.new symbols batchSize maxDatagramBytes shadow) [] :=
  ⟨(published_new env batchSize maxDatagramBytes shadow).emitted, .nil, .refl _⟩

/-- What a log of datagrams says about the checkpoints: it decodes, and replaying it on empty
books passes through every one of them, in order and with nothing between. -/
def ReproducesCheckpoints (log : List Buf) (checkpoints : List Checkpoint) : Prop :=
  ∃ stream, decodeAll log = .ok stream ∧
    List.Forall₂ Reproduced (replay Books.new stream) checkpoints

/-- **The feed reproduces the engine's book.** Whatever calls succeed, and wherever the batches
fall, a consumer of the flushed datagrams applies every message without an error and holds after
each sequence the books the engine held when that sequence was announced. An arm the loss
injector leaves alone carries the same. -/
theorem feed_reproduces_book (env : Env) (symbols : List UInt16) (batchSize : UInt16)
    (maxDatagramBytes : Nat) (shadow : Option Books) (calls : List Call)
    (h : (Exchange.new symbols batchSize maxDatagramBytes shadow).run env calls = .ok x) :
    ReproducesCheckpoints x.feed.uplink x.checkpoints ∧
    ((∀ n, (env.drops n).1 = false) → ReproducesCheckpoints x.feed.a x.checkpoints) ∧
    ((∀ n, (env.drops n).2 = false) → ReproducesCheckpoints x.feed.b x.checkpoints) := by
  obtain ⟨ms, hx, hp⟩ :=
    (reproduces_new env symbols batchSize maxDatagramBytes shadow).run h
  exact ⟨⟨_, hp.uplink, hx.checkpoints⟩, fun hno => ⟨_, hp.armA hno, hx.checkpoints⟩,
    fun hno => ⟨_, hp.armB hno, hx.checkpoints⟩⟩

/-- An outside that loses nothing. -/
def Env.lossless : Env :=
  { clock := UInt64.ofNat, drops := fun _ => (false, false), sendOk := fun _ => true }

/-- Two symbols, a cross through two levels, both kinds of amend, a cancel. -/
def crossing : List Call :=
  [.submit 1 .ask 100 5, .submit 1 .ask 101 5, .submit 1 .bid 101 7, .flushOnTimer,
    .amend 1 2 none 2, .amend 1 2 (some 102) 9, .submit 2 .bid 50 1, .cancel 1 2]

theorem feed_reproduces_book_crossing :
    ∃ x, (Exchange.new [1, 2] 3 128 (some Books.new)).run Env.lossless crossing = .ok x ∧
      x.checkpoints.map (·.sequence) = [1, 2, 3, 4, 5, 6, 7, 8, 9, 10] ∧
      x.feed.uplink.length = 5 ∧ ReproducesCheckpoints x.feed.a x.checkpoints := by
  have hrun : ((Exchange.new [1, 2] 3 128 (some Books.new)).run Env.lossless crossing).map
      (fun x => (x.checkpoints.map (·.sequence), x.feed.uplink.length)) =
        .ok ([1, 2, 3, 4, 5, 6, 7, 8, 9, 10], 5) := by decide +kernel
  obtain ⟨x, hx, hsizes⟩ := map_eq_ok hrun
  obtain ⟨hsequences, hlength⟩ := Prod.mk.inj hsizes
  exact ⟨x, hx, hsequences, hlength,
    (feed_reproduces_book Env.lossless [1, 2] 3 128 (some Books.new) crossing hx).2.1
      fun _ => rfl⟩

end MarketData.Matching
