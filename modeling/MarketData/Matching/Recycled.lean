import MarketData.Matching.Owners

/-!
# `Matching/Recycled.lean` — the orders the generator may act on again

The engine keeps a list of such orders for every symbol: an order of the generator goes in when it
rests, and comes out when it is filled or canceled; an order of a client is never in it. So the list
names exactly the orders that rest on the symbol's book and are no client's (`Recycles`), and every
call keeps that.

## Whose order it is

The engine does not know. It is told with each submitted order whether the order may be acted on
again, and forgets it; what tells the two kinds apart afterwards is the list itself. So the
statement needs to say whose an order is by other means: `Recycles` has the clients' orders as an
argument, any list, and `clientsAfter` says how it grows. For the desk the argument is the history
of what came to rest over the path (`Matching/Desk.lean`).

The list is unordered and entries are taken out by swapping in the last. **Each order is in it
once**, and that is part of the invariant, because a removal takes out one occurrence: a list that
named an order twice would keep it after it had gone, and the generator would ask for an order that
is not there.
-/

set_option autoImplicit false

namespace MarketData.Matching

open MarketData.Wire MarketData.Book

/-! ## The list -/

/-- `swap_remove` takes out one element and may move another. -/
theorem swapRemove_perm {xs : List UInt64} {pos : Nat} (h : pos < xs.length) :
    (swapRemove xs pos).Perm (xs.eraseIdx pos) := by
  rcases List.eq_nil_or_concat xs with rfl | ⟨ys, y, rfl⟩
  · exact absurd h (Nat.not_lt_zero _)
  · rw [List.concat_eq_append] at h ⊢
    have hlast : (ys ++ [y]).getLast? = some y := List.getLast?_concat
    rw [swapRemove, hlast]
    dsimp only
    rw [List.length_append, List.length_singleton] at h
    by_cases hpos : pos < ys.length
    · rw [List.set_append_left _ _ hpos, List.dropLast_concat, List.eraseIdx_append_of_lt_length hpos]
      refine List.Perm.trans (List.set_perm_cons_eraseIdx hpos y) ?_
      exact (List.perm_append_singleton y _).symm
    · obtain rfl : pos = ys.length := by omega
      simp [List.eraseIdx_append_of_length_le]

theorem SymbolState.removeLive_live {s : SymbolState} (hnodup : s.live.Nodup) (orderId : UInt64) :
    (s.removeLive orderId).live.Nodup ∧
      ∀ id, id ∈ (s.removeLive orderId).live ↔ id ∈ s.live ∧ id ≠ orderId := by
  unfold removeLive
  split
  · rename_i hnone
    rw [List.findIdx?_eq_none_iff] at hnone
    refine ⟨hnodup, fun id => ⟨fun hid => ⟨hid, ?_⟩, And.left⟩⟩
    simpa using hnone id hid
  · rename_i pos hsome
    rw [List.findIdx?_eq_some_iff_getElem] at hsome
    obtain ⟨hpos, heq, -⟩ := hsome
    have hperm := swapRemove_perm hpos
    have hat : s.live[pos] = orderId := by simpa using heq
    refine ⟨hperm.nodup_iff.mpr (hnodup.eraseIdx pos), fun id => ?_⟩
    rw [hperm.mem_iff, ← hnodup.erase_getElem pos hpos, hat, hnodup.mem_erase_iff, and_comm]

@[simp] theorem SymbolState.id_removeLive (s : SymbolState) (orderId : UInt64) :
    (s.removeLive orderId).id = s.id := by
  unfold removeLive
  split <;> rfl

theorem modify_findIdx? {ss : List SymbolState} (hdistinct : (ss.map (·.id)).Nodup)
    {symbolId : UInt16} (f : SymbolState → SymbolState) {idx : Nat}
    (hfind : ss.findIdx? (·.id = symbolId) = some idx) :
    ss.modify idx f = ss.map fun s => if s.id = symbolId then f s else s := by
  induction ss generalizing idx with
  | nil => cases hfind
  | cons s ss ih =>
    rw [List.map_cons, List.nodup_cons] at hdistinct
    rw [List.findIdx?_cons] at hfind
    by_cases hid : s.id = symbolId
    · have hothers : ss.map (fun s => if s.id = symbolId then f s else s) = ss := by
        refine (List.map_congr_left fun s' hs' => if_neg fun hid' => ?_).trans (List.map_id ss)
        exact hdistinct.1 (hid.trans hid'.symm ▸ List.mem_map_of_mem hs')
      rw [if_pos (decide_eq_true hid)] at hfind
      cases hfind
      rw [List.map_cons, if_pos hid, hothers]
      rfl
    · rw [if_neg (by simpa using hid)] at hfind
      obtain ⟨idx', hfind', rfl⟩ := Option.map_eq_some_iff.mp hfind
      rw [List.modify_succ_cons, ih hdistinct.2 hfind', List.map_cons, if_neg hid]

/-- Where no two symbols share an id, a change to the first symbol of an id is one to all of them. -/
theorem Engine.symbols_modifySymbol {e : Engine} (hdistinct : (e.symbols.map (·.id)).Nodup)
    (symbolId : UInt16) (f : SymbolState → SymbolState) :
    (e.modifySymbol symbolId f).symbols =
      e.symbols.map fun s => if s.id = symbolId then f s else s := by
  unfold modifySymbol
  split
  · rename_i hnone
    rw [List.findIdx?_eq_none_iff] at hnone
    refine ((List.map_congr_left fun s hs => if_neg ?_).trans (List.map_id _)).symm
    simpa using hnone s hs
  · rename_i idx hsome
    exact modify_findIdx? hdistinct f hsome

/-! ## The invariant -/

/-- The lists name the orders that rest and are no client's, each once. -/
structure Engine.Recycles (e : Engine) (ids : List UInt16) (clients : List UInt64) : Prop where
  listed : e.symbols.map (·.id) = ids
  distinct : ids.Nodup
  once : ∀ s ∈ e.symbols, s.live.Nodup
  live : ∀ s ∈ e.symbols, ∀ id,
    id ∈ s.live ↔ ((e.books.book s.id).get id).isSome = true ∧ id ∉ clients

namespace Engine.Recycles

variable {e e' : Engine} {ids : List UInt16} {clients : List UInt64}

/-- Nothing comes and nothing goes. -/
theorem of_same (h : e.Recycles ids clients) (hsymbols : e'.symbols = e.symbols)
    (hrests : ∀ t id, ((e'.books.book t).get id).isSome = ((e.books.book t).get id).isSome) :
    e'.Recycles ids clients := by
  refine ⟨hsymbols ▸ h.listed, h.distinct, hsymbols ▸ h.once, fun s hs id => ?_⟩
  rw [hrests]
  exact h.live s (hsymbols ▸ hs) id

/-- A change to the list of one symbol. -/
theorem modify (hids : e.symbols.map (·.id) = ids) (hdistinct : ids.Nodup) {symbolId : UInt16}
    {f : SymbolState → SymbolState} (hid : ∀ s, (f s).id = s.id)
    (hself : ∀ s ∈ e.symbols, s.id = symbolId → (f s).live.Nodup ∧ ∀ id,
      id ∈ (f s).live ↔ ((e.books.book s.id).get id).isSome = true ∧ id ∉ clients)
    (hothers : ∀ s ∈ e.symbols, s.id ≠ symbolId → s.live.Nodup ∧ ∀ id,
      id ∈ s.live ↔ ((e.books.book s.id).get id).isSome = true ∧ id ∉ clients) :
    (e.modifySymbol symbolId f).Recycles ids clients := by
  have hsymbols := symbols_modifySymbol (hids.symm ▸ hdistinct) symbolId f
  have hkept : ∀ s : SymbolState, (if s.id = symbolId then f s else s).id = s.id := by
    intro s
    split
    · exact hid s
    · rfl
  have hone : ∀ s ∈ (e.modifySymbol symbolId f).symbols, s.live.Nodup ∧ ∀ id,
      id ∈ s.live ↔ ((e.books.book s.id).get id).isSome = true ∧ id ∉ clients := by
    intro s hs
    rw [hsymbols] at hs
    obtain ⟨s₀, hs₀, rfl⟩ := List.mem_map.mp hs
    rw [hkept]
    by_cases hit : s₀.id = symbolId
    · rw [if_pos hit]
      exact hself s₀ hs₀ hit
    · rw [if_neg hit]
      exact hothers s₀ hs₀ hit
  refine ⟨?_, hdistinct, fun s hs => (hone s hs).1, fun s hs => ?_⟩
  · rw [hsymbols, List.map_map, ← hids]
    exact List.map_congr_left fun s _ => hkept s
  · rw [books_modifySymbol]
    exact (hone s hs).2

/-- An order comes off a book and off the list. -/
theorem remove (h : e.Recycles ids clients) {symbolId : UInt16} {orderId : UInt64}
    (hsymbols : e'.symbols = e.symbols)
    (hrests : ∀ t id, ((e'.books.book t).get id).isSome = true ↔
      ((e.books.book t).get id).isSome = true ∧ ¬(t = symbolId ∧ id = orderId)) :
    (e'.removeLive symbolId orderId).Recycles ids clients := by
  apply modify (hsymbols ▸ h.listed) h.distinct (fun s => s.id_removeLive orderId)
  · intro s hs hid
    rw [hsymbols] at hs
    obtain ⟨honce, hlive⟩ := SymbolState.removeLive_live (h.once s hs) orderId
    refine ⟨honce, fun id => ?_⟩
    rw [hlive, h.live s hs, hrests]
    simp only [hid, true_and]
    tauto
  · intro s hs hid
    rw [hsymbols] at hs
    refine ⟨h.once s hs, fun id => ?_⟩
    rw [h.live s hs, hrests]
    simp [hid]

/-- An order of the generator comes to rest. -/
theorem push (h : e.Recycles ids clients) {symbolId : UInt16} {orderId : UInt64}
    (hsymbols : e'.symbols = e.symbols) (hnew : ((e.books.book symbolId).get orderId).isSome = false)
    (hmine : orderId ∉ clients)
    (hrests : ∀ t id, ((e'.books.book t).get id).isSome = true ↔
      ((e.books.book t).get id).isSome = true ∨ t = symbolId ∧ id = orderId) :
    (e'.pushLive symbolId orderId).Recycles ids clients := by
  apply modify (hsymbols ▸ h.listed) h.distinct (f := fun s => { s with live := s.live ++ [orderId] })
    fun s => rfl
  · intro s hs hid
    rw [hsymbols] at hs
    have hout : orderId ∉ s.live := by
      rw [h.live s hs, hid, hnew]
      simp
    refine ⟨List.nodup_append.mpr ⟨h.once s hs, List.nodup_singleton _, ?_⟩, fun id => ?_⟩
    · intro a ha b hb heq
      rw [List.mem_singleton] at hb
      exact hout (hb ▸ heq ▸ ha)
    · rw [List.mem_append, List.mem_singleton, h.live s hs, hrests]
      simp only [hid, true_and]
      constructor
      · rintro (hold | rfl)
        · exact ⟨.inl hold.1, hold.2⟩
        · exact ⟨.inr rfl, hmine⟩
      · rintro ⟨hold | rfl, hnot⟩
        · exact .inl ⟨hold, hnot⟩
        · exact .inr rfl
  · intro s hs hid
    rw [hsymbols] at hs
    refine ⟨h.once s hs, fun id => ?_⟩
    rw [h.live s hs, hrests]
    simp [hid]

/-- An order of a client comes to rest under an id that is new everywhere. -/
theorem adopt (h : e.Recycles ids clients) {symbolId : UInt16} {orderId : UInt64}
    (hsymbols : e'.symbols = e.symbols)
    (hnew : ∀ t, ((e.books.book t).get orderId).isSome = false)
    (hrests : ∀ t id, ((e'.books.book t).get id).isSome = true ↔
      ((e.books.book t).get id).isSome = true ∨ t = symbolId ∧ id = orderId) :
    e'.Recycles ids (clients ++ [orderId]) := by
  refine ⟨hsymbols ▸ h.listed, h.distinct, hsymbols ▸ h.once, fun s hs id => ?_⟩
  rw [hsymbols] at hs
  rw [h.live s hs, hrests, List.mem_append, List.mem_singleton]
  by_cases hid : id = orderId
  · subst hid
    simp [hnew]
  · simp [hid]

end Engine.Recycles

/-! ## Calls -/

variable {env : Env}

/-- The change puts no order on a book and takes none off. -/
def Change.Keeps : Change → Prop
  | .add .. | .delete .. => False
  | .reduce .. | .replace .. | .trade .. => True

theorem Change.Makes.isSome_of_keeps {b b' : ReferenceBook} {change : Change}
    (h : change.Makes b b') (hkeeps : change.Keeps) (id : UInt64) :
    (b'.get id).isSome = (b.get id).isSome := by
  cases change with
  | add => exact hkeeps.elim
  | delete => exact hkeeps.elim
  | trade => rw [h]
  | reduce =>
    obtain ⟨u, hreduce⟩ := h
    exact ReferenceBook.isSome_get_reduce hreduce id
  | replace =>
    obtain ⟨u, hreplace⟩ := h
    exact ReferenceBook.isSome_get_replace hreplace id

/-- A book that is put back with the same orders on it. -/
theorem Engine.isSome_put {e : Engine} {symbolId : UInt16} {b : ReferenceBook}
    (hb : ∀ id, (b.get id).isSome = ((e.books.book symbolId).get id).isSome) (t : UInt16)
    (id : UInt64) :
    (((e.books.put symbolId b).book t).get id).isSome = ((e.books.book t).get id).isSome := by
  rw [BookSet.book_put]
  split
  · rename_i heq
    rw [hb, heq]
  · rfl

namespace Exchange

open Engine

variable {x x' : Exchange} {o : Aggressor} {ids : List UInt16} {clients : List UInt64}

theorem recycles_getOrCreate (h : x.engine.Recycles ids clients) (symbolId : UInt16) :
    (x.mapEngine fun e => e.getOrCreate symbolId).engine.Recycles ids clients :=
  h.of_same rfl (Engine.isSome_put fun _ => rfl)

/-- The lists are no business of a publish, and most changes leave the same orders resting. -/
theorem publish_recycles {symbolId : UInt16} {change : Change} (h : x.engine.Recycles ids clients)
    (hpublish : x.publish env symbolId change = .ok x') (hkeeps : change.Keeps) :
    x'.engine.Recycles ids clients := by
  obtain ⟨b, hmakes, hengine⟩ := publish_makes hpublish
  rw [hengine]
  exact h.of_same rfl (Engine.isSome_put (hmakes.isSome_of_keeps hkeeps))

/-- An order that is deleted rests no more. -/
theorem publish_delete_rests {symbolId : UInt16} {orderId : UInt64} {side : Side}
    (h : x.publish env symbolId (.delete orderId side) = .ok x') :
    x'.engine.symbols = x.engine.symbols ∧ ∀ t id,
      ((x'.engine.books.book t).get id).isSome = true ↔
        ((x.engine.books.book t).get id).isSome = true ∧ ¬(t = symbolId ∧ id = orderId) := by
  obtain ⟨b, ⟨order, hdelete⟩, hengine⟩ := publish_makes h
  rw [hengine]
  refine ⟨rfl, fun t id => ?_⟩
  rw [BookSet.book_put]
  by_cases ht : symbolId = t
  · rw [if_pos ht, ReferenceBook.get_delete hdelete, ht]
    by_cases hid : orderId = id
    · simp [hid]
    · simp [hid, Ne.symm hid]
  · rw [if_neg ht]
    simp [Ne.symm ht]

/-- An order that is added rests from then on. -/
theorem publish_add_rests {symbolId : UInt16} {orderId : UInt64} {side : Side} {price : Int64}
    {quantity : UInt32} (h : x.publish env symbolId (.add orderId side price quantity) = .ok x') :
    x'.engine.symbols = x.engine.symbols ∧ ∀ t id,
      ((x'.engine.books.book t).get id).isSome = true ↔
        ((x.engine.books.book t).get id).isSome = true ∨ t = symbolId ∧ id = orderId := by
  obtain ⟨b, ⟨u, hadd⟩, hengine⟩ := publish_makes h
  rw [hengine]
  refine ⟨rfl, fun t id => ?_⟩
  rw [BookSet.book_put]
  by_cases ht : symbolId = t
  · rw [if_pos ht, ReferenceBook.get_add hadd, ht]
    by_cases hid : orderId = id
    · simp [hid]
    · simp [hid, Ne.symm hid]
  · rw [if_neg ht]
    simp [Ne.symm ht]

theorem recordPassiveFill_recycles {e : Engine} (h : e.Recycles ids clients) (fill : PassiveFill) :
    (e.recordPassiveFill fill).Recycles ids clients := by
  have hsymbols : (e.recordPassiveFill fill).symbols = e.symbols := by
    unfold recordPassiveFill
    split
    · split <;> rfl
    · rfl
  exact h.of_same hsymbols fun t id => by rw [books_recordPassiveFill]

/-- **A fill**: an order that is used up comes off the book and off its list. -/
theorem fillResting_recycles {bestPrice : Int64} {restingId : UInt64} {resting : RestingOrder}
    {remaining remaining' : UInt32} {fill : Fill} (hx : x.engine.Recycles ids clients)
    (h : x.fillResting env o bestPrice restingId resting remaining = .ok (x', remaining', fill)) :
    x'.engine.Recycles ids clients := by
  obtain ⟨x₁, htrade, h⟩ := bind_eq_ok h
  obtain ⟨x₂, hchange, h⟩ := bind_eq_ok h
  have hnumbered : (x.mapEngine fun e => { e with nextTradeId := e.nextTradeId + 1 }).engine.Recycles ids
      clients := hx.of_same rfl fun _ _ => rfl
  have htraded := publish_recycles hnumbered htrade trivial
  cases h
  apply recordPassiveFill_recycles
  unfold fillChange at hchange
  split at hchange
  · rename_i hall
    rw [if_pos hall]
    obtain ⟨hsymbols, hrests⟩ := publish_delete_rests hchange
    exact htraded.remove hsymbols hrests
  · rename_i hpart
    rw [if_neg hpart]
    exact publish_recycles htraded hchange trivial

theorem matchTurn_recycles {remaining : UInt32} {turn : Option (UInt32 × Fill)}
    (hx : x.engine.Recycles ids clients) (h : x.matchTurn env o remaining = .ok (x', turn)) :
    x'.engine.Recycles ids clients := by
  have hx₁ := recycles_getOrCreate hx o.symbolId
  unfold matchTurn at h
  dsimp only at h
  split at h
  · cases h
    exact hx₁
  · split at h
    · split at h
      · cases h
      · obtain ⟨⟨x₂, remaining₂, fill⟩, hfill, h⟩ := bind_eq_ok h
        cases h
        exact fillResting_recycles hx₁ hfill
    · cases h
      exact hx₁

theorem matchLoop_recycles {fuel : Nat} {remaining remaining' : UInt32} {fills : List Fill}
    (hx : x.engine.Recycles ids clients)
    (h : matchLoop env o fuel x remaining = .ok (x', remaining', fills)) :
    x'.engine.Recycles ids clients := by
  induction fuel generalizing x remaining fills with
  | zero =>
    cases h
    exact hx
  | succ fuel ih =>
    unfold matchLoop at h
    split at h
    · cases h
      exact hx
    · obtain ⟨⟨x₁, turn⟩, hturn, h⟩ := bind_eq_ok h
      have hx₁ := matchTurn_recycles hx hturn
      cases turn with
      | none =>
        cases h
        exact hx₁
      | some taken =>
        obtain ⟨⟨x₂, remaining₂, fills₂⟩, hloop, h⟩ := bind_eq_ok h
        cases h
        exact ih hx₁ hloop

/-- The clients' orders after one of theirs has been submitted, or one of the generator's. -/
def clientsAfter (clients : List UInt64) (orderId : UInt64) (resting : UInt32)
    (generatorMayRecycle : Bool) : List UInt64 :=
  if generatorMayRecycle ∨ resting = 0 then clients else clients ++ [orderId]

/-- **What rests of an order** is the generator's to act on again, or a client's. -/
theorem rest_recycles {remaining : UInt32} {generatorMayRecycle : Bool}
    (hx : x.engine.Recycles ids clients)
    (hnew : ∀ t, ((x.engine.books.book t).get o.orderId).isSome = false)
    (hmine : o.orderId ∉ clients) (h : x.rest env o remaining generatorMayRecycle = .ok x') :
    x'.engine.Recycles ids (clientsAfter clients o.orderId remaining generatorMayRecycle) := by
  unfold rest at h
  unfold clientsAfter
  split at h
  · rename_i hzero
    cases h
    rw [if_pos (.inr hzero)]
    exact hx
  · rename_i hleft
    obtain ⟨x₁, hadd, h⟩ := bind_eq_ok h
    obtain rfl := Except.ok.inj h
    obtain ⟨hsymbols, hrests⟩ := publish_add_rests hadd
    cases generatorMayRecycle with
    | true =>
      simp only [true_or, if_true]
      exact hx.push hsymbols (hnew o.symbolId) hmine hrests
    | false =>
      simp only [Bool.false_eq_true, hleft, or_self, if_false]
      exact hx.adopt hsymbols hnew hrests

theorem submitReported_recycles {symbolId : UInt16} {side : Side} {price : Int64}
    {quantity : UInt32} {generatorMayRecycle : Bool} {outcome : SubmitOutcome} {fills : List Fill}
    (hx : x.engine.Recycles ids clients) (hs : x.engine.Sound)
    (hmine : x.engine.nextOrderId ∉ clients)
    (h : x.submitReported env symbolId side price quantity generatorMayRecycle =
      .ok (x', outcome, fills)) :
    x'.engine.Recycles ids
      (clientsAfter clients outcome.orderId outcome.resting generatorMayRecycle) := by
  obtain ⟨⟨x₁, remaining, fills₁⟩, hloop, h⟩ := bind_eq_ok h
  obtain ⟨x₂, hrest, h⟩ := bind_eq_ok h
  obtain ⟨os, hos⟩ := hs.reps symbolId
  have hmoves := (matchLoop_moves hos (Nat.lt_succ_self _) hloop).1
  have hnumbered : (x.mapEngine fun e => { e with nextOrderId := e.nextOrderId + 1 }).engine.Recycles ids
      clients := hx.of_same rfl fun _ _ => rfl
  cases h
  refine rest_recycles (matchLoop_recycles hnumbered hloop) (fun t => ?_) hmine hrest
  rw [Bool.eq_false_iff]
  intro hrests
  rcases hmoves.rests t _ hrests with ⟨hold, -⟩ | hnew
  · exact absurd (hs.below t _ hold) (UInt64.lt_irrefl _)
  · cases hnew

theorem cancelReported_recycles {symbolId : UInt16} {orderId : UInt64} {answer : Option UInt32}
    (hx : x.engine.Recycles ids clients)
    (h : x.cancelReported env symbolId orderId = .ok (x', answer)) :
    x'.engine.Recycles ids clients := by
  have hx₁ := recycles_getOrCreate hx symbolId
  unfold cancelReported at h
  dsimp only at h
  split at h
  · cases h
    exact hx₁
  · obtain ⟨x₂, hdelete, h⟩ := bind_eq_ok h
    cases h
    obtain ⟨hsymbols, hrests⟩ := publish_delete_rests hdelete
    exact hx₁.remove hsymbols hrests

theorem amend_recycles {symbolId : UInt16} {orderId : UInt64} {newPrice : Option Int64}
    {newQuantity : UInt32} (hx : x.engine.Recycles ids clients)
    (h : x.amend env symbolId orderId newPrice newQuantity = .ok x') :
    x'.engine.Recycles ids clients := by
  have hx₁ := recycles_getOrCreate hx symbolId
  unfold amend at h
  dsimp only at h
  split at h
  · cases h
    exact hx₁
  · refine publish_recycles hx₁ h ?_
    unfold amendChange
    split <;> trivial

end Exchange

/-! ## The desk -/

/-- The call is one of the generator's, or of its flush timer. -/
def Call.Generated : Call → Prop
  | .submitReported .. => False
  | _ => True

namespace Desk

/-- The orders of the path are the clients' orders. -/
def Recycles (s : Desk) (ids : List UInt16) : Prop :=
  s.exchange.engine.Recycles ids (s.arrived.map Owned.exchangeOrderId)

variable {s s' : Desk} {ids : List UInt16}

theorem Sound.nextOrderId_not_mem (h : s.Sound) :
    s.exchange.engine.nextOrderId ∉ s.arrived.map Owned.exchangeOrderId := by
  intro hmem
  obtain ⟨o, ho, heq⟩ := List.mem_map.mp hmem
  have hlt := h.below o ho
  rw [heq] at hlt
  exact absurd hlt (UInt64.lt_irrefl _)

theorem Recycles.took {m : OrderMessage} {p : OrderPath} (h : s.Recycles ids) (hs : s.Sound)
    (htook : Took env s p m s') : s'.Recycles ids := by
  cases htook with
  | refused hside => exact h
  | submitted hside hsubmit =>
    have hsubmitted := Exchange.submitReported_recycles h hs.engine hs.nextOrderId_not_mem hsubmit
    unfold Recycles
    dsimp only
    unfold Exchange.clientsAfter at hsubmitted
    rw [List.map_append]
    rename_i outcome _
    by_cases hrests : outcome.resting = 0
    · rw [if_pos (.inr hrests)] at hsubmitted
      rw [hrests, if_neg (UInt32.lt_irrefl 0), List.map_nil, List.append_nil]
      exact hsubmitted
    · rw [if_neg (by simpa using hrests)] at hsubmitted
      rw [if_pos (UInt32.pos_iff_ne_zero.mpr hrests)]
      exact hsubmitted
  | canceled hcancel => exact Exchange.cancelReported_recycles h hcancel
  | unknown hcancel => exact Exchange.cancelReported_recycles h hcancel
  | reconciled => exact h

theorem Recycles.catchUp (h : s.Recycles ids) : s.catchUp.Recycles ids := by
  obtain ⟨watched, hengine, -⟩ := OrderPath.catchUp_engine s.path s.exchange
  have hengine : s.catchUp.exchange.engine = { s.exchange.engine with watched, passiveFills := [] } :=
    hengine
  unfold Recycles
  rw [hengine]
  exact h.of_same rfl fun _ _ => rfl

theorem Recycles.flow {c : Call} {x' : Exchange} {struck : List PassiveFill} (h : s.Recycles ids)
    (hs : s.Sound) (hc : c.Generated) (hcall : s.exchange.call env c = .ok x') :
    Recycles { s with exchange := x', struck } ids := by
  cases c with
  | submit symbolId side price quantity =>
    obtain ⟨⟨x₁, outcome, fills⟩, hsubmit, rfl⟩ := map_eq_ok hcall
    have hsubmitted := Exchange.submitReported_recycles h hs.engine hs.nextOrderId_not_mem hsubmit
    rwa [Exchange.clientsAfter, if_pos (.inl rfl)] at hsubmitted
  | submitReported => exact hc.elim
  | cancel symbolId orderId =>
    obtain ⟨⟨x₁, answer⟩, hcancel, rfl⟩ := map_eq_ok hcall
    exact Exchange.cancelReported_recycles h hcancel
  | amend symbolId orderId newPrice newQuantity => exact Exchange.amend_recycles h hcall
  | flushOnTimer =>
    obtain ⟨p, -, rfl⟩ := map_eq_ok hcall
    exact h.of_same rfl fun _ _ => rfl

/-- **Every step keeps the lists**, whatever comes over the path. -/
theorem Recycles.step {i : Input} (h : s.Recycles ids) (hs : s.Sound)
    (hi : ∀ c, i = .flow c → c.Generated) (hstep : s.step env i = .ok s') : s'.Recycles ids := by
  cases i with
  | arrives m =>
    cases hstep
    exact h
  | read =>
    unfold Desk.step at hstep
    dsimp only at hstep
    split at hstep
    · cases hstep
      exact h
    · cases hstep
      exact h
  | catchUp =>
    cases hstep
    exact h.catchUp
  | take =>
    rcases take_took hstep with rfl | ⟨m, orders, -, htook⟩
    · exact h
    · exact h.took hs htook
  | flow c =>
    obtain ⟨x', hcall, hstep⟩ := bind_eq_ok hstep
    cases hstep
    exact h.flow hs (hi c rfl) hcall

theorem recycles_new {symbols : List UInt16} (hdistinct : symbols.Nodup) (batchSize : UInt16)
    (maxDatagramBytes : Nat) (shadow : Option Books) (orders reports : Nat) :
    (Desk.new symbols batchSize maxDatagramBytes shadow orders reports).Recycles symbols := by
  have hnone : ∀ s ∈ (Engine.new symbols).symbols, s.live = [] := by
    intro s hs
    obtain ⟨id, -, rfl⟩ := List.mem_map.mp hs
    rfl
  refine ⟨?_, hdistinct, fun s hs => ?_, fun s hs id => ?_⟩
  · show (symbols.map fun id => (⟨id, []⟩ : SymbolState)).map (·.id) = symbols
    rw [List.map_map]
    exact List.map_id symbols
  · rw [hnone s hs]
    exact List.nodup_nil
  · rw [hnone s hs]
    simp [Desk.new, Exchange.new, Engine.new, BookSet.book, BookSet.get, Books.new,
      ReferenceBook.get, ReferenceBook.new]

end Desk

end MarketData.Matching
