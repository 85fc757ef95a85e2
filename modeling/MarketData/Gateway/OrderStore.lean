import MarketData.Wire.OrderPath
import Mathlib.Data.List.Pairwise

/-!
# `Gateway/OrderStore.lean` — the gateway's durable view of its orders

`cpp/gateway/src/orderstore.cpp`. Every transition of an order is a record appended to a log and
synced before it counts; the orders still working are what is left when the records are applied
in order, in memory and when the log is opened again. Whether an append reached the disk is up to
the disk, and one that did not is cut off again and changes nothing.

## The log as a list of records

The bytes are in `Gateway/OrderLog.lean`. Here the log is the records in it, in order, and opening
it is a fold; that is enough wherever the question is what the gateway knows about its orders.
`Logged` says that the memory is what the log would be opened as, and `Working` that no two orders
of the memory go by one id and none of them has ended. Every `record` keeps both, and so does an
open, so whoever starts from a log has them.

`apply` has three outcomes, and `Applied` lists them: an order that has ended is taken off, one that
is there is overwritten where it stands, and one that is not is appended. The source keeps a vector
and looks its orders up by a scan; the model keeps the same list in the same order, because a
reconciliation goes through it in that order.
-/

set_option autoImplicit false

namespace MarketData.Gateway

open MarketData.Wire

/-- Where an order has got to. -/
inductive OrderState where
  | pending
  | live
  | filled
  | canceled
  | rejected
  deriving DecidableEq, Repr

/-- One line of the log. -/
structure OrderRecord where
  clientOrderId : UInt64
  exchangeOrderId : UInt64
  price : Int64
  /-- What was originally asked for; never changes. -/
  quantity : UInt32
  /-- What is still working. -/
  leavesQuantity : UInt32
  symbolId : UInt16
  side : Side
  state : OrderState
  deriving DecidableEq, Repr

/-- `state > OrderState::Live` -/
def OrderRecord.isTerminal (r : OrderRecord) : Bool :=
  match r.state with
  | .pending | .live => false
  | .filled | .canceled | .rejected => true

structure OrderStore where
  live : List OrderRecord := []
  /-- The records of the file. -/
  log : List OrderRecord := []
  deriving DecidableEq, Repr

namespace OrderStore

def find (s : OrderStore) (clientOrderId : UInt64) : Option OrderRecord :=
  s.live.find? fun x => x.clientOrderId = clientOrderId

/-- Writes over the first record of that id. -/
def overwrite (r : OrderRecord) : List OrderRecord → List OrderRecord
  | [] => []
  | x :: xs => if x.clientOrderId = r.clientOrderId then r :: xs else x :: overwrite r xs

def apply (s : OrderStore) (r : OrderRecord) : OrderStore :=
  if r.isTerminal then { s with live := s.live.eraseP fun x => x.clientOrderId = r.clientOrderId }
  else
    match s.find r.clientOrderId with
    | none => { s with live := s.live ++ [r] }
    | some _ => { s with live := overwrite r s.live }

/-- Appends `r`, syncs it and applies it. -/
def record (s : OrderStore) (durable : Bool) (r : OrderRecord) : Option OrderStore :=
  if durable then some { s.apply r with log := s.log ++ [r] } else none

/-- What a log is opened as: its records are applied in order, and it is written anew with one
record for each order where it holds any other. -/
def openLog (log : List OrderRecord) : OrderStore :=
  let s := log.foldl apply {}
  { live := s.live, log := if log.length = s.live.length then log else s.live }

/-- An order that ends leaves the list it was on. -/
theorem apply_terminal_ne {s : OrderStore} {r : OrderRecord} (hterm : r.isTerminal = true)
    (hlive : ∃ x ∈ s.live, x.clientOrderId = r.clientOrderId) : (s.apply r).live ≠ s.live := by
  obtain ⟨x, hx, hid⟩ := hlive
  intro heq
  have hlen := congrArg List.length heq
  rw [apply, if_pos hterm, List.length_eraseP_of_mem hx (by simpa using hid)] at hlen
  have hpos := List.length_pos_of_mem hx
  omega

/-! ## The log and the memory -/

/-- The orders of the list go by different ids, and are all at work. -/
def Working (live : List OrderRecord) : Prop :=
  live.Pairwise (fun x y => x.clientOrderId ≠ y.clientOrderId) ∧ ∀ x ∈ live, x.isTerminal = false

/-- The list over which a record of the same id is written. -/
theorem overwrite_eq {r x : OrderRecord} (hid : x.clientOrderId = r.clientOrderId)
    {as bs : List OrderRecord}
    (has : ∀ a ∈ as, a.clientOrderId ≠ r.clientOrderId) :
    overwrite r (as ++ x :: bs) = as ++ r :: bs := by
  induction as with
  | nil => simp [overwrite, hid]
  | cons a as ih =>
    obtain ⟨ha, has⟩ := List.forall_mem_cons.mp has
    simp [overwrite, ha, ih has]

/-- The first order of an id, with what is before and after it. -/
theorem exists_split_of_find {s : OrderStore} {id : UInt64} {x : OrderRecord}
    (h : s.find id = some x) : x.clientOrderId = id ∧ ∃ as bs, s.live = as ++ x :: bs ∧
      ∀ a ∈ as, a.clientOrderId ≠ id := by
  obtain ⟨hid, as, bs, hlive, has⟩ := List.find?_eq_some_iff_append.mp h
  exact ⟨by simpa using hid, as, bs, hlive, fun a ha => by simpa using has a ha⟩

/-- What `apply` does to the list. -/
inductive Applied (s : OrderStore) (r : OrderRecord) : List OrderRecord → Prop where
  | absent (hterm : r.isTerminal = true) (h : ∀ x ∈ s.live, x.clientOrderId ≠ r.clientOrderId) :
      Applied s r s.live
  | ended {as bs : List OrderRecord} {x : OrderRecord} (hterm : r.isTerminal = true)
      (hlive : s.live = as ++ x :: bs) (hid : x.clientOrderId = r.clientOrderId)
      (has : ∀ a ∈ as, a.clientOrderId ≠ r.clientOrderId) : Applied s r (as ++ bs)
  | added (hterm : r.isTerminal = false) (h : ∀ x ∈ s.live, x.clientOrderId ≠ r.clientOrderId) :
      Applied s r (s.live ++ [r])
  | written {as bs : List OrderRecord} {x : OrderRecord} (hterm : r.isTerminal = false)
      (hlive : s.live = as ++ x :: bs) (hid : x.clientOrderId = r.clientOrderId)
      (has : ∀ a ∈ as, a.clientOrderId ≠ r.clientOrderId) : Applied s r (as ++ r :: bs)

theorem apply_applied (s : OrderStore) (r : OrderRecord) : Applied s r (s.apply r).live := by
  unfold apply
  cases hfind : s.find r.clientOrderId with
  | none =>
    have hnone : ∀ x ∈ s.live, x.clientOrderId ≠ r.clientOrderId := fun x hx => by
      simpa using List.find?_eq_none.mp hfind x hx
    split
    · rename_i hterm
      rw [List.eraseP_of_forall_not (by simpa using hnone)]
      exact .absent hterm hnone
    · rename_i hterm
      exact .added (by simpa using hterm) hnone
  | some x =>
    obtain ⟨hid, as, bs, hlive, has⟩ := exists_split_of_find hfind
    split
    · rename_i hterm
      have herase : (s.live.eraseP fun x => x.clientOrderId = r.clientOrderId) = as ++ bs := by
        rw [hlive, List.eraseP_append_right _ (by simpa using has),
          List.eraseP_cons_of_pos (by simpa using hid)]
      rw [herase]
      exact .ended hterm hlive hid has
    · rename_i hterm
      dsimp only
      rw [hlive, overwrite_eq hid has]
      exact .written (by simpa using hterm) hlive hid has

/-- After `apply` the only order of the id is the record itself, if that is still at work. -/
theorem mem_apply_iff {s : OrderStore} (h : Working s.live) {r y : OrderRecord}
    (hy : y.clientOrderId = r.clientOrderId) :
    y ∈ (s.apply r).live ↔ r.isTerminal = false ∧ y = r := by
  have happ := apply_applied s r
  generalize (s.apply r).live = live at happ ⊢
  -- Before and after the order of that id there is no other.
  have hother : ∀ {as bs : List OrderRecord} {x : OrderRecord}, s.live = as ++ x :: bs →
      x.clientOrderId = r.clientOrderId → y ∉ bs := by
    intro as bs x hlive hid hmem
    have hpair := h.1
    rw [hlive, List.pairwise_append, List.pairwise_cons] at hpair
    exact hpair.2.1.1 y hmem (hid.trans hy.symm)
  cases happ with
  | absent hterm hnone => exact iff_of_false (fun hmem => hnone y hmem hy) (by simp [hterm])
  | ended hterm hlive hid has =>
    refine iff_of_false (fun hmem => ?_) (by simp [hterm])
    rcases List.mem_append.mp hmem with hmem | hmem
    · exact has y hmem hy
    · exact hother hlive hid hmem
  | added hterm hnone =>
    have hmem : y ∉ s.live := fun hmem => hnone y hmem hy
    simp [hterm, hmem]
  | written hterm hlive hid has =>
    have hmem : y ∉ _ := fun hmem => has y hmem hy
    simp [hterm, hmem, hother hlive hid]

theorem Working.apply {s : OrderStore} (h : Working s.live) (r : OrderRecord) :
    Working (s.apply r).live := by
  obtain ⟨hpair, hwork⟩ := h
  have happ := apply_applied s r
  generalize (s.apply r).live = live at happ ⊢
  cases happ with
  | absent hterm h => exact ⟨hpair, hwork⟩
  | ended hterm hlive hid has =>
    rename_i as bs x
    rw [hlive] at hpair hwork
    have hsub : (as ++ bs).Sublist (as ++ x :: bs) :=
      List.Sublist.append_left (List.sublist_cons_self _ _) _
    exact ⟨hpair.sublist hsub, fun y hy => hwork y (hsub.subset hy)⟩
  | added hterm h =>
    refine ⟨List.pairwise_append.mpr ⟨hpair, List.pairwise_singleton _ _, ?_⟩, ?_⟩
    · simpa using h
    · intro y hy
      rcases List.mem_append.mp hy with hy | hy
      · exact hwork y hy
      · rw [List.mem_singleton.mp hy]
        exact hterm
  | written hterm hlive hid has =>
    rename_i as bs x
    rw [hlive] at hpair hwork
    rw [List.pairwise_append, List.pairwise_cons] at hpair
    obtain ⟨has', ⟨hx, hbs⟩, hcross⟩ := hpair
    refine ⟨?_, ?_⟩
    · rw [List.pairwise_append, List.pairwise_cons]
      refine ⟨has', ⟨fun b hb => hid ▸ hx b hb, hbs⟩, fun a ha b hb => ?_⟩
      rcases List.mem_cons.mp hb with rfl | hb
      · exact has a ha
      · exact hcross a ha b (List.mem_cons_of_mem _ hb)
    · intro y hy
      rcases List.mem_append.mp hy with hy | hy
      · exact hwork y (List.mem_append_left _ hy)
      rcases List.mem_cons.mp hy with rfl | hy
      · exact hterm
      · exact hwork y (List.mem_append_right _ (List.mem_cons_of_mem _ hy))

theorem working_replay (log : List OrderRecord) {s : OrderStore} (h : Working s.live) :
    Working (log.foldl OrderStore.apply s).live := by
  induction log generalizing s with
  | nil => exact h
  | cons r log ih => exact ih (h.apply r)

/-- The memory holds what the log would be opened as. -/
def Logged (s : OrderStore) : Prop := (openLog s.log).live = s.live

theorem Logged.working {s : OrderStore} (h : s.Logged) : Working s.live := by
  rw [← h]
  exact working_replay s.log ⟨List.Pairwise.nil, fun _ h => (nomatch h)⟩

/-- `apply` looks at the list and at nothing else. -/
theorem apply_live_congr {s s' : OrderStore} (h : s.live = s'.live) (r : OrderRecord) :
    (s.apply r).live = (s'.apply r).live := by
  unfold apply find
  rw [h]
  split
  · rfl
  · split <;> rfl

theorem Logged.record {s s' : OrderStore} {durable : Bool} {r : OrderRecord} (h : s.Logged)
    (hrec : s.record durable r = some s') : s'.Logged := by
  unfold OrderStore.record at hrec
  split at hrec
  · cases hrec
    show ((s.log ++ [r]).foldl OrderStore.apply {}).live = _
    rw [List.foldl_append]
    have hlive : (s.log.foldl OrderStore.apply {}).live = s.live := h
    exact apply_live_congr hlive r
  · cases hrec

/-- So it does where nobody looks whether the write failed. -/
theorem Logged.getD_record {s : OrderStore} (h : s.Logged) (durable : Bool) (r : OrderRecord) :
    ((s.record durable r).getD s).Logged := by
  cases hrec : s.record durable r with
  | none => exact h
  | some s' => exact h.record hrec

/-- Orders at work, each with one record, are opened as they are. -/
theorem replay_working {live : List OrderRecord} (h : Working live) {s : OrderStore}
    (hs : ∀ x ∈ s.live, ∀ y ∈ live, x.clientOrderId ≠ y.clientOrderId) :
    (live.foldl OrderStore.apply s).live = s.live ++ live := by
  induction live generalizing s with
  | nil => exact (List.append_nil _).symm
  | cons r live ih =>
    obtain ⟨hpair, hwork⟩ := h
    obtain ⟨hr, hpair⟩ := List.pairwise_cons.mp hpair
    obtain ⟨hterm, hwork⟩ := List.forall_mem_cons.mp hwork
    have hnone : s.find r.clientOrderId = none := by
      refine List.find?_eq_none.mpr fun x hx => ?_
      simpa using hs x hx r (List.mem_cons_self ..)
    have happly : (s.apply r).live = s.live ++ [r] := by
      unfold OrderStore.apply
      rw [hterm, hnone]
      rfl
    rw [List.foldl_cons, ih ⟨hpair, hwork⟩, happly, List.append_assoc]
    · rfl
    · rw [happly]
      intro x hx y hy
      rcases List.mem_append.mp hx with hx | hx
      · exact hs x hx y (List.mem_cons_of_mem _ hy)
      · rw [List.mem_singleton.mp hx]
        exact hr y hy

/-- A log that was opened is opened again as the same. -/
theorem logged_openLog (log : List OrderRecord) : (openLog log).Logged := by
  unfold Logged openLog
  dsimp only
  split
  · rfl
  · have hwork := working_replay log (s := {}) ⟨List.Pairwise.nil, fun _ h => (nomatch h)⟩
    exact replay_working hwork (s := {}) fun _ h => (nomatch h)

end OrderStore

end MarketData.Gateway
