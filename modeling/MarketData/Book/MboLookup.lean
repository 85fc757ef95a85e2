import MarketData.Book.MboRefines
import MarketData.Lib.OpenMap
import MarketData.Lib.Run

/-!
# `Book/MboLookup.lean` — the order-id map is a map

The map on its own, apart from what the book does with it: ids that are absent are inserted, and
ids that are found are removed at the slot they are found at, in any order. Whatever ids share a
home, and wherever their runs go round the end of the table.

`Lib/Probing.lean` and `Lib/OpenMap.lean` do the work for any probed table with backward-shift
deletion; what is left for the book's map is that it *is* one: `hash` is the home, `mapMask` cuts
it, a cell is vacant when its node is `NIL`, and an entry's key is the id stored beside the node.

## What a map that is a map amounts to

`IsMap` lists it: `map_find`, `map_insert` and the backward shift come to an end, an id is found
just if it was inserted and not removed since, with the node it was inserted with, and **no vacant
cell stands between an entry and its home**, which is the property that deletion has to repair.

## The load

A quarter of the cells at most are in use. `MboBook::new` makes the table four times as large as the
slab, so the book never goes beyond that, and with it a probe always meets a vacant cell. The module
states the bound as a hypothesis on every insertion (`Fits`) instead of deriving it from a slab, so
that the map is described for any caller that keeps it.
-/

set_option autoImplicit false

namespace MarketData.Book

open MarketData.Probing

inductive MapOp where
  | insert (orderId : UInt64) (node : Nat)
  /-- At the slot that `map_find` returns, if it returns one. -/
  | remove (orderId : UInt64)
  deriving DecidableEq, Repr

/-- A book, and the node each id was last inserted with and not removed since. -/
structure Mapped where
  book : MboBook
  stored : UInt64 → Option Nat := fun _ => none

namespace Mapped

def step (p : Mapped) : MapOp → Mapped
  | .insert orderId node =>
    ⟨p.book.mapInsert orderId node, Function.update p.stored orderId (some node)⟩
  | .remove orderId =>
    ⟨match p.book.mapFind orderId with
      | some i => p.book.mapRemoveAt i
      | none => p.book,
      Function.update p.stored orderId none⟩

/-- Slots in use. -/
def used (p : Mapped) : Nat := (p.book.scheme.entries p.book.map).length

/-- An id is inserted when it is absent, with a node, and at most a quarter of the slots are used
with it. -/
def Fits (p : Mapped) : MapOp → Prop
  | .insert orderId node =>
    p.stored orderId = none ∧ node ≠ nil ∧ 4 * (p.used + 1) ≤ p.book.mapMask + 1
  | .remove _ => True

instance (p : Mapped) : (o : MapOp) → Decidable (p.Fits o)
  | .insert .. => inferInstanceAs (Decidable (_ ∧ _ ∧ _))
  | .remove _ => inferInstanceAs (Decidable True)

/-- What makes the table a map: its loops end, an id is found just if it is stored, with its node,
and nothing is vacant between an entry and its home. -/
structure IsMap (p : Mapped) : Prop where
  probeEnds : ∀ orderId, p.book.scheme.ProbeEnds p.book.map orderId
  vacancyEnds : ∀ orderId, p.book.scheme.VacancyEnds p.book.map orderId
  removeEnds : ∀ orderId i, p.book.mapFind orderId = some i →
    p.book.scheme.closes p.book.scheme.size i i (Function.update p.book.map i {}) = true
  find : ∀ orderId, (p.book.mapFind orderId).map (fun i => (p.book.map i).node) = p.stored orderId
  get : ∀ orderId, p.book.get orderId = (p.stored orderId).map fun i => (p.book.nodes i).order
  chained : Chained p.book.scheme p.book.map fun _ => False

/-- What every operation keeps. -/
structure Sound (p : Mapped) : Prop where
  power : ∃ k, p.book.mapMask + 1 = 2 ^ k
  represents : Represents p.book.scheme p.book.map
    fun orderId => (p.stored orderId).map fun node => ⟨orderId, node⟩
  quarter : 4 * p.used ≤ p.book.mapMask + 1

namespace Sound

variable {p : Mapped}

theorem lawful (h : Sound p) : p.book.scheme.Lawful :=
  ⟨h.power, fun _ => Nat.lt_succ_of_le Nat.and_le_right, rfl⟩

theorem room (h : Sound p) : (p.book.scheme.entries p.book.map).length < p.book.scheme.size := by
  have hquarter := h.quarter
  unfold used at hquarter
  show _ < p.book.mapMask + 1
  omega

theorem insert (h : Sound p) {orderId : UInt64} {node : Nat} (hfits : p.Fits (.insert orderId node)) :
    Sound (p.step (.insert orderId node)) := by
  obtain ⟨hnew, hnode, hquarter⟩ := hfits
  have hvacant : p.book.scheme.vacant ⟨orderId, node⟩ = false := decide_eq_false hnode
  obtain ⟨hrepresents, hlength⟩ := h.represents.insert h.lawful h.room hvacant
    (by show (p.stored orderId).map _ = none; rw [hnew]; rfl)
  refine ⟨h.power, ?_, ?_⟩
  · have hmap : (fun id => (Function.update p.stored orderId (some node) id).map
        fun node => (⟨id, node⟩ : MapEntry)) =
        Function.update (fun id => (p.stored id).map fun node => ⟨id, node⟩) orderId
          (some ⟨orderId, node⟩) := by
      funext id
      by_cases hid : id = orderId
      · subst hid
        rw [Function.update_self, Function.update_self]
        rfl
      · rw [Function.update_of_ne hid, Function.update_of_ne hid]
    show Represents p.book.scheme (p.book.scheme.insert p.book.map ⟨orderId, node⟩) fun id =>
      (Function.update p.stored orderId (some node) id).map fun node => ⟨id, node⟩
    rw [hmap]
    exact hrepresents
  · show 4 * (p.book.scheme.entries (p.book.scheme.insert p.book.map ⟨orderId, node⟩)).length ≤ _
    rw [hlength]
    exact hquarter

theorem remove (h : Sound p) (orderId : UInt64) : Sound (p.step (.remove orderId)) := by
  have hmap : (fun id => (Function.update p.stored orderId none id).map
      fun node => (⟨id, node⟩ : MapEntry)) =
      Function.update (fun id => (p.stored id).map fun node => ⟨id, node⟩) orderId none := by
    funext id
    by_cases hid : id = orderId
    · subst hid
      rw [Function.update_self, Function.update_self]
      rfl
    · rw [Function.update_of_ne hid, Function.update_of_ne hid]
  cases hfind : p.book.mapFind orderId with
  | none =>
    have hsame := h.represents.remove_absent h.lawful h.room hfind
    have hstep : p.step (.remove orderId) = ⟨p.book, Function.update p.stored orderId none⟩ := by
      rw [step, hfind]
    rw [hstep]
    refine ⟨h.power, ?_, h.quarter⟩
    show Represents p.book.scheme p.book.map fun id =>
      (Function.update p.stored orderId none id).map fun node => ⟨id, node⟩
    rw [hmap, hsame]
    exact h.represents
  | some i =>
    obtain ⟨hrepresents, hlength⟩ := h.represents.removeAt h.lawful h.room hfind
    have hstep : p.step (.remove orderId) =
        ⟨p.book.mapRemoveAt i, Function.update p.stored orderId none⟩ := by
      rw [step, hfind]
    rw [hstep]
    refine ⟨h.power, ?_, ?_⟩
    · show Represents p.book.scheme (p.book.scheme.removeAt p.book.map i) fun id =>
        (Function.update p.stored orderId none id).map fun node => ⟨id, node⟩
      rw [hmap]
      exact hrepresents
    · have hquarter := h.quarter
      unfold used at hquarter
      show 4 * (p.book.scheme.entries (p.book.scheme.removeAt p.book.map i)).length ≤
        p.book.mapMask + 1
      omega

theorem isMap (h : Sound p) : p.IsMap := by
  have hvacancy := Probing.vacancyEnds h.lawful h.room
  have hlookup := h.represents.lookup_eq h.lawful h.room
  have hfind : ∀ orderId, (p.book.mapFind orderId).map (fun i => (p.book.map i).node) =
      p.stored orderId := by
    intro orderId
    have hid := congrArg (Option.map MapEntry.node) (hlookup orderId)
    rw [Scheme.lookup, Option.map_map, Option.map_map] at hid
    refine Eq.trans hid ?_
    cases p.stored orderId <;> rfl
  refine ⟨fun orderId => (hvacancy orderId).probeEnds, hvacancy, ?_, hfind, ?_,
    h.represents.table.chained⟩
  · intro orderId i hi
    obtain ⟨hlt, hoccupied, -⟩ := Table.find_eq_some h.lawful h.room hi
    exact closes_removeAt h.lawful h.room hlt hoccupied
  · intro orderId
    rw [← hfind orderId, Option.map_map]
    rfl

end Sound

/-- A new book's map is empty. -/
theorem sound_new (cap : MboCapacity) : Sound ⟨.new cap, fun _ => none⟩ := by
  have hvacant : ∀ i, (MboBook.new cap).scheme.vacant ((MboBook.new cap).map i) = true :=
    fun i => rfl
  obtain ⟨⟨k, hk⟩, hle⟩ := MboBook.nextPowerOfTwo_spec (max cap.orders 4 * 4)
  have hsize : (MboBook.new cap).mapMask + 1 = nextPowerOfTwo (max cap.orders 4 * 4) := by
    show nextPowerOfTwo (max cap.orders 4 * 4) - 1 + 1 = _
    omega
  have hnone : (MboBook.new cap).scheme.entries (MboBook.new cap).map = [] := by
    refine List.eq_nil_iff_forall_not_mem.mpr fun e he => ?_
    obtain ⟨i, -, rfl, hoccupied⟩ := mem_entries.mp he
    rw [hvacant i] at hoccupied
    cases hoccupied
  refine ⟨⟨k, hsize.trans hk⟩, .of_vacant hvacant, ?_⟩
  unfold used
  rw [hnone]
  exact Nat.zero_le _

/-- **The order-id map is a map**, after any insertions of absent ids and removals that leave at
most a quarter of its slots used. -/
theorem map_is_map (cap : MboCapacity) (ops : List MapOp)
    (h : Run.Along step Fits ⟨.new cap, fun _ => none⟩ ops) :
    IsMap (ops.foldl step ⟨.new cap, fun _ => none⟩) := by
  refine Sound.isMap (h.invariant Sound (fun p o hp hfits => ?_) (sound_new cap))
  cases o with
  | insert orderId node => exact hp.insert hfits
  | remove orderId => exact hp.remove orderId

/-- Three ids, of which the first is removed and comes back with another node. -/
theorem map_is_map_again :
    IsMap ([MapOp.insert 7 0, .insert 8 1, .insert 9 2, .remove 7, .remove 4, .insert 7 3].foldl step
      ⟨.new ⟨4, 4, 0, 1⟩, fun _ => none⟩) :=
  map_is_map _ _ (by decide +kernel)

end Mapped

end MarketData.Book
