import Mathlib.Data.List.Basic

/-!
# `Lib/Fifo.lean` — a bounded queue

A ring between one producer and one consumer, as the two see it: messages come out in the order
they went in, and one that finds the ring full does not go in.

This is a *specification*. What it takes for two processes over shared memory to see such a queue,
the indices, the copies of them and the order of the accesses, is the ring's own development; a
program that talks over one should not have to know. A message that does not go in is an answer here
and not a wait, since the rings of this kind never block.

`map` is for a reader that takes the messages for something else than the writer put in: bytes on
one side, decoded orders on the other.
-/

set_option autoImplicit false

namespace MarketData

structure Fifo (α : Type*) where
  capacity : Nat
  items : List α := []
  deriving DecidableEq, Repr

namespace Fifo

variable {α : Type*}

/-- The queue with `a` behind the rest; `none` where it is full. -/
def push (q : Fifo α) (a : α) : Option (Fifo α) :=
  if q.items.length < q.capacity then some { q with items := q.items ++ [a] } else none

/-- The oldest message and what is behind it. -/
def pop (q : Fifo α) : Option (α × Fifo α) :=
  match q.items with
  | [] => none
  | a :: rest => some (a, { q with items := rest })

/-- The queue with every message read by `f`. -/
def map {β : Type*} (f : α → β) (q : Fifo α) : Fifo β := ⟨q.capacity, q.items.map f⟩

/-- Whether there is room does not depend on the messages. -/
theorem push_map {β : Type*} (f : α → β) (q : Fifo α) (a : α) :
    (q.map f).push (f a) = (q.push a).map (map f) := by
  simp only [push, map, List.length_map]
  split <;> simp [map]

theorem push_some {q q' : Fifo α} {a : α} (h : q.push a = some q') :
    q' = { q with items := q.items ++ [a] } := by
  unfold push at h
  split at h
  · exact (Option.some.inj h).symm
  · cases h

/-- A message that got into the queue, whether or not there might have been room, is the one that
is behind the rest. -/
theorem eq_of_push {q : Fifo α} {a b : α} (h : ((q.push a).getD q).items = q.items ++ [b]) :
    a = b := by
  cases hpush : q.push a with
  | none =>
    rw [hpush] at h
    simp at h
  | some q' =>
    rw [hpush, push_some hpush] at h
    exact List.singleton_inj.mp (List.append_cancel_left h)

theorem pop_cons {q : Fifo α} {a : α} {rest : List α} (h : q.items = a :: rest) :
    q.pop = some (a, { q with items := rest }) := by
  rw [pop, h]

theorem pop_some {q q' : Fifo α} {a : α} (h : q.pop = some (a, q')) :
    q.items = a :: q'.items ∧ q'.capacity = q.capacity := by
  unfold pop at h
  split at h
  · cases h
  · rename_i hitems
    cases h
    exact ⟨hitems, rfl⟩

end Fifo

end MarketData
