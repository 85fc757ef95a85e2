import Mathlib.Data.List.Basic

/-!
# `Lib/Stream.lean` — messages out of a stream that comes in chunks

A parser is asked for the message at the front of a buffer. It may find one, find that there can be
none, or find the buffer cut off and ask for more. A reader appends every chunk that arrives to its
buffer and takes messages off the front for as long as there are any.

How the stream was cut is invisible exactly because a verdict that was reached is not taken back
when the buffer grows (`Stable`). Then reading chunk by chunk is reading the whole stream at once
(`receive_eq`).

## What a parser has to promise

Three things: a message found at the front is found whatever follows it, with the same length; a
refusal stays one; and a message takes at least one item off the buffer. Asking for more is the only
answer that may change. A parser with a fixed-width idea of positions may keep the promise only in
buffers of some size, so it is asked below a bound, and the stream as a whole has to stay below it.

Nothing here says that a message ever comes. A parser that always asks for more is stable, and its
reader reads nothing, however the stream is cut.
-/

set_option autoImplicit false

namespace MarketData.Stream

variable {α E M : Type}

/-- What a parser says of the front of a buffer. -/
inductive Verdict (E M : Type) where
  | more
  | bad (e : E)
  | good (m : M) (n : Nat)

/-- Where reading ends: waiting with what is left of the buffer, or for good. -/
inductive Ending (α E : Type) where
  | waiting (rest : List α)
  | stopped (e : E)
  deriving DecidableEq

/-- Takes messages off the front of the buffer. -/
def drain (parse : List α → Verdict E M) : Nat → List α → List M × Ending α E
  | 0, b => ([], .waiting b)
  | fuel + 1, b =>
    if b = [] then ([], .waiting [])
    else
      match parse b with
      | .more => ([], .waiting b)
      | .bad e => ([], .stopped e)
      | .good m n =>
        let (ms, ending) := drain parse fuel (b.drop n)
        (m :: ms, ending)

/-- Appends chunk after chunk to the buffer, and drains it after each. -/
def receive (parse : List α → Verdict E M) : List α → List (List α) → List M × Ending α E
  | b, [] => ([], .waiting b)
  | b, chunk :: chunks =>
    match drain parse (b ++ chunk).length (b ++ chunk) with
    | (ms, .stopped e) => (ms, .stopped e)
    | (ms, .waiting rest) =>
      let (ms', ending) := receive parse rest chunks
      (ms ++ ms', ending)

/-- A verdict stands once it is reached, in buffers of less than `bound` items. -/
structure Stable (parse : List α → Verdict E M) (bound : Nat) : Prop where
  nil : parse [] = .more
  takes : ∀ {b m n}, parse b = .good m n → 0 < n ∧ n ≤ b.length
  good : ∀ {b x m n}, (b ++ x).length < bound → parse b = .good m n → parse (b ++ x) = .good m n
  bad : ∀ {b x e}, (b ++ x).length < bound → parse b = .bad e → parse (b ++ x) = .bad e

variable {parse : List α → Verdict E M} {bound : Nat}

namespace Stable

/-- Any fuel that covers the buffer drains it alike. -/
theorem drain_fuel (h : Stable parse bound) (fuel fuel' : Nat) {b : List α} (hf : b.length ≤ fuel)
    (hf' : b.length ≤ fuel') : drain parse fuel b = drain parse fuel' b := by
  induction fuel generalizing fuel' b with
  | zero =>
    obtain rfl := List.length_eq_zero_iff.mp (Nat.le_zero.mp hf)
    cases fuel' <;> rfl
  | succ fuel ih =>
    by_cases hb : b = []
    · subst hb
      cases fuel' <;> rfl
    have hlen : 0 < b.length := List.length_pos_of_ne_nil hb
    cases fuel' with
    | zero => omega
    | succ fuel' =>
      rw [drain, drain, if_neg hb, if_neg hb]
      cases hp : parse b with
      | more => rfl
      | bad e => rfl
      | good m n =>
        obtain ⟨hpos, hle⟩ := h.takes hp
        have hdrop := List.length_drop (i := n) (l := b)
        dsimp only
        rw [ih fuel' (b := b.drop n) (by omega) (by omega)]

/-- **A buffer that grows**: what was drained stays drained, and what was left is drained with the
rest. -/
theorem drain_append (h : Stable parse bound) {b x : List α} (hlt : (b ++ x).length < bound) :
    drain parse (b ++ x).length (b ++ x) =
      match drain parse b.length b with
      | (ms, .stopped e) => (ms, .stopped e)
      | (ms, .waiting rest) =>
        let (ms', ending) := drain parse (rest ++ x).length (rest ++ x)
        (ms ++ ms', ending) := by
  induction hn : b.length using Nat.strongRecOn generalizing b with
  | ind k ih =>
    by_cases hb : b = []
    · subst hb
      subst hn
      rfl
    have hlen : 0 < b.length := List.length_pos_of_ne_nil hb
    obtain ⟨fuel, hfuel⟩ : ∃ fuel, b.length = fuel + 1 := ⟨b.length - 1, by omega⟩
    have hne : b ++ x ≠ [] := List.append_ne_nil_of_left_ne_nil hb x
    have hgrown : drain parse (b ++ x).length (b ++ x) =
        drain parse (fuel + x.length + 1) (b ++ x) := by
      refine h.drain_fuel _ _ (Nat.le_refl _) ?_
      rw [List.length_append]
      omega
    rw [← hn, hgrown, hfuel, drain, drain, if_neg hne, if_neg hb]
    cases hp : parse b with
    | more =>
      show _ = (([] : List M) ++ (drain parse (b ++ x).length (b ++ x)).1,
        (drain parse (b ++ x).length (b ++ x)).2)
      rw [hgrown, drain, if_neg hne]
      rfl
    | bad e => rw [h.bad hlt hp]
    | good m n =>
      obtain ⟨hpos, hle⟩ := h.takes hp
      have hdropped : (b ++ x).drop n = b.drop n ++ x := List.drop_append_of_le_length hle
      have hshort : (b.drop n).length < k := by
        rw [List.length_drop]
        omega
      have hlt' : (b.drop n ++ x).length < bound := by
        rw [List.length_append] at hlt ⊢
        rw [List.length_drop]
        omega
      have hrest := ih _ hshort hlt' rfl
      rw [h.good hlt hp]
      dsimp only
      rw [hdropped, h.drain_fuel _ (b.drop n ++ x).length (b := b.drop n ++ x)
          (by rw [List.length_append, List.length_drop]; omega) (Nat.le_refl _), hrest,
        h.drain_fuel fuel (b.drop n).length (b := b.drop n)
          (by rw [List.length_drop]; omega) (Nat.le_refl _)]
      cases drain parse (b.drop n).length (b.drop n) with
      | mk ms ending =>
        cases ending with
        | stopped e => rfl
        | waiting rest => rfl

/-- What is left waiting is no longer than what there was, and stays waiting. -/
theorem drain_waiting (h : Stable parse bound) {b rest : List α} {ms : List M}
    (hd : drain parse b.length b = (ms, .waiting rest)) :
    rest.length ≤ b.length ∧ drain parse rest.length rest = ([], .waiting rest) := by
  induction hn : b.length using Nat.strongRecOn generalizing b ms with
  | ind k ih =>
    by_cases hb : b = []
    · subst hb
      cases hd
      exact ⟨Nat.zero_le _, rfl⟩
    have hlen : 0 < b.length := List.length_pos_of_ne_nil hb
    obtain ⟨fuel, hfuel⟩ : ∃ fuel, b.length = fuel + 1 := ⟨b.length - 1, by omega⟩
    have hd' := hd
    rw [hfuel, drain, if_neg hb] at hd
    cases hp : parse b with
    | more =>
      rw [hp] at hd
      cases hd
      exact ⟨by omega, hd'⟩
    | bad e =>
      rw [hp] at hd
      cases hd
    | good m n =>
      obtain ⟨hpos, hle⟩ := h.takes hp
      have hshort : (b.drop n).length < k := by
        rw [List.length_drop]
        omega
      rw [hp] at hd
      dsimp only at hd
      rw [h.drain_fuel fuel (b.drop n).length (b := b.drop n)
        (by rw [List.length_drop]; omega) (Nat.le_refl _)] at hd
      cases hrest : drain parse (b.drop n).length (b.drop n) with
      | mk ms' ending =>
        rw [hrest] at hd
        cases hd
        obtain ⟨hshorter, hwaits⟩ := ih _ hshort hrest rfl
        exact ⟨by omega, hwaits⟩

/-- **Chunk by chunk is all at once**, from a buffer that was drained. -/
theorem receive_eq (h : Stable parse bound) {b : List α} {chunks : List (List α)}
    (hb : drain parse b.length b = ([], .waiting b))
    (hlt : (b ++ chunks.flatten).length < bound) :
    receive parse b chunks = drain parse (b ++ chunks.flatten).length (b ++ chunks.flatten) := by
  induction chunks generalizing b with
  | nil => rw [List.flatten_nil, List.append_nil, hb, receive]
  | cons chunk chunks ih =>
    rw [List.flatten_cons, ← List.append_assoc] at hlt ⊢
    rw [receive, h.drain_append hlt]
    cases hd : drain parse (b ++ chunk).length (b ++ chunk) with
    | mk ms ending =>
      cases ending with
      | stopped e => rfl
      | waiting rest =>
        obtain ⟨hshort, hwaits⟩ := h.drain_waiting hd
        have hlt' : (rest ++ chunks.flatten).length < bound := by
          rw [List.length_append] at hlt ⊢
          omega
        dsimp only
        rw [ih hwaits hlt']

end Stable

end MarketData.Stream
