import MarketData.Handler.Arbitration
import MarketData.Handler.Loop

/-!
# `Handler/Ledger.lean` — which part of the stream the books reflect

The published stream is a message for every sequence and a cut into datagrams (`Publication`); what
arrives is copies of its datagrams. `consume_copy` is the one fact about `consume` the rest of
the development uses: a copy is consumed as the messages of the stream at its sequences, less
those outside the two bounds.

A `Ledger` is read off the handler's history. It says how far the snapshot under the books
reaches (`base`), which messages have been applied on top of it, whether a cycle has emptied the
books without being finished (`torn`), and whether a recovery has been given up since the books
were last whole (`forsaken`).

## Sequences instead of books

Whether the books are right is a question about their contents, and whether a handler did the right
thing with what it received is a question about sequences. **The ledger is where the first becomes
the second**: books with a snapshot as of `base` and the messages `seqs` on top of it hold what the
publisher's books held after the last of these messages, if they are all of those past `base` and in
order. What applying a message does to a book is in `Book/Apply.lean` and does not occur here.

`torn` is about the time between the start of a cycle and its end: the books have been emptied and
hold what the cycle has brought so far. Nothing is claimed of such books until the cycle ends, and
what a fragment lost in between does to them is not followed.

The history the ledger is read off is not in the source, and nothing in the model reads it but this.
-/

set_option autoImplicit false

namespace MarketData.Handler

open MarketData.Wire MarketData.Book

/-! ## The published stream -/

/-- A message for every sequence, and how the sequences are cut into datagrams. -/
structure Publication where
  cut : Partition
  message : Nat → Message
  positive : ∀ {f c}, cut.mem f c → 1 ≤ f

/-- The bytes are a copy of the datagram that carries the messages from `first` on. -/
structure Publication.Copy (S : Publication) (maxBytes : Nat) (d : Buf) (first count : Nat) : Prop where
  copy : MarketData.Handler.Copy S.cut d first count
  reads : readPacket d =
    .ok ((numbered (UInt64.ofNat first) ((List.range' first count).map S.message)).map .ok)
  fits : d.length ≤ maxBytes
  incremental : isSnapshotDatagram d = false

section Single

variable {f c f' c' : Nat}

theorem one_le_of_single (h : 1 ≤ f ∧ c = 1 ∧ f + 1 < 2 ^ 64) : 1 ≤ f := h.1

theorem pos_of_single (h : 1 ≤ f ∧ c = 1 ∧ f + 1 < 2 ^ 64) : 0 < c := by
  rw [h.2.1]
  exact Nat.one_pos

theorem bounded_of_single (h : 1 ≤ f ∧ c = 1 ∧ f + 1 < 2 ^ 64) : f + c < 2 ^ 64 := by
  rw [h.2.1]
  exact h.2.2

theorem disjoint_of_single (h : 1 ≤ f ∧ c = 1 ∧ f + 1 < 2 ^ 64)
    (h' : 1 ≤ f' ∧ c' = 1 ∧ f' + 1 < 2 ^ 64) (hlt : f < f' + c') (hlt' : f' < f + c) :
    f = f' ∧ c = c' := by
  rw [h.2.1, h'.2.1] at *
  exact ⟨by omega, rfl⟩

end Single

/-- A publication of one message in each datagram. -/
def Publication.single (message : Nat → Message) : Publication where
  cut :=
    { mem := fun f c => 1 ≤ f ∧ c = 1 ∧ f + 1 < 2 ^ 64
      pos := pos_of_single
      bounded := bounded_of_single
      disjoint := disjoint_of_single }
  message := message
  positive := one_le_of_single

theorem Publication.boundary_single (message : Nat → Message) {n : Nat} (h : n < 2 ^ 64) :
    (Publication.single message).cut.Boundary n := by
  refine ⟨h, fun f c hmem => ?_⟩
  obtain ⟨-, rfl, -⟩ := hmem
  omega

/-- A sent datagram with one message is a copy. -/
theorem Publication.copy_single {message : Nat → Message} {maxBytes s : Nat} {block : Buf}
    (hdec : Decodes block (message s)) (hpos : 1 ≤ s) (hlt : s + 1 < 2 ^ 64)
    (hfits : 24 + block.length ≤ maxBytes) :
    (Publication.single message).Copy maxBytes (packet 0 (UInt64.ofNat s) [block]) s 1 := by
  have hheader := isHeader_packet 0 (UInt64.ofNat s) [block]
  obtain ⟨header, hwrap, hcount, hfirst, hflags⟩ := hheader.wrap [block].flatten
  have hseq : (UInt64.ofNat s).toNat = s := by
    simp only [UInt64.toNat_ofNat']
    omega
  refine ⟨⟨⟨header, hwrap, by rw [hfirst, hseq], by rw [hcount]; rfl⟩, hpos, rfl, hlt⟩, ?_, ?_, ?_⟩
  · exact readPacket_blocks hheader (.cons hdec .nil) rfl
  · rw [packet, List.length_append, length_putU16, length_packetHeaderBlock]
    simpa using hfits
  · rw [isSnapshotDatagram, show packet 0 (UInt64.ofNat s) [block] = _ ++ [block].flatten from rfl,
      hwrap]
    simp [PacketHeader.isSnapshot, hflags]

/-- The sequences of a datagram that lie between the two bounds, in order. -/
def seqsIn (first count lo hi : Nat) : List Nat :=
  (List.range' first count).filter fun s => decide (lo ≤ s) && decide (s ≤ hi)

theorem mem_seqsIn {first count lo hi s : Nat} :
    s ∈ seqsIn first count lo hi ↔ (first ≤ s ∧ s < first + count) ∧ lo ≤ s ∧ s ≤ hi := by
  simp [seqsIn, List.mem_range'_1]

theorem seqsIn_sorted (first count lo hi : Nat) :
    (seqsIn first count lo hi).Pairwise (· < ·) :=
  (List.pairwise_lt_range' (s := first) (n := count)).filter _

variable {B : Type} [OrderBook B]

namespace Consumer

/-- The messages of the stream at the given sequences, one after the other. -/
def applyAll (S : Publication) (gapped : Bool) (c : Consumer B) (seqs : List Nat) : Consumer B :=
  seqs.foldl (fun c s => c.applyNext gapped s (S.message s)) c

variable {S : Publication} {maxBytes : Nat}

@[simp] theorem applyAll_nil (gapped : Bool) (c : Consumer B) : c.applyAll S gapped [] = c := rfl

theorem applyAll_append (gapped : Bool) (c : Consumer B) (l m : List Nat) :
    c.applyAll S gapped (l ++ m) = (c.applyAll S gapped l).applyAll S gapped m :=
  List.foldl_append

theorem consumeMessages_numbered (gapped : Bool) (lo hi : Nat) (c : Consumer B) (first count : Nat)
    (hbound : first + count ≤ 2 ^ 64) :
    consumeMessages gapped lo hi c
        ((numbered (UInt64.ofNat first) ((List.range' first count).map S.message)).map .ok) =
      c.applyAll S gapped (seqsIn first count lo hi) := by
  induction count generalizing first c with
  | zero => rfl
  | succ count ih =>
    have hseq : (UInt64.ofNat first).toNat = first := by
      simp only [UInt64.toNat_ofNat']
      omega
    have hnext : UInt64.ofNat first + 1 = UInt64.ofNat (first + 1) := by
      rw [UInt64.ofNat_add]
      rfl
    rw [List.range'_succ, List.map_cons, numbered, List.map_cons, consumeMessages, hseq, hnext,
      ih _ (first + 1) (by omega), ih _ (first + 1) (by omega)]
    by_cases hin : lo ≤ first ∧ first ≤ hi
    · rw [if_neg (by omega)]
      simp [seqsIn, List.range'_succ, hin, applyAll]
    · rw [if_pos (by omega)]
      simp [seqsIn, List.range'_succ, hin]

/-- **A copy is consumed as the messages of the stream at its sequences.** -/
theorem consume_copy {d : Buf} {first count : Nat} (hd : S.Copy maxBytes d first count)
    (c : Consumer B) (gapped : Bool) (lo hi : Nat) :
    c.consume d gapped lo hi = c.applyAll S gapped (seqsIn first count lo hi) := by
  rw [consume, hd.reads]
  exact consumeMessages_numbered gapped lo hi c first count
    (Nat.le_of_lt (S.cut.bounded hd.copy.mem))

end Consumer

/-! ## The ledger -/

structure Ledger where
  /-- The snapshot under the books reflects everything up to here. -/
  base : Nat := 0
  /-- The messages applied on top of it. -/
  seqs : List Nat := []
  /-- A cycle start has emptied the books, and no cycle end has been adopted since. -/
  torn : Bool := false
  /-- A recovery has been given up since the last adoption. -/
  forsaken : Bool := false
  /-- The fragments taken since the books were last emptied. -/
  fragments : List Snapshot := []
  deriving DecidableEq, Repr

namespace Ledger

def touch (l : Ledger) : Touch → Ledger
  | .cleared => { l with base := 0, seqs := [], torn := true, fragments := [] }
  | .fragment d => { l with fragments := l.fragments ++ [d] }
  | .adopted lastSequence =>
    { l with base := lastSequence, seqs := [], torn := false, forsaken := false }
  | .message sequence _ _ => { l with seqs := l.seqs ++ [sequence] }
  | .completed => l
  | .forsaken => { l with forsaken := true }

def ofHistory (history : List Touch) : Ledger := history.foldl touch {}

@[simp] theorem ofHistory_append (history more : List Touch) :
    ofHistory (history ++ more) = more.foldl touch (ofHistory history) := List.foldl_append

/-- The message with this sequence is in the books, through the snapshot or by itself. -/
def Reflects (l : Ledger) (s : Nat) : Prop := (1 ≤ s ∧ s ≤ l.base) ∨ s ∈ l.seqs

instance (l : Ledger) (s : Nat) : Decidable (l.Reflects s) := inferInstanceAs (Decidable (_ ∨ _))

/-- The highest sequence in the books. -/
def highest (l : Ledger) : Nat := l.seqs.foldr max l.base

/-- Every sequence below `n` is in the books. -/
def Below (l : Ledger) (n : Nat) : Prop := ∀ s, 1 ≤ s → s < n → l.Reflects s

/-- Messages go on top of what is there. -/
def add (l : Ledger) (seqs : List Nat) : Ledger := { l with seqs := l.seqs ++ seqs }

@[simp] theorem add_nil (l : Ledger) : l.add [] = l := by simp [add]

theorem add_add (l : Ledger) (s t : List Nat) : (l.add s).add t = l.add (s ++ t) := by
  simp [add]

@[simp] theorem reflects_add {l : Ledger} {seqs : List Nat} {s : Nat} :
    (l.add seqs).Reflects s ↔ l.Reflects s ∨ s ∈ seqs := by
  simp [Reflects, add, or_assoc]

/-- What is below a point stays, and a range from there on is added. -/
theorem Below.add {l : Ledger} {m n : Nat} (h : l.Below m) {seqs : List Nat}
    (hseqs : ∀ s, m ≤ s → s < n → s ∈ seqs) : (l.add seqs).Below n := by
  intro s hs hlt
  rw [reflects_add]
  by_cases hm : s < m
  · exact .inl (h s hs hm)
  · exact .inr (hseqs s (Nat.le_of_not_lt hm) hlt)

end Ledger

namespace Consumer

/-- What the books of a consumer reflect. -/
def ledger {B : Type} (c : Consumer B) : Ledger := .ofHistory c.history

@[simp] theorem ledger_touch {B : Type} (c : Consumer B) (t : Touch) :
    (c.touch t).ledger = c.ledger.touch t := by
  simp [ledger, touch]

@[simp] theorem ledger_count {B : Type} (c : Consumer B) (f : HandlerStats → HandlerStats) :
    (c.count f).ledger = c.ledger := rfl

variable {S : Publication}

@[simp] theorem ledger_applyNext (c : Consumer B) (gapped : Bool) (s : Nat) (m : Message) :
    (c.applyNext gapped s m).ledger = c.ledger.add [s] := by
  simp [ledger, applyNext, Ledger.touch, Ledger.add]

@[simp] theorem ledger_applyAll (c : Consumer B) (gapped : Bool) (seqs : List Nat) :
    (c.applyAll S gapped seqs).ledger = c.ledger.add seqs := by
  induction seqs generalizing c with
  | nil => simp
  | cons s seqs ih =>
    show ((c.applyNext gapped s (S.message s)).applyAll S gapped seqs).ledger = _
    rw [ih, ledger_applyNext, Ledger.add_add]
    rfl

end Consumer

end MarketData.Handler
