import MarketData.Lib.Run
import MarketData.Handler.Arbitration

/-!
# `Handler/Runs.lean` — runs of the arbitrator and their logs

The handler makes three calls: datagrams arrive on the two arms, in any order, any number of
times or not at all, and between them the handler drains the window or gives up on a hole. The
log of a run is what came out of it, deliveries and declared gaps in the order they happened.
The statements about runs differ in which orders of calls they allow; all of them are about
this log.

## The log, and what is read off it

`accept` answers with what it delivers or gives up itself, and the drain hands over the rest; `call`
brings both under one type, `Output`. That the two kinds stay in one list matters: **whether a
delivery came before or after a gap is lost in two counters**, and it is what most of the promises
are about. `deliveries`, `gaps` and `deliveredSeqs` are projections of the log and are used where
only one kind is of interest.

A `Trace` also remembers which datagrams it was given. The arbitrator does not; but "never received"
is a statement about them.

`Ordered` is the one property shared by all the runs below: the deliveries of a log are in order, do
not overlap, and end below the frontier.
-/

set_option autoImplicit false

namespace MarketData.Handler

open MarketData.Run MarketData.Tiling
open MarketData.Wire (Buf PacketHeader WireError)

/-! ## Runs and their logs -/

/-- The three calls the handler makes. -/
inductive Call where
  | accept (arm : Nat) (datagram : Buf)
  | drainReady
  | declareGapIfStalled

/-- What a call hands to the handler: a datagram to consume, or a range that is lost. -/
inductive Output where
  | delivered (d : Delivery)
  | gap (g : Gap)
  deriving DecidableEq, Repr

/-- The segment of the stream an output accounts for. -/
def Output.seg : Output → Nat × Nat
  | .delivered d => d.seg
  | .gap g => (g.fromSeq, g.through + 1)

/-- What `accept` hands over by itself: the datagram it was given, or a gap. -/
def Accepted.outputs (datagram : Buf) : Accepted → List Output
  | .ready first count => [.delivered ⟨first, count, datagram⟩]
  | .forcedGap g => [.gap g]
  | _ => []

def Arbitrator.call (a : Arbitrator) : Call → List Output × Arbitrator
  | .accept arm d => ((a.accept arm d).1.outputs d, (a.accept arm d).2)
  | .drainReady => (a.drainReady.1.map .delivered, a.drainReady.2)
  | .declareGapIfStalled => (a.declareGapIfStalled.1.toList.map .gap, a.declareGapIfStalled.2)

/-- An arbitrator with its history: the datagrams it was given and the log of its outputs. -/
structure Trace where
  given : List Buf
  log : List Output
  arb : Arbitrator

def Trace.init (windowDatagrams maxDatagramBytes : Nat) : Trace :=
  ⟨[], [], Arbitrator.new windowDatagrams maxDatagramBytes⟩

def Trace.step (t : Trace) (c : Call) : Trace :=
  { given := match c with
      | .accept _ d => t.given ++ [d]
      | _ => t.given
    log := t.log ++ (t.arb.call c).1
    arb := (t.arb.call c).2 }

/-- The deliveries of a log, in order. -/
def deliveries (log : List Output) : List Delivery :=
  log.filterMap fun
    | .delivered d => some d
    | .gap _ => none

/-- The declared gaps of a log, in order. -/
def gaps (log : List Output) : List Gap :=
  log.filterMap fun
    | .delivered _ => none
    | .gap g => some g

/-- The sequences a log delivers, one by one and in order. -/
def deliveredSeqs (log : List Output) : List Nat :=
  (deliveries log).flatMap fun d => List.range' d.firstSequence d.count

/-- Every datagram the call offers is a copy of a datagram of the partition. -/
def Call.Of (P : Partition) : Call → Prop
  | .accept _ d => ∃ first count, Copy P d first count
  | _ => True

@[simp] theorem deliveries_delivered_cons (d : Delivery) (log : List Output) :
    deliveries (.delivered d :: log) = d :: deliveries log := rfl

@[simp] theorem deliveries_gap_cons (g : Gap) (log : List Output) :
    deliveries (.gap g :: log) = deliveries log := rfl

@[simp] theorem gaps_delivered_cons (d : Delivery) (log : List Output) :
    gaps (.delivered d :: log) = gaps log := rfl

@[simp] theorem gaps_gap_cons (g : Gap) (log : List Output) :
    gaps (.gap g :: log) = g :: gaps log := rfl

@[simp] theorem deliveries_append (l m : List Output) :
    deliveries (l ++ m) = deliveries l ++ deliveries m := List.filterMap_append

@[simp] theorem gaps_append (l m : List Output) : gaps (l ++ m) = gaps l ++ gaps m :=
  List.filterMap_append

@[simp] theorem deliveredSeqs_append (l m : List Output) :
    deliveredSeqs (l ++ m) = deliveredSeqs l ++ deliveredSeqs m := by
  simp [deliveredSeqs]

@[simp] theorem deliveries_map_delivered (ds : List Delivery) :
    deliveries (ds.map .delivered) = ds := by
  induction ds with
  | nil => rfl
  | cons d ds _ => simp [deliveries]

@[simp] theorem gaps_map_delivered (ds : List Delivery) : gaps (ds.map .delivered) = [] := by
  induction ds with
  | nil => rfl
  | cons d ds _ => simp [gaps]

theorem mem_deliveries {log : List Output} {d : Delivery} :
    d ∈ deliveries log ↔ .delivered d ∈ log := by
  simp only [deliveries, List.mem_filterMap]
  constructor
  · rintro ⟨o, ho, hd⟩
    cases o with
    | delivered d' => cases hd; exact ho
    | gap g => cases hd
  · intro h
    exact ⟨_, h, rfl⟩

theorem mem_gaps {log : List Output} {g : Gap} : g ∈ gaps log ↔ .gap g ∈ log := by
  simp only [gaps, List.mem_filterMap]
  constructor
  · rintro ⟨o, ho, hg⟩
    cases o with
    | delivered d => cases hg
    | gap g' => cases hg; exact ho
  · intro h
    exact ⟨_, h, rfl⟩

theorem eq_forcedGap_of_mem {g : Gap} {r : Accepted} {d : Buf} (h : .gap g ∈ r.outputs d) :
    r = .forcedGap g := by
  cases r with
  | forcedGap g' => cases List.mem_singleton.mp h; rfl
  | ready first count => simp [Accepted.outputs] at h
  | buffered => cases h
  | duplicate => cases h
  | malformed e => cases h

theorem mem_deliveredSeqs {log : List Output} {s : Nat} :
    s ∈ deliveredSeqs log ↔
      ∃ d ∈ deliveries log, d.firstSequence ≤ s ∧ s < d.firstSequence + d.count := by
  simp [deliveredSeqs, List.mem_flatMap, List.mem_range'_1]

theorem deliveredSeqs_eq_points (log : List Output) :
    deliveredSeqs log = points Delivery.seg (deliveries log) := by
  simp [deliveredSeqs, points, Delivery.seg]

/-! ## Logs in order -/

/-- A log whose deliveries are in order and end below `n`. -/
def Ordered (log : List Output) (n : Nat) : Prop :=
  (deliveredSeqs log).Pairwise (· < ·) ∧ ∀ s ∈ deliveredSeqs log, s < n

/-- Deliveries that start at or beyond the end of an ordered log extend it. -/
theorem Ordered.extend {log : List Output} {n a b : Nat} {out : List Delivery}
    (h : Ordered log n) (hle : n ≤ a) (ht : Tiles Delivery.seg a out b) :
    Ordered (log ++ out.map .delivered) b := by
  have hout : deliveredSeqs (out.map .delivered) = points Delivery.seg out := by
    rw [deliveredSeqs_eq_points, deliveries_map_delivered]
  have hpts : ∀ s ∈ points Delivery.seg out, a ≤ s ∧ s < b := by
    intro s hs
    obtain ⟨x, hx, hlo, hhi⟩ := mem_points.mp hs
    obtain ⟨h1, -, h3⟩ := ht.bounds hx
    exact ⟨Nat.le_trans h1 hlo, Nat.lt_of_lt_of_le hhi h3⟩
  unfold Ordered
  rw [deliveredSeqs_append, hout]
  refine ⟨List.pairwise_append.mpr ⟨h.1, points_sorted ht.pairwise, ?_⟩, ?_⟩
  · intro s hs u hu
    exact Nat.lt_of_lt_of_le (h.2 s hs) (Nat.le_trans hle (hpts u hu).1)
  · intro s hs
    rcases List.mem_append.mp hs with hs | hs
    · exact Nat.lt_of_lt_of_le (h.2 s hs) (Nat.le_trans hle ht.le)
    · exact (hpts s hs).2

/-- Outputs that deliver nothing leave an ordered log ordered. -/
theorem Ordered.quiet {log out : List Output} {n b : Nat} (h : Ordered log n)
    (hout : deliveries out = []) (hle : n ≤ b) : Ordered (log ++ out) b := by
  have hseqs : deliveredSeqs out = [] := by simp [deliveredSeqs, hout]
  unfold Ordered
  rw [deliveredSeqs_append, hseqs, List.append_nil]
  exact ⟨h.1, fun s hs => Nat.lt_of_lt_of_le (h.2 s hs) hle⟩

end MarketData.Handler
