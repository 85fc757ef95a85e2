import MarketData.Handler.Inversion

/-!
# `Handler/Adoption.lean` — the frontier after a snapshot

When a cycle end completes a recovery the arbitrator restarts right behind the snapshot, and
only then is the held traffic replayed on top of it. The frontier is therefore where the books
are exactly when nothing that was held reaches past the snapshot: what does is in the books and
above the frontier at once, and will be delivered, or declared missing, again.

## A condition on the state before

The theorem compares two things that are both there only after the step, the frontier and the
highest sequence in the books. Its condition may not be about either, or it would say the same thing
twice; it is about the held datagrams, before the step, and about the sequence the snapshot is as
of. The proof goes through `Handler/Inversion.lean`: of all that a fragment can do, one constructor
adopts, and it says what was replayed.

The runs are over copies of a published stream (`Event.Of`). Nothing is assumed of the order in
which fragments, datagrams and answers come, and the recovery that is completed may have been opened
by a gap or by joining late. The two runs at the end are a join that meets a snapshot ahead of
everything held, and one that meets a snapshot behind it.
-/

set_option autoImplicit false

namespace MarketData.Handler

open MarketData.Wire MarketData.Book MarketData.Run

theorem foldr_max_eq_iff {l : List Nat} {n : Nat} : l.foldr max n = n ↔ ∀ s ∈ l, s ≤ n := by
  have hle : ∀ l : List Nat, n ≤ l.foldr max n := by
    intro l
    induction l with
    | nil => exact Nat.le_refl n
    | cons x l ih => exact Nat.le_trans ih (Nat.le_max_right _ _)
  induction l with
  | nil => simp
  | cons x l ih =>
    have hge := hle l
    rw [List.foldr_cons, List.forall_mem_cons]
    constructor
    · intro heq
      exact ⟨by omega, ih.mp (by omega)⟩
    · intro hall
      have hrest := ih.mpr hall.2
      have hx := hall.1
      omega

variable {B : Type} [OrderBook B] {S : Publication} {maxBytes : Nat}

/-- The snapshot fragment that a step completes a recovery with. -/
def Adopts (h : FeedHandler B) (e : Event) (d : Snapshot) : Prop :=
  ∃ channel bytes, e = .datagram channel bytes ∧ IsFragment bytes d ∧
    (h.step e).recovery.completed = h.recovery.completed + 1

/-- A step that completes a recovery with a snapshot is the adoption of `Taken.completed`. -/
theorem Adopts.taken {h : FeedHandler B} (hs : Sourced S maxBytes h) {e : Event} {d : Snapshot}
    (ha : Adopts h e d) : (∃ g, h.recovery.state = .awaitingSnapshot g) ∧
      FeedHandler.Taken S h d (h.step e) := by
  obtain ⟨channel, bytes, rfl, hfrag, hcompleted⟩ := ha
  have hended : h.ended = false := by
    by_contra hno
    rw [FeedHandler.step, if_pos (by simpa using hno)] at hcompleted
    omega
  have hstep : h.step (.datagram channel bytes) = h.handleSnapshot bytes := by
    rw [FeedHandler.step, if_neg (by simp [hended])]
    show h.receive channel bytes = _
    rw [FeedHandler.receive, if_pos hfrag.snapshot]
  have hrec : h.recovery.isRecovering = true := by
    by_contra hno
    rw [hstep, FeedHandler.handleSnapshot, if_neg hno] at hcompleted
    omega
  refine ⟨(isRecovering_iff hs).mp hrec, ?_⟩
  rw [hstep]
  exact FeedHandler.handleSnapshot_taken hs hrec hfrag

theorem Adopts.frontier {h : FeedHandler B} (hs : Sourced S maxBytes h) {e : Event} {d : Snapshot}
    (ha : Adopts h e d) :
    (h.step e).arb.nextExpected = (h.step e).ledger.highest + 1 ↔
      ∀ x ∈ h.recovery.held, x.firstSequence + x.count ≤ d.lastSequence.toNat + 1 := by
  obtain ⟨-, htaken⟩ := ha.taken hs
  obtain ⟨-, -, -, -, hcompleted⟩ := ha
  generalize h.step e = h' at htaken hcompleted
  cases htaken with
  | discarded => exact absurd hcompleted (Nat.ne_of_lt (Nat.lt_succ_self _))
  | failed => exact absurd hcompleted (Nat.ne_of_lt (Nat.lt_succ_self _))
  | applied => exact absurd hcompleted (Nat.ne_of_lt (Nat.lt_succ_self _))
  | reopened => exact absurd hcompleted (Nat.ne_of_lt (Nat.lt_succ_self _))
  | completed huse hin hok hend hdrain hrest =>
    have hhighest : ∀ c : Consumer B,
        (((((c.touch (.adopted d.lastSequence.toNat)).count (.adopted d.lastSequence.toNat)).applyAll
          S false (heldSeqs (d.lastSequence.toNat + 1) h.recovery.held)).count
            .recovered).touch .completed).ledger.highest =
        (heldSeqs (d.lastSequence.toNat + 1) h.recovery.held).foldr max d.lastSequence.toNat := by
      intro c
      simp [Ledger.touch, Ledger.add, Ledger.highest]
    show d.lastSequence.toNat + 1 = _ ↔ _
    rw [FeedHandler.ledger, hhighest, Nat.add_right_cancel_iff, eq_comm, foldr_max_eq_iff]
    constructor
    · intro hall x hx
      by_contra hpast
      have hmem : x.firstSequence + x.count - 1 ∈
          heldSeqs (d.lastSequence.toNat + 1) h.recovery.held := by
        have := S.cut.pos (hs.held x hx).copy.mem
        exact (mem_heldSeqs hs.held).mpr ⟨by omega, x, hx, by
          simp only [Tiling.Covers, Delivery.seg]
          omega⟩
      have := hall _ hmem
      omega
    · intro hall s hmem
      obtain ⟨hlo, x, hx, hcov⟩ := (mem_heldSeqs hs.held).mp hmem
      have := hall x hx
      simp only [Tiling.Covers, Delivery.seg] at hcov
      omega

/-- **The frontier after a snapshot**: along every run, when a cycle end completes a recovery the
frontier is one past what the books reflect if and only if no held datagram reaches past the
snapshot. -/
theorem frontier_after_adoption (S : Publication) (books : BookSet B) (w k m : Nat)
    (es : List Event) (hes : ∀ e ∈ es, e.Of S m) :
    Along FeedHandler.step (fun h e => ∀ d, Adopts h e d →
      ((h.step e).arb.nextExpected = (h.step e).ledger.highest + 1 ↔
        ∀ x ∈ h.recovery.held, x.firstSequence + x.count ≤ d.lastSequence.toNat + 1))
      (.new books w k m) es :=
  (along_of_forall fun _ => hes).of_invariant (Sourced S m) (fun _ _ hs he => hs.step he)
    (fun _ _ hs _ _ ha => ha.frontier hs) (sourced_new S books w k m)

/-- A stream of nothing but heartbeats, each naming itself. -/
def heartbeats : Publication := .single fun s => .heartbeat (UInt64.ofNat s)

def heartbeatAt (s : Nat) : Buf := packet 0 (UInt64.ofNat s) [heartbeatBlock (UInt64.ofNat s)]

theorem copy_heartbeatAt {s : Nat} (hpos : 1 ≤ s) (hlt : s + 1 < 2 ^ 64) {m : Nat} (hm : 40 ≤ m) :
    heartbeats.Copy m (heartbeatAt s) s 1 :=
  Publication.copy_single (decodes_heartbeat _) hpos hlt hm

theorem not_isFragment_heartbeatAt {s : Nat} {d : Snapshot} (hpos : 1 ≤ s) (hlt : s + 1 < 2 ^ 64) :
    ¬ IsFragment (heartbeatAt s) d := by
  intro hfrag
  have hplain := (copy_heartbeatAt hpos hlt (Nat.le_refl 40)).incremental
  exact absurd (hfrag.snapshot.symm.trans hplain) (by simp)

/-- A whole cycle in one datagram: the one symbol it names has no orders. -/
def emptyCycle (lastSequence : UInt64) : Buf :=
  packet packetFlagSnapshot 1
    [snapshotBlock lastSequence 1 (snapshotFlagCycleStart ||| snapshotFlagCycleEnd) []]

theorem isFragment_emptyCycle (lastSequence : UInt64) :
    IsFragment (emptyCycle lastSequence)
      ⟨lastSequence, 1, snapshotFlagCycleStart ||| snapshotFlagCycleEnd, []⟩ :=
  @isFragment_packet 1 lastSequence 1 _ [] (by decide)

theorem of_heartbeatAt (channel : Nat) {s : Nat} (hpos : 1 ≤ s) (hlt : s + 1 < 2 ^ 64) :
    (Event.datagram channel (heartbeatAt s)).Of heartbeats 96 :=
  .inl ⟨s, 1, copy_heartbeatAt hpos hlt (by decide)⟩

theorem of_emptyCycle (channel : Nat) {lastSequence : UInt64}
    (hlt : lastSequence.toNat + 1 < 2 ^ 64) :
    (Event.datagram channel (emptyCycle lastSequence)).Of heartbeats 96 :=
  .inr ⟨_, isFragment_emptyCycle lastSequence, Publication.boundary_single _ hlt⟩

/-- A handler that joins at sequence 3 meets a snapshot as of 4. -/
def joinBeforeSnapshot : List Event :=
  [.datagram 0 (heartbeatAt 3), .datagram 0 (heartbeatAt 4), .datagram 0 (emptyCycle 4)]

theorem frontier_after_adoption_at_join :
    let h := (FeedHandler.new Books.new 2 4 96).run joinBeforeSnapshot
    h.arb.nextExpected = h.ledger.highest + 1 := by
  have hes : ∀ e ∈ joinBeforeSnapshot, e.Of heartbeats 96 := by
    intro e he
    simp only [joinBeforeSnapshot, List.mem_cons, List.not_mem_nil, or_false] at he
    rcases he with rfl | rfl | rfl
    · exact of_heartbeatAt 0 (by decide) (by decide)
    · exact of_heartbeatAt 0 (by decide) (by decide)
    · exact of_emptyCycle 0 (by decide)
  obtain ⟨-, -, hlast, -⟩ := frontier_after_adoption heartbeats Books.new 2 4 96
    joinBeforeSnapshot hes
  exact (hlast _ ⟨0, _, rfl, isFragment_emptyCycle 4, by decide +kernel⟩).mpr
    (by decide +kernel)

/-- A handler that joins at sequence 3 holds 3 and 4, then meets a snapshot as of 2. -/
def joinBehindSnapshot : List Event :=
  [.datagram 0 (heartbeatAt 3), .datagram 0 (heartbeatAt 4), .datagram 0 (emptyCycle 2)]

theorem frontier_behind_the_books :
    let h := (FeedHandler.new Books.new 2 4 96).run joinBehindSnapshot
    (∀ e ∈ joinBehindSnapshot, e.Of heartbeats 96) ∧ h.recovery.completed = 1 ∧
      h.arb.nextExpected = 3 ∧ h.ledger.highest = 4 := by
  refine ⟨?_, by decide +kernel, by decide +kernel, by decide +kernel⟩
  intro e he
  simp only [joinBehindSnapshot, List.mem_cons, List.not_mem_nil, or_false] at he
  rcases he with rfl | rfl | rfl
  · exact of_heartbeatAt 0 (by decide) (by decide)
  · exact of_heartbeatAt 0 (by decide) (by decide)
  · exact of_emptyCycle 0 (by decide)

end MarketData.Handler
