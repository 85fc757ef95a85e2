import MarketData.Gateway.Gaps
import MarketData.Gateway.Link

/-!
# `Gateway/Numbers.lean` — outbound numbers over crashes

The operations of the sequence store and the session's `emit`, in any order, with writes that fail
and with kills in the middle of one, and the file opened again after it. What is observed goes into
a log: the numbers `claim_outbound` returned, the messages that reached the sink, and the resets.

A reset that was refused, or was under way when the process was killed, may have reached its slot
all the same; the next `open` then finds it, as it finds any other record of the higher
generation. Numbers start again from there as after a reset that was reported as done.

## What a number stands for

Two things are promised of outbound numbers, and they pull in different directions. No number is
given out twice, so a number has to be spent before it is used; and the messages that reached the
sink carry the numbers given out, in order, so nothing is sent under a number that was not stored.
The log keeps both kinds of marks in one list, and `since` is its part after the last **cut**: a
reset that took hold, by report or by a reopen that found it.

## The record in the other slot

`Kept` is the invariant, and the part of it that is not obvious is about the slot the next write
goes to. A write that failed may have landed, so the file can be ahead of the memory by one record.
`Known` says that such a record is never behind: it carries numbers no lower than those in memory,
unless it is a reset, and `landed` remembers whether it may be. A reopen takes the newer record, so
memory jumps forward and never back.

Generations are counted without bound here (`Gateway/SeqStore.lean`); the file's are 64 bits wide.
-/

set_option autoImplicit false

namespace MarketData.Gateway

inductive StoreOp where
  | claimOutbound
  | acceptInbound (seq : UInt64)
  | reset
  | emit (msgType : Text) (body : List (Nat × Text)) (now : Now) (administrative : Bool)
  deriving DecidableEq

inductive StoreEvent where
  | op (o : StoreOp) (outcome : Outcome)
  /-- The process is killed before the operation returns. -/
  | killed (o : StoreOp) (left : Left)
  | reopen
  deriving DecidableEq

inductive Mark where
  | number (n : UInt64)
  | sent (m : FixMessage)
  | reset
  /-- A reset that had not been reported as done is what a reopen found. -/
  | found
  deriving DecidableEq

namespace Mark

def number? : Mark → Option UInt64
  | number n => some n
  | _ => none

def sent? : Mark → Option FixMessage
  | sent m => some m
  | _ => none

def isReset : Mark → Bool
  | reset => true
  | _ => false

/-- A reset that took hold. -/
def tookHold : Mark → Bool
  | reset | found => true
  | _ => false

/-- What was marked after the last cut. -/
def since (cut : Mark → Bool) (log : List Mark) : List Mark :=
  log.foldl (fun acc m => if cut m then [] else acc ++ [m]) []

theorem since_append {cut : Mark → Bool} {marks : List Mark} (log : List Mark)
    (h : ∀ m ∈ marks, cut m = false) : since cut (log ++ marks) = since cut log ++ marks := by
  unfold since
  rw [List.foldl_append]
  generalize log.foldl (fun acc m => if cut m then [] else acc ++ [m]) [] = acc
  induction marks generalizing acc with
  | nil => rw [List.foldl_nil, List.append_nil]
  | cons m marks ih =>
    have hm : ¬cut m = true := by
      rw [h m List.mem_cons_self]
      decide
    rw [List.foldl_cons, if_neg hm, ih fun m' hm' => h m' (List.mem_cons_of_mem _ hm'),
      List.append_assoc]
    rfl

theorem since_cut {cut : Mark → Bool} {m : Mark} (log : List Mark) (h : cut m = true) :
    since cut (log ++ [m]) = [] := by
  unfold since
  rw [List.foldl_append]
  exact if_pos h

end Mark

/-- A store under a session, in a process that may be down. -/
structure Numbering where
  session : Session
  up : Bool := true
  /-- The slot of the next generation holds a reset that was not reported as done. -/
  landed : Bool := false
  log : List Mark := []

namespace Numbering

def start (cfg : SessionConfig) : Numbering := { session := .new cfg {} }

/-- The operation, and what is observed of it. -/
def perform (disk : Disk) (s : Session) : StoreOp → Session × List Mark
  | .claimOutbound =>
    let (claimed, store) := s.store.claimOutbound disk
    ({ s with store }, claimed.toList.map .number)
  | .acceptInbound seq => ({ s with store := (s.store.acceptInbound disk seq).2 }, [])
  | .reset =>
    let (failed, store) := s.store.reset disk
    ({ s with store }, if failed.isNone then [.reset] else [])
  | .emit msgType body now administrative =>
    let s' := (s.emit disk msgType body now administrative).2
    (s', (s.store.claimOutbound disk).1.toList.map .number ++
      (s'.out.drop s.out.length).map .sent)

/-- Whether the next slot holds an unreported reset after a write. -/
def landsReset (landed : Bool) (o : StoreOp) : Outcome → Bool
  | .synced | .failed _ .torn => false
  | .failed _ .kept => landed
  | .failed _ .landed => o = .reset

def step (p : Numbering) : StoreEvent → Numbering
  | .op o outcome =>
    if p.up then
      let (session, marks) := perform (fun _ => outcome) p.session o
      { p with session, landed := landsReset p.landed o outcome, log := p.log ++ marks }
    else p
  | .killed o left =>
    if p.up then
      let outcome := .failed .cannotWrite left
      let session := (perform (fun _ => outcome) p.session o).1
      { p with
        session := { p.session with store := session.store }
        up := false
        landed := landsReset p.landed o outcome }
    else p
  | .reopen =>
    match SeqStore.openFile p.session.store.file p.session.store.writes with
    | .ok store =>
      { session := .new p.session.cfg store
        log := p.log ++ if p.landed then [.found] else [] }
    | .error _ => { p with up := false }

def run (p : Numbering) (events : List StoreEvent) : Numbering := events.foldl step p

/-- The numbers returned since the last cut. -/
def numbers (cut : Mark → Bool) (p : Numbering) : List UInt64 :=
  (Mark.since cut p.log).filterMap Mark.number?

/-- The messages that reached the sink since the last cut. -/
def messages (cut : Mark → Bool) (p : Numbering) : List FixMessage :=
  (Mark.since cut p.log).filterMap Mark.sent?

/-! ## One operation -/

/-- What the operation is to store. -/
def nextOf (seq : SeqPair) : StoreOp → SeqPair
  | .claimOutbound | .emit .. => { seq with outbound := seq.outbound + 1 }
  | .acceptInbound n => { seq with inbound := n + 1 }
  | .reset => ⟨1, 1⟩

variable {disk : Disk} {s : Session}

theorem claimOutbound_store (store : SeqStore) :
    (store.claimOutbound disk).2 =
      (store.store disk { store.seq with outbound := store.seq.outbound + 1 }).2 := by
  unfold SeqStore.claimOutbound
  split <;> rename_i heq <;> rw [heq]

theorem emit_store (msgType : Text) (body : List (Nat × Text)) (now : Now) (administrative : Bool) :
    (s.emit disk msgType body now administrative).2.store = (s.store.claimOutbound disk).2 := by
  unfold Session.emit
  split
  · rename_i heq
    rw [heq]
  · rename_i heq
    rw [heq]
    dsimp only
    split
    · unfold Session.remember
      split <;> rfl
    · rfl

theorem perform_store (o : StoreOp) :
    (perform disk s o).1.store = (s.store.store disk (nextOf s.store.seq o)).2 := by
  cases o with
  | claimOutbound => exact claimOutbound_store s.store
  | acceptInbound seq => rfl
  | reset => rfl
  | emit msgType body now administrative =>
    exact (emit_store msgType body now administrative).trans (claimOutbound_store s.store)

/-- What an operation other than a reset lets be seen: at most the next number, and messages that
carry it. -/
def Shows (seq next : SeqPair) (marks : List Mark) : Prop :=
  ∃ (ns : List UInt64) (ms : List FixMessage), marks = ns.map Mark.number ++ ms.map Mark.sent ∧
    (ns = [] ∧ next.outbound = seq.outbound ∨ ns = [seq.outbound] ∧
      next.outbound = seq.outbound + 1) ∧
    ∀ m ∈ ms, m.number ∈ ns

theorem stamp_number (msgType : Text) (seq : UInt64) (utc : Text) (body : List (Nat × Text)) :
    (s.stamp msgType seq utc body).number = seq := by
  unfold FixMessage.number
  rw [Session.stamp_seqNum]
  exact UInt64.toUInt64_toInt64 seq

/-- A claimed number is what `emit` puts on the message, if the message is sent. -/
theorem emit_out {seq : UInt64} {store : SeqStore} (h : s.store.claimOutbound disk = (some seq, store))
    (msgType : Text) (body : List (Nat × Text)) (now : Now) (administrative : Bool) :
    ∃ ms, (s.emit disk msgType body now administrative).2.out = s.out ++ ms ∧
      ∀ m ∈ ms, m.number = seq := by
  unfold Session.emit
  rw [h]
  dsimp only
  split
  · refine ⟨[s.stamp msgType seq now.utc body], ?_, ?_⟩
    · unfold Session.remember
      split <;> rfl
    · intro m hm
      obtain rfl := List.mem_singleton.mp hm
      exact stamp_number ..
  · exact ⟨[], (List.append_nil _).symm, fun _ hm => (nomatch hm)⟩

theorem perform_failed {o : StoreOp} {e : StoreError} {left : Left}
    (hdisk : disk s.store.writes = .failed e left) : (perform disk s o).2 = [] := by
  have hstore : ∀ next, (s.store.store disk next).1 = some e := by
    intro next
    unfold SeqStore.store
    dsimp only
    rw [hdisk]
    cases left <;> rfl
  have hclaim : (s.store.claimOutbound disk).1 = none := by
    have h := hstore { s.store.seq with outbound := s.store.seq.outbound + 1 }
    unfold SeqStore.claimOutbound
    split
    · rfl
    · rename_i heq
      rw [heq] at h
      cases h
  cases o with
  | claimOutbound =>
    unfold perform
    dsimp only
    rw [hclaim]
    rfl
  | acceptInbound seq => rfl
  | reset =>
    unfold perform SeqStore.reset
    dsimp only
    rw [hstore]
    rfl
  | emit msgType body now administrative =>
    have hout : (s.emit disk msgType body now administrative).2.out = s.out := by
      unfold Session.emit
      split
      · rfl
      · rename_i heq
        rw [heq] at hclaim
        cases hclaim
    unfold perform
    dsimp only
    rw [hclaim, hout, List.drop_length]
    rfl

theorem claimOutbound_synced (hdisk : disk s.store.writes = .synced) :
    s.store.claimOutbound disk = (some s.store.seq.outbound,
      (s.store.store disk { s.store.seq with outbound := s.store.seq.outbound + 1 }).2) := by
  unfold SeqStore.claimOutbound SeqStore.store
  dsimp only
  rw [hdisk]

theorem perform_shows {o : StoreOp} (hdisk : disk s.store.writes = .synced) (ho : o ≠ .reset) :
    Shows s.store.seq (nextOf s.store.seq o) (perform disk s o).2 := by
  have hclaim := claimOutbound_synced hdisk
  cases o with
  | claimOutbound =>
    refine ⟨[s.store.seq.outbound], [], ?_, .inr ⟨rfl, rfl⟩, fun _ hm => (nomatch hm)⟩
    unfold perform
    dsimp only
    rw [hclaim]
    rfl
  | acceptInbound seq => exact ⟨[], [], rfl, .inl ⟨rfl, rfl⟩, fun _ hm => (nomatch hm)⟩
  | reset => exact absurd rfl ho
  | emit msgType body now administrative =>
    obtain ⟨ms, hout, hms⟩ := emit_out hclaim msgType body now administrative
    refine ⟨[s.store.seq.outbound], ms, ?_, .inr ⟨rfl, rfl⟩, ?_⟩
    · unfold perform
      dsimp only
      rw [hclaim, hout, List.drop_left]
      rfl
    · intro m hm
      exact List.mem_singleton.mpr (hms m hm)

theorem perform_reset (hdisk : disk s.store.writes = .synced) :
    (perform disk s .reset).2 = [.reset] := by
  unfold perform SeqStore.reset SeqStore.store
  dsimp only
  rw [hdisk]
  rfl

/-! ## What every history keeps -/

/-- What is known of a record of the next generation: unless it is a reset, no lower a number. -/
def Known (landed : Bool) (outbound : UInt64) (k : Nat) (r : SeqPair) : Prop :=
  (landed = true ∨ outbound ≤ r.outbound) ∧ r.outbound.toNat ≤ k

/-- After `k` attempts: what is on the disk is no lower a number than the one in memory, but for a
reset; and since the last reset that took hold, the numbers given out go up and are spent, and
the messages sent carry them. -/
structure Kept (k : Nat) (p : Numbering) : Prop where
  disk : p.session.store.OnDisk (Known p.landed p.session.store.seq.outbound k)
  small : p.session.store.seq.outbound.toNat ≤ k
  below : ∀ n ∈ p.numbers Mark.tookHold, n < p.session.store.seq.outbound
  ordered : (p.numbers Mark.tookHold).Pairwise (· < ·)
  sent : ∀ m ∈ p.messages Mark.tookHold, m.number ∈ p.numbers Mark.tookHold

theorem kept_start (cfg : SessionConfig) : (start cfg).Kept 1 :=
  ⟨SeqStore.onDisk_new _, Nat.le_refl _, fun _ hn => (nomatch hn), .nil, fun _ hm => (nomatch hm)⟩

variable {p : Numbering} {k : Nat}

/-- What was given out and sent stays so while nothing new is seen. -/
theorem Kept.of_log {p' : Numbering} (h : p.Kept k) (hlog : p'.log = p.log)
    (hseq : p'.session.store.seq = p.session.store.seq)
    (hdisk : p'.session.store.OnDisk (Known p'.landed p.session.store.seq.outbound (k + 1))) :
    p'.Kept (k + 1) := by
  have hnumbers : p'.numbers Mark.tookHold = p.numbers Mark.tookHold := by
    rw [numbers, numbers, hlog]
  have hmessages : p'.messages Mark.tookHold = p.messages Mark.tookHold := by
    rw [messages, messages, hlog]
  refine ⟨?_, ?_, ?_, ?_, ?_⟩
  · rw [hseq]
    exact hdisk
  · rw [hseq]
    exact Nat.le_succ_of_le h.small
  · rw [hnumbers, hseq]
    exact h.below
  · rw [hnumbers]
    exact h.ordered
  · rw [hnumbers, hmessages]
    exact h.sent

/-- What an operation stores is a higher outbound number or the same, a reset apart. -/
theorem nextOf_outbound (seq : SeqPair) (o : StoreOp) (hsmall : seq.outbound.toNat ≤ k)
    (hk : k + 1 < 2 ^ 64) :
    (o = .reset ∨ seq.outbound ≤ (nextOf seq o).outbound) ∧ (nextOf seq o).outbound.toNat ≤ k + 1 := by
  have hone : (1 : UInt64).toNat = 1 := rfl
  have hsucc : (seq.outbound + 1).toNat = seq.outbound.toNat + 1 := by
    rw [UInt64.toNat_add]
    omega
  cases o with
  | claimOutbound | emit =>
    refine ⟨.inr ?_, ?_⟩
    · rw [UInt64.le_iff_toNat_le]
      show _ ≤ (seq.outbound + 1).toNat
      omega
    · show (seq.outbound + 1).toNat ≤ k + 1
      omega
  | acceptInbound n => exact ⟨.inr (UInt64.le_refl _), Nat.le_succ_of_le hsmall⟩
  | reset =>
    refine ⟨.inl rfl, ?_⟩
    show (1 : UInt64).toNat ≤ k + 1
    omega

/-- An operation that fails: nothing is seen, and what it may have left is no lower a number
unless it was a reset. -/
theorem Kept.failed {o : StoreOp} {e : StoreError} {left : Left} {p' : Numbering} (h : p.Kept k)
    (hk : k + 1 < 2 ^ 64) (hlog : p'.log = p.log)
    (hlanded : p'.landed = landsReset p.landed o (.failed e left))
    (hstore : p'.session.store =
      (p.session.store.store (fun _ => .failed e left) (nextOf p.session.store.seq o)).2) :
    p'.Kept (k + 1) := by
  obtain ⟨hnext, hsmall⟩ := nextOf_outbound p.session.store.seq o h.small hk
  have hold : left = .kept → ∀ r, Known p.landed p.session.store.seq.outbound k r →
      Known p'.landed p.session.store.seq.outbound (k + 1) r := by
    rintro rfl r hr
    rw [hlanded]
    exact ⟨hr.1, Nat.le_succ_of_le hr.2⟩
  have hnew : left = .landed → Known p'.landed p.session.store.seq.outbound (k + 1)
      (nextOf p.session.store.seq o) := by
    rintro rfl
    rw [hlanded]
    exact ⟨hnext.imp_left fun ho => decide_eq_true ho, hsmall⟩
  obtain ⟨-, hdisk, hseq⟩ := h.disk.store_failed (fun _ => .failed e left)
    (nextOf p.session.store.seq o) rfl hold hnew
  rw [← hstore] at hdisk hseq
  exact h.of_log hlog hseq hdisk

/-- An operation that is synced: the next number may be given out and sent. -/
theorem Kept.synced {o : StoreOp} {p' : Numbering} (h : p.Kept k) (hk : k + 1 < 2 ^ 64)
    {marks : List Mark} (hlog : p'.log = p.log ++ marks)
    (hmarks : o = .reset ∧ marks = [.reset] ∨
      o ≠ .reset ∧ Shows p.session.store.seq (nextOf p.session.store.seq o) marks)
    (hstore : p'.session.store =
      (p.session.store.store (fun _ => .synced) (nextOf p.session.store.seq o)).2) :
    p'.Kept (k + 1) := by
  obtain ⟨hnext, hsmall⟩ := nextOf_outbound p.session.store.seq o h.small hk
  obtain ⟨-, hdisk, hseq, -⟩ := h.disk.store_synced (fun _ => .synced) (nextOf p.session.store.seq o) rfl
  rw [← hstore] at hdisk hseq
  rcases hmarks with ⟨rfl, rfl⟩ | ⟨ho, ns, ms, rfl, hns, hms⟩
  · have hsince : Mark.since Mark.tookHold p'.log = [] := by
      rw [hlog]
      exact Mark.since_cut p.log rfl
    have hnumbers : p'.numbers Mark.tookHold = [] := by rw [numbers, hsince, List.filterMap_nil]
    have hmessages : p'.messages Mark.tookHold = [] := by rw [messages, hsince, List.filterMap_nil]
    refine ⟨hdisk _, hseq ▸ hsmall, ?_, ?_, ?_⟩
    · rw [hnumbers]
      exact fun _ hn => (nomatch hn)
    · rw [hnumbers]
      exact .nil
    · rw [hmessages]
      exact fun _ hm => (nomatch hm)
  · have hsince : Mark.since Mark.tookHold p'.log =
        Mark.since Mark.tookHold p.log ++ (ns.map Mark.number ++ ms.map Mark.sent) := by
      rw [hlog]
      refine Mark.since_append p.log fun m hm => ?_
      rcases List.mem_append.mp hm with hm | hm
      · obtain ⟨n, -, rfl⟩ := List.mem_map.mp hm
        rfl
      · obtain ⟨m', -, rfl⟩ := List.mem_map.mp hm
        rfl
    have hnumbers : p'.numbers Mark.tookHold = p.numbers Mark.tookHold ++ ns := by
      rw [numbers, hsince]
      simp [numbers, List.filterMap_append, Mark.number?, Function.comp_def]
    have hmessages : p'.messages Mark.tookHold = p.messages Mark.tookHold ++ ms := by
      rw [messages, hsince]
      simp [messages, List.filterMap_append, Mark.sent?, Function.comp_def]
    have hle : p.session.store.seq.outbound ≤ (nextOf p.session.store.seq o).outbound :=
      hnext.resolve_left ho
    -- a number given out is the one in memory, which every earlier one is below
    have hnew : ∀ n ∈ ns, n = p.session.store.seq.outbound ∧
        n < (nextOf p.session.store.seq o).outbound := by
      intro n hn
      rcases hns with ⟨rfl, -⟩ | ⟨rfl, houtbound⟩
      · cases hn
      · obtain rfl := List.mem_singleton.mp hn
        have hone : (1 : UInt64).toNat = 1 := rfl
        have hlt := h.small
        refine ⟨rfl, ?_⟩
        rw [houtbound, UInt64.lt_iff_toNat_lt, UInt64.toNat_add]
        omega
    have hone : ns.Pairwise (· < ·) := by
      rcases hns with ⟨rfl, -⟩ | ⟨rfl, -⟩
      · exact .nil
      · exact List.pairwise_singleton _ _
    refine ⟨hdisk _, hseq ▸ hsmall, ?_, ?_, ?_⟩
    · rw [hnumbers, hseq]
      intro n hn
      rcases List.mem_append.mp hn with hn | hn
      · exact UInt64.lt_of_lt_of_le (h.below n hn) hle
      · exact (hnew n hn).2
    · rw [hnumbers, List.pairwise_append]
      refine ⟨h.ordered, hone, ?_⟩
      intro a ha b hb
      rw [(hnew b hb).1]
      exact h.below a ha
    · rw [hnumbers, hmessages]
      intro m hm
      rcases List.mem_append.mp hm with hm | hm
      · exact List.mem_append_left _ (h.sent m hm)
      · exact List.mem_append_right _ (hms m hm)

/-- A reopen: the number that was in memory, or a higher one, or a reset is found. -/
theorem Kept.reopen {store : SeqStore} (h : p.Kept k)
    (hopen : SeqStore.openFile p.session.store.file p.session.store.writes = .ok store) :
    (⟨.new p.session.cfg store, true, false, p.log ++ if p.landed then [.found] else []⟩ :
      Numbering).Kept (k + 1) ∧
      (p.landed = false → p.session.store.seq.outbound ≤ store.seq.outbound) := by
  obtain ⟨hfound, hdisk⟩ := h.disk.reopen hopen
  have hsmall : store.seq.outbound.toNat ≤ k + 1 := by
    rcases hfound with hseq | hknown
    · rw [hseq]
      exact Nat.le_succ_of_le h.small
    · exact Nat.le_succ_of_le hknown.2
  have hle : p.landed = false → p.session.store.seq.outbound ≤ store.seq.outbound := by
    intro hlanded
    rcases hfound with hseq | hknown
    · rw [hseq]
      exact UInt64.le_refl _
    · rcases hknown.1 with htrue | hle
      · rw [hlanded] at htrue
        cases htrue
      · exact hle
  refine ⟨?_, hle⟩
  cases hlanded : p.landed with
  | true =>
    have hsince : Mark.since Mark.tookHold (p.log ++ [.found]) = [] := Mark.since_cut p.log rfl
    refine ⟨hdisk _, hsmall, ?_, ?_, ?_⟩
    · intro n hn
      rw [numbers, if_pos rfl, hsince] at hn
      cases hn
    · rw [numbers, if_pos rfl, hsince]
      exact .nil
    · intro m hm
      rw [messages, if_pos rfl, hsince] at hm
      cases hm
  | false =>
    rw [if_neg (by decide), List.append_nil]
    refine ⟨hdisk _, hsmall, ?_, h.ordered, h.sent⟩
    intro n hn
    exact UInt64.lt_of_lt_of_le (h.below n hn) (hle hlanded)

/-- **One event.** -/
theorem Kept.step (h : p.Kept k) (hk : k + 1 < 2 ^ 64) (e : StoreEvent) :
    (p.step e).Kept (k + 1) := by
  have hidle : ∀ p' : Numbering, p'.log = p.log → p'.session = p.session → p'.landed = p.landed →
      p'.Kept (k + 1) := by
    intro p' hlog hsession hlanded
    refine h.of_log hlog (by rw [hsession]) ?_
    rw [hsession, hlanded]
    exact h.disk.mono fun r hr => ⟨hr.1, Nat.le_succ_of_le hr.2⟩
  cases e with
  | op o outcome =>
    unfold Numbering.step
    dsimp only
    split
    · cases outcome with
      | synced =>
        refine h.synced (o := o) hk rfl ?_ (perform_store o)
        by_cases ho : o = .reset
        · subst ho
          exact .inl ⟨rfl, perform_reset rfl⟩
        · exact .inr ⟨ho, perform_shows rfl ho⟩
      | failed e left =>
        refine h.failed (o := o) hk ?_ rfl (perform_store o)
        dsimp only
        rw [perform_failed rfl, List.append_nil]
    · exact hidle p rfl rfl rfl
  | killed o left =>
    unfold Numbering.step
    dsimp only
    split
    · exact h.failed (o := o) hk rfl rfl (perform_store o)
    · exact hidle p rfl rfl rfl
  | reopen =>
    unfold Numbering.step
    dsimp only
    split
    · rename_i store hopen
      exact (h.reopen hopen).1
    · exact hidle _ rfl rfl rfl

theorem kept_run (cfg : SessionConfig) {events : List StoreEvent} (hlen : events.length + 1 < 2 ^ 64) :
    ((start cfg).run events).Kept (events.length + 1) := by
  have hrun : ∀ (events : List StoreEvent) (p : Numbering) (k : Nat), p.Kept k →
      k + events.length < 2 ^ 64 → (p.run events).Kept (k + events.length) := by
    intro events
    induction events with
    | nil => exact fun _ _ h _ => h
    | cons e events ih =>
      intro p k h hlen
      rw [List.length_cons] at hlen ⊢
      have hnext := ih (p.step e) (k + 1) (h.step (by omega) e) (by omega)
      rw [show k + (events.length + 1) = k + 1 + events.length by omega]
      exact hnext
  rw [Nat.add_comm]
  exact hrun events (start cfg) 1 (kept_start cfg) (by omega)

/-- **No number is given out twice.** Between two resets that took hold, reported as done or found
by a reopen, the numbers returned go up, over every failed write, kill and reopen; and unless a
reset is what it finds, a store that is opened now starts above all that were given out and all
that a message was sent under. -/
theorem numbers_never_reused (cfg : SessionConfig) (events : List StoreEvent)
    (hlen : events.length + 1 < 2 ^ 64) :
    let p := (start cfg).run events
    (p.numbers Mark.tookHold).Pairwise (· < ·) ∧
      ∀ store, SeqStore.openFile p.session.store.file p.session.store.writes = .ok store →
        p.landed = false →
        (∀ n ∈ p.numbers Mark.tookHold, n < store.seq.outbound) ∧
          ∀ m ∈ p.messages Mark.tookHold, m.number < store.seq.outbound := by
  have h := kept_run cfg hlen
  refine ⟨h.ordered, fun store hopen hlanded => ?_⟩
  have hle := (h.reopen hopen).2 hlanded
  have hbelow : ∀ n ∈ ((start cfg).run events).numbers Mark.tookHold, n < store.seq.outbound :=
    fun n hn => UInt64.lt_of_lt_of_le (h.below n hn) hle
  exact ⟨hbelow, fun m hm => hbelow _ (h.sent m hm)⟩

/-- A message is sent under 1; the claim of 2 is refused and torn, then killed with its record in the
slot; the next process sends under 3, which was not given out before. -/
theorem numbers_not_reused_after_kill :
    let p := (start Session.acceptor).run
      [.op (.emit ['8'] [] ⟨0, []⟩ false) .synced, .op .claimOutbound (.failed .cannotSync .torn),
        .killed .claimOutbound .landed, .reopen, .op (.emit ['8'] [] ⟨0, []⟩ false) .synced]
    p.messages Mark.tookHold = [Session.stamp p.session ['8'] 1 [] [],
        Session.stamp p.session ['8'] 3 [] []] ∧
      (p.numbers Mark.tookHold).Pairwise (· < ·) :=
  ⟨by decide +kernel, (numbers_never_reused Session.acceptor _ (by decide)).1⟩

/-- Number 1 is given out, and a reset is killed with its record in the slot: no reset ever
succeeds, and 1 is given out again. -/
theorem number_reused_after_killed_reset :
    let p := (start Session.acceptor).run
      [.op .claimOutbound .synced, .killed .reset .landed, .reopen, .op .claimOutbound .synced]
    p.numbers Mark.isReset = [1, 1] ∧ ¬(p.numbers Mark.isReset).Pairwise (· < ·) := by
  decide +kernel

end Numbering

end MarketData.Gateway
