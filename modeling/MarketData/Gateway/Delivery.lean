import MarketData.Gateway.Handled

/-!
# `Gateway/Delivery.lean` — application messages over restarts

The session's process can be killed at any point, also between two writes of one call, and another
can be started over the same file. What the application is told is followed over all of them:
every number once, in order, and on the disk before the application hears of it.

## A kill in the middle of a call

A call is a function here, and has no middle. What can be seen of its middle from outside is two
things: how many of its writes were tried, and whether `on_app` had been called. `killed` carries
both. The writes are cut off by the disk (`Disk.cut` refuses every write from the `n`-th on and
leaves the slot torn), and `told` says whether the process got as far as the callback. **Both are
free**, so a kill that no order of the source's statements could produce is covered as well, which
costs nothing and spares an account of where in the call each write stands.

A number that is stored and not told is lost, not repeated: the next process expects its successor
(`killedOnce`). That is the order the source chooses, at most once rather than at least once, and
nothing here says that a number is delivered at all.

`Plain` keeps out resets, which start the numbers over, and inbound numbers that are not positive,
which are read as numbers beyond all others; what those do is `Gateway/Forward.lean`.
-/

set_option autoImplicit false

namespace MarketData.Gateway

/-- The disk of a process that is killed before its `n`-th write. -/
def Disk.cut (disk : Disk) (n : Nat) : Disk :=
  fun i => if i < n then disk i else .failed .cannotWrite .kept

inductive Event where
  | call (c : Call)
  /-- The process is killed in the middle of a call; `told` says whether after `on_app`. -/
  | killed (c : Call) (writes : Nat) (told : Bool)
  /-- A process is started over the file, whatever became of the last one. -/
  | restart (cfg : SessionConfig)

/-- The running process, the last one if none is running, and what earlier ones delivered. -/
structure Process where
  session : Session
  up : Bool := true
  past : List FixMessage := []

namespace Process

def start (cfg : SessionConfig) : Process := { session := .new cfg {} }

/-- Everything `on_app` was ever called with. -/
def heard (p : Process) : List FixMessage := p.past ++ p.session.apps

def expected (p : Process) : UInt64 := p.session.store.seq.inbound

def file (p : Process) : SeqFile := p.session.store.file

def step (disk : Disk) (p : Process) : Event → Process
  | .call c => if p.up then { p with session := p.session.call disk c } else p
  | .killed c writes told =>
    if p.up then
      let s := p.session.call (disk.cut writes) c
      { p with session := { s with apps := if told then s.apps else p.session.apps }, up := false }
    else p
  | .restart cfg =>
    match SeqStore.openFile p.file p.session.store.writes with
    | .ok store => { session := .new cfg store, past := p.heard }
    | .error _ => { p with up := false }

end Process

/-- The number a message carries. -/
def FixMessage.number (m : FixMessage) : UInt64 := (m.seqNum.getD 0).toUInt64

/-- Inbound numbers are positive, and nobody asks for a reset. -/
def Call.Plain : Call → Prop
  | .message m _ => (∀ n ∈ m.seqNum, 0 < n) ∧ m.flag Tag.resetSeqNumFlag = false
  | .connect _ resetSequences => resetSequences = false
  | _ => True

def Event.Plain : Event → Prop
  | .call c => c.Plain
  | .killed c _ _ => c.Plain
  | .restart _ => True

instance (c : Call) : Decidable c.Plain :=
  match c with
  | .message .. => @instDecidableAnd _ _ (Option.decidableForallMem _) _
  | .connect .. => inferInstanceAs (Decidable (_ = _))
  | .send .. | .logout .. | .timer .. | .newConnection => inferInstanceAs (Decidable True)

instance (e : Event) : Decidable e.Plain :=
  match e with
  | .call c => inferInstanceAs (Decidable c.Plain)
  | .killed c _ _ => inferInstanceAs (Decidable c.Plain)
  | .restart _ => inferInstanceAs (Decidable True)

/-! ## One call -/

/-- A positive 64-bit number has a successor. -/
theorem lt_succ_of_pos {n : Int64} (h : 0 < n) : n.toUInt64 < n.toUInt64 + 1 := by
  have hpos : (0 : Int64).toInt < n.toInt := Int64.lt_iff_toInt_lt.mp h
  have hsmall : n.toUInt64.toNat < 2 ^ 63 := by
    have hzero : (0 : Int64).toInt = 0 := rfl
    have hint : n.toInt = n.toUInt64.toBitVec.toInt := rfl
    have hnat : n.toUInt64.toNat = n.toUInt64.toBitVec.toNat := rfl
    have hlt := n.toUInt64.toBitVec.isLt
    rw [hint, BitVec.toInt_eq_toNat_cond] at hpos
    split at hpos <;> omega
  have hone : (1 : UInt64).toNat = 1 := rfl
  rw [UInt64.lt_iff_toNat_lt, UInt64.toNat_add]
  omega

namespace Session

/-- `m` went to the application: it carries the expected number, and the disk has the next one. -/
structure Delivers (s s' : Session) (m : FixMessage) : Prop where
  apps : s'.apps = s.apps ++ [m]
  seqNum : ∃ n, m.seqNum = some n ∧ n.toUInt64 = s.store.seq.inbound
  next : s'.store.seq.inbound = s.store.seq.inbound + 1
  advanced : s.store.seq.inbound < s'.store.seq.inbound
  durable : ∀ writes, SeqStore.openFile s'.store.file writes = .ok { s'.store with writes }

/-- What a call leaves of the store, and what it tells the application. -/
structure Advances (s s' : Session) : Prop where
  backed : s'.store.Backed
  inbound : s.store.seq.inbound ≤ s'.store.seq.inbound
  apps : s'.apps = s.apps ∨ ∃ m, Delivers s s' m

variable {disk : Disk} {s s' t : Session} {m : FixMessage}

theorem Sends.advances (h : Sends s s') (hb : s.store.Backed) : Advances s s' where
  backed := h.backed hb
  inbound := by
    rw [h.inbound]
    exact UInt64.le_refl _
  apps := .inl h.apps

/-- A message that is not accepted changes nothing the application could notice. -/
theorem Checked.advances_of_false (hpos : ∀ n ∈ m.seqNum, 0 < n) (hb : s.store.Backed)
    (h : Checked disk s m (false, s')) : Advances s s' := by
  cases h with
  | notStored hseq hnext hstore hs hstate =>
    rename_i n store e
    have hle : s.store.seq.inbound ≤ n.toUInt64 + 1 := by
      rw [← hnext]
      exact UInt64.le_of_lt (lt_succ_of_pos (hpos n hseq))
    obtain ⟨hb', hseq'⟩ := hb.store_failed hle hstore
    refine ⟨hs.backed hb', ?_, .inl hs.apps⟩
    rw [hs.inbound]
    show s.store.seq.inbound ≤ store.seq.inbound
    rw [hseq']
    exact UInt64.le_refl _
  | refused hnext hs => exact hs.advances hb
  | gap hseq hbeyond hs =>
    have h := hs.advances hb
    exact ⟨h.backed, h.inbound, .inl hs.apps⟩

/-- An accepted message moves the number by one, and the disk has it. -/
theorem Checked.of_true (hpos : ∀ n ∈ m.seqNum, 0 < n) (hb : s.store.Backed)
    (h : Checked disk s m (true, t)) :
    (∃ n, m.seqNum = some n ∧ n.toUInt64 = s.store.seq.inbound) ∧ t.store.Backed ∧
      t.store.seq.inbound = s.store.seq.inbound + 1 ∧
      s.store.seq.inbound < t.store.seq.inbound ∧ t.apps = s.apps ∧
      ∀ writes, SeqStore.openFile t.store.file writes = .ok { t.store with writes } := by
  cases h with
  | accepted hseq hnext hstore =>
    rename_i n store
    obtain ⟨hb', hseq', hopen⟩ := hb.store_synced hstore
    have hin : store.seq.inbound = s.store.seq.inbound + 1 := by
      rw [hseq', ← hnext]
    refine ⟨⟨n, hseq, hnext⟩, hb', hin, ?_, rfl, hopen⟩
    show s.store.seq.inbound < store.seq.inbound
    rw [hin, ← hnext]
    exact lt_succ_of_pos (hpos n hseq)

theorem ResetTo.advances (hb : s.store.Backed) (h : ResetTo disk s m s') : Advances s s' := by
  cases h with
  | refused hback hs => exact hs.advances hb
  | notStored hnew hle hstore hs hstate =>
    rename_i n store e
    obtain ⟨hb', hseq'⟩ := hb.store_failed hle hstore
    refine ⟨hs.backed hb', ?_, .inl hs.apps⟩
    rw [hs.inbound]
    show s.store.seq.inbound ≤ store.seq.inbound
    rw [hseq']
    exact UInt64.le_refl _
  | moved hnew hle hstore =>
    rename_i n store
    obtain ⟨hb', hseq', -⟩ := hb.store_synced hstore
    have hmoved : s.store.seq.inbound ≤ store.seq.inbound := by
      rw [hseq']
      exact hle
    split
    · exact ⟨hb', hmoved, .inl rfl⟩
    · exact ⟨hb', hmoved, .inl rfl⟩

theorem LoggedOn.advances (hpos : ∀ n ∈ m.seqNum, 0 < n)
    (hflag : m.flag Tag.resetSeqNumFlag = false) (hb : s.store.Backed)
    (h : LoggedOn disk s m s') : Advances s s' := by
  cases h with
  | notReset hflag' => simp [hflag] at hflag'
  | checked hstore ht hs =>
    rename_i store t u ok
    rcases hstore with rfl | ⟨hflag', -⟩
    · have hbt := ht.backed hb
      have hin : t.store.seq.inbound = s.store.seq.inbound := ht.inbound
      have happs : t.apps = s.apps := ht.apps
      cases ok with
      | false =>
        have ha := Checked.advances_of_false hpos hbt hs
        cases hs with
        | notStored _ _ _ hu => exact ⟨ha.backed, hin ▸ ha.inbound, .inl (hu.apps.trans happs)⟩
        | refused _ hu => exact ⟨ha.backed, hin ▸ ha.inbound, .inl (hu.apps.trans happs)⟩
        | gap _ _ hu => exact ⟨ha.backed, hin ▸ ha.inbound, .inl (hu.apps.trans happs)⟩
      | true =>
        obtain ⟨-, hb', -, hlt, happs', -⟩ := Checked.of_true hpos hbt hs
        exact ⟨hb', hin ▸ UInt64.le_of_lt hlt, .inl (happs'.trans happs)⟩
    · simp [hflag] at hflag'

theorem Handled.advances (hpos : ∀ n ∈ m.seqNum, 0 < n)
    (hflag : m.flag Tag.resetSeqNumFlag = false) (hb : s.store.Backed)
    (h : Handled disk s m s') : Advances s s' := by
  cases h with
  | logon htype hs => exact hs.advances hpos hflag hb
  | ignored hstate hs => exact hs.advances hb
  | sequenceReset htype hstate hs => exact hs.advances hb
  | turnedAway htype htype' hstate hs => exact Checked.advances_of_false hpos hb hs
  | taken htype htype' hstate ht hs =>
    rename_i t
    obtain ⟨hseq, hb', hnext, hlt, happs, hopen⟩ := Checked.of_true hpos hb ht
    cases hs with
    | answered htype hs | ended htype hs =>
      refine ⟨hs.backed hb', ?_, .inl (hs.apps.trans happs)⟩
      rw [hs.inbound]
      exact UInt64.le_of_lt hlt
    | delivered =>
      refine ⟨hb', UInt64.le_of_lt hlt, .inr ⟨m, ?_, hseq, hnext, hlt, hopen⟩⟩
      exact congrArg (· ++ [m]) happs

/-- **What one call does.** -/
theorem call_advances (disk : Disk) {c : Call} (hplain : c.Plain) (hb : s.store.Backed) :
    Advances s (s.call disk c) := by
  unfold call
  split
  · exact (Sends.refl s).advances hb
  cases c with
  | message m now =>
    have hb' : { s with lastReceived := now.steady }.store.Backed := hb
    have h := (onMessage_handled disk s m now).advances hplain.1 hplain.2 hb'
    refine ⟨h.backed, h.inbound, ?_⟩
    rcases h.apps with happs | ⟨m', hm'⟩
    · exact .inl happs
    · exact .inr ⟨m', hm'.apps, hm'.seqNum, hm'.next, hm'.advanced, hm'.durable⟩
  | send msgType body now => exact (sendApplication_sends disk s now msgType body).advances hb
  | logout reason now => exact (logout_sends disk s now reason).advances hb
  | timer now => exact (onTimer_sends disk s now).advances hb
  | connect now reset =>
    obtain rfl : reset = false := hplain
    have h := connect_connected disk s now false
    dsimp only
    generalize s.connect disk now false = s' at h ⊢
    cases h with
    | notInitiator => exact (Sends.refl _).advances hb
    | notReset hreset => cases hreset
    | sent hstore hs =>
      rcases hstore with ⟨-, rfl⟩ | ⟨hreset, -⟩
      · exact hs.advances hb
      · cases hreset
  | newConnection => exact ⟨hb, UInt64.le_refl _, .inl rfl⟩

end Session

/-! ## Over restarts -/

namespace Process

/-- What every process has to show: its numbers are on the disk, and what was delivered lies
below the number it expects, in order. -/
structure InOrder (p : Process) : Prop where
  backed : p.session.store.Backed
  below : ∀ m ∈ p.heard, m.number < p.expected
  ordered : (p.heard.map FixMessage.number).Pairwise (· < ·)

/-- What a step tells the application: nothing, or one message, which carries the expected number
and whose successor the disk has. -/
def OnTime (disk : Disk) (p : Process) (e : Event) : Prop :=
  (p.step disk e).heard = p.heard ∨
    ∃ m, (p.step disk e).heard = p.heard ++ [m] ∧
      (∃ n, m.seqNum = some n ∧ n.toUInt64 = p.expected) ∧
      ∀ writes, ∃ store, SeqStore.openFile (p.step disk e).file writes = .ok store ∧
        store.seq.inbound = p.expected + 1

theorem inOrder_start (cfg : SessionConfig) : (start cfg).InOrder :=
  ⟨SeqStore.backed_new, fun _ hm => (nomatch hm), List.Pairwise.nil⟩

/-- The step from `p` to a process whose session is `s'`, having told the application what `s'`
says. -/
theorem InOrder.advance {p p' : Process} (h : p.InOrder) {s' : Session}
    (hs : Session.Advances p.session s') (hpast : p'.past = p.past)
    (hstore : p'.session.store = s'.store)
    (happs : p'.session.apps = s'.apps ∨ p'.session.apps = p.session.apps) :
    p'.InOrder ∧ (p'.heard = p.heard ∨ ∃ m, p'.heard = p.heard ++ [m] ∧
      (∃ n, m.seqNum = some n ∧ n.toUInt64 = p.expected) ∧
      ∀ writes, ∃ store, SeqStore.openFile p'.file writes = .ok store ∧
        store.seq.inbound = p.expected + 1) := by
  have hexpected : p.expected ≤ p'.expected := by
    show p.session.store.seq.inbound ≤ p'.session.store.seq.inbound
    rw [hstore]
    exact hs.inbound
  have hbacked : p'.session.store.Backed := hstore ▸ hs.backed
  have hsame : p'.session.apps = p.session.apps → p'.InOrder ∧ p'.heard = p.heard := by
    intro heq
    have hheard : p'.heard = p.heard := by rw [heard, heard, hpast, heq]
    refine ⟨⟨hbacked, ?_, ?_⟩, hheard⟩
    · intro m hm
      rw [hheard] at hm
      exact UInt64.lt_of_lt_of_le (h.below m hm) hexpected
    · rw [hheard]
      exact h.ordered
  rcases happs with heq | heq
  · rcases hs.apps with hs' | ⟨m, hm⟩
    · obtain ⟨hp', hheard⟩ := hsame (heq.trans hs')
      exact ⟨hp', .inl hheard⟩
    · have hheard : p'.heard = p.heard ++ [m] := by
        rw [heard, heard, hpast, heq, hm.apps, List.append_assoc]
      obtain ⟨n, hseq, hnext⟩ := hm.seqNum
      have hnumber : m.number = p.expected := by
        rw [FixMessage.number, hseq]
        exact hnext
      have hlt : p.expected < p'.expected := by
        show p.session.store.seq.inbound < p'.session.store.seq.inbound
        rw [hstore]
        exact hm.advanced
      refine ⟨⟨hbacked, ?_, ?_⟩, .inr ⟨m, hheard, ⟨n, hseq, hnext⟩, ?_⟩⟩
      · intro m' hm'
        rw [hheard, List.mem_append, List.mem_singleton] at hm'
        rcases hm' with hm' | rfl
        · exact UInt64.lt_of_lt_of_le (h.below m' hm') hexpected
        · rw [hnumber]
          exact hlt
      · rw [hheard, List.map_append, List.pairwise_append]
        refine ⟨h.ordered, List.pairwise_singleton _ _, ?_⟩
        intro a ha b hb
        obtain ⟨m', hm', rfl⟩ := List.mem_map.mp ha
        obtain rfl := List.mem_singleton.mp hb
        rw [hnumber]
        exact h.below m' hm'
      · intro writes
        refine ⟨{ s'.store with writes }, ?_, hm.next⟩
        show SeqStore.openFile p'.session.store.file writes = _
        rw [hstore]
        exact hm.durable writes
  · obtain ⟨hp', hheard⟩ := hsame heq
    exact ⟨hp', .inl hheard⟩

/-- **One step.** -/
theorem InOrder.step {p : Process} (h : p.InOrder) (disk : Disk) {e : Event} (he : e.Plain) :
    (p.step disk e).InOrder ∧ OnTime disk p e := by
  unfold OnTime
  cases e with
  | call c =>
    unfold Process.step
    dsimp only
    split
    · exact h.advance (Session.call_advances disk he h.backed) rfl rfl (.inl rfl)
    · exact ⟨h, .inl rfl⟩
  | killed c writes told =>
    unfold Process.step
    dsimp only
    split
    · refine h.advance (Session.call_advances (disk.cut writes) he h.backed) rfl rfl ?_
      cases told with
      | true => exact .inl rfl
      | false => exact .inr rfl
    · exact ⟨h, .inl rfl⟩
  | restart cfg =>
    unfold Process.step
    dsimp only
    split
    · rename_i store hopen
      obtain ⟨hb, hle⟩ := h.backed.reopen hopen
      have hheard : ({ session := .new cfg store, past := p.heard } : Process).heard = p.heard :=
        List.append_nil _
      refine ⟨⟨hb, ?_, ?_⟩, .inl hheard⟩
      · intro m hm
        rw [hheard] at hm
        exact UInt64.lt_of_lt_of_le (h.below m hm) hle
      · rw [hheard]
        exact h.ordered
    · exact ⟨⟨h.backed, h.below, h.ordered⟩, .inl rfl⟩

/-- **In order and at most once.** Whatever comes in, whatever the disk does and wherever the
process is killed and started again: the numbers delivered go up, each is the one that was
expected, and the disk has its successor when the application hears of it. -/
theorem delivered_in_order_at_most_once (cfg : SessionConfig) (disk : Disk) (events : List Event)
    (hplain : ∀ e ∈ events, e.Plain) :
    ((events.foldl (step disk) (start cfg)).heard.map FixMessage.number).Pairwise (· < ·) ∧
      Run.Along (step disk) (OnTime disk) (start cfg) events := by
  have hplain : Run.Along (step disk) (fun _ e => e.Plain) (start cfg) events :=
    Run.along_of_forall fun _ e he => hplain e he
  have hstep : ∀ p e, InOrder p → e.Plain → InOrder (p.step disk e) :=
    fun _ _ h he => (h.step disk he).1
  exact ⟨(hplain.invariant InOrder hstep (inOrder_start cfg)).ordered,
    hplain.of_invariant InOrder hstep (fun _ _ h he => (h.step disk he).2) (inOrder_start cfg)⟩

/-- A client logs on and sends two orders; the second finds the process killed after its number
was stored, and is not delivered by the next process either. -/
def killedOnce : List Event :=
  let inbound (msgType : Text) (number : Int) : Call :=
    .message ⟨[(Tag.msgType, msgType), (Tag.msgSeqNum, intText number)]⟩ ⟨0, []⟩
  [.call (inbound MsgType.logon 1), .call (inbound ['D'] 2), .killed (inbound ['D'] 3) 5 false,
    .restart ⟨[], [], 30, fun interval => interval / 5, 4, false⟩,
    .call (inbound MsgType.logon 4), .call (inbound ['D'] 3), .call (inbound ['D'] 5)]

theorem delivered_in_order_when_killed :
    (∀ e ∈ killedOnce, e.Plain) ∧
      (let cfg : SessionConfig := ⟨[], [], 30, fun interval => interval / 5, 4, false⟩
      (killedOnce.foldl (step fun _ => .synced) (start cfg)).heard.map FixMessage.number = [2, 5] ∧
        Run.Along (step fun _ => .synced) (OnTime fun _ => .synced) (start cfg) killedOnce) := by
  have hplain : ∀ e ∈ killedOnce, e.Plain := by decide +kernel
  exact ⟨hplain, by decide +kernel, (delivered_in_order_at_most_once _ _ killedOnce hplain).2⟩

end Process

end MarketData.Gateway
