import MarketData.Replay.Protocol

/-!
# `Replay/Service.lean` — a range request from the client to the answer it reads

`serve_request` (`crates/replay-service/src/main.rs`) and `request`
(`crates/replay-service/src/client.rs`), each as what it reads of the connection and what it
writes. The client refuses an answer of more than `MAX_RESPONSE_DATAGRAMS` datagrams; nothing in
the service looks at how many a range takes (`answered_iff`).

## Two programs and a stream in between

The service's answer is what it writes, a list of bytes, and the client reads just that list:
nothing is lost and the connection does not break, which is the case in which the two could not fail
to agree unless they disagree about the protocol. The store the service answers from is any store
that pushes have produced (`Replay/Store.lean`), so which datagrams a range takes is known, and what
is left is whether they are announced and read alike.

`Accepted` compares what the client makes of the answer with what the store was asked, status
included. The condition counts datagrams, on the store and the request, before anything is written;
and a datagram has to have a length that 32 bits hold, since it is announced in that many.

`HoldsEach` builds the store at which it fails, of one more datagram than a response may carry, by
induction over the pushes rather than by running them.
-/

set_option autoImplicit false

namespace MarketData.Replay

open MarketData.Wire MarketData.Window MarketData.Bytes

/-! ## Requests and headers -/

/-- `MAGIC`, "MDRP" -/
def magic : UInt32 := 0x4D445250

def kindRangeRequest : UInt8 := 2

def requestLen : Nat := 24

def responseHeaderLen : Nat := 28

/-- The most a single response may carry. -/
def maxResponseDatagrams : UInt32 := 65536

structure RangeRequest where
  fromSeq : UInt64
  through : UInt64
  deriving DecidableEq, Repr

structure ResponseHeader where
  status : Status
  datagrams : UInt32
  firstAvailable : UInt64
  lastAvailable : UInt64
  deriving DecidableEq, Repr

/-- `status as u8` -/
def Status.toU8 : Status → UInt8
  | .ok => 0
  | .tooOld => 1
  | .notYet => 2
  | .incomplete => 3
  | .badRequest => 4

def Status.fromU8 (v : UInt8) : Option Status :=
  if v = 0 then some .ok
  else if v = 1 then some .tooOld
  else if v = 2 then some .notYet
  else if v = 3 then some .incomplete
  else if v = 4 then some .badRequest
  else none

theorem Status.fromU8_toU8 (s : Status) : Status.fromU8 s.toU8 = some s := by
  cases s <;> rfl

def requestBytes (req : RangeRequest) : Buf :=
  putU64 (putU64 (putU8 (putU32 (List.replicate requestLen 0) 0 magic) 4 kindRangeRequest) 8
    req.fromSeq) 16 req.through

def readRequest (r : Buf) : Except IoError RangeRequest :=
  match readExact requestLen r with
  | .error e => .error e
  | .ok (buf, _) =>
    if leU32 buf 0 ≠ magic then .error (.invalidData "not a replay request: bad magic")
    else if leU8 buf 4 ≠ kindRangeRequest then
      .error (.invalidData s!"expected a range request, got kind {leU8 buf 4}")
    else .ok { fromSeq := leU64 buf 8, through := leU64 buf 16 }

def responseHeaderBytes (h : ResponseHeader) : Buf :=
  putU64 (putU64 (putU32 (putU8 (putU32 (List.replicate responseHeaderLen 0) 0 magic) 4
    h.status.toU8) 8 h.datagrams) 12 h.firstAvailable) 20 h.lastAvailable

/-- The header and what is behind it. -/
def readResponseHeader (r : Buf) : Except IoError (ResponseHeader × Buf) :=
  match readExact responseHeaderLen r with
  | .error e => .error e
  | .ok (buf, rest) =>
    if leU32 buf 0 ≠ magic then .error (.invalidData "not a replay response: bad magic")
    else
      match Status.fromU8 (leU8 buf 4) with
      | none => .error (.invalidData s!"unknown response status {leU8 buf 4}")
      | some status =>
        .ok ({ status, datagrams := leU32 buf 8, firstAvailable := leU64 buf 12,
               lastAvailable := leU64 buf 20 }, rest)

/-! ## The service and the client -/

/-- The header of the answer to a request. -/
def answerHeader (s : DatagramStore) (req : RangeRequest) : ResponseHeader :=
  let found := s.locate req.fromSeq req.through
  { status := found.status
    -- `as u32`
    datagrams := if found.status = .ok then UInt32.ofNat (found.stop - found.start) else 0
    firstAvailable := s.firstSequence
    lastAvailable := s.nextSequence }

/-- The datagrams that were copied out of the store. -/
def selected (s : DatagramStore) (req : RangeRequest) : List Buf :=
  let found := s.locate req.fromSeq req.through
  if found.status = .ok then s.payload found.start found.stop else []

/-- Answers one range request: what came of it and what was written. -/
def serveRequest (s : DatagramStore) (r : Buf) : Except IoError Unit × Buf :=
  match readRequest r with
  | .error e => (.error e, [])
  | .ok req => writeDatagrams (responseHeaderBytes (answerHeader s req)) (selected s req)

/-- What came back from a replay request. -/
structure ReplayResult where
  request : RangeRequest
  header : ResponseHeader
  datagrams : List Buf
  deriving DecidableEq, Repr

/-- The datagrams that were promised; `i` of them have been read. -/
def readPromised (promised : UInt32) (maxDatagramBytes : Nat) :
    (remaining i : Nat) → Buf → Except IoError (List Buf)
  | 0, _, _ => .ok []
  | remaining + 1, i, r =>
    match readDatagram r maxDatagramBytes with
    | .error e => .error e
    | .ok (none, _) => .error (.unexpectedEof
        s!"the service promised {promised} datagrams and closed after {i}")
    | .ok (some d, r) =>
      match readPromised promised maxDatagramBytes remaining (i + 1) r with
      | .error e => .error e
      | .ok ds => .ok (d :: ds)

/-- What the client makes of the answer to its request. -/
def readAnswer (req : RangeRequest) (maxDatagramBytes : Nat) (r : Buf) :
    Except IoError ReplayResult :=
  match readResponseHeader r with
  | .error e => .error e
  | .ok (header, r) =>
    if header.status = .ok then
      if maxResponseDatagrams < header.datagrams then .error (.invalidData
        s!"the service offered {header.datagrams} datagrams, over the {maxResponseDatagrams} cap")
      else
        match readPromised header.datagrams maxDatagramBytes header.datagrams.toNat 0 r with
        | .error e => .error e
        | .ok datagrams => .ok { request := req, header, datagrams }
    else .ok { request := req, header, datagrams := [] }

/-- The client asks for a range and reads what the service writes. -/
def request (s : DatagramStore) (req : RangeRequest) (maxDatagramBytes : Nat) :
    Except IoError ReplayResult :=
  readAnswer req maxDatagramBytes (serveRequest s (requestBytes req)).2

/-! ### What is written is read back -/

theorem readRequest_requestBytes (req : RangeRequest) : readRequest (requestBytes req) = .ok req := by
  have hlen : (requestBytes req).length = requestLen := by simp [requestBytes]
  have hexact := readExact_append (requestBytes req) []
  rw [List.append_nil, hlen] at hexact
  have hmagic : leU32 (requestBytes req) 0 = magic := by
    simp (disch := first | decide | simp [requestLen]) only [requestBytes, leU32, putU64, putU32,
      putU8, leNat_putNat_of_disjoint, leNat_putNat_self, ofNat_toNat_mod_u32]
  have hkind : leU8 (requestBytes req) 4 = kindRangeRequest := by
    simp (disch := first | decide | simp [requestLen]) only [requestBytes, leU8, putU64, putU32,
      putU8, leNat_putNat_of_disjoint, leNat_putNat_self, ofNat_toNat_mod_u8]
  have hfrom : leU64 (requestBytes req) 8 = req.fromSeq := by
    simp (disch := first | decide | simp [requestLen]) only [requestBytes, leU64, putU64, putU32,
      putU8, leNat_putNat_of_disjoint, leNat_putNat_self, ofNat_toNat_mod_u64]
  have hthrough : leU64 (requestBytes req) 16 = req.through := by
    simp (disch := first | decide | simp [requestLen]) only [requestBytes, leU64, putU64, putU32,
      putU8, leNat_putNat_self, ofNat_toNat_mod_u64]
  unfold readRequest
  rw [hexact]
  dsimp only
  rw [hmagic, hkind, hfrom, hthrough, if_neg (not_not.mpr rfl), if_neg (not_not.mpr rfl)]

theorem readResponseHeader_bytes (h : ResponseHeader) (rest : Buf) :
    readResponseHeader (responseHeaderBytes h ++ rest) = .ok (h, rest) := by
  have hlen : (responseHeaderBytes h).length = responseHeaderLen := by simp [responseHeaderBytes]
  have hexact := readExact_append (responseHeaderBytes h) rest
  rw [hlen] at hexact
  have hmagic : leU32 (responseHeaderBytes h) 0 = magic := by
    simp (disch := first | decide | simp [responseHeaderLen]) only [responseHeaderBytes, leU32,
      putU64, putU32, putU8, leNat_putNat_of_disjoint, leNat_putNat_self,
      ofNat_toNat_mod_u32]
  have hstatus : leU8 (responseHeaderBytes h) 4 = h.status.toU8 := by
    simp (disch := first | decide | simp [responseHeaderLen]) only [responseHeaderBytes, leU8,
      putU64, putU32, putU8, leNat_putNat_of_disjoint, leNat_putNat_self,
      ofNat_toNat_mod_u8]
  have hdatagrams : leU32 (responseHeaderBytes h) 8 = h.datagrams := by
    simp (disch := first | decide | simp [responseHeaderLen]) only [responseHeaderBytes, leU32,
      putU64, putU32, putU8, leNat_putNat_of_disjoint, leNat_putNat_self,
      ofNat_toNat_mod_u32]
  have hfirst : leU64 (responseHeaderBytes h) 12 = h.firstAvailable := by
    simp (disch := first | decide | simp [responseHeaderLen]) only [responseHeaderBytes, leU64,
      putU64, putU32, putU8, leNat_putNat_of_disjoint, leNat_putNat_self,
      ofNat_toNat_mod_u64]
  have hlast : leU64 (responseHeaderBytes h) 20 = h.lastAvailable := by
    simp (disch := first | decide | simp [responseHeaderLen]) only [responseHeaderBytes, leU64,
      putU64, putU32, putU8, leNat_putNat_self, ofNat_toNat_mod_u64]
  unfold readResponseHeader
  rw [hexact]
  dsimp only
  rw [hmagic, hstatus, hdatagrams, hfirst, hlast, Status.fromU8_toU8, if_neg (not_not.mpr rfl)]

/-- What goes out behind the header: the datagrams in front of the first that is too long. -/
theorem writeDatagrams_sent (w : Buf) (ds : List Buf) :
    ∃ sent, sent <+: ds ∧ (∀ d ∈ sent, d.length < 2 ^ 32) ∧
      (writeDatagrams w ds).2 = w ++ (sent.map frame).flatten ∧
      ((∀ d ∈ ds, d.length < 2 ^ 32) ↔ sent = ds) := by
  induction ds generalizing w with
  | nil => exact ⟨[], List.prefix_refl _, by simp, by simp [writeDatagrams], by simp⟩
  | cons d ds ih =>
    unfold writeDatagrams writeDatagram
    by_cases hlen : d.length < 2 ^ 32
    · obtain ⟨sent, hprefix, hfit, hbytes, hall⟩ :=
        ih (w ++ lengthBytes (UInt32.ofNat d.length) ++ d)
      rw [if_pos hlen]
      refine ⟨d :: sent, List.cons_prefix_cons.mpr ⟨rfl, hprefix⟩,
        List.forall_mem_cons.mpr ⟨hlen, hfit⟩, ?_, ?_⟩
      · dsimp only
        rw [hbytes]
        simp [frame]
      · rw [List.forall_mem_cons, and_iff_right hlen, hall]
        simp
    · rw [if_neg hlen]
      refine ⟨[], List.nil_prefix, by simp, by simp, ?_⟩
      exact iff_of_false (fun h => hlen (h d (List.mem_cons_self ..))) fun h => by cases h

theorem readPromised_length {promised : UInt32} {maxDatagramBytes remaining i : Nat} {r : Buf}
    {ds : List Buf} (h : readPromised promised maxDatagramBytes remaining i r = .ok ds) :
    ds.length = remaining := by
  induction remaining generalizing i r ds with
  | zero =>
    cases h
    rfl
  | succ remaining ih =>
    unfold readPromised at h
    split at h
    · cases h
    · cases h
    · split at h
      · cases h
      · rename_i hds
        cases h
        rw [List.length_cons, ih hds]

/-- Whole datagrams are read one after the other. -/
theorem readPromised_frames {promised : UInt32} {maxDatagramBytes i : Nat} {ds : List Buf}
    (hlen : ∀ d ∈ ds, d.length < 2 ^ 32) (hfit : ∀ d ∈ ds, d.length ≤ maxDatagramBytes)
    (more : Nat) :
    readPromised promised maxDatagramBytes (ds.length + more) i (ds.map frame).flatten =
      (readPromised promised maxDatagramBytes more (i + ds.length) []).map (ds ++ ·) := by
  induction ds generalizing i with
  | nil =>
    rw [List.length_nil, Nat.zero_add, Nat.add_zero]
    show readPromised promised maxDatagramBytes more i [] = _
    cases readPromised promised maxDatagramBytes more i [] <;> rfl
  | cons d ds ih =>
    obtain ⟨hlen, hlens⟩ := List.forall_mem_cons.mp hlen
    obtain ⟨hfit, hfits⟩ := List.forall_mem_cons.mp hfit
    rw [List.length_cons, Nat.add_right_comm, List.map_cons, List.flatten_cons, readPromised,
      readDatagram_frame hlen hfit]
    dsimp only
    rw [ih hlens hfits, show i + 1 + ds.length = i + (ds.length + 1) by omega]
    cases readPromised promised maxDatagramBytes more (i + (ds.length + 1)) [] <;> rfl

/-- There is nothing behind the last of them. -/
theorem readPromised_nil (promised : UInt32) (maxDatagramBytes remaining i : Nat) :
    ∃ e, readPromised promised maxDatagramBytes (remaining + 1) i [] = .error e :=
  ⟨_, rfl⟩

/-! ## What the store hands out -/

namespace DatagramStore

/-- Every slot has the room it was made with. -/
structure Sized (maxBytes : Nat) (s : DatagramStore) : Prop where
  room : 0 < s.slots.length
  size : ∀ slot ∈ s.slots, slot.buf.length = maxBytes

variable {maxBytes : Nat} {s : DatagramStore}

theorem sized_new (capacity maxBytes : Nat) : Sized maxBytes (new capacity maxBytes) where
  room := by simp [new]
  size := by
    intro slot hslot
    rw [List.eq_of_mem_replicate hslot, List.length_replicate]

theorem Sized.file (hs : Sized maxBytes s) (header : PacketHeader) (d : Buf) :
    Sized maxBytes (s.file header d).2 := by
  unfold DatagramStore.file
  dsimp only
  split
  · exact hs
  · rename_i hfit
    refine ⟨by simpa using hs.room, fun slot hslot => ?_⟩
    rcases List.mem_or_eq_of_mem_set hslot with hold | rfl
    · exact hs.size slot hold
    · have hsize := hs.size _ (entry_mem hs.room (s.head + s.len))
      simp only [List.length_append, List.length_drop]
      omega

theorem Sized.after (hs : Sized maxBytes s) (d : Buf) : Sized maxBytes (s.after d) := by
  have hstart : ∀ first, Sized maxBytes (s.startAt first).makeRoom := by
    intro first
    have hslots : (s.startAt first).makeRoom.slots = s.slots := by
      unfold makeRoom startAt
      split <;> split <;> (try split) <;> rfl
    exact ⟨hslots ▸ hs.room, hslots ▸ hs.size⟩
  unfold DatagramStore.after push
  split
  · exact hs
  · split
    · exact hs
    split
    · exact hs
    split
    · exact ⟨hs.room, hs.size⟩
    · exact (hstart _).file _ d

theorem Sized.run (hs : Sized maxBytes s) (ds : List Buf) :
    Sized maxBytes (ds.foldl DatagramStore.after s) := by
  induction ds generalizing s with
  | nil => exact hs
  | cons d ds ih => exact ih (hs.after d)

/-- What is handed out is no longer than a slot. -/
theorem Sized.length_le (hs : Sized maxBytes s) {start stop : Nat} (hstop : stop ≤ s.len) {d : Buf}
    (hd : d ∈ s.payload start stop) : d.length ≤ maxBytes := by
  rw [payload_eq hstop] at hd
  obtain ⟨slot, hslot, rfl⟩ := List.mem_map.mp hd
  obtain ⟨i, -, rfl⟩ := List.mem_map.mp hslot
  have hsize := hs.size _ (entry_mem hs.room (s.head + start + i))
  rw [Slot.datagram, List.length_take]
  omega

theorem scan_le {fromSeq through : UInt64} {remaining i stop : Nat} {start : Option Nat}
    (hstop : stop ≤ i) : (s.scan fromSeq through remaining i start stop).2 ≤ i + remaining := by
  induction remaining generalizing i start stop with
  | zero => exact hstop
  | succ remaining ih =>
    unfold scan
    dsimp only
    split
    · exact Nat.le_trans (ih (by omega)) (by omega)
    · split
      · show i + 1 ≤ _
        omega
      · exact Nat.le_trans (ih (Nat.le_refl _)) (by omega)

/-- The indices that were found are in use. -/
theorem locate_le {fromSeq through : UInt64} (h : (s.locate fromSeq through).status = .ok) :
    (s.locate fromSeq through).stop ≤ s.len := by
  obtain ⟨hlen, hle, hlo, hhi⟩ := status_ok h
  have hscan : (s.scan fromSeq through s.len 0 none 0).2 ≤ 0 + s.len := scan_le (Nat.le_refl 0)
  unfold locate
  dsimp only
  rw [if_neg (UInt64.not_lt.mpr hle), if_neg hlen, if_neg (UInt64.not_lt.mpr hlo),
    if_neg (UInt64.not_le.mpr hhi)]
  split
  · rename_i hsome
    rw [hsome] at hscan
    simpa using hscan
  · exact Nat.zero_le _

theorem length_payload {start stop : Nat} (hstop : stop ≤ s.len) :
    (s.payload start stop).length = stop - start := by
  rw [payload_eq hstop, List.length_map, length_window]

end DatagramStore

/-! ## What the client makes of it -/

/-- The client reads the answer the service gave: the same status and just the datagrams that were
found. -/
def Accepted (s : DatagramStore) (req : RangeRequest) (maxDatagramBytes : Nat) : Prop :=
  request s req maxDatagramBytes =
    .ok { request := req, header := answerHeader s req, datagrams := selected s req }

/-- **When an answer is accepted**: whatever was pushed into the store, where the range takes no
more datagrams than a response may carry (and each has a length that 32 bits hold). -/
theorem answered_iff (capacity maxBytes : Nat) (ds : List Buf) (req : RangeRequest)
    {maxDatagramBytes : Nat} (hbuf : maxBytes ≤ maxDatagramBytes) :
    let s := ds.foldl DatagramStore.after (.new capacity maxBytes)
    Accepted s req maxDatagramBytes ↔ (selected s req).length ≤ maxResponseDatagrams.toNat ∧
      ∀ d ∈ selected s req, d.length < 2 ^ 32 := by
  intro s
  have hsized : s.Sized maxBytes := (DatagramStore.sized_new capacity maxBytes).run ds
  obtain ⟨sent, hprefix, hlens, hbytes, hall⟩ :=
    writeDatagrams_sent (responseHeaderBytes (answerHeader s req)) (selected s req)
  unfold Accepted request serveRequest readAnswer
  rw [readRequest_requestBytes]
  dsimp only
  rw [hbytes, readResponseHeader_bytes]
  dsimp only
  by_cases hok : (s.locate req.fromSeq req.through).status = .ok
  · have hstop := DatagramStore.locate_le hok
    have hstatus : (answerHeader s req).status = .ok := hok
    have hselected : selected s req = s.payload (s.locate req.fromSeq req.through).start
        (s.locate req.fromSeq req.through).stop := if_pos hok
    have hcount : (answerHeader s req).datagrams = UInt32.ofNat (selected s req).length := by
      rw [hselected, DatagramStore.length_payload hstop]
      exact if_pos hok
    have hfits : ∀ d ∈ selected s req, d.length ≤ maxDatagramBytes := by
      intro d hd
      rw [hselected] at hd
      exact Nat.le_trans (hsized.length_le hstop hd) hbuf
    rw [if_pos hstatus, hcount, hall]
    constructor
    · intro h
      split at h
      · cases h
      rename_i hcap
      split at h
      · cases h
      rename_i datagrams hread
      have hdatagrams : datagrams = selected s req := congrArg ReplayResult.datagrams
        (Except.ok.inj h)
      subst hdatagrams
      have hlength := readPromised_length hread
      refine ⟨?_, ?_⟩
      · rw [hlength]
        exact UInt32.le_iff_toNat_le.mp (UInt32.not_lt.mp hcap)
      · obtain ⟨more, hmore⟩ := hprefix
        cases more with
        | nil => rwa [List.append_nil] at hmore
        | cons d more =>
          -- One that is too long: the stream ends in front of it.
          have hpromised : (UInt32.ofNat (selected s req).length).toNat =
              sent.length + (more.length + 1) := by
            rw [← hlength, ← hmore, List.length_append, List.length_cons]
          have hsentFits : ∀ d ∈ sent, d.length ≤ maxDatagramBytes := fun d hd =>
            hfits d (hmore ▸ List.mem_append_left _ hd)
          obtain ⟨e, he⟩ := readPromised_nil (UInt32.ofNat (selected s req).length)
            maxDatagramBytes more.length (0 + sent.length)
          rw [hpromised, readPromised_frames hlens hsentFits, he] at hread
          cases hread
    · rintro ⟨hcap, rfl⟩
      have hnat : (UInt32.ofNat (selected s req).length).toNat = (selected s req).length :=
        UInt32.toNat_ofNat_of_lt' (Nat.lt_of_le_of_lt hcap (by decide))
      have hle : ¬ maxResponseDatagrams < UInt32.ofNat (selected s req).length := by
        rw [UInt32.not_lt, UInt32.le_iff_toNat_le, hnat]
        exact hcap
      have hread : readPromised (UInt32.ofNat (selected s req).length) maxDatagramBytes
          (selected s req).length 0 ((selected s req).map frame).flatten = .ok (selected s req) := by
        rw [← Nat.add_zero (selected s req).length, readPromised_frames hlens hfits]
        simp [readPromised, Except.map]
      rw [if_neg hle, hnat, hread]
  · have hnone : selected s req = [] := if_neg hok
    have hstatus : (answerHeader s req).status ≠ .ok := hok
    rw [if_neg hstatus, hnone]
    exact iff_of_true rfl (by simp)

theorem answered_three_pushed :
    Accepted (threePushed.foldl DatagramStore.after (.new 2 64)) ⟨7, 7⟩ 64 :=
  (answered_iff 2 64 threePushed ⟨7, 7⟩ (Nat.le_refl 64)).mpr (by decide +kernel)

/-! ### A range of one datagram too many -/

/-- `n` heartbeats from the first sequence on, one a datagram. -/
def oneEach (n : Nat) : List Buf :=
  (List.range n).map fun i => packet 0 (UInt64.ofNat (i + 1)) [heartbeatBlock 0]

theorem oneEach_succ (n : Nat) :
    oneEach (n + 1) = oneEach n ++ [packet 0 (UInt64.ofNat (n + 1)) [heartbeatBlock 0]] := by
  rw [oneEach, List.range_succ, List.map_append]
  rfl

theorem wrap_oneEach (first : UInt64) :
    ∃ header, PacketHeader.wrap (packet 0 first [heartbeatBlock 0]) = .ok header ∧
      header.messageCount = 1 ∧ header.firstSequence = first ∧ header.isSnapshot = false := by
  obtain ⟨header, hwrap, hcount, hfirst, hflags⟩ :=
    (isHeader_packet 0 first [heartbeatBlock 0]).wrap [heartbeatBlock 0].flatten
  refine ⟨header, hwrap, hcount, hfirst, ?_⟩
  rw [PacketHeader.isSnapshot, hflags]
  rfl

/-- A store that has room for them holds the first `n` heartbeats. -/
structure HoldsEach (capacity n : Nat) (s : DatagramStore) : Prop where
  kept : s.Kept 64 (oneEach n)
  room : s.slots.length = capacity
  len : s.len = n
  next : n ≠ 0 → s.nextSequence = UInt64.ofNat (n + 1)
  first : n ≠ 0 → s.firstSequence = 1

theorem HoldsEach.after {capacity n : Nat} {s : DatagramStore} (hs : HoldsEach capacity n s)
    (hn : n < capacity) (hlt : n + 2 < 2 ^ 64) :
    HoldsEach capacity (n + 1) (s.after (packet 0 (UInt64.ofNat (n + 1)) [heartbeatBlock 0])) := by
  obtain ⟨header, hwrap, hcount, hfirst, hsnap⟩ := wrap_oneEach (UInt64.ofNat (n + 1))
  have hfit : (packet 0 (UInt64.ofNat (n + 1)) [heartbeatBlock 0]).length ≤ 64 := by
    rw [packet, List.length_append, length_putU16, length_packetHeaderBlock]
    decide
  have hnext : s.len = 0 ∨ s.nextSequence = UInt64.ofNat (n + 1) := by
    by_cases h0 : n = 0
    · exact .inl (hs.len.trans h0)
    · exact .inr (hs.next h0)
  have hfiles : s.files (packet 0 (UInt64.ofNat (n + 1)) [heartbeatBlock 0]) = some header := by
    unfold DatagramStore.files
    rw [hwrap]
    dsimp only
    rw [if_neg]
    rw [hsnap, hcount, hfirst]
    rintro (h | h | ⟨hlen, h⟩)
    · cases h
    · cases h
    · rcases hnext with h0 | hsame
      · exact hlen h0
      · rw [hsame] at h
        exact UInt64.lt_irrefl _ h
  have hend : EndFits s (packet 0 (UInt64.ofNat (n + 1)) [heartbeatBlock 0]) := by
    intro h hh
    rw [hfiles] at hh
    cases hh
    have hsize : n + 1 < UInt64.size := Nat.lt_of_succ_lt hlt
    rw [hfirst, hcount, UInt64.toNat_ofNat_of_lt' hsize]
    exact hlt
  have hkept := hs.kept.after hfit hend
  have hstart : s.startAt header.firstSequence =
      { s with firstSequence := if n = 0 then UInt64.ofNat (n + 1) else s.firstSequence,
               nextSequence := UInt64.ofNat (n + 1) } := by
    rw [hfirst]
    unfold DatagramStore.startAt
    by_cases h0 : n = 0
    · rw [if_pos (hs.len.trans h0), if_pos h0]
    · rw [if_neg (fun h => h0 (hs.len.symm.trans h)), if_neg h0, hs.next h0,
        if_neg (UInt64.lt_irrefl _), ← hs.next h0]
  have hroom : (s.startAt header.firstSequence).makeRoom = s.startAt header.firstSequence := by
    rw [hstart]
    unfold DatagramStore.makeRoom
    dsimp only
    rw [if_neg]
    rw [hs.len, hs.room]
    omega
  have habove : s.len = 0 ∨ s.nextSequence ≤ header.firstSequence := by
    rw [hfirst]
    exact hnext.imp_right fun hsame => UInt64.le_of_eq hsame
  have hfree : (s.startAt header.firstSequence).len
      < (s.startAt header.firstSequence).slots.length := by
    rw [hstart]
    dsimp only
    rw [hs.len, hs.room]
    exact hn
  have hfile := (hs.kept.startAt habove).1.file_eq (h := header) hfit
  have hafter := (DatagramStore.filing_of_files hfiles).after
  rw [hroom, hfile, hstart] at hafter
  refine ⟨?_, ?_, ?_, ?_, ?_⟩
  · rw [oneEach_succ]
    exact hkept
  · rw [hafter]
    simpa using hs.room
  · rw [hafter]
    exact congrArg (· + 1) hs.len
  · intro _
    rw [hafter]
    show header.firstSequence + header.messageCount.toUInt64 = _
    rw [hfirst, hcount, UInt64.ofNat_add (n + 1) 1]
    rfl
  · intro _
    rw [hafter]
    dsimp only
    split
    · rename_i h0
      rw [h0]
      rfl
    · rename_i h0
      exact hs.first h0

theorem holdsEach (capacity n : Nat) (hn : n ≤ capacity) (hpos : 0 < capacity)
    (hlt : n + 1 < 2 ^ 64) :
    HoldsEach capacity n ((oneEach n).foldl DatagramStore.after (.new capacity 64)) := by
  induction n with
  | zero =>
    refine ⟨DatagramStore.kept_new capacity 64, ?_, rfl, fun h => absurd rfl h,
      fun h => absurd rfl h⟩
    show (List.replicate (max capacity 1) _).length = capacity
    rw [List.length_replicate]
    omega
  | succ n ih =>
    rw [oneEach_succ, List.foldl_append]
    exact (ih (by omega) (by omega)).after (by omega) (by omega)

/-- What a range takes was pushed. -/
theorem mem_of_payload {s : DatagramStore} {pushed : List Buf} (hs : Exact s pushed)
    {start stop : Nat} (hstop : stop ≤ s.len) {d : Buf} (hd : d ∈ s.payload start stop) :
    d ∈ pushed := by
  obtain ⟨i, hi, hat⟩ := List.mem_filterMap.mp hd
  refine hs.pushed.subset (List.mem_filterMap.mpr ⟨i, ?_, hat⟩)
  rw [List.mem_range'_1] at hi ⊢
  omega

theorem mem_payload {s : DatagramStore} {start stop i : Nat} (hi : start ≤ i) (hlt : i < stop)
    {d : Buf} (hd : s.datagramAt i = some d) : d ∈ s.payload start stop := by
  refine List.mem_filterMap.mpr ⟨i, ?_, hd⟩
  rw [List.mem_range'_1]
  omega

/-- Of datagrams with one message each a range takes as many as it has sequences. -/
theorem HoldsEach.length_selected {capacity n : Nat} {s : DatagramStore}
    (hs : HoldsEach capacity n s) (hpos : 0 < n) (hlt : n + 1 < 2 ^ 64) :
    n ≤ (selected s ⟨1, UInt64.ofNat n⟩).length := by
  have hexact := hs.kept.exact
  have hsize : n + 1 < UInt64.size := hlt
  have hnat : (UInt64.ofNat n).toNat = n := UInt64.toNat_ofNat_of_lt' (Nat.lt_of_succ_lt hsize)
  have hnext : s.nextSequence.toNat = n + 1 := by
    rw [hs.next (Nat.ne_of_gt hpos), UInt64.toNat_ofNat_of_lt' hsize]
  have hok : (s.locate 1 (UInt64.ofNat n)).status = .ok := by
    rw [hexact.locate, hs.len, hs.first (Nat.ne_of_gt hpos)]
    refine ⟨Nat.ne_of_gt hpos, ?_, UInt64.le_refl _, ?_⟩
    · rw [UInt64.le_iff_toNat_le, hnat]
      exact hpos
    · rw [UInt64.lt_iff_toNat_lt, hnat, hnext]
      exact Nat.lt_succ_self n
  have hanswers := hexact.answers 1 (UInt64.ofNat n) hok
  have hselected : selected s ⟨1, UInt64.ofNat n⟩ =
      s.payload (s.locate 1 (UInt64.ofNat n)).start (s.locate 1 (UInt64.ofNat n)).stop := if_pos hok
  generalize s.locate 1 (UInt64.ofNat n) = found at hanswers hselected
  obtain ⟨⟨hlo, hhi⟩, ⟨a, b, htiles⟩, ⟨d, hd, hfirst⟩, ⟨d', hd', hlast⟩⟩ := hanswers
  have hone : ∀ d ∈ s.payload found.start found.stop, (extent d).2 - (extent d).1 = 1 := by
    intro d hd
    obtain ⟨i, -, rfl⟩ := List.mem_map.mp (mem_of_payload hexact hhi hd)
    obtain ⟨header, hwrap, hcount, -⟩ := wrap_oneEach (UInt64.ofNat (i + 1))
    rw [extent, hwrap]
    dsimp only
    rw [hcount]
    exact Nat.add_sub_cancel_left ..
  have ha := (htiles.bounds (mem_payload (Nat.le_refl _) hlo hd)).1
  have hb := (htiles.bounds (mem_payload (by omega) (by omega) hd')).2.2
  have hsum := htiles.sum_length
  rw [List.map_congr_left hone, List.map_const', List.sum_replicate_nat, Nat.mul_one] at hsum
  obtain ⟨hfirst, -⟩ := hfirst
  obtain ⟨-, hlast⟩ := hlast
  rw [hnat] at hlast
  have h1 : (1 : UInt64).toNat = 1 := rfl
  rw [hselected]
  omega

/-- One datagram more than the client takes: the service announces them all. -/
theorem one_too_many : ¬ ∀ (capacity maxBytes : Nat) (ds : List Buf) (req : RangeRequest),
    Accepted (ds.foldl DatagramStore.after (.new capacity maxBytes)) req maxBytes := by
  intro hall
  have haccepted := hall 65537 64 (oneEach 65537) ⟨1, UInt64.ofNat 65537⟩
  have hcap := ((answered_iff 65537 64 (oneEach 65537) _ (Nat.le_refl 64)).mp haccepted).1
  have hheld := holdsEach 65537 65537 (Nat.le_refl _) (by decide) (by decide)
  have hmany := hheld.length_selected (by decide) (by decide)
  have hmax : maxResponseDatagrams.toNat = 65536 := rfl
  omega

end MarketData.Replay
