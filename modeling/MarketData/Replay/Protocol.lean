import MarketData.Replay.Store

/-!
# `Replay/Protocol.lean` — what the replay service puts on a connection

`crates/replay-service/src/protocol.rs`: datagrams behind a length of four bytes, the range request
and the header of the answer to it. A connection is read as the bytes that are still to come before
the end of the stream.

The end of the stream is told from a failure by what `read_exact` says of the length, and it says
the same of a stream that ends before the length and of one that ends inside it
(`truncation_told_iff`).

## A connection as the rest of its bytes

A reader that blocks until bytes come can only tell the end of the stream from more of it, so the
stream is a list, and reading takes off its front. `readExact` either has enough bytes or fails with
the kind of error the standard library gives at the end of a stream; other failures of a socket are
not modelled, as none of the functions here looks at what kind they are of.

A stream that is cut after `k` bytes is `take k` of a whole one. `cut` says in terms of the
datagrams where that is, which is what the equivalence is about: between two datagrams, inside a
length, or inside a datagram. **Only the second is mistaken**, for a clean close. The buffer the
datagrams are read into has a length of its own, and a datagram that does not fit is an error as
well.
-/

set_option autoImplicit false

namespace MarketData.Replay

open MarketData.Wire

/-- `io::Error`, by its kind and its message. -/
inductive IoError where
  | unexpectedEof (message : String)
  | invalidData (message : String)
  deriving DecidableEq, Repr

/-! ## Datagrams -/

/-- `read_exact`: the next `n` bytes and what is behind them. -/
def readExact (n : Nat) (r : Buf) : Except IoError (Buf × Buf) :=
  if n ≤ r.length then .ok (r.take n, r.drop n)
  else .error (.unexpectedEof "failed to fill whole buffer")

/-- `u32::to_le_bytes` -/
def lengthBytes (len : UInt32) : Buf := putU32 (List.replicate 4 0) 0 len

def writeDatagram (w datagram : Buf) : Except IoError Unit × Buf :=
  if datagram.length < 2 ^ 32 then
    (.ok (), w ++ lengthBytes (UInt32.ofNat datagram.length) ++ datagram)
  else (.error (.invalidData "datagram longer than u32 can express"), w)

/-- One after the other, as far as it goes. -/
def writeDatagrams (w : Buf) : List Buf → Except IoError Unit × Buf
  | [] => (.ok (), w)
  | d :: ds =>
    match writeDatagram w d with
    | (.ok (), w) => writeDatagrams w ds
    | (.error e, w) => (.error e, w)

/-- Reads one length-prefixed datagram into a buffer of `bufLen` bytes. No datagram means the peer
closed cleanly between datagrams. -/
def readDatagram (r : Buf) (bufLen : Nat) : Except IoError (Option Buf × Buf) :=
  match readExact 4 r with
  | .error (.unexpectedEof _) => .ok (none, [])
  | .error e => .error e
  | .ok (lenBytes, r) =>
    let len := (leU32 lenBytes 0).toNat
    if bufLen < len then
      .error (.invalidData s!"a {len}-byte datagram does not fit in a {bufLen}-byte buffer")
    else
      match readExact len r with
      | .error e => .error e
      | .ok (datagram, r) => .ok (some datagram, r)

theorem readExact_ok {n : Nat} {r b rest : Buf} (h : readExact n r = .ok (b, rest)) :
    rest.length + n = r.length := by
  unfold readExact at h
  split at h
  · cases h
    rw [List.length_drop]
    omega
  · cases h

/-- A datagram takes the four bytes of its length at least. -/
theorem readDatagram_some {r rest d : Buf} {bufLen : Nat}
    (h : readDatagram r bufLen = .ok (some d, rest)) : rest.length < r.length := by
  unfold readDatagram at h
  split at h
  · cases h
  · cases h
  · rename_i lenBytes r' hlen
    have hfour := readExact_ok hlen
    dsimp only at h
    split at h
    · cases h
    · split at h
      · cases h
      · rename_i hdatagram
        have hrest := readExact_ok hdatagram
        cases h
        omega

/-- Every datagram there is, and how it ended. -/
def readDatagrams (bufLen : Nat) (r : Buf) : List Buf × Except IoError Unit :=
  match _ : readDatagram r bufLen with
  | .error e => ([], .error e)
  | .ok (none, _) => ([], .ok ())
  | .ok (some d, rest) =>
    let (ds, outcome) := readDatagrams bufLen rest
    (d :: ds, outcome)
termination_by r.length
decreasing_by exact readDatagram_some ‹_›

/-! ### What is written is read back -/

/-- A datagram as it is on the connection. -/
def frame (d : Buf) : Buf := lengthBytes (UInt32.ofNat d.length) ++ d

@[simp] theorem length_lengthBytes (len : UInt32) : (lengthBytes len).length = 4 := by
  simp [lengthBytes]

@[simp] theorem length_frame (d : Buf) : (frame d).length = 4 + d.length := by
  simp [frame]

theorem leU32_lengthBytes (len : UInt32) : leU32 (lengthBytes len) 0 = len :=
  leU32_putU32 len (by simp)

theorem readExact_append (b rest : Buf) : readExact b.length (b ++ rest) = .ok (b, rest) := by
  unfold readExact
  rw [if_pos (by simp)]
  simp

theorem readExact_short {n : Nat} {r : Buf} (h : r.length < n) :
    readExact n r = .error (.unexpectedEof "failed to fill whole buffer") :=
  if_neg (Nat.not_le.mpr h)

theorem writeDatagrams_ok_iff {w : Buf} {ds : List Buf} {stream : Buf} :
    writeDatagrams w ds = (.ok (), stream) ↔
      (∀ d ∈ ds, d.length < 2 ^ 32) ∧ stream = w ++ (ds.map frame).flatten := by
  induction ds generalizing w with
  | nil => simp [writeDatagrams, eq_comm]
  | cons d ds ih =>
    unfold writeDatagrams writeDatagram
    by_cases hlen : d.length < 2 ^ 32
    · rw [if_pos hlen]
      dsimp only
      rw [ih]
      simp only [List.forall_mem_cons, hlen, true_and, List.map_cons, List.flatten_cons, frame,
        List.append_assoc]
    · rw [if_neg hlen]
      refine iff_of_false (fun h => nomatch h) ?_
      rintro ⟨hlens, -⟩
      exact hlen (hlens d (List.mem_cons_self ..))

theorem readDatagram_frame {d : Buf} (hlen : d.length < 2 ^ 32) {bufLen : Nat}
    (hfit : d.length ≤ bufLen) (rest : Buf) :
    readDatagram (frame d ++ rest) bufLen = .ok (some d, rest) := by
  have hfour := readExact_append (lengthBytes (UInt32.ofNat d.length)) (d ++ rest)
  rw [length_lengthBytes, ← List.append_assoc] at hfour
  unfold readDatagram frame
  rw [hfour]
  dsimp only
  rw [leU32_lengthBytes, UInt32.toNat_ofNat_of_lt' hlen, readExact_append,
    if_neg (Nat.not_lt.mpr hfit)]

/-- A length the buffer is too small for. -/
theorem readDatagram_large {d : Buf} (hlen : d.length < 2 ^ 32) {bufLen : Nat}
    (hlarge : bufLen < d.length) (rest : Buf) :
    ∃ e, readDatagram (frame d ++ rest) bufLen = .error e := by
  have hfour := readExact_append (lengthBytes (UInt32.ofNat d.length)) (d ++ rest)
  rw [length_lengthBytes, ← List.append_assoc] at hfour
  unfold readDatagram frame
  rw [hfour]
  dsimp only
  rw [leU32_lengthBytes, UInt32.toNat_ofNat_of_lt' hlen, if_pos hlarge]
  exact ⟨_, rfl⟩

theorem readDatagrams_frame {d : Buf} (hlen : d.length < 2 ^ 32) {bufLen : Nat}
    (hfit : d.length ≤ bufLen) (rest : Buf) :
    readDatagrams bufLen (frame d ++ rest) =
      (d :: (readDatagrams bufLen rest).1, (readDatagrams bufLen rest).2) := by
  have hone := readDatagram_frame hlen hfit rest
  rw [readDatagrams]
  split
  · rename_i heq
    cases hone.symm.trans heq
  · rename_i heq
    cases hone.symm.trans heq
  · rename_i heq
    cases hone.symm.trans heq
    rfl

/-- Where the next datagram cannot be read, that is all. -/
theorem readDatagrams_error {r : Buf} {bufLen : Nat} {e : IoError}
    (h : readDatagram r bufLen = .error e) : readDatagrams bufLen r = ([], .error e) := by
  rw [readDatagrams]
  split
  · rename_i heq
    cases h.symm.trans heq
    rfl
  · rename_i heq
    cases h.symm.trans heq
  · rename_i heq
    cases h.symm.trans heq

theorem readDatagrams_closed {r rest : Buf} {bufLen : Nat}
    (h : readDatagram r bufLen = .ok (none, rest)) : readDatagrams bufLen r = ([], .ok ()) := by
  rw [readDatagrams]
  split
  · rename_i heq
    cases h.symm.trans heq
  · rfl
  · rename_i heq
    cases h.symm.trans heq

/-! ### A stream that is cut off -/

/-- The datagrams the first `k` bytes of the stream of `ds` hold in full, and how many bytes of the
next one are behind them. -/
def cut : List Buf → Nat → List Buf × Nat
  | [], k => ([], k)
  | d :: ds, k =>
    if 4 + d.length ≤ k then (d :: (cut ds (k - (4 + d.length))).1, (cut ds (k - (4 + d.length))).2)
    else ([], k)

/-- What is read of a stream that ends after `k` bytes tells a clean close from a broken one. -/
structure ToldApart (bufLen : Nat) (ds : List Buf) (stream : Buf) (k : Nat) : Prop where
  datagrams : (readDatagrams bufLen (stream.take k)).1 = (cut ds k).1
  closed : (readDatagrams bufLen (stream.take k)).2 = .ok () ↔ (cut ds k).2 = 0

/-- A part of one datagram. -/
theorem readDatagrams_part {d : Buf} (hlen : d.length < 2 ^ 32) (bufLen : Nat) {k : Nat}
    (hk : k < 4 + d.length) :
    (readDatagrams bufLen ((frame d).take k)).1 = [] ∧
      ((readDatagrams bufLen ((frame d).take k)).2 = .ok () ↔ k < 4) := by
  by_cases hfour : k < 4
  · have hshort : readExact 4 ((frame d).take k) =
        .error (.unexpectedEof "failed to fill whole buffer") :=
      readExact_short (by rw [List.length_take]; omega)
    have hclosed : readDatagram ((frame d).take k) bufLen = .ok (none, []) := by
      unfold readDatagram
      rw [hshort]
    rw [readDatagrams_closed hclosed]
    exact ⟨rfl, iff_of_true rfl hfour⟩
  · -- the length is there, and not all of what it announces
    obtain ⟨j, rfl⟩ := Nat.exists_eq_add_of_le (Nat.not_lt.mp hfour)
    have htake : (frame d).take (4 + j) = lengthBytes (UInt32.ofNat d.length) ++ d.take j := by
      rw [frame, List.take_append, length_lengthBytes, List.take_of_length_le (by simp)]
      congr 2
      omega
    have hlength := readExact_append (lengthBytes (UInt32.ofNat d.length)) (d.take j)
    rw [length_lengthBytes] at hlength
    have hshort : readExact d.length (d.take j) =
        .error (.unexpectedEof "failed to fill whole buffer") :=
      readExact_short (by rw [List.length_take]; omega)
    have herror : ∃ e, readDatagram ((frame d).take (4 + j)) bufLen = .error e := by
      unfold readDatagram
      rw [htake, hlength]
      dsimp only
      rw [leU32_lengthBytes, UInt32.toNat_ofNat_of_lt' hlen, hshort]
      split
      · exact ⟨_, rfl⟩
      · exact ⟨_, rfl⟩
    obtain ⟨e, he⟩ := herror
    rw [readDatagrams_error he]
    exact ⟨rfl, iff_of_false (fun h => nomatch h) hfour⟩

/-- **A truncated stream is told from a closed one** just where it is not cut inside a length and
the buffer takes every datagram that came whole. -/
theorem truncation_told_iff {ds : List Buf} {stream : Buf}
    (hwritten : writeDatagrams [] ds = (.ok (), stream)) {k : Nat} (hk : k < stream.length)
    (bufLen : Nat) :
    ToldApart bufLen ds stream k ↔
      (∀ d ∈ (cut ds k).1, d.length ≤ bufLen) ∧ ¬ (0 < (cut ds k).2 ∧ (cut ds k).2 < 4) := by
  obtain ⟨hlens, rfl⟩ := writeDatagrams_ok_iff.mp hwritten
  clear hwritten
  rw [List.nil_append] at hk ⊢
  induction ds generalizing k with
  | nil => simp at hk
  | cons d ds ih =>
    obtain ⟨hlen, hlens⟩ := List.forall_mem_cons.mp hlens
    rw [List.map_cons, List.flatten_cons] at hk ⊢
    rw [List.length_append, length_frame] at hk
    by_cases hwhole : 4 + d.length ≤ k
    · have htake : (frame d ++ (ds.map frame).flatten).take k =
          frame d ++ (ds.map frame).flatten.take (k - (4 + d.length)) := by
        rw [List.take_append, length_frame, List.take_of_length_le (by simpa using hwhole)]
      have hcut : cut (d :: ds) k =
          (d :: (cut ds (k - (4 + d.length))).1, (cut ds (k - (4 + d.length))).2) := if_pos hwhole
      have hrest := ih hlens (k := k - (4 + d.length)) (by omega)
      by_cases hfit : d.length ≤ bufLen
      · have hread := readDatagrams_frame hlen hfit
          ((ds.map frame).flatten.take (k - (4 + d.length)))
        rw [hcut]
        dsimp only
        rw [List.forall_mem_cons, and_iff_right hfit, ← hrest]
        constructor
        · rintro ⟨hdatagrams, hclosed⟩
          rw [htake, hread, hcut] at hdatagrams hclosed
          exact ⟨(List.cons.inj hdatagrams).2, hclosed⟩
        · rintro ⟨hdatagrams, hclosed⟩
          refine ⟨?_, ?_⟩
          · rw [htake, hread, hcut, hdatagrams]
          · rw [htake, hread, hcut, hclosed]
      · obtain ⟨e, hread⟩ := readDatagram_large hlen (Nat.lt_of_not_le hfit)
          ((ds.map frame).flatten.take (k - (4 + d.length)))
        refine iff_of_false (fun h => ?_) fun h => ?_
        · have hdatagrams := h.datagrams
          rw [htake, readDatagrams_error hread, hcut] at hdatagrams
          cases hdatagrams
        · rw [hcut] at h
          exact hfit (h.1 d (List.mem_cons_self ..))
    · have hk' : k < 4 + d.length := Nat.lt_of_not_le hwhole
      have htake : (frame d ++ (ds.map frame).flatten).take k = (frame d).take k := by
        rw [List.take_append_of_le_length (by rw [length_frame]; omega)]
      have hcut : cut (d :: ds) k = ([], k) := if_neg hwhole
      obtain ⟨hnone, hclosed⟩ := readDatagrams_part hlen bufLen hk'
      rw [hcut]
      constructor
      · rintro ⟨-, h⟩
        rw [htake, hcut, hclosed] at h
        refine ⟨fun d hd => (nomatch hd), ?_⟩
        rintro ⟨hpos, hlt⟩
        exact absurd (h.mp hlt) (Nat.pos_iff_ne_zero.mp hpos)
      · rintro ⟨-, hnot⟩
        refine ⟨?_, ?_⟩
        · rw [htake, hcut, hnone]
        · rw [htake, hcut, hclosed]
          dsimp only at hnot ⊢
          omega

/-- A stream of two datagrams, cut where the first one ends. -/
theorem truncation_told_between :
    let ds : List Buf := [[1, 2, 3], [4, 5]]
    ToldApart 64 ds ((writeDatagrams [] ds).2) 7 := by
  have hwritten : writeDatagrams [] [[1, 2, 3], [4, 5]] =
      (.ok (), (writeDatagrams [] [[1, 2, 3], [4, 5]]).2) := rfl
  exact (truncation_told_iff hwritten (by decide) 64).mpr (by decide)

/-- The same stream, cut two bytes into the second length: a clean close after one datagram. -/
theorem cut_inside_length :
    let ds : List Buf := [[1, 2, 3], [4, 5]]
    readDatagrams 64 ((writeDatagrams [] ds).2.take 9) = ([[1, 2, 3]], .ok ()) ∧
      ¬ ToldApart 64 ds ((writeDatagrams [] ds).2) 9 := by
  have hwritten : writeDatagrams [] [[1, 2, 3], [4, 5]] =
      (.ok (), (writeDatagrams [] [[1, 2, 3], [4, 5]]).2) := rfl
  have hpart : (writeDatagrams [] [[1, 2, 3], [4, 5]]).2.take 9 =
      frame [1, 2, 3] ++ (frame [4, 5]).take 2 := by decide
  obtain ⟨hnone, hclosed⟩ := readDatagrams_part (d := [4, 5]) (by decide) 64 (k := 2) (by decide)
  refine ⟨?_, fun h => ?_⟩
  · rw [hpart, readDatagrams_frame (by decide) (by decide), hnone, hclosed.mpr (by decide)]
  · have hcut := (truncation_told_iff hwritten (by decide) 64).mp h
    exact absurd hcut (by decide)

end MarketData.Replay
