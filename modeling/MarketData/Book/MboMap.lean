import MarketData.Book.MboStore

/-!
# `Book/MboMap.lean` — the order-id map

The map is an open-addressed table with one entry for every live node, under the id the node
carries. It is four times as large as the slab at least, so a probe always meets a vacant cell.

`Indexed` is the invariant, and it is about the **live nodes**: every live node's id is stored with
that node, nothing else is stored, the table is a power of two and four times the slab. It says
nothing about queues or levels, so it can be carried through every operation that leaves the ids of
the live nodes and the table alone, and most of them do (`SameMap` in `Book/MboWhole.lean`).

What the book wants from it is `get_eq`: an id is found where an order of that id rests, and only
there. `delete`, `reduce` and `replace` start from that, and `add` starts from its negation.

The deletion by backward shift is in `Lib/Probing.lean`, for any probed table; here it is only
instantiated. That the map stays a map when it is used on its own, by a caller that respects the
load, is `Book/MboLookup.lean`.
-/

set_option autoImplicit false

namespace MarketData.Book

open MarketData.Probing

namespace MboBook

/-- **The map knows the live nodes by their ids.** -/
structure Indexed (b : MboBook) (live : List Nat) : Prop where
  power : ∃ k, b.mapMask + 1 = 2 ^ k
  slab : 4 ≤ b.slab
  room : 4 * b.slab ≤ b.mapMask + 1
  table : Table b.scheme b.map
  entries : ∀ e, e ∈ b.scheme.entries b.map ↔ ∃ i ∈ live, e = ⟨(b.nodes i).orderId, i⟩

theorem scheme_congr {b b' : MboBook} (h : b'.mapMask = b.mapMask) : b'.scheme = b.scheme := by
  rw [scheme, scheme, h]

namespace Indexed

variable {b : MboBook} {live free : List Nat}

theorem lawful (h : Indexed b live) : b.scheme.Lawful :=
  ⟨h.power, fun _ => Nat.lt_succ_of_le Nat.and_le_right, rfl⟩

theorem congr {b' : MboBook} {live' : List Nat} (h : Indexed b live) (hmap : b'.map = b.map)
    (hmask : b'.mapMask = b.mapMask) (hslab : b'.slab = b.slab)
    (hnodes : ∀ e : MapEntry, (∃ i ∈ live', e = ⟨(b'.nodes i).orderId, i⟩) ↔
      ∃ i ∈ live, e = ⟨(b.nodes i).orderId, i⟩) : Indexed b' live' := by
  constructor
  · rw [hmask]
    exact h.power
  · rw [hslab]
    exact h.slab
  · rw [hmask, hslab]
    exact h.room
  · rw [scheme_congr hmask, hmap]
    exact h.table
  · intro e
    rw [scheme_congr hmask, hmap, h.entries, hnodes]

/-- As many entries as live nodes. -/
theorem length_entries (h : Indexed b live) (hs : Store b live free) :
    (b.scheme.entries b.map).length = live.length := by
  have hlive := (List.nodup_append.mp hs.nodup).1
  have hperm : (b.scheme.entries b.map).Perm
      (live.map fun i => (⟨(b.nodes i).orderId, i⟩ : MapEntry)) := by
    rw [List.perm_ext_iff_of_nodup (List.Nodup.of_map _ h.table.nodup)]
    · intro e
      rw [h.entries, List.mem_map]
      constructor
      · rintro ⟨i, hi, rfl⟩
        exact ⟨i, hi, rfl⟩
      · rintro ⟨i, hi, rfl⟩
        exact ⟨i, hi, rfl⟩
    · exact hlive.map fun i j heq => congrArg MapEntry.node heq
  rw [hperm.length_eq, List.length_map]

theorem has_room (h : Indexed b live) (hs : Store b live free) :
    (b.scheme.entries b.map).length < b.scheme.size := by
  have hlen := hs.length_live_le
  have hslab := h.slab
  have hroom := h.room
  rw [h.length_entries hs]
  show _ < b.mapMask + 1
  omega

/-- What a probe finds is the live node of that id. -/
theorem mapFind_some (h : Indexed b live) (hs : Store b live free) {orderId : UInt64} {p : Nat}
    (hfind : b.mapFind orderId = some p) :
    p < b.scheme.size ∧ b.scheme.vacant (b.map p) = false ∧ (b.map p).node ∈ live ∧
      (b.nodes (b.map p).node).orderId = orderId ∧ (b.map p).orderId = orderId := by
  obtain ⟨hp, hoccupied, hkey⟩ := Table.find_eq_some h.lawful (h.has_room hs) hfind
  obtain ⟨i, hi, heq⟩ := (h.entries (b.map p)).mp (mem_entries.mpr ⟨p, hp, rfl, hoccupied⟩)
  have hid : (b.map p).orderId = orderId := hkey
  refine ⟨hp, hoccupied, ?_, ?_, hid⟩
  · rw [heq]
    exact hi
  · rw [← hid, heq]

theorem mem_ordersOf {o : RestingOrder} :
    o ∈ b.ordersOf live ↔ ∃ i ∈ live, (b.nodes i).order = o := List.mem_map

theorem mapFind_none (h : Indexed b live) (hs : Store b live free) {orderId : UInt64}
    (hfind : b.mapFind orderId = none) : Arrivals.lookup (b.ordersOf live) orderId = none := by
  rw [Arrivals.lookup_eq_none]
  intro o ho hid
  obtain ⟨i, hi, rfl⟩ := mem_ordersOf.mp ho
  have hentry := (h.entries ⟨(b.nodes i).orderId, i⟩).mpr ⟨i, hi, rfl⟩
  exact h.table.find_eq_none h.lawful (h.has_room hs) hfind _ hentry hid

/-- **An id is found where an order of that id rests.** -/
theorem get_eq (h : Indexed b live) (hs : Store b live free) (orderId : UInt64) :
    b.get orderId = Arrivals.lookup (b.ordersOf live) orderId := by
  unfold MboBook.get
  cases hfind : b.mapFind orderId with
  | none => exact (h.mapFind_none hs hfind).symm
  | some p =>
    obtain ⟨-, -, hlive, hid, -⟩ := h.mapFind_some hs hfind
    have hmem : (b.nodes (b.map p).node).order ∈ b.ordersOf live := mem_ordersOf.mpr ⟨_, hlive, rfl⟩
    have hlookup := hs.valid.lookup_of_mem hmem
    have hid' : (b.nodes (b.map p).node).order.orderId = orderId := hid
    rw [hid'] at hlookup
    exact hlookup.symm

/-- The id of a node in hand is entered. -/
theorem mapInsert {b' : MboBook} {n : Nat} {orderId : UInt64} (h : Indexed b live)
    (hs : Store b live free) (hmap : b'.map = b.map) (hmask : b'.mapMask = b.mapMask)
    (hslab : b'.slab = b.slab) (hnode : n ≠ nil)
    (hnew : Arrivals.lookup (b.ordersOf live) orderId = none)
    (hnodes : ∀ i ∈ live, (b'.nodes i).orderId = (b.nodes i).orderId)
    (hid : (b'.nodes n).orderId = orderId) :
    Indexed (b'.mapInsert orderId n) (live ++ [n]) := by
  have hvacant : b.scheme.vacant ⟨orderId, n⟩ = false := decide_eq_false hnode
  have hfresh : ∀ e ∈ b.scheme.entries b.map, b.scheme.key e ≠ b.scheme.key ⟨orderId, n⟩ := by
    intro e he
    obtain ⟨i, hi, rfl⟩ := (h.entries e).mp he
    exact Arrivals.lookup_eq_none.mp hnew (b.nodes i).order (mem_ordersOf.mpr ⟨i, hi, rfl⟩)
  obtain ⟨htable, hentries⟩ := h.table.insert h.lawful (h.has_room hs) hvacant hfresh
  have hscheme : (b'.mapInsert orderId n).scheme = b.scheme := scheme_congr hmask
  have hmap' : (b'.mapInsert orderId n).map = b.scheme.insert b.map ⟨orderId, n⟩ := by
    show b'.scheme.insert b'.map _ = _
    rw [scheme_congr hmask, hmap]
  constructor
  · show ∃ k, b'.mapMask + 1 = 2 ^ k
    rw [hmask]
    exact h.power
  · show 4 ≤ b'.slab
    rw [hslab]
    exact h.slab
  · show 4 * b'.slab ≤ b'.mapMask + 1
    rw [hmask, hslab]
    exact h.room
  · rw [hscheme, hmap']
    exact htable
  · intro e
    rw [hscheme, hmap', hentries, h.entries]
    constructor
    · rintro (rfl | ⟨i, hi, rfl⟩)
      · refine ⟨n, by simp, ?_⟩
        show _ = (⟨(b'.nodes n).orderId, n⟩ : MapEntry)
        rw [hid]
      · refine ⟨i, List.mem_append_left _ hi, ?_⟩
        show _ = (⟨(b'.nodes i).orderId, i⟩ : MapEntry)
        rw [hnodes i hi]
    · rintro ⟨i, hi, rfl⟩
      show (⟨(b'.nodes i).orderId, i⟩ : MapEntry) = _ ∨
        ∃ j ∈ live, (⟨(b'.nodes i).orderId, i⟩ : MapEntry) = _
      rw [List.mem_append, List.mem_singleton] at hi
      cases hi with
      | inl hi => exact Or.inr ⟨i, hi, by rw [hnodes i hi]⟩
      | inr heq => rw [heq, hid]; exact Or.inl rfl

/-- The entry of a node is taken out. -/
theorem mapRemoveAt {b' : MboBook} {p n : Nat} (h : Indexed b live) (hs : Store b live free)
    (hmap : b'.map = b.map) (hmask : b'.mapMask = b.mapMask) (hslab : b'.slab = b.slab)
    (hp : p < b.scheme.size) (hoccupied : b.scheme.vacant (b.map p) = false)
    (hn : n ∈ live) (hid : (b.nodes n).orderId = (b.map p).orderId)
    (hnodes : ∀ i ∈ live, i ≠ n → (b'.nodes i).orderId = (b.nodes i).orderId) :
    Indexed (b'.mapRemoveAt p) (live.filter fun i => i ≠ n) := by
  obtain ⟨htable, hentries⟩ := h.table.removeAt h.lawful (h.has_room hs) hp hoccupied
  have hscheme : (b'.mapRemoveAt p).scheme = b.scheme := scheme_congr hmask
  have hmap' : (b'.mapRemoveAt p).map = b.scheme.removeAt b.map p := by
    show b'.scheme.removeAt b'.map p = _
    rw [scheme_congr hmask, hmap]
  have hids : (live.map fun i => (b.nodes i).orderId).Nodup := by
    have hnodup := hs.valid.ids
    rw [ordersOf, List.map_map] at hnodup
    exact hnodup
  -- another node carries another id
  have hother : ∀ i ∈ live, (b.nodes i).orderId ≠ (b.map p).orderId ↔ i ≠ n := by
    intro i hi
    rw [← hid]
    exact not_congr ⟨fun heq => List.inj_on_of_nodup_map hids hi hn heq, fun heq => by rw [heq]⟩
  constructor
  · show ∃ k, b'.mapMask + 1 = 2 ^ k
    rw [hmask]
    exact h.power
  · show 4 ≤ b'.slab
    rw [hslab]
    exact h.slab
  · show 4 * b'.slab ≤ b'.mapMask + 1
    rw [hmask, hslab]
    exact h.room
  · rw [hscheme, hmap']
    exact htable
  · intro e
    rw [hscheme, hmap', hentries, h.entries]
    constructor
    · rintro ⟨⟨i, hi, rfl⟩, hkey⟩
      have hne := (hother i hi).mp hkey
      refine ⟨i, List.mem_filter.mpr ⟨hi, decide_eq_true hne⟩, ?_⟩
      show _ = (⟨(b'.nodes i).orderId, i⟩ : MapEntry)
      rw [hnodes i hi hne]
    · rintro ⟨i, hi, rfl⟩
      obtain ⟨hlive, hne⟩ := List.mem_filter.mp hi
      have hne := of_decide_eq_true hne
      have hid' : ((b'.mapRemoveAt p).nodes i).orderId = (b.nodes i).orderId := hnodes i hlive hne
      rw [hid']
      exact ⟨⟨i, hlive, rfl⟩, (hother i hlive).mpr hne⟩

end Indexed

end MboBook

end MarketData.Book
