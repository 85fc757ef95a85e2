import MarketData.Matching.Remainder

/-!
# `Matching/Meeting.lean` — which orders an aggressor meets

A submitted order goes down the other side of the book, best price first and oldest first, and
fills against one order after the other until nothing is left of it or the next one does not cross
its price. How many orders it fills against can be read off the book before it is submitted
(`matchLoop_count`), and the fills account for what is taken of it (`Taken`).

## A list that is walked, and a book that changes

The loop asks the book for its front again and again, and takes the front off in between. `met` is
the list of the orders that would be asked for, read off once. That the front after a fill is the
next of the list, or the same order made smaller, is the step (`matchTurn_cases`), and the count
follows by induction on what is left to take.

`Taken` is an inductive over the fills: each is of something, none of more than there is, and each
says what is left then. The sum of the fills is a consequence, and so is the `leaves` of the last.
Whose orders they were and at what price is `Matching/Priority.lean`.
-/

set_option autoImplicit false

namespace MarketData.Book.Arrivals

open MarketData.Wire MarketData.Ladder

variable {os : List RestingOrder} {s : Side}

/-- The orders of a side, in the order in which they are met. -/
def walk (os : List RestingOrder) (s : Side) : List RestingOrder := (levels os s).flatMap (·.2)

theorem queueOf_walk (os : List RestingOrder) (s : Side) (price : Int64) :
    queueOf (·.price) (walk os s) price = queue os s price := by
  rw [walk, (isLevels_levels os s).queueOf_flatMap, queueOf_onSide]

theorem sorted_walk (os : List RestingOrder) (s : Side) :
    (walk os s).Pairwise fun a b => bestLe s a.price b.price = true :=
  (isLevels_levels os s).sorted_flatMap (ranking_bestLe s)

/-- The front is the head of the walk. -/
theorem front_eq_head (os : List RestingOrder) (s : Side) :
    front os s = (walk os s).head?.map fun o => (o.price, o.orderId) := by
  unfold front walk
  cases hlevels : levels os s with
  | nil => rfl
  | cons level rest =>
    obtain ⟨best, q⟩ := level
    obtain ⟨hq, hne⟩ := mem_levels.mp (hlevels ▸ List.mem_cons_self : (best, q) ∈ levels os s)
    cases q with
    | nil => exact absurd rfl hne
    | cons first q =>
      have hfirst : first ∈ queue os s best := hq ▸ List.mem_cons_self
      obtain ⟨-, hprice⟩ := of_decide_eq_true (List.mem_filter.mp hfirst).2
      simp [hprice]

/-- An order that is taken off leaves the others where they are. -/
theorem walk_without (os : List RestingOrder) (s : Side) (orderId : UInt64) :
    walk (without os orderId) s = (walk os s).filter fun o => o.orderId ≠ orderId := by
  refine eq_of_queueOf (·.price) (ranking_bestLe s) (sorted_walk _ _)
    ((sorted_walk os s).sublist List.filter_sublist) fun price => ?_
  rw [queueOf_walk, queue_without, ← queueOf_walk os s price, queueOf, queueOf,
    List.filter_filter, List.filter_filter]
  refine List.filter_congr fun o _ => ?_
  rw [Bool.and_comm]

end MarketData.Book.Arrivals

namespace MarketData.Matching

open MarketData.Wire MarketData.Book

/-! ## The orders that are met -/

/-- The orders an aggressor can fill against, in the order in which it meets them. -/
def met (side : Side) (price : Int64) (os : List RestingOrder) : List RestingOrder :=
  (Arrivals.walk os (opposite side)).filter (meets side price)

/-- They are on the book in that order. -/
def meeting (b : ReferenceBook) (side : Side) (price : Int64) : List RestingOrder :=
  (b.ordersInQueueOrder (opposite side)).filter (meets side price)

/-- What the first `n` of the orders offer. -/
def firstOffer (n : Nat) (os : List RestingOrder) : Nat :=
  ((os.take n).map fun o => o.quantity.toNat).sum

section

variable {side : Side} {price : Int64} {os : List RestingOrder} {b : ReferenceBook}

theorem meeting_eq (h : Reps b os) : meeting b side price = met side price os := by
  unfold meeting met Arrivals.walk
  rw [show b.ordersInQueueOrder (opposite side) = _ from h.shows.forEachOrder (opposite side)]

theorem side_of_mem_walk {s : Side} {o : RestingOrder} (h : o ∈ Arrivals.walk os s) :
    o ∈ os ∧ o.side = s := by
  have hmem := (Arrivals.levels_perm os s).mem_iff.mp h
  exact ⟨(List.mem_filter.mp hmem).1, of_decide_eq_true (List.mem_filter.mp hmem).2⟩

/-- Where the front does not cross, nothing is met. -/
theorem met_eq_nil (h : ∀ best orderId, Arrivals.front os (opposite side) = some (best, orderId) →
    crosses side price best = false) : met side price os = [] := by
  refine List.filter_eq_nil_iff.mpr fun o ho hmeets => ?_
  rw [meets_of_front h (side_of_mem_walk ho).1] at hmeets
  cases hmeets

/-- Where it does, the front is met first, and the others stay when it is taken off. -/
theorem met_eq_cons (hvalid : Arrivals.Valid os) {best : Int64} {orderId : UInt64}
    (hfront : Arrivals.front os (opposite side) = some (best, orderId))
    (hcrosses : crosses side price best = true) :
    ∃ resting rest, met side price os = resting :: rest ∧ resting ∈ os ∧
      resting.orderId = orderId ∧ resting.price = best ∧
      met side price (Arrivals.without os orderId) = rest := by
  rw [Arrivals.front_eq_head] at hfront
  cases hwalk : Arrivals.walk os (opposite side) with
  | nil =>
    rw [hwalk] at hfront
    cases hfront
  | cons resting w =>
    rw [hwalk] at hfront
    obtain ⟨rfl, rfl⟩ := Prod.mk.inj (Option.some.inj hfront)
    obtain ⟨hmem, hside⟩ := side_of_mem_walk (hwalk ▸ List.mem_cons_self : resting ∈ _)
    have hmeets : meets side price resting = true := by
      rw [meets, decide_eq_true hside, hcrosses]
      rfl
    have hothers : ∀ o ∈ w, o.orderId ≠ resting.orderId := by
      have hids : ((Arrivals.walk os (opposite side)).map (·.orderId)).Nodup := by
        refine ((Arrivals.levels_perm os (opposite side)).map _).nodup_iff.mpr ?_
        exact hvalid.ids.sublist (List.filter_sublist.map _)
      rw [hwalk, List.map_cons, List.nodup_cons] at hids
      exact fun o ho heq => hids.1 (List.mem_map.mpr ⟨o, ho, heq⟩)
    refine ⟨resting, w.filter (meets side price), ?_, hmem, rfl, rfl, ?_⟩
    · rw [met, hwalk, List.filter_cons_of_pos hmeets]
    · have hw : w.filter (fun o => o.orderId ≠ resting.orderId) = w :=
        List.filter_eq_self.mpr fun o ho => by simpa using hothers o ho
      rw [met, Arrivals.walk_without, hwalk, List.filter_cons_of_neg (by simp), hw]

theorem firstOffer_cons (n : Nat) (o : RestingOrder) (os : List RestingOrder) :
    firstOffer (n + 1) (o :: os) = o.quantity.toNat + firstOffer n os := by
  simp [firstOffer]

end

/-! ## The fills -/

/-- `fills` take `quantity` down to `left`, each some of it, and each says what is then left. -/
inductive Taken : UInt32 → List Fill → UInt32 → Prop where
  | nil (quantity : UInt32) : Taken quantity [] quantity
  | cons {quantity left : UInt32} {f : Fill} {fills : List Fill} (hpos : f.quantity ≠ 0)
      (hle : f.quantity.toNat ≤ quantity.toNat) (hleaves : f.leaves = quantity - f.quantity)
      (hrest : Taken f.leaves fills left) : Taken quantity (f :: fills) left

/-- The sum of what is taken. -/
def sumQuantity (fills : List Fill) : Nat := (fills.map fun f => f.quantity.toNat).sum

theorem Taken.sum {quantity left : UInt32} {fills : List Fill} (h : Taken quantity fills left) :
    sumQuantity fills + left.toNat = quantity.toNat := by
  induction h with
  | nil quantity => exact Nat.zero_add _
  | cons hpos hle hleaves hrest ih =>
    rename_i quantity left f fills
    rw [hleaves, UInt32.toNat_sub_of_le _ _ (UInt32.le_iff_toNat_le.mpr hle)] at ih
    show f.quantity.toNat + sumQuantity fills + _ = _
    omega

theorem Taken.of_nil {quantity left : UInt32} (h : Taken quantity [] left) : left = quantity := by
  cases h
  rfl

/-- Of nothing, nothing is taken. -/
theorem Taken.eq_nil {quantity left : UInt32} {fills : List Fill} (h : Taken quantity fills left)
    (hzero : quantity = 0) : fills = [] := by
  cases h with
  | nil => rfl
  | cons hpos hle =>
    rw [hzero, UInt32.toNat_zero] at hle
    exact absurd (UInt32.toNat_inj.mp (Nat.le_zero.mp hle)) hpos

/-- The last fill says what is left in the end. -/
theorem Taken.last {quantity left : UInt32} {fills : List Fill} (h : Taken quantity fills left)
    {f : Fill} (hf : fills.getLast? = some f) : f.leaves = left := by
  induction h with
  | nil quantity => cases hf
  | cons hpos hle hleaves hrest ih =>
    rename_i quantity left g fills
    cases fills with
    | nil =>
      cases hf
      cases hrest
      rfl
    | cons g' fills =>
      rw [List.getLast?_cons_cons] at hf
      exact ih hf

/-- A part of the fills takes less. -/
theorem Taken.sum_take_lt {quantity left : UInt32} {fills : List Fill} (h : Taken quantity fills left)
    {n : Nat} (hn : n < fills.length) : sumQuantity (fills.take n) < sumQuantity fills := by
  induction h generalizing n with
  | nil quantity => exact absurd hn (Nat.not_lt_zero _)
  | cons hpos hle hleaves hrest ih =>
    rename_i quantity left f fills
    have hpos : 0 < f.quantity.toNat := by
      rw [Nat.pos_iff_ne_zero]
      exact fun hzero => hpos (UInt32.toNat_inj.mp hzero)
    cases n with
    | zero =>
      show 0 < f.quantity.toNat + sumQuantity fills
      omega
    | succ n =>
      have hrest := ih (Nat.lt_of_succ_lt_succ hn)
      show f.quantity.toNat + sumQuantity (fills.take n) < f.quantity.toNat + sumQuantity fills
      omega

namespace Exchange

variable {env : Env} {x x' : Exchange} {o : Aggressor} {os : List RestingOrder}

/-- **One turn of the loop**: nothing is met, or the first order that is met is filled against. -/
theorem matchTurn_cases {remaining : UInt32} {turn : Option (UInt32 × Fill)}
    (hreps : Reps (x.engine.books.book o.symbolId) os)
    (h : x.matchTurn env o remaining = .ok (x', turn)) :
    (turn = none ∧ x' = x.mapEngine (fun e => e.getOrCreate o.symbolId) ∧
      met o.side o.price os = []) ∨
    ∃ resting rest remaining' fill, turn = some (remaining', fill) ∧
      met o.side o.price os = resting :: rest ∧ resting ∈ os ∧
      met o.side o.price (Arrivals.without os resting.orderId) = rest ∧
      (x.mapEngine fun e => e.getOrCreate o.symbolId).fillResting env o resting.price
        resting.orderId resting remaining = .ok (x', remaining', fill) := by
  have hcreated := reps_getOrCreate hreps
  unfold matchTurn at h
  dsimp only at h
  rw [hcreated.front_eq] at h
  split at h
  · rename_i hfront
    cases h
    refine .inl ⟨rfl, rfl, met_eq_nil fun best orderId hsome => ?_⟩
    rw [hfront] at hsome
    cases hsome
  rename_i best restingId hfront
  split at h
  · rename_i hcrosses
    obtain ⟨resting, rest, hmet, hmem, rfl, rfl, hrest⟩ :=
      met_eq_cons hreps.valid hfront hcrosses
    rw [hcreated.get_of_mem hmem] at h
    obtain ⟨⟨x₂, remaining₂, fill⟩, hfill, h⟩ := bind_eq_ok h
    cases h
    exact .inr ⟨resting, rest, remaining₂, fill, rfl, hmet, hmem, hrest, hfill⟩
  · rename_i hcrosses
    cases h
    refine .inl ⟨rfl, rfl, met_eq_nil fun best' orderId hsome => ?_⟩
    rw [hfront] at hsome
    cases hsome
    exact (Bool.not_eq_true _).mp hcrosses

/-- What the turn makes of the book. -/
theorem matchTurn_met {remaining : UInt32} {turn : Option (UInt32 × Fill)}
    (hreps : Reps (x.engine.books.book o.symbolId) os)
    (h : x.matchTurn env o remaining = .ok (x', turn)) :
    (turn = none ∧ met o.side o.price os = []) ∨
    ∃ resting rest remaining' fill os', turn = some (remaining', fill) ∧
      met o.side o.price os = resting :: rest ∧ resting ∈ os ∧
      met o.side o.price (Arrivals.without os resting.orderId) = rest ∧
      fill.quantity = min remaining resting.quantity ∧ fill.leaves = remaining' ∧
      remaining' = remaining - fill.quantity ∧ Reps (x'.engine.books.book o.symbolId) os' ∧
      Filled os resting remaining remaining' os' := by
  rcases matchTurn_cases hreps h with ⟨hturn, -, hmet⟩ |
    ⟨resting, rest, remaining', fill, hturn, hmet, hmem, hrest, hfill⟩
  · exact .inl ⟨hturn, hmet⟩
  · obtain ⟨hquantity, hleaves, os', hreps', hfilled⟩ :=
      fillResting_filled (reps_getOrCreate hreps) hmem hfill
    refine .inr ⟨resting, rest, remaining', fill, os', hturn, hmet, hmem, hrest, hquantity,
      hleaves, ?_, hreps', hfilled⟩
    obtain ⟨x₃, -, hfill⟩ := bind_eq_ok hfill
    obtain ⟨x₄, -, hfill⟩ := bind_eq_ok hfill
    cases hfill
    rfl

/-- **The fills account for what is taken**, and there are as many of them as orders are needed:
at most `n` just where the first `n` orders that are met offer enough, or are all that is met. -/
theorem matchLoop_count {fuel : Nat} {remaining remaining' : UInt32} {fills : List Fill}
    (hreps : Reps (x.engine.books.book o.symbolId) os)
    (hfuel : (x.engine.books.book o.symbolId).len < fuel)
    (h : matchLoop env o fuel x remaining = .ok (x', remaining', fills)) :
    Taken remaining fills remaining' ∧ ∀ n, fills.length ≤ n ↔
      remaining.toNat ≤ firstOffer n (met o.side o.price os) ∨
        (met o.side o.price os).length ≤ n := by
  induction fuel generalizing x remaining fills os with
  | zero => exact absurd hfuel (Nat.not_lt_zero _)
  | succ fuel ih =>
    unfold matchLoop at h
    split at h
    · rename_i hzero
      cases h
      refine ⟨.nil _, fun n => iff_of_true (Nat.zero_le _) (.inl ?_)⟩
      rw [hzero]
      exact Nat.zero_le _
    rename_i hpos
    obtain ⟨⟨x₁, turn⟩, hturn, h⟩ := bind_eq_ok h
    have hshrinks := @matchTurn_shrinks env x x₁ o remaining
    rcases matchTurn_met hreps hturn with ⟨rfl, hmet⟩ |
      ⟨resting, rest, remaining₁, fill, os', rfl, hmet, hmem, hrest, hquantity, hleaves, hleft, hreps',
        hfilled⟩
    · cases h
      refine ⟨.nil _, fun n => iff_of_true (Nat.zero_le _) (.inr ?_)⟩
      rw [hmet]
      exact Nat.zero_le _
    obtain ⟨⟨x₂, remaining₂, fills₂⟩, hloop, h⟩ := bind_eq_ok h
    cases h
    have hmin : fill.quantity.toNat = min remaining.toNat resting.quantity.toNat := by
      rw [hquantity, toNat_min]
    have hremaining : 0 < remaining.toNat := by
      rw [Nat.pos_iff_ne_zero]
      exact fun hzero => hpos (UInt32.toNat_inj.mp hzero)
    have hresting : 0 < resting.quantity.toNat := by
      rw [Nat.pos_iff_ne_zero]
      exact fun hzero => hreps.valid.quantities resting hmem (UInt32.toNat_inj.mp hzero)
    have htaken : ∀ left, Taken remaining₁ fills₂ left → Taken remaining (fill :: fills₂) left := by
      intro left hrest
      refine .cons ?_ (by omega) (hleaves.trans hleft) (hleaves ▸ hrest)
      intro hzero
      rw [hzero, UInt32.toNat_zero] at hmin
      omega
    rw [hmet]
    -- Where the order is used up the loop is over.
    have hdone : remaining₁ = 0 → remaining' = 0 ∧ fills₂ = [] := by
      intro hzero
      rw [hzero, matchLoop_done] at hloop
      cases hloop
      exact ⟨rfl, rfl⟩
    cases hfilled with
    | part hlt hsmaller hused =>
      have hzero : remaining₁ = 0 := UInt32.toNat_inj.mp hused
      obtain ⟨rfl, rfl⟩ := hdone hzero
      refine ⟨htaken 0 (hzero ▸ .nil remaining₁), fun n => ?_⟩
      cases n with
      | zero =>
        refine iff_of_false (by simp) ?_
        rintro (hle | hle)
        · exact absurd hle (Nat.not_le_of_gt hremaining)
        · exact absurd hle (by simp)
      | succ n =>
        refine iff_of_true (Nat.succ_le_succ (Nat.zero_le _)) (.inl ?_)
        rw [firstOffer_cons]
        omega
    | all hle hless =>
      have hloop' : Taken remaining₁ fills₂ remaining' ∧ ∀ n, fills₂.length ≤ n ↔
          remaining₁.toNat ≤ firstOffer n rest ∨ rest.length ≤ n := by
        rcases hshrinks hturn with hzero | hlen
        · obtain ⟨rfl, rfl⟩ := hdone hzero
          have hzero : remaining₁ = 0 := hzero
          rw [hzero]
          exact ⟨.nil 0, fun n => iff_of_true (Nat.zero_le _) (.inl (Nat.zero_le _))⟩
        · have hih := ih hreps' (by omega) hloop
          rwa [hrest] at hih
      refine ⟨htaken _ hloop'.1, fun n => ?_⟩
      cases n with
      | zero =>
        refine iff_of_false (by simp) ?_
        rintro (hle | hle)
        · exact absurd hle (Nat.not_le_of_gt hremaining)
        · exact absurd hle (by simp)
      | succ n =>
        rw [firstOffer_cons, List.length_cons, List.length_cons, Nat.add_le_add_iff_right,
          Nat.add_le_add_iff_right, hloop'.2 n]
        refine or_congr ?_ Iff.rfl
        omega

/-- What a submitted order comes to. -/
theorem submitReported_count {symbolId : UInt16} {side : Side} {price : Int64} {quantity : UInt32}
    {generatorMayRecycle : Bool} {outcome : SubmitOutcome} {fills : List Fill}
    (hreps : Reps (x.engine.books.book symbolId) os)
    (h : x.submitReported env symbolId side price quantity generatorMayRecycle =
      .ok (x', outcome, fills)) :
    Taken quantity fills outcome.resting ∧ outcome.filled = quantity - outcome.resting ∧
      ∀ n, fills.length ≤ n ↔
        quantity.toNat ≤ firstOffer n (meeting (x.engine.books.book symbolId) side price) ∨
          (meeting (x.engine.books.book symbolId) side price).length ≤ n := by
  obtain ⟨⟨x₁, remaining, fills₁⟩, hloop, h⟩ := bind_eq_ok h
  obtain ⟨x₂, hrest, h⟩ := bind_eq_ok h
  cases h
  obtain ⟨htaken, hcount⟩ := matchLoop_count hreps (Nat.lt_succ_self _) hloop
  refine ⟨htaken, rfl, ?_⟩
  rw [meeting_eq hreps]
  exact hcount

end Exchange

end MarketData.Matching
