import MarketData.Gateway.OrderRouter
import Mathlib.Data.List.Nodup

/-!
# `Gateway/Divergence.lean` — what a reconciliation says

`finish_reconciliation` goes through the log and looks for every order among the lines of the
engine's answer that no order has taken yet. Where no two orders of the log go by one exchange id,
an order the answer names is found (`compare_gatewayOnly`), and where no two lines do either, no
order is listed twice (`entries_nodup`). Then, too, every order gets one entry and the right one
(`finish_classifies`).

## The answer as a set, and as a list that is used up

The loop takes lines out of the answer as it goes, so what an order finds depends on the orders
before it. A reader of the report wants neither: whether an order is alike, differs or is missing is
a matter of what the answer says of its id. `Classified` is stated over the whole answer, `compare`
works on what is left of it, and `compare_classified` carries both at once: `view` is the answer,
`lines` what the orders still to come may find. **That two orders of the log never go by one id is
what keeps the two apart**: no line an order needs is gone before its turn.

An id of zero is no id. An order that has not been acknowledged has none, and `ids` leaves it out;
such orders are pending, and say nothing about whether the two sides agree.

What the answer itself is worth, whether its lines are all there and belong to this request, is not
asked here. That is `Matching/Answers.lean`.
-/

set_option autoImplicit false

namespace MarketData.Gateway

namespace Divergence

def count (d : Divergence) (k : DivergenceKind) : Nat := d.entries.countP fun e => e.kind = k

/-- True when every order matched on both sides. -/
def clean (d : Divergence) : Bool := d.complete && d.count .agree = d.entries.length

theorem clean_iff (d : Divergence) :
    d.clean = true ↔ d.complete = true ∧ ∀ e ∈ d.entries, e.kind = .agree := by
  unfold clean count
  simp [List.countP_eq_length]

end Divergence

namespace OrderRouter

abbrev View := List (DivergenceEntry × Bool)

/-- A line about the order is still to be had. -/
def Open (x : UInt64) (view : View) : Prop := ∃ e, (e, false) ∈ view ∧ e.exchangeOrderId = x

theorem takeMatch_none {x : UInt64} {view : View} (h : takeMatch x view = none) : ¬ Open x view := by
  induction view with
  | nil =>
    rintro ⟨e, he, -⟩
    cases he
  | cons head view ih =>
    obtain ⟨e, matched⟩ := head
    unfold takeMatch at h
    split at h
    · cases h
    · rename_i hmiss
      rw [Option.map_eq_none_iff] at h
      rintro ⟨e', he', hx⟩
      rcases List.mem_cons.mp he' with heq | hmem
      · obtain ⟨rfl, rfl⟩ := Prod.mk.inj heq
        simp [hx] at hmiss
      · exact ih h ⟨e', hmem, hx⟩

/-- The line that is found is marked and nothing else changes. -/
theorem takeMatch_some {x : UInt64} {view view' : View} {hit : DivergenceEntry}
    (h : takeMatch x view = some (hit, view')) :
    hit.exchangeOrderId = x ∧ ∃ as bs, view = as ++ (hit, false) :: bs ∧
      view' = as ++ (hit, true) :: bs := by
  induction view generalizing view' with
  | nil => cases h
  | cons head view ih =>
    obtain ⟨e, matched⟩ := head
    unfold takeMatch at h
    split at h
    · rename_i hfound
      simp only [Bool.and_eq_true, Bool.not_eq_true', decide_eq_true_eq] at hfound
      obtain ⟨rfl, hx⟩ := hfound
      cases h
      exact ⟨hx, [], view, rfl, rfl⟩
    · obtain ⟨⟨hit', rest⟩, hrest, heq⟩ := Option.map_eq_some_iff.mp h
      cases heq
      obtain ⟨hx, as, bs, hview, hview'⟩ := ih hrest
      refine ⟨hx, (e, matched) :: as, bs, ?_, ?_⟩
      · rw [hview, List.cons_append]
      · rw [hview', List.cons_append]

/-- What taking a line for one order does to the others. -/
theorem open_takeMatch {x y : UInt64} {view view' : View} {hit : DivergenceEntry}
    (h : takeMatch x view = some (hit, view')) :
    (Open y view' → Open y view) ∧ (y ≠ x → Open y view → Open y view') := by
  obtain ⟨hx, as, bs, rfl, rfl⟩ := takeMatch_some h
  constructor
  · rintro ⟨e, he, hy⟩
    refine ⟨e, ?_, hy⟩
    simp only [List.mem_append, List.mem_cons, Prod.mk.injEq, Bool.false_eq_true, and_false,
      false_or] at he ⊢
    rcases he with he | he
    · exact .inl he
    · exact .inr (.inr he)
  · rintro hne ⟨e, he, hy⟩
    refine ⟨e, ?_, hy⟩
    simp only [List.mem_append, List.mem_cons, Prod.mk.injEq, Bool.false_eq_true, and_false,
      and_true, false_or] at he ⊢
    rcases he with he | rfl | he
    · exact .inl he
    · exact absurd (hy.symm.trans hx) hne
    · exact .inr he

theorem map_fst_takeMatch {x : UInt64} {view view' : View} {hit : DivergenceEntry}
    (h : takeMatch x view = some (hit, view')) : view'.map Prod.fst = view.map Prod.fst := by
  obtain ⟨-, as, bs, rfl, rfl⟩ := takeMatch_some h
  simp

/-- The only line about an order is taken for it. -/
theorem not_open_takeMatch {x : UInt64} {view view' : View} {hit : DivergenceEntry}
    (hview : (view.map fun e => e.1.exchangeOrderId).Nodup)
    (h : takeMatch x view = some (hit, view')) : ¬ Open x view' := by
  obtain ⟨hx, as, bs, rfl, rfl⟩ := takeMatch_some h
  rw [List.map_append, List.map_cons, List.nodup_append, List.nodup_cons] at hview
  obtain ⟨-, ⟨hbs, -⟩, has⟩ := hview
  rintro ⟨e, he, hy⟩
  simp only [List.mem_append, List.mem_cons, Prod.mk.injEq, Bool.false_eq_true, and_false,
    false_or] at he
  rcases he with he | he
  · exact has _ (List.mem_map_of_mem he) _ (List.mem_cons_self ..) (hy.trans hx.symm)
  · exact hbs (List.mem_map.mpr ⟨_, he, hy.trans hx.symm⟩)

/-- The ids of the log that are set. -/
def ids (live : List OrderRecord) : List UInt64 :=
  (live.map OrderRecord.exchangeOrderId).filter (· ≠ 0)

/-- One step of `compare`. -/
theorem compare_cons (mine : OrderRecord) (rest : List OrderRecord) (view : View) :
    ∃ e view', compare (mine :: rest) view = (e :: (compare rest view').1, (compare rest view').2) ∧
      e.exchangeOrderId = mine.exchangeOrderId ∧
      ((e.kind = .gatewayOnly ∧ view' = view ∧
          (mine.exchangeOrderId = 0 ∨ ¬ Open mine.exchangeOrderId view)) ∨
        (e.kind ≠ .gatewayOnly ∧ mine.exchangeOrderId ≠ 0 ∧
          ∃ hit, takeMatch mine.exchangeOrderId view = some (hit, view'))) := by
  rw [compare]
  dsimp only
  split
  · rename_i hnone
    refine ⟨⟨.gatewayOnly, mine.clientOrderId, mine.exchangeOrderId, mine.leavesQuantity, 0,
      mine.symbolId⟩, view, rfl, rfl, .inl ⟨rfl, rfl, ?_⟩⟩
    by_cases hzero : mine.exchangeOrderId = 0
    · exact .inl hzero
    · rw [if_pos hzero] at hnone
      exact .inr (takeMatch_none hnone)
  · rename_i hit view' hsome
    have hset : mine.exchangeOrderId ≠ 0 := by
      intro hzero
      rw [if_neg (by simpa using hzero)] at hsome
      cases hsome
    rw [if_pos hset] at hsome
    refine ⟨⟨if hit.engineLeaves = mine.leavesQuantity then .agree else .leavesDiffer,
      mine.clientOrderId, mine.exchangeOrderId, mine.leavesQuantity, hit.engineLeaves,
      mine.symbolId⟩, view', rfl, rfl, .inr ⟨?_, hset, hit, hsome⟩⟩
    dsimp only
    split
    · exact fun h => (nomatch h)
    · exact fun h => (nomatch h)

theorem compare_ids (live : List OrderRecord) (view : View) :
    (compare live view).1.map DivergenceEntry.exchangeOrderId =
      live.map OrderRecord.exchangeOrderId := by
  induction live generalizing view with
  | nil => rfl
  | cons mine rest ih =>
    obtain ⟨e, view', heq, he, -⟩ := compare_cons mine rest view
    rw [heq, List.map_cons, List.map_cons, he, ih]

theorem compare_view (live : List OrderRecord) (view : View) :
    (compare live view).2.map Prod.fst = view.map Prod.fst := by
  induction live generalizing view with
  | nil => rfl
  | cons mine rest ih =>
    obtain ⟨e, view', heq, -, ⟨-, rfl, -⟩ | ⟨-, -, hit, htake⟩⟩ := compare_cons mine rest view
    · rw [heq]
      exact ih _
    · rw [heq, ← map_fst_takeMatch htake]
      exact ih _

/-- An order of the log that the answer names is not said to be the gateway's alone. -/
theorem compare_gatewayOnly {live : List OrderRecord} (hlive : (ids live).Nodup) {view : View}
    {e : DivergenceEntry} (he : e ∈ (compare live view).1) (hkind : e.kind = .gatewayOnly) :
    e.exchangeOrderId = 0 ∨ ¬ Open e.exchangeOrderId view := by
  induction live generalizing view with
  | nil => cases he
  | cons mine rest ih =>
    have hrest : (ids rest).Nodup := by
      unfold ids at hlive ⊢
      rw [List.map_cons, List.filter_cons] at hlive
      split at hlive
      · exact (List.nodup_cons.mp hlive).2
      · exact hlive
    obtain ⟨e', view', heq, hid, hcase⟩ := compare_cons mine rest view
    rw [heq] at he
    rcases List.mem_cons.mp he with rfl | hmem
    · rw [hid]
      rcases hcase with ⟨-, -, h⟩ | ⟨hne, -⟩
      · exact h
      · exact absurd hkind hne
    · rcases hcase with ⟨-, rfl, -⟩ | ⟨-, hset, hit, htake⟩
      · exact ih hrest hmem
      · refine (ih hrest hmem).imp_right fun hopen hopen' => hopen ?_
        by_cases hzero : e.exchangeOrderId = 0
        · -- An order without an id takes nothing from one with an id.
          exact (open_takeMatch htake).2 (fun h => hset (h.symm.trans hzero)) hopen'
        · refine (open_takeMatch htake).2 ?_ hopen'
          intro hsame
          have hin : e.exchangeOrderId ∈ ids rest := by
            refine List.mem_filter.mpr ⟨?_, by simpa using hzero⟩
            rw [← compare_ids rest view']
            exact List.mem_map_of_mem hmem
          unfold ids at hlive hin
          rw [List.map_cons, List.filter_cons, if_pos (by simpa using hset),
            List.nodup_cons] at hlive
          exact hlive.1 (hsame ▸ hin)

/-- What is left of the answer does not name an order of the log. -/
theorem compare_left {live : List OrderRecord} {view : View}
    (hview : (view.map fun e => e.1.exchangeOrderId).Nodup) {x : UInt64}
    (h : Open x (compare live view).2) : Open x view ∧ x ∉ ids live := by
  induction live generalizing view with
  | nil => exact ⟨h, List.not_mem_nil⟩
  | cons mine rest ih =>
    obtain ⟨e', view', heq, -, hcase⟩ := compare_cons mine rest view
    rw [heq] at h
    have hcons : x ∉ ids rest → (mine.exchangeOrderId ≠ 0 → x ≠ mine.exchangeOrderId) →
        x ∉ ids (mine :: rest) := by
      intro hrest hmine hmem
      unfold ids at hmem hrest
      rw [List.map_cons, List.filter_cons] at hmem
      split at hmem
      · rename_i hset
        rcases List.mem_cons.mp hmem with rfl | hmem
        · exact hmine (by simpa using hset) rfl
        · exact hrest hmem
      · exact hrest hmem
    rcases hcase with ⟨-, rfl, hnone⟩ | ⟨-, -, hit, htake⟩
    · obtain ⟨hopen, hrest⟩ := ih hview h
      refine ⟨hopen, hcons hrest ?_⟩
      rintro hset rfl
      exact hnone.elim hset fun hclosed => hclosed hopen
    · have hview' : (view'.map fun e => e.1.exchangeOrderId).Nodup := by
        have hfst := congrArg (List.map DivergenceEntry.exchangeOrderId) (map_fst_takeMatch htake)
        rw [List.map_map, List.map_map] at hfst
        exact (congrArg List.Nodup hfst).mpr hview
      obtain ⟨hopen, hrest⟩ := ih hview' h
      refine ⟨(open_takeMatch htake).1 hopen, hcons hrest ?_⟩
      rintro - rfl
      exact not_open_takeMatch hview htake hopen

/-! ## What is said at the end -/

section

variable {g : OrderRouter} (hentries : g.divergence.entries = []) (hlive : (ids g.store.live).Nodup)

include hentries hlive

/-- **An order that is named is not said to be the gateway's alone.** -/
theorem finish_named {e : DivergenceEntry} (he : e ∈ g.finishReconciliation.divergence.entries)
    (hkind : e.kind = .gatewayOnly) :
    e.exchangeOrderId = 0 ∨ ∀ v ∈ g.engineView, v.exchangeOrderId ≠ e.exchangeOrderId := by
  have he' : e ∈ g.divergence.entries ++ (compare g.store.live (g.engineView.map fun e => (e, false))).1
      ++ ((compare g.store.live (g.engineView.map fun e => (e, false))).2.filter fun e => !e.2).map
        fun e => { e.1 with kind := .engineOnly } := he
  rw [hentries, List.nil_append] at he'
  rcases List.mem_append.mp he' with hmem | hmem
  · refine (compare_gatewayOnly hlive hmem hkind).imp_right fun hopen v hv heq => hopen ?_
    exact ⟨v, List.mem_map.mpr ⟨v, hv, rfl⟩, heq⟩
  · obtain ⟨left, -, rfl⟩ := List.mem_map.mp hmem
    cases hkind

/-- **No order is listed twice**, where the answer does not name one twice. -/
theorem finish_once (hview : (g.engineView.map DivergenceEntry.exchangeOrderId).Nodup) :
    ((g.finishReconciliation.divergence.entries.map
      DivergenceEntry.exchangeOrderId).filter (· ≠ 0)).Nodup := by
  show ((List.map DivergenceEntry.exchangeOrderId (g.divergence.entries ++
      (compare g.store.live (g.engineView.map fun e => (e, false))).1 ++
      ((compare g.store.live (g.engineView.map fun e => (e, false))).2.filter fun e => !e.2).map
        fun e => { e.1 with kind := .engineOnly })).filter (· ≠ 0)).Nodup
  have hview' : ((g.engineView.map fun e => (e, false)).map
      fun e => e.1.exchangeOrderId).Nodup := by
    rw [List.map_map]
    exact hview
  have hfst := congrArg (List.map DivergenceEntry.exchangeOrderId)
    (compare_view g.store.live (g.engineView.map fun e => (e, false)))
  have hleft := @compare_left g.store.live _ hview'
  have hids := compare_ids g.store.live (g.engineView.map fun e => (e, false))
  generalize compare g.store.live (g.engineView.map fun e => (e, false)) = r at hfst hleft hids ⊢
  rw [hentries, List.nil_append, List.map_append, List.map_map, List.filter_append, hids]
  rw [List.map_map] at hfst
  refine List.nodup_append.mpr ⟨hlive, ?_, ?_⟩
  · refine List.Nodup.sublist (List.filter_sublist.trans (List.filter_sublist.map _)) ?_
    rw [show (DivergenceEntry.exchangeOrderId ∘ fun e : DivergenceEntry × Bool =>
      { e.1 with kind := .engineOnly }) = DivergenceEntry.exchangeOrderId ∘ Prod.fst from rfl, hfst,
      List.map_map]
    exact hview'
  · intro x hx y hy hxy
    obtain ⟨left, hmem, rfl⟩ := List.mem_map.mp (List.mem_filter.mp hy).1
    obtain ⟨hin, hopen⟩ := List.mem_filter.mp hmem
    obtain ⟨e, matched⟩ := left
    simp only [Bool.not_eq_true'] at hopen
    subst hopen
    have hxe : x = e.exchangeOrderId := hxy
    exact (hleft ⟨e, hin, rfl⟩).2 (hxe ▸ hx)

end

/-! ## Every order once

The lines an order of the log finds are those the answer came with: no two orders of the log go by
one id, so no line is gone before its order is looked for. -/

/-- The line that is found is the one that changes, and every line of that id is taken then. -/
theorem takeMatch_view {x : UInt64} {view view' : View} {hit : DivergenceEntry}
    (hview : (view.map fun e => e.1.exchangeOrderId).Nodup)
    (h : takeMatch x view = some (hit, view')) :
    view' = view.map fun e => (e.1, e.2 || decide (e.1.exchangeOrderId = x)) := by
  obtain ⟨hx, as, bs, rfl, rfl⟩ := takeMatch_some h
  rw [List.map_append, List.map_cons, List.nodup_append, List.nodup_cons] at hview
  obtain ⟨-, ⟨hbs, -⟩, has⟩ := hview
  have hother : ∀ es : View, (∀ e ∈ es, e.1.exchangeOrderId ≠ x) →
      es.map (fun e => (e.1, e.2 || decide (e.1.exchangeOrderId = x))) = es := by
    intro es hes
    refine (List.map_congr_left fun e he => ?_).trans (List.map_id es)
    rw [decide_eq_false (hes e he), Bool.or_false]
    rfl
  rw [List.map_append, List.map_cons, hother as, hother bs]
  · simp [hx]
  · intro e he heq
    exact hbs (List.mem_map.mpr ⟨e, he, heq.trans hx.symm⟩)
  · intro e he heq
    exact has _ (List.mem_map_of_mem he) _ (List.mem_cons_self ..) (heq.trans hx.symm)

/-- An id that finds no line has none to take. -/
theorem view_of_not_open {x : UInt64} {view : View} (h : ¬ Open x view) :
    view = view.map fun e => (e.1, e.2 || decide (e.1.exchangeOrderId = x)) := by
  refine ((List.map_congr_left fun e he => ?_).trans (List.map_id view)).symm
  obtain ⟨e, matched⟩ := e
  cases matched with
  | true => rfl
  | false =>
    have hne : e.exchangeOrderId ≠ x := fun heq => h ⟨e, he, heq⟩
    simp [hne]

/-- What an order of the log is said to be, by what the answer says of its id. -/
structure Classified (view : List DivergenceEntry) (mine : OrderRecord) (e : DivergenceEntry) :
    Prop where
  clientOrderId : e.clientOrderId = mine.clientOrderId
  exchangeOrderId : e.exchangeOrderId = mine.exchangeOrderId
  gatewayLeaves : e.gatewayLeaves = mine.leavesQuantity
  symbolId : e.symbolId = mine.symbolId
  agree : e.kind = .agree ↔ mine.exchangeOrderId ≠ 0 ∧ ∃ v ∈ view,
    v.exchangeOrderId = mine.exchangeOrderId ∧ v.engineLeaves = mine.leavesQuantity
  leavesDiffer : e.kind = .leavesDiffer ↔ mine.exchangeOrderId ≠ 0 ∧ ∃ v ∈ view,
    v.exchangeOrderId = mine.exchangeOrderId ∧ v.engineLeaves ≠ mine.leavesQuantity
  gatewayOnly : e.kind = .gatewayOnly ↔ mine.exchangeOrderId = 0 ∨ ∀ v ∈ view,
    v.exchangeOrderId ≠ mine.exchangeOrderId
  engineOnly : e.kind ≠ .engineOnly

/-- An order without an id, or with one the answer does not name. -/
theorem classified_alone {view : List DivergenceEntry} {mine : OrderRecord}
    (h : mine.exchangeOrderId = 0 ∨ ∀ v ∈ view, v.exchangeOrderId ≠ mine.exchangeOrderId) :
    Classified view mine ⟨.gatewayOnly, mine.clientOrderId, mine.exchangeOrderId,
      mine.leavesQuantity, 0, mine.symbolId⟩ := by
  have hnone : ∀ p : DivergenceEntry → Prop, ¬ (mine.exchangeOrderId ≠ 0 ∧
      ∃ v ∈ view, v.exchangeOrderId = mine.exchangeOrderId ∧ p v) := by
    rintro p ⟨hset, v, hv, heq, -⟩
    exact h.elim hset fun hno => hno v hv heq
  exact ⟨rfl, rfl, rfl, rfl, iff_of_false nofun (hnone _), iff_of_false nofun (hnone _),
    iff_of_true rfl h, nofun⟩

/-- An order whose line is there. No other line is about it. -/
theorem classified_hit {view : List DivergenceEntry}
    (hview : (view.map DivergenceEntry.exchangeOrderId).Nodup) {mine : OrderRecord}
    (hset : mine.exchangeOrderId ≠ 0) {hit : DivergenceEntry} (hmem : hit ∈ view)
    (hid : hit.exchangeOrderId = mine.exchangeOrderId) :
    Classified view mine ⟨if hit.engineLeaves = mine.leavesQuantity then .agree else .leavesDiffer,
      mine.clientOrderId, mine.exchangeOrderId, mine.leavesQuantity, hit.engineLeaves,
      mine.symbolId⟩ := by
  have honly : ∀ v ∈ view, v.exchangeOrderId = mine.exchangeOrderId → v = hit := fun v hv heq =>
    List.inj_on_of_nodup_map hview hv hmem (heq.trans hid.symm)
  have hsome : ∀ p : DivergenceEntry → Prop, (mine.exchangeOrderId ≠ 0 ∧
      ∃ v ∈ view, v.exchangeOrderId = mine.exchangeOrderId ∧ p v) ↔ p hit := by
    intro p
    constructor
    · rintro ⟨-, v, hv, heq, hp⟩
      exact honly v hv heq ▸ hp
    · intro hp
      exact ⟨hset, hit, hmem, hid, hp⟩
  refine ⟨rfl, rfl, rfl, rfl, ?_, ?_, iff_of_false ?_ ?_, ?_⟩
  · rw [hsome]
    by_cases hleaves : hit.engineLeaves = mine.leavesQuantity <;> simp [hleaves]
  · rw [hsome]
    by_cases hleaves : hit.engineLeaves = mine.leavesQuantity <;> simp [hleaves]
  · by_cases hleaves : hit.engineLeaves = mine.leavesQuantity <;> simp [hleaves]
  · intro h
    exact h.elim hset fun hno => hno hit hmem hid
  · by_cases hleaves : hit.engineLeaves = mine.leavesQuantity <;> simp [hleaves]

theorem mem_ids {live : List OrderRecord} {x : UInt64} :
    x ∈ ids live ↔ x ≠ 0 ∧ ∃ r ∈ live, r.exchangeOrderId = x := by
  simp [ids, and_comm]

theorem nodup_ids_cons {mine : OrderRecord} {rest : List OrderRecord}
    (h : (ids (mine :: rest)).Nodup) :
    (ids rest).Nodup ∧ (mine.exchangeOrderId ≠ 0 → mine.exchangeOrderId ∉ ids rest) := by
  unfold ids at h ⊢
  rw [List.map_cons, List.filter_cons] at h
  split at h
  · exact ⟨(List.nodup_cons.mp h).2, fun _ => (List.nodup_cons.mp h).1⟩
  · rename_i hzero
    exact ⟨h, fun hset => absurd (by simpa using hset) hzero⟩

/-- **Every order of the log gets one entry**, and afterwards just the lines of its ids are taken.
`view` is the answer, `lines` what is left of it when the orders of `live` are still to come. -/
theorem compare_classified {view : List DivergenceEntry}
    (hview : (view.map DivergenceEntry.exchangeOrderId).Nodup) {live : List OrderRecord}
    (hlive : (ids live).Nodup) {lines : View} (hlines : lines.map Prod.fst = view)
    (hopen : ∀ e ∈ lines, e.1.exchangeOrderId ∈ ids live → e.2 = false) :
    List.Forall₂ (Classified view) live (compare live lines).1 ∧
      (compare live lines).2 =
        lines.map fun e => (e.1, e.2 || decide (e.1.exchangeOrderId ∈ ids live)) := by
  induction live generalizing lines with
  | nil =>
    refine ⟨.nil, ?_⟩
    simp [compare, ids]
  | cons mine rest ih =>
    obtain ⟨hrest, hnew⟩ := nodup_ids_cons hlive
    have hnodup : (lines.map fun e => e.1.exchangeOrderId).Nodup := by
      rw [← hlines, List.map_map] at hview
      exact hview
    -- The lines after this order: those of its id are taken.
    have hcons : ∀ x : UInt64, x ∈ ids (mine :: rest) ↔
        (mine.exchangeOrderId ≠ 0 ∧ x = mine.exchangeOrderId) ∨ x ∈ ids rest := by
      intro x
      simp only [mem_ids, List.exists_mem_cons_iff]
      grind
    by_cases hzero : mine.exchangeOrderId = 0
    · have hstep : compare (mine :: rest) lines = (⟨.gatewayOnly, mine.clientOrderId,
          mine.exchangeOrderId, mine.leavesQuantity, 0, mine.symbolId⟩ :: (compare rest lines).1,
          (compare rest lines).2) := by
        rw [compare]
        dsimp only
        rw [if_neg (not_not.mpr hzero)]
      have hsame : ∀ x : UInt64, x ∈ ids (mine :: rest) ↔ x ∈ ids rest := fun x => by
        rw [hcons]
        exact or_iff_right fun h => h.1 hzero
      obtain ⟨hours, htheirs⟩ := ih hrest hlines fun e he hmem => hopen e he ((hsame _).mpr hmem)
      rw [hstep]
      refine ⟨.cons (classified_alone (.inl hzero)) hours, ?_⟩
      simp only [hsame]
      exact htheirs
    · have hnext : ∀ lines' : View,
          lines' = lines.map (fun e => (e.1, e.2 || decide (e.1.exchangeOrderId =
            mine.exchangeOrderId))) →
          List.Forall₂ (Classified view) rest (compare rest lines').1 ∧
            (compare rest lines').2 = lines.map fun e =>
              (e.1, e.2 || decide (e.1.exchangeOrderId ∈ ids (mine :: rest))) := by
        rintro lines' rfl
        have hfst : (lines.map fun e => (e.1, e.2 || decide (e.1.exchangeOrderId =
            mine.exchangeOrderId))).map Prod.fst = view := by
          rw [List.map_map]
          exact hlines
        obtain ⟨hours, htheirs⟩ := ih hrest hfst fun e he hmem => by
          obtain ⟨e', he', rfl⟩ := List.mem_map.mp he
          have hne : e'.1.exchangeOrderId ≠ mine.exchangeOrderId := fun heq =>
            hnew hzero (heq ▸ hmem)
          rw [decide_eq_false hne, Bool.or_false]
          exact hopen e' he' ((hcons _).mpr (.inr hmem))
        refine ⟨hours, htheirs.trans ?_⟩
        rw [List.map_map]
        refine List.map_congr_left fun e _ => ?_
        simp only [Function.comp, hcons, ne_eq, hzero, not_false_eq_true, true_and,
          Bool.decide_or, Bool.or_assoc]
      cases htake : takeMatch mine.exchangeOrderId lines with
      | none =>
        have hclosed := takeMatch_none htake
        have hstep : compare (mine :: rest) lines = (⟨.gatewayOnly, mine.clientOrderId,
            mine.exchangeOrderId, mine.leavesQuantity, 0, mine.symbolId⟩ ::
            (compare rest lines).1, (compare rest lines).2) := by
          rw [compare]
          dsimp only
          rw [if_pos hzero, htake]
        obtain ⟨hours, htheirs⟩ := hnext lines (view_of_not_open hclosed)
        rw [hstep]
        refine ⟨.cons (classified_alone (.inr fun v hv heq => hclosed ?_)) hours, htheirs⟩
        obtain ⟨e, he, rfl⟩ := List.mem_map.mp (hlines ▸ hv)
        have hfalse := hopen e he ((hcons _).mpr (.inl ⟨hzero, heq⟩))
        exact ⟨e.1, hfalse ▸ he, heq⟩
      | some found =>
        obtain ⟨hit, lines'⟩ := found
        have hstep : compare (mine :: rest) lines = (⟨if hit.engineLeaves = mine.leavesQuantity
            then .agree else .leavesDiffer, mine.clientOrderId, mine.exchangeOrderId,
            mine.leavesQuantity, hit.engineLeaves, mine.symbolId⟩ :: (compare rest lines').1,
            (compare rest lines').2) := by
          rw [compare]
          dsimp only
          rw [if_pos hzero, htake]
        obtain ⟨hours, htheirs⟩ := hnext lines' (takeMatch_view hnodup htake)
        obtain ⟨hid, as, bs, hsplit, -⟩ := takeMatch_some htake
        have hmem : hit ∈ view := by
          rw [← hlines, hsplit]
          simp
        rw [hstep]
        exact ⟨.cons (classified_hit hview hzero hmem hid) hours, htheirs⟩

/-- The lines of the answer that are about no order of the log. -/
def unmatched (live : List OrderRecord) (view : List DivergenceEntry) : List DivergenceEntry :=
  view.filter fun v => v.exchangeOrderId ∉ ids live

/-- Both sides hold the same ids with the same leaves, and every order of the log has an id. -/
def Alike (live : List OrderRecord) (view : List DivergenceEntry) : Prop :=
  (∀ r ∈ live, r.exchangeOrderId ≠ 0) ∧ ∀ (x : UInt64) (leaves : UInt32),
    (∃ r ∈ live, r.exchangeOrderId = x ∧ r.leavesQuantity = leaves) ↔
      ∃ v ∈ view, v.exchangeOrderId = x ∧ v.engineLeaves = leaves

theorem alike_iff {live : List OrderRecord} {view : List DivergenceEntry}
    (hview : (view.map DivergenceEntry.exchangeOrderId).Nodup) {ours : List DivergenceEntry}
    (hours : List.Forall₂ (Classified view) live ours) :
    ((∀ e ∈ ours, e.kind = .agree) ∧ unmatched live view = []) ↔ Alike live view := by
  have hall : (∀ e ∈ ours, e.kind = .agree) ↔ ∀ r ∈ live, r.exchangeOrderId ≠ 0 ∧ ∃ v ∈ view,
      v.exchangeOrderId = r.exchangeOrderId ∧ v.engineLeaves = r.leavesQuantity := by
    clear hview
    induction hours with
    | nil => simp
    | cons hr _ ih => rw [List.forall_mem_cons, List.forall_mem_cons, ih, hr.agree]
  have hleft : unmatched live view = [] ↔ ∀ v ∈ view, v.exchangeOrderId ∈ ids live := by
    simp [unmatched, List.filter_eq_nil_iff]
  rw [hall, hleft]
  constructor
  · rintro ⟨hours, htheirs⟩
    refine ⟨fun r hr => (hours r hr).1, fun x leaves => ⟨?_, ?_⟩⟩
    · rintro ⟨r, hr, rfl, rfl⟩
      exact (hours r hr).2
    · rintro ⟨v, hv, rfl, rfl⟩
      obtain ⟨-, r, hr, hid⟩ := mem_ids.mp (htheirs v hv)
      obtain ⟨-, v', hv', hid', hleaves⟩ := hours r hr
      -- The line of that id is this one.
      obtain rfl := List.inj_on_of_nodup_map hview hv' hv (hid'.trans hid)
      exact ⟨r, hr, hid, hleaves.symm⟩
  · rintro ⟨hset, hsame⟩
    refine ⟨fun r hr => ⟨hset r hr, (hsame _ _).mp ⟨r, hr, rfl, rfl⟩⟩, fun v hv => ?_⟩
    obtain ⟨r, hr, hid, -⟩ := (hsame _ _).mpr ⟨v, hv, rfl, rfl⟩
    exact mem_ids.mpr ⟨hid ▸ hset r hr, r, hr, hid⟩

/-- **Every order is listed once and as what it is.** What a reconciliation adds to the entries is
one for each order of the log, classified by what the answer says of its exchange id, and one for
each line of the answer that no order of the log is about. Where there were no entries before, and
a request begins with none, all of them agree just where both sides hold the same. -/
theorem finish_classifies {g : OrderRouter} (hlive : (ids g.store.live).Nodup)
    (hview : (g.engineView.map DivergenceEntry.exchangeOrderId).Nodup) :
    (∃ ours, List.Forall₂ (Classified g.engineView) g.store.live ours ∧
      g.finishReconciliation.divergence.entries = g.divergence.entries ++ ours ++
        (unmatched g.store.live g.engineView).map fun e => { e with kind := .engineOnly }) ∧
      (g.finishReconciliation.divergence.clean = true ↔
        (∀ e ∈ g.divergence.entries, e.kind = .agree) ∧ Alike g.store.live g.engineView) := by
  have hfst : (g.engineView.map fun e => (e, false)).map Prod.fst = g.engineView := by
    rw [List.map_map]
    exact List.map_id _
  obtain ⟨hours, htheirs⟩ := compare_classified hview hlive hfst (by simp)
  have hleft : ((compare g.store.live (g.engineView.map fun e => (e, false))).2.filter
      fun e => !e.2).map (fun e => { e.1 with kind := .engineOnly }) =
      (unmatched g.store.live g.engineView).map fun e => { e with kind := .engineOnly } := by
    rw [htheirs, List.map_map, List.filter_map, List.map_map]
    unfold unmatched
    congr 1
    refine List.filter_congr fun e _ => ?_
    simp
  have hall : g.finishReconciliation.divergence.entries = g.divergence.entries ++
      (compare g.store.live (g.engineView.map fun e => (e, false))).1 ++
        (unmatched g.store.live g.engineView).map fun e => { e with kind := .engineOnly } := by
    show g.divergence.entries ++ _ ++ _ = _
    rw [hleft]
  refine ⟨⟨_, hours, hall⟩, ?_⟩
  rw [Divergence.clean_iff, hall, ← alike_iff hview hours, List.forall_mem_append,
    List.forall_mem_append, and_assoc]
  refine (and_iff_right rfl).trans (and_congr_right fun _ => and_congr_right fun _ => ?_)
  constructor
  · intro h
    refine List.eq_nil_iff_forall_not_mem.mpr fun v hv => ?_
    cases h _ (List.mem_map_of_mem hv)
  · intro h
    simp [h]

/-- Two orders of the log, of which the engine holds one and has not acknowledged the other, and
one that only the engine knows. -/
theorem finish_classifies_three :
    let g : OrderRouter := { orders := ⟨8, []⟩, reports := ⟨8, []⟩, symbols := []
                             store := { live := [⟨7, 100, 10000, 50, 20, 1, .bid, .live⟩,
                               ⟨8, 0, 10000, 50, 50, 1, .bid, .pending⟩] }
                             engineView := [{ exchangeOrderId := 300, engineLeaves := 5 },
                               { exchangeOrderId := 100, engineLeaves := 20 }] }
    (∃ ours, List.Forall₂ (Classified g.engineView) g.store.live ours ∧
      g.finishReconciliation.divergence.entries = [] ++ ours ++
        [{ kind := .engineOnly, exchangeOrderId := 300, engineLeaves := 5 }]) ∧
      (g.finishReconciliation.divergence.clean = true ↔
        (∀ e ∈ g.divergence.entries, e.kind = .agree) ∧ Alike g.store.live g.engineView) :=
  finish_classifies (by decide) (by decide)

end OrderRouter

end MarketData.Gateway
