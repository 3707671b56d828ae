import FrameEngine.Proofs.Graph.Discovery
import FrameEngine.Proofs.Graph.SolveOutcome
import Mathlib.Data.Fintype.Basic
import Mathlib.Order.Fin.Basic
import Mathlib.Data.Finset.Max

namespace FrameEngine.Graph.PassGraph

open Relation

variable {ω : Type}

abbrev LeadsTo (g : PassGraph ω) : Fin g.passes.size → Fin g.passes.size → Prop := ReflTransGen g.Feeds

theorem reaches_adjacency (g : PassGraph ω) : Reaches g.adjacency = g.LeadsTo := by
  rw [Reaches, edge_adjacency_eq]

open Classical in
noncomputable def latestSource (g : PassGraph ω) (i : Fin g.passes.size) : Fin g.passes.size :=
  (Finset.univ.filter (g.LeadsTo · i)).max' ⟨i, by simpa using ReflTransGen.refl⟩

theorem latestSource_leadsTo (g : PassGraph ω) (i : Fin g.passes.size) : g.LeadsTo (g.latestSource i) i := by
  classical
  have hmem := Finset.max'_mem (Finset.univ.filter (g.LeadsTo · i)) ⟨i, by simpa using ReflTransGen.refl⟩
  exact (Finset.mem_filter.mp hmem).2

theorem le_latestSource {g : PassGraph ω} {i j : Fin g.passes.size} (h : g.LeadsTo j i) :
    j ≤ g.latestSource i := by
  classical
  exact Finset.le_max' _ j (Finset.mem_filter.mpr ⟨Finset.mem_univ j, h⟩)

theorem ascending_adjacency (g : PassGraph ω) : g.adjacency.Ascending := by
  intro v
  have hget : g.adjacency.get v = (List.finRange g.passes.size).filter fun j =>
      v ≠ j ∧ g.passes[v].io.feeds g.passes[j].io := Vector.getElem_ofFn v.isLt
  rw [hget]
  exact (List.pairwise_lt_finRange _).filter _

theorem sorted_of_order {g : PassGraph ω} {order : List (Fin g.passes.size)} (h : g.order = .ok order) :
    topologicalOrder g.adjacency = .sorted order := by
  rw [PassGraph.order] at h
  split at h
  · cases h
  · split at h
    next found hfound => cases h; exact hfound
    next => cases h

theorem idxOf_lt_of_latestSource {g : PassGraph ω} {order : List (Fin g.passes.size)} (h : g.order = .ok order)
    {i j : Fin g.passes.size} (hlt : g.latestSource i < g.latestSource j) : order.idxOf i < order.idxOf j := by
  have hroots := Search.pairwise_root g.ascending_adjacency (sorted_of_order h)
  refine Positions.idxOf_lt_of_rel hroots ((isSchedule_of_order h).complete i) ?_ ?_
  · rintro rfl
    exact lt_irrefl _ hlt
  · rintro ⟨root, hroot, hlast, _⟩
    rw [reaches_adjacency] at hroot hlast
    have hle : g.latestSource j ≤ root := hlast _ (.inl (g.latestSource_leadsTo j))
    exact absurd (hle.trans (le_latestSource hroot)) (not_le_of_gt hlt)

/-- If each pass was added after those that feed it, it is its own latest source. -/
theorem latestSource_eq {g : PassGraph ω} (h : ∀ i j, g.Feeds i j → i < j) (i : Fin g.passes.size) :
    g.latestSource i = i := by
  have hle : ∀ j, g.LeadsTo j i → j ≤ i := by
    intro j hj
    induction hj using ReflTransGen.head_induction_on with
    | refl => exact le_refl i
    | head hfeeds _ ih => exact (h _ _ hfeeds).le.trans ih
  exact le_antisymm (hle _ (g.latestSource_leadsTo i)) (le_latestSource .refl)

theorem order_eq_finRange {g : PassGraph ω} {order : List (Fin g.passes.size)} (h : g.order = .ok order)
    (hfeeds : ∀ i j, g.Feeds i j → i < j) : order = List.finRange g.passes.size := by
  have hs := isSchedule_of_order h
  refine Positions.eq_of_idxOf_lt (R := (· < ·)) hs.nodup (List.nodup_finRange _) ?_ ?_ ?_ ?_
  · intro i
    exact ⟨fun _ => List.mem_finRange i, fun _ => hs.complete i⟩
  · intro i j hne
    exact lt_or_gt_of_ne hne
  · intro i j hlt
    apply idxOf_lt_of_latestSource h
    rwa [latestSource_eq hfeeds, latestSource_eq hfeeds]
  · intro i j hlt
    rwa [List.idxOf_finRange, List.idxOf_finRange]

theorem map_idAt_finRange (g : PassGraph ω) :
    (List.finRange g.passes.size).map (fun i : Fin g.passes.size => g.idAt i) = g.ids := by
  rw [ids, size, ← List.map_coe_finRange_eq_range, List.map_map]
  rfl

def addAll (g : PassGraph ω) (passes : List (Pass ω)) : PassGraph ω :=
  passes.foldl (fun g pass => (g.add pass).2) g

theorem passes_addAll (g : PassGraph ω) (passes : List (Pass ω)) :
    (g.addAll passes).passes.toList = g.passes.toList ++ passes := by
  induction passes generalizing g with
  | nil => rw [addAll, List.foldl_nil, List.append_nil]
  | cons pass passes ih =>
      have hrest := ih (g.add pass).2
      rw [addAll, List.foldl_cons]
      rw [addAll] at hrest
      rw [hrest, add, Array.toList_push, List.append_assoc, List.singleton_append]

theorem generation_addAll (g : PassGraph ω) (passes : List (Pass ω)) :
    (g.addAll passes).generation = g.generation := by
  induction passes generalizing g with
  | nil => rfl
  | cons pass passes ih => exact ih (g.add pass).2

/-- A graph with the passes of another, added in a valid order of that. -/
structure Readds (again g : PassGraph ω) (order : List (Fin g.passes.size)) : Prop where
  schedule : g.IsSchedule order
  passes : again.passes.toList = order.map g.passAt

section Again

variable {again g : PassGraph ω} {order : List (Fin g.passes.size)}

theorem readds_addAll (hs : g.IsSchedule order) {base : PassGraph ω} (hbase : base.isEmpty) :
    Readds (base.addAll (order.map g.passAt)) g order where
  schedule := hs
  passes := by
    have hempty : base.passes = #[] := Array.isEmpty_iff.mp hbase
    rw [passes_addAll, hempty, Array.toList_empty, List.nil_append]

/-- Where a pass stood in the order. -/
theorem Readds.exists_origin (h : Readds again g order) (i : Fin again.passes.size) :
    ∃ j, order.idxOf j = i.val ∧ again.passAt i = g.passAt j := by
  have hi : i.val < order.length := by
    rw [← List.length_map (f := g.passAt), ← h.passes, Array.length_toList]
    exact i.isLt
  refine ⟨order[i.val], h.schedule.nodup.idxOf_getElem _ hi, ?_⟩
  have hpass : again.passes.toList[i.val]? = some (again.passAt i) := by
    rw [Array.getElem?_toList]
    exact Array.getElem?_eq_getElem i.isLt
  rw [h.passes, List.getElem?_map, List.getElem?_eq_getElem hi] at hpass
  exact (Option.some.inj hpass).symm

theorem Readds.lt_of_feeds (h : Readds again g order) {i i' : Fin again.passes.size} (hf : again.Feeds i i') :
    i < i' := by
  obtain ⟨j, hj, hpass⟩ := h.exists_origin i
  obtain ⟨j', hj', hpass'⟩ := h.exists_origin i'
  obtain ⟨hne, image, hw, hr⟩ := hf
  have hfeeds : g.Feeds j j' := by
    refine ⟨?_, image, ?_, ?_⟩
    · rintro rfl
      exact hne (Fin.ext (hj.symm.trans hj'))
    · rwa [Writes, hpass] at hw
    · rwa [Reads, hpass'] at hr
  have hlt := h.schedule.producers_first j j' hfeeds
  rwa [hj, hj'] at hlt

theorem Readds.singleWriter (h : Readds again g order) (hw : g.SingleWriter) : again.SingleWriter := by
  intro i i' image hi hi'
  obtain ⟨j, hj, hpass⟩ := h.exists_origin i
  obtain ⟨j', hj', hpass'⟩ := h.exists_origin i'
  rw [Writes, hpass] at hi
  rw [Writes, hpass'] at hi'
  obtain rfl := hw j j' image hi hi'
  exact Fin.ext (hj.symm.trans hj')

theorem ids_of_order {ids : List PassId} (h : g.solve = .ok ids) (hfeeds : ∀ i j, g.Feeds i j → i < j) :
    ids = g.ids := by
  obtain ⟨order, ho, rfl⟩ := order_of_solve h
  rw [order_eq_finRange ho hfeeds, map_idAt_finRange]

theorem Readds.solve (h : Readds again g order) (hw : g.SingleWriter) : again.solve = .ok again.ids := by
  have hacyclic : ∀ i, ¬ TransGen again.Feeds i i :=
    not_transGen_of_rank Fin.val fun _ _ => h.lt_of_feeds
  obtain ⟨ids, hids⟩ := again.solve_ok_iff.mpr ⟨h.singleWriter hw, hacyclic⟩
  rw [hids, ids_of_order hids fun _ _ => h.lt_of_feeds]

end Again

def fanIn : PassGraph Unit where
  passes := #[
    ⟨"tone", ⟨[.computeSampled ⟨1⟩], [.computeStorageWrite ⟨2⟩]⟩, ()⟩,
    ⟨"debug", ⟨[], [.colorAttachmentWrite ⟨3⟩]⟩, ()⟩,
    ⟨"present", ⟨[.computeSampled ⟨2⟩], []⟩, ()⟩,
    ⟨"opaque", ⟨[], [.colorAttachmentWrite ⟨1⟩]⟩, ()⟩]

theorem solve_fanIn : fanIn.solve = .ok [⟨1, 0⟩, ⟨3, 0⟩, ⟨0, 0⟩, ⟨2, 0⟩] := by with_unfolding_all rfl

/-- In a solved graph, passes come in the order of their latest sources. So passes that were added after all those
that feed them keep their order; and when the passes are added again in the order that was found, this order is
found once more. -/
theorem solve_by_latestSource (g : PassGraph ω) (ids : List PassId) (h : g.solve = .ok ids) :
    ∃ order, g.IsSchedule order ∧ ids = order.map (fun i : Fin g.passes.size => g.idAt i) ∧
      (∀ i j, g.latestSource i < g.latestSource j → order.idxOf i < order.idxOf j) ∧
      ((∀ i j, g.Feeds i j → i < j) → ids = g.ids) ∧
      ∀ base : PassGraph ω, base.isEmpty →
        (base.addAll (order.map g.passAt)).passes.toList = order.map g.passAt ∧
          (base.addAll (order.map g.passAt)).solve = .ok (base.addAll (order.map g.passAt)).ids := by
  obtain ⟨order, ho, hids⟩ := order_of_solve h
  have hs := isSchedule_of_order ho
  have hw := (g.solve_ok_iff.mp ⟨ids, h⟩).1
  refine ⟨order, hs, hids, fun i j => idxOf_lt_of_latestSource ho, ids_of_order h, fun base hbase => ?_⟩
  have hagain := readds_addAll hs hbase
  exact ⟨hagain.passes, hagain.solve hw⟩

theorem solve_by_latestSource_fanIn :
    ∃ order, fanIn.IsSchedule order ∧
      [⟨1, 0⟩, ⟨3, 0⟩, ⟨0, 0⟩, ⟨2, 0⟩] = order.map (fun i : Fin fanIn.passes.size => fanIn.idAt i) ∧
      (∀ i j, fanIn.latestSource i < fanIn.latestSource j → order.idxOf i < order.idxOf j) ∧
      (({} : PassGraph Unit).addAll (order.map fanIn.passAt)).solve =
        .ok [⟨0, 0⟩, ⟨1, 0⟩, ⟨2, 0⟩, ⟨3, 0⟩] := by
  obtain ⟨order, hs, hids, hlatest, _, hagain⟩ := solve_by_latestSource fanIn _ solve_fanIn
  obtain ⟨hpasses, hsolve⟩ := hagain {} rfl
  refine ⟨order, hs, hids, hlatest, ?_⟩
  have hsize : (({} : PassGraph Unit).addAll (order.map fanIn.passAt)).size = 4 := by
    rw [size, ← Array.length_toList, hpasses, List.length_map]
    simpa using (congrArg List.length hids).symm
  rw [hsolve, ids, hsize]
  exact congrArg Except.ok (List.map_congr_left fun _ _ => congrArg (PassId.mk _) (generation_addAll {} _))

end FrameEngine.Graph.PassGraph
