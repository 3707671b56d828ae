import FrameEngine.Proofs.Graph.Relations
import FrameEngine.Proofs.Positions
import Mathlib.Data.List.Count

namespace FrameEngine.Graph

namespace PassGraph

variable {ω : Type}

theorem idAt_injective (g : PassGraph ω) (hsize : g.size ≤ UInt32.size) :
    Function.Injective fun i : Fin g.passes.size => g.idAt i := by
  intro i j h
  have hp : g.position (g.idAt i) = g.position (g.idAt j) := congrArg g.position h
  rw [g.position_idAt hsize, g.position_idAt hsize] at hp
  exact Except.ok.inj hp

/-- A solved graph runs each pass once, after all passes that feed it. The ids can be told apart, and
lead back to the passes, as long as 32 bits can number the passes. -/
theorem solve_ordered (g : PassGraph ω) (ids : List PassId) (h : g.solve = .ok ids) :
    (∃ order, g.IsSchedule order ∧ ids = order.map fun i : Fin g.passes.size => g.idAt i) ∧
      (∀ id ∈ ids, id.generation = g.generation) ∧
      (g.size ≤ UInt32.size →
        (∀ i : Fin g.passes.size, ids.count (g.idAt i) = 1) ∧
        (∀ id ∈ ids, ∃ i, g.position id = .ok i ∧ id = g.idAt i) ∧
        ∀ i j, g.Feeds i j → ids.idxOf (g.idAt i) < ids.idxOf (g.idAt j)) := by
  obtain ⟨order, ho, rfl⟩ := order_of_solve h
  have hs := isSchedule_of_order ho
  refine ⟨⟨order, hs, rfl⟩, ?_, fun hsize => ⟨fun i => ?_, ?_, fun i j hf => ?_⟩⟩
  · intro id hid
    obtain ⟨i, _, rfl⟩ := List.mem_map.mp hid
    rfl
  · rw [List.count_map_of_injective order _ (g.idAt_injective hsize) i]
    exact List.count_eq_one_of_mem hs.nodup (hs.complete i)
  · intro id hid
    obtain ⟨i, _, rfl⟩ := List.mem_map.mp hid
    exact ⟨i, g.position_idAt hsize i, rfl⟩
  · rw [Positions.idxOf_map_of_injective (g.idAt_injective hsize),
      Positions.idxOf_map_of_injective (g.idAt_injective hsize)]
    exact hs.producers_first i j hf

def twoChains : PassGraph Unit where
  passes := #[
    ⟨"tone", ⟨[.computeSampled ⟨1⟩, .fragmentSampled ⟨1⟩], [.computeStorageWrite ⟨2⟩]⟩, ()⟩,
    ⟨"grade", ⟨[.computeSampled ⟨1⟩], [.computeStorageWrite ⟨1⟩]⟩, ()⟩,
    ⟨"shadow", ⟨[], [.depthAttachmentWrite ⟨0⟩, .computeStorageWrite ⟨0⟩]⟩, ()⟩,
    ⟨"opaque", ⟨[.fragmentSampled ⟨0⟩], [.colorAttachmentWrite ⟨3⟩]⟩, ()⟩]
  generation := 7
  imports := [.external ⟨1⟩ .general]

theorem solve_twoChains : twoChains.solve = .ok [⟨1, 7⟩, ⟨0, 7⟩, ⟨2, 7⟩, ⟨3, 7⟩] := by with_unfolding_all rfl

theorem grade_feeds_tone : twoChains.Feeds (1 : Fin 4) (0 : Fin 4) :=
  ⟨(by decide : (1 : Fin 4) ≠ 0), ⟨1⟩, ⟨.computeStorageWrite ⟨1⟩, .head _, rfl⟩,
    ⟨.computeSampled ⟨1⟩, .head _, rfl⟩⟩

theorem solve_ordered_twoChains :
    ∃ ids, twoChains.solve = .ok ids ∧ twoChains.size ≤ UInt32.size ∧
      (∀ i : Fin 4, ids.count (twoChains.idAt i) = 1) ∧
      ids.idxOf (twoChains.idAt (1 : Fin 4)) < ids.idxOf (twoChains.idAt (0 : Fin 4)) := by
  have hsize : twoChains.size ≤ UInt32.size := by decide
  obtain ⟨_, _, hids⟩ := solve_ordered twoChains _ solve_twoChains
  exact ⟨_, solve_twoChains, hsize, (hids hsize).1, (hids hsize).2.2 _ _ grade_feeds_tone⟩

end PassGraph

end FrameEngine.Graph
