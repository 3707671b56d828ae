import FrameEngine.Graph.Passes
import FrameEngine.Proofs.Graph.TopologicalOrder

namespace FrameEngine.Graph

theorem PassIo.readsImage_iff (io : PassIo) (image : ImageHandle) :
    io.readsImage image = true ↔ ∃ use ∈ io.reads, use.image = image := by
  simp [readsImage]

theorem PassIo.writesImage_iff (io : PassIo) (image : ImageHandle) :
    io.writesImage image = true ↔ ∃ use ∈ io.writes, use.image = image := by
  simp [writesImage]

namespace PassGraph

variable {ω : Type}

def Reads (g : PassGraph ω) (i : Fin g.passes.size) (image : ImageHandle) : Prop :=
  ∃ use ∈ (g.passAt i).io.reads, use.image = image

def Writes (g : PassGraph ω) (i : Fin g.passes.size) (image : ImageHandle) : Prop :=
  ∃ use ∈ (g.passAt i).io.writes, use.image = image

def Feeds (g : PassGraph ω) (i j : Fin g.passes.size) : Prop :=
  i ≠ j ∧ ∃ image, g.Writes i image ∧ g.Reads j image

def SingleWriter (g : PassGraph ω) : Prop :=
  ∀ i j image, g.Writes i image → g.Writes j image → i = j

/-- All passes, each once, and each pass before those that read what it writes. -/
structure IsSchedule (g : PassGraph ω) (order : List (Fin g.passes.size)) : Prop where
  nodup : order.Nodup
  complete : ∀ i, i ∈ order
  producers_first : ∀ i j, g.Feeds i j → order.idxOf i < order.idxOf j

theorem edge_adjacency (g : PassGraph ω) (i j : Fin g.passes.size) :
    Edge g.adjacency i j ↔ g.Feeds i j := by
  have hf : (g.passAt i).io.feeds (g.passAt j).io = true ↔ ∃ image, g.Writes i image ∧ g.Reads j image := by
    simp only [PassIo.feeds, List.any_eq_true, PassIo.readsImage_iff]
    constructor
    · rintro ⟨use, hw, hr⟩
      exact ⟨use.image, ⟨use, hw, rfl⟩, hr⟩
    · rintro ⟨image, ⟨use, hw, rfl⟩, hr⟩
      exact ⟨use, hw, hr⟩
  have hget : g.adjacency.get i = (List.finRange g.passes.size).filter fun j =>
      i ≠ j ∧ (g.passAt i).io.feeds (g.passAt j).io := Vector.getElem_ofFn i.isLt
  simp only [Edge, hget, Feeds, ← hf, List.mem_filter, List.mem_finRange, true_and, decide_eq_true_eq]

theorem edge_adjacency_eq (g : PassGraph ω) : Edge g.adjacency = g.Feeds :=
  funext fun i => funext fun j => propext (g.edge_adjacency i j)

instance (g : PassGraph ω) : DecidableRel g.Feeds := fun i j =>
  decidable_of_iff (j ∈ g.adjacency.get i) (g.edge_adjacency i j)

theorem isSchedule_of_isTopological {g : PassGraph ω} {order : List (Fin g.passes.size)}
    (h : IsTopological g.adjacency order) : g.IsSchedule order where
  nodup := h.nodup
  complete := h.complete
  producers_first i j hf := h.forward i j ((g.edge_adjacency i j).mpr hf)

theorem isSchedule_of_order {g : PassGraph ω} {order : List (Fin g.passes.size)} (h : g.order = .ok order) :
    g.IsSchedule order := by
  rw [PassGraph.order] at h
  split at h
  · cases h
  · split at h
    next found hfound =>
      cases h
      exact isSchedule_of_isTopological (isTopological_topologicalOrder hfound)
    next => cases h

theorem order_of_solve {g : PassGraph ω} {ids : List PassId} (h : g.solve = .ok ids) :
    ∃ order : List (Fin g.passes.size), g.order = .ok order ∧
      ids = order.map fun i : Fin g.passes.size => g.idAt i := by
  rw [solve] at h
  cases ho : g.order with
  | error cause => rw [ho] at h; cases h
  | ok order =>
      rw [ho] at h
      cases h
      exact ⟨order, rfl, rfl⟩

theorem index_idAt (g : PassGraph ω) {position : Nat} (h : position < UInt32.size) :
    (g.idAt position).index.toNat = position := by
  rw [idAt, UInt32.toNat_ofNat']
  exact Nat.mod_eq_of_lt h

/-- As long as ids can number all passes, each of them leads back to its pass. -/
theorem position_idAt (g : PassGraph ω) (hsize : g.size ≤ UInt32.size) (i : Fin g.passes.size) :
    g.position (g.idAt i) = .ok i := by
  have hindex := g.index_idAt (Nat.lt_of_lt_of_le i.isLt hsize)
  have hgeneration : (g.idAt i).generation = g.generation := rfl
  rw [position, dif_pos (by rw [hindex]; exact i.isLt), if_pos hgeneration]
  exact congrArg Except.ok (Fin.ext hindex)

end PassGraph

end FrameEngine.Graph
