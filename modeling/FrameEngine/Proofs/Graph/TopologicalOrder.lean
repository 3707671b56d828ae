import FrameEngine.Proofs.Graph.SearchInvariant
import FrameEngine.Proofs.Positions
import Mathlib.Logic.Relation

namespace FrameEngine.Graph

open Relation

variable {n : Nat}

/-- All nodes, each once, and every edge goes from an earlier node to a later one. -/
structure IsTopological (adjacency : Adjacency n) (order : List (Fin n)) : Prop where
  nodup : order.Nodup
  complete : ∀ v, v ∈ order
  forward : ∀ i j, Edge adjacency i j → order.idxOf i < order.idxOf j

/-- A walk along edges that comes back to its first node and meets no node twice before. -/
structure IsCycle (adjacency : Adjacency n) (nodes : List (Fin n)) : Prop where
  closed : ∃ first middle, nodes = first :: (middle ++ [first]) ∧ (first :: middle).Nodup
  linked : nodes.IsChain (Edge adjacency)

section Rank

variable {α : Type} {R : α → α → Prop} (rank : α → Nat)

theorem rank_lt_of_transGen (h : ∀ a b, R a b → rank a < rank b) {a b : α} (hab : TransGen R a b) :
    rank a < rank b := by
  induction hab with
  | single hr => exact h _ _ hr
  | tail _ hr ih => exact ih.trans (h _ _ hr)

theorem not_transGen_of_rank (h : ∀ a b, R a b → rank a < rank b) (a : α) : ¬ TransGen R a a :=
  fun ha => Nat.lt_irrefl _ (rank_lt_of_transGen rank h ha)

end Rank

theorem IsTopological.acyclic {adjacency : Adjacency n} {order : List (Fin n)}
    (h : IsTopological adjacency order) (v : Fin n) : ¬ TransGen (Edge adjacency) v v :=
  not_transGen_of_rank order.idxOf h.forward v

theorem transGen_of_isChain {adjacency : Adjacency n} {first last : Fin n} {middle : List (Fin n)}
    (h : (first :: (middle ++ [last])).IsChain (Edge adjacency)) : TransGen (Edge adjacency) first last := by
  induction middle generalizing first with
  | nil => exact .single (List.isChain_pair.mp h)
  | cons node middle ih =>
      obtain ⟨he, hm⟩ := List.isChain_cons_cons.mp h
      exact .head he (ih hm)

theorem IsCycle.transGen {adjacency : Adjacency n} {nodes : List (Fin n)} (h : IsCycle adjacency nodes) :
    ∃ v, TransGen (Edge adjacency) v v := by
  obtain ⟨first, middle, rfl, _⟩ := h.closed
  exact ⟨first, transGen_of_isChain h.linked⟩

namespace Search

theorem Forward.mem {adjacency : Adjacency n} {order : List (Fin n)} (h : Forward adjacency order)
    {i j : Fin n} (hi : i ∈ order) (he : Edge adjacency i j) : j ∈ order := by
  induction order with
  | nil => cases hi
  | cons node rest ih =>
      rcases List.mem_cons.mp hi with rfl | hi
      · exact List.mem_cons_of_mem _ (h.1 j he)
      · exact List.mem_cons_of_mem _ (ih h.2 hi)

theorem Forward.idxOf_lt {adjacency : Adjacency n} {order : List (Fin n)} (h : Forward adjacency order)
    (hn : order.Nodup) {i j : Fin n} (hi : i ∈ order) (he : Edge adjacency i j) :
    order.idxOf i < order.idxOf j := by
  induction order with
  | nil => cases hi
  | cons node rest ih =>
      obtain ⟨hnode, hrest⟩ := List.nodup_cons.mp hn
      have hne {v : Fin n} (hv : v ∈ rest) : node ≠ v := fun h => hnode (h ▸ hv)
      rcases List.mem_cons.mp hi with rfl | hi
      · rw [List.idxOf_cons_self, List.idxOf_cons_ne _ (hne (h.1 j he))]
        exact Nat.succ_pos _
      · rw [List.idxOf_cons_ne _ (hne hi), List.idxOf_cons_ne _ (hne (h.2.mem hi he))]
        exact Nat.succ_lt_succ (ih h.2 hrest hi)

theorem isTopological_of_sorted {adjacency : Adjacency n} {s : Search n} (hs : Invariant adjacency s)
    {order : List (Fin n)} (h : s.step adjacency = .sorted order) : IsTopological adjacency order := by
  have hm := step_move adjacency s
  rw [h] at hm
  cases hm with
  | sorted marks order =>
      have hall : ∀ v, v ∈ order := by
        intro v
        have hu : marks.get v ≠ .unvisited := (hs.covered v).resolve_left (by simp)
        cases hv : marks.get v with
        | unvisited => exact absurd hv hu
        | onStack => exact absurd ((hs.onStack_iff v).mp hv) (by simp [path])
        | done => exact (hs.done_iff v).mp hv
      exact ⟨hs.order_nodup, hall, fun i j he => hs.forward.idxOf_lt hs.order_nodup (hall i) he⟩

theorem cycleThrough_eq {stack : List (SearchFrame n)} {target : Fin n} {above rest : List (Fin n)}
    (hsplit : stack.map (·.node) = above ++ target :: rest) (ht : target ∉ rest) :
    cycleThrough stack target = target :: (above.reverse ++ [target]) := by
  have hreverse : (stack.map (·.node)).reverse = rest.reverse ++ target :: above.reverse := by simp [hsplit]
  have hbelow : rest.reverse.idxOf? target = none := by simpa [List.idxOf?_eq_none_iff] using ht
  have hindex : (rest.reverse ++ target :: above.reverse).idxOf? target = some rest.reverse.length := by
    rw [List.idxOf?] at hbelow ⊢
    simp [List.findIdx?_append, List.findIdx?_cons, hbelow]
  rw [cycleThrough, hreverse, hindex]
  simp

/-- Down the stack the links run against the edges, so the cycle is the stack read upwards. -/
theorem isCycle_of_path {adjacency : Adjacency n} {target : Fin n} {above rest : List (Fin n)}
    (hnodup : (above ++ target :: rest).Nodup)
    (hlinked : (above ++ target :: rest).IsChain fun upper lower => Edge adjacency lower upper)
    (hclose : ∀ top ∈ (above ++ target :: rest).head?, Edge adjacency top target) :
    IsCycle adjacency (target :: (above.reverse ++ [target])) where
  closed := by
    have ht : target ∉ above := Positions.notMem_before hnodup
    have habove : above.Nodup := (List.nodup_append.mp hnodup).1
    refine ⟨target, above.reverse, rfl, ?_⟩
    exact List.nodup_cons.mpr ⟨by simpa using ht, List.nodup_reverse.mpr habove⟩
  linked := by
    have hback : (target :: (above ++ [target])).IsChain fun upper lower => Edge adjacency lower upper := by
      refine List.isChain_cons.mpr ⟨?_, ?_⟩
      · cases above with
        | nil => exact hclose
        | cons v above => exact hclose
      · refine hlinked.prefix ⟨rest, ?_⟩
        rw [List.append_assoc, List.singleton_append]
    have hreverse : target :: (above.reverse ++ [target]) = (target :: (above ++ [target])).reverse := by simp
    rw [hreverse, List.isChain_reverse]
    exact hback

theorem isCycle_of_cycle {adjacency : Adjacency n} {s : Search n} (hs : Invariant adjacency s)
    {nodes : List (Fin n)} (h : s.step adjacency = .cycle nodes) : IsCycle adjacency nodes := by
  have hm := step_move adjacency s
  rw [h] at hm
  cases hm with
  | close roots marks node child edges below order ho =>
      have hmem := (hs.onStack_iff child).mp ho
      have hnodup := hs.path_nodup
      have hlinked := hs.linked
      obtain ⟨above, rest, hsplit⟩ := List.append_of_mem hmem
      have hclose : ∀ top ∈ (above ++ child :: rest).head?, Edge adjacency top child := by
        rw [← hsplit]
        simpa [path] using hs.top_edge
      rw [hsplit] at hnodup hlinked
      rw [cycleThrough_eq hsplit (Positions.notMem_after hnodup)]
      exact isCycle_of_path hnodup hlinked hclose

end Search

def SearchResult.Sound (adjacency : Adjacency n) : SearchResult n → Prop
  | .sorted order => IsTopological adjacency order
  | .cycle nodes => IsCycle adjacency nodes

theorem topologicalOrder_sound (adjacency : Adjacency n) : (topologicalOrder adjacency).Sound adjacency :=
  Search.run_induction (P := SearchResult.Sound adjacency)
    (fun _ _ hs h => Search.isTopological_of_sorted hs h) (fun _ _ hs h => Search.isCycle_of_cycle hs h) _
    (Search.invariant_start adjacency)

theorem isTopological_topologicalOrder {adjacency : Adjacency n} {order : List (Fin n)}
    (h : topologicalOrder adjacency = .sorted order) : IsTopological adjacency order := by
  have hs := topologicalOrder_sound adjacency
  rw [h] at hs
  exact hs

theorem isCycle_topologicalOrder {adjacency : Adjacency n} {nodes : List (Fin n)}
    (h : topologicalOrder adjacency = .cycle nodes) : IsCycle adjacency nodes := by
  have hs := topologicalOrder_sound adjacency
  rw [h] at hs
  exact hs

theorem topologicalOrder_sorted_iff (adjacency : Adjacency n) :
    (∃ order, topologicalOrder adjacency = .sorted order) ↔ ∀ v, ¬ TransGen (Edge adjacency) v v := by
  constructor
  · rintro ⟨order, h⟩
    exact (isTopological_topologicalOrder h).acyclic
  · intro hacyclic
    cases h : topologicalOrder adjacency with
    | sorted order => exact ⟨order, rfl⟩
    | cycle nodes =>
        obtain ⟨v, hv⟩ := (isCycle_topologicalOrder h).transGen
        exact absurd hv (hacyclic v)

end FrameEngine.Graph
