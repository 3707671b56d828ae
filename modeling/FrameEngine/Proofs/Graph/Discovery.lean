import FrameEngine.Proofs.Graph.TopologicalOrder

namespace FrameEngine.Graph

open Relation

variable {n : Nat} {adjacency : Adjacency n}

abbrev Reaches (adjacency : Adjacency n) : Fin n → Fin n → Prop := ReflTransGen (Edge adjacency)

def Adjacency.Ascending (adjacency : Adjacency n) : Prop := ∀ v, (adjacency.get v).Pairwise (· < ·)

namespace Search

theorem Forward.mem_of_reaches {order : List (Fin n)} (h : Forward adjacency order) {i j : Fin n} (hi : i ∈ order)
    (hij : Reaches adjacency i j) : j ∈ order := by
  induction hij with
  | refl => exact hi
  | tail _ he ih => exact h.mem ih he

structure Descending (adjacency : Adjacency n) (s : Search n) : Prop where
  roots : s.roots <:+ (List.finRange n).reverse
  bottom : ∀ root ∈ s.path.getLast?, ∀ v, root < v → v ∈ s.order
  edges : ∀ frame ∈ s.stack, frame.edges.Pairwise (· > ·)
  later : s.path.IsChain fun upper lower => ∀ child, Edge adjacency lower child → upper < child → child ∈ s.order

theorem notMem_of_lt {node : Fin n} {rest : List (Fin n)} (h : (node :: rest).Pairwise (· > ·)) {other : Fin n}
    (hlt : node < other) : other ∉ node :: rest := by
  intro hmem
  rcases List.mem_cons.mp hmem with rfl | hmem
  · exact Nat.lt_irrefl _ hlt
  · exact Nat.lt_asymm hlt ((List.pairwise_cons.mp h).1 other hmem)

theorem descending_start (adjacency : Adjacency n) : Descending adjacency (start n) where
  roots := List.suffix_refl _
  bottom _ h := by cases h
  edges _ h := by cases h
  later := List.IsChain.nil

theorem descending_edges (h : adjacency.Ascending) (node : Fin n) :
    (adjacency.get node).reverse.Pairwise (· > ·) :=
  List.pairwise_reverse.mpr (h node)

theorem mem_order_of_path_nil {s : Search n} (hs : Invariant adjacency s) (hpath : s.path = []) {v : Fin n}
    (hv : v ∉ s.roots) : v ∈ s.order := by
  cases hmark : s.marks.get v with
  | unvisited => exact absurd hmark ((hs.covered v).resolve_left hv)
  | onStack =>
      have honPath := (hs.onStack_iff v).mp hmark
      rw [hpath] at honPath
      cases honPath
  | done => exact (hs.done_iff v).mp hmark

theorem Descending.step (hasc : adjacency.Ascending) {s s' : Search n} (hs : Invariant adjacency s)
    (hd : Descending adjacency s) (h : s.step adjacency = .next s') : Descending adjacency s' := by
  have hm := step_move adjacency s
  rw [h] at hm
  cases hm with
  | enterRoot root roots marks order hu =>
      have hdescending : (root :: roots).Pairwise (· > ·) :=
        (List.pairwise_reverse.mpr (List.pairwise_lt_finRange n)).sublist hd.roots.sublist
      refine ⟨(List.suffix_cons root roots).trans hd.roots, ?_, ?_, List.isChain_singleton _⟩
      · intro bottom hbottom v hv
        obtain rfl := Option.some.inj hbottom
        exact mem_order_of_path_nil hs rfl (notMem_of_lt hdescending hv)
      · intro frame hframe
        obtain rfl := List.mem_singleton.mp hframe
        exact descending_edges hasc root
  | passRoot root roots marks order hu =>
      refine ⟨(List.suffix_cons root roots).trans hd.roots, ?_, hd.edges, hd.later⟩
      intro bottom hbottom
      cases hbottom
  | leave roots marks node below order =>
      have hlater := (List.isChain_cons.mp hd.later).2
      refine ⟨hd.roots, ?_, fun frame hframe => hd.edges frame (List.mem_cons_of_mem _ hframe),
        hlater.imp fun _ _ hdone child hedge hlt => List.mem_cons_of_mem _ (hdone child hedge hlt)⟩
      intro bottom hbottom v hv
      have hlast : bottom ∈ (node :: below.map (·.node)).getLast? := by
        cases below with
        | nil => cases hbottom
        | cons frame below => exact hbottom
      exact List.mem_cons_of_mem _ (hd.bottom bottom hlast v hv)
  | enterChild roots marks node child edges below order hu =>
      obtain ⟨htop, hbelow⟩ := List.forall_mem_cons.mp hd.edges
      refine ⟨hd.roots, hd.bottom, ?_, List.isChain_cons_cons.mpr ⟨?_, hd.later⟩⟩
      · have hedges : edges.Pairwise (· > ·) := (List.pairwise_cons.mp htop).2
        exact List.forall_mem_cons.mpr ⟨descending_edges hasc child, List.forall_mem_cons.mpr ⟨hedges, hbelow⟩⟩
      · intro other hedge hlt
        exact (hs.tried.1 other hedge).resolve_left (notMem_of_lt htop hlt)
  | passChild roots marks node child edges below order hdone =>
      obtain ⟨htop, hbelow⟩ := List.forall_mem_cons.mp hd.edges
      have hedges : edges.Pairwise (· > ·) := (List.pairwise_cons.mp htop).2
      exact ⟨hd.roots, hd.bottom, List.forall_mem_cons.mpr ⟨hedges, hbelow⟩, hd.later⟩

structure Leaves (adjacency : Adjacency n) (s : Search n) (node : Fin n) (below : List (SearchFrame n)) : Prop where
  invariant : Invariant adjacency s
  descending : Descending adjacency s
  stack : s.stack = ⟨node, []⟩ :: below

theorem Leaves.path_eq {s : Search n} {node : Fin n} {below : List (SearchFrame n)}
    (h : Leaves adjacency s node below) : s.path = node :: below.map (·.node) := by
  rw [path, h.stack, List.map_cons]

theorem Leaves.node_notMem {s : Search n} {node : Fin n} {below : List (SearchFrame n)}
    (h : Leaves adjacency s node below) : node ∉ s.order := by
  intro hmem
  have honPath : node ∈ s.path := by rw [h.path_eq]; exact List.mem_cons_self
  cases ((h.invariant.done_iff node).mpr hmem).symm.trans ((h.invariant.onStack_iff node).mpr honPath)

structure Settles (Q : Fin n → Fin n → Prop) (s : Search n) : Prop where
  among : s.order.Pairwise Q
  others : ∀ v ∉ s.order, ∀ w ∈ s.order, Q v w

theorem Settles.step {Q : Fin n → Fin n → Prop} {s s' : Search n} (hs : Invariant adjacency s)
    (hd : Descending adjacency s) (hsettles : Settles Q s) (h : s.step adjacency = .next s')
    (hleave : ∀ node below, Leaves adjacency s node below → ∀ v ∉ s.order, v ≠ node → Q v node) :
    Settles Q s' := by
  have hm := step_move adjacency s
  rw [h] at hm
  cases hm with
  | leave roots marks node below order =>
      have hleaves : Leaves adjacency ⟨roots, marks, ⟨node, []⟩ :: below, order⟩ node below := ⟨hs, hd, rfl⟩
      refine ⟨List.pairwise_cons.mpr ⟨hsettles.others node hleaves.node_notMem, hsettles.among⟩, ?_⟩
      intro v hv w hw
      obtain ⟨hne, hnew⟩ : v ≠ node ∧ v ∉ order := List.ne_and_not_mem_of_not_mem_cons hv
      rcases List.mem_cons.mp hw with rfl | hw
      · exact hleave w below hleaves v hnew hne
      · exact hsettles.others v hnew w hw
  | enterRoot | passRoot | enterChild | passChild => exact ⟨hsettles.among, hsettles.others⟩

/-- What holds of a node when it is left, for each other node that is not done, holds for each node that comes
before it in the result. -/
theorem pairwise_topologicalOrder (hasc : adjacency.Ascending) {Q : Fin n → Fin n → Prop}
    (hleave : ∀ s node below, Leaves adjacency s node below → ∀ v ∉ s.order, v ≠ node → Q v node)
    {order : List (Fin n)} (h : topologicalOrder adjacency = .sorted order) : order.Pairwise Q := by
  have hrun : ∀ s : Search n, Invariant adjacency s → Descending adjacency s → Settles Q s →
      ∀ order, s.run adjacency = .sorted order → order.Pairwise Q := by
    intro s
    induction s using run.induct adjacency with
    | case1 s s' hstep ih =>
        intro hs hd hsettles order hsorted
        rw [run, hstep] at hsorted
        exact ih (hs.step hstep) (hd.step hasc hs hstep) (hsettles.step hs hd hstep (hleave s)) order hsorted
    | case2 s found hstep =>
        intro _ _ hsettles order hsorted
        rw [run, hstep] at hsorted
        cases hsorted
        have hm := step_move adjacency s
        rw [hstep] at hm
        cases hm
        exact hsettles.among
    | case3 s nodes hstep =>
        intro _ _ _ order hsorted
        rw [run, hstep] at hsorted
        cases hsorted
  refine hrun (start n) (invariant_start adjacency) (descending_start adjacency) ⟨List.Pairwise.nil, ?_⟩ order h
  intro v _ w hw
  cases hw

section Leaving

variable {s : Search n} {node : Fin n} {below : List (SearchFrame n)}

theorem pairwise_path (h : Invariant adjacency s) :
    s.path.Pairwise fun upper lower => Reaches adjacency lower upper := by
  have : Trans (fun upper lower => Reaches adjacency lower upper)
      (fun upper lower => Reaches adjacency lower upper)
      (fun upper lower => Reaches adjacency lower upper) := ⟨fun h h' => h'.trans h⟩
  exact List.isChain_iff_pairwise.mp (h.linked.imp fun _ _ he => .single he)

theorem Leaves.reaches_of_path (h : Leaves adjacency s node below) {root : Fin n} (hroot : root ∈ s.path) :
    Reaches adjacency root node := by
  have hpairs := pairwise_path h.invariant
  rw [h.path_eq] at hroot hpairs
  rcases List.mem_cons.mp hroot with rfl | hroot
  · exact .refl
  · exact (List.pairwise_cons.mp hpairs).1 root hroot

theorem Leaves.not_reaches_of_done (h : Leaves adjacency s node below) {u v : Fin n} (hu : u ∈ s.order)
    (hv : v ∉ s.order) : ¬ Reaches adjacency u v :=
  fun huv => hv (h.invariant.forward.mem_of_reaches hu huv)

/-- A search from `origin` that tries edges from the last to the first comes to a node that leads to `v` only before it
comes to one that leads to `w` only. -/
inductive MeetsFirst (adjacency : Adjacency n) (v w : Fin n) : Fin n → Prop
  | only {origin} (hv : Reaches adjacency origin v) (hw : ¬ Reaches adjacency origin w) :
      MeetsFirst adjacency v w origin
  | both {origin child} (hedge : Edge adjacency origin child)
      (hlast : ∀ other, Edge adjacency origin other →
        Reaches adjacency other v ∨ Reaches adjacency other w → other ≤ child)
      (h : MeetsFirst adjacency v w child) : MeetsFirst adjacency v w origin

theorem MeetsFirst.reaches {v w origin : Fin n} (h : MeetsFirst adjacency v w origin) :
    Reaches adjacency origin v := by
  induction h with
  | only hv _ => exact hv
  | both hedge _ _ ih => exact ih.head hedge

theorem MeetsFirst.asymm {v w origin : Fin n} (h : MeetsFirst adjacency v w origin) :
    ¬ MeetsFirst adjacency w v origin := by
  induction h with
  | only _ hw => exact fun h' => hw h'.reaches
  | both hedge hlast h ih =>
      intro h'
      cases h' with
      | only _ hv => exact hv (h.reaches.head hedge)
      | both hedge' hlast' h' =>
          obtain rfl := Fin.le_antisymm (hlast' _ hedge (.inr h.reaches)) (hlast _ hedge' (.inr h'.reaches))
          exact ih h'

/-- Below the node that is left, each node on the stack has under way the last of its edges that leads to this node or
to one that is not done. -/
theorem meetsFirst_of_path {order path : List (Fin n)} {v w top : Fin n}
    (hlinked : (top :: path).IsChain fun upper lower => Edge adjacency lower upper)
    (hlater : (top :: path).IsChain fun upper lower =>
      ∀ child, Edge adjacency lower child → upper < child → child ∈ order)
    (hdone : ∀ u ∈ order, ¬ Reaches adjacency u v ∧ ¬ Reaches adjacency u w)
    (htop : MeetsFirst adjacency v w top) : ∀ origin ∈ top :: path, MeetsFirst adjacency v w origin := by
  induction path generalizing top with
  | nil =>
      intro origin horigin
      rwa [List.mem_singleton.mp horigin]
  | cons lower path ih =>
      obtain ⟨hedge, hlinked⟩ := List.isChain_cons_cons.mp hlinked
      obtain ⟨hafter, hlater⟩ := List.isChain_cons_cons.mp hlater
      have hlower : MeetsFirst adjacency v w lower := by
        refine .both hedge (fun other hother hleads => ?_) htop
        by_contra hlt
        obtain ⟨hv, hw⟩ := hdone other (hafter other hother (Nat.lt_of_not_le hlt))
        exact hleads.elim hv hw
      intro origin horigin
      rcases List.mem_cons.mp horigin with rfl | horigin
      · exact htop
      · exact ih hlinked hlater hlower origin horigin

/-- The bottom of the stack is the last node that reaches the node that is left, or one that is not done. -/
theorem Leaves.exists_root (h : Leaves adjacency s node below) {v : Fin n} (hv : v ∉ s.order) :
    ∃ root, Reaches adjacency root node ∧
      (∀ a, Reaches adjacency a v ∨ Reaches adjacency a node → a ≤ root) ∧
      (¬ Reaches adjacency node v → MeetsFirst adjacency node v root) := by
  obtain ⟨root, hroot⟩ : ∃ root, root ∈ s.path.getLast? :=
    ⟨_, by rw [h.path_eq]; exact List.getLast?_eq_some_getLast (List.cons_ne_nil _ _)⟩
  have hmem : root ∈ s.path := List.mem_of_getLast? hroot
  refine ⟨root, h.reaches_of_path hmem, ?_, fun hnv => ?_⟩
  · intro a ha
    by_contra hlt
    have hdone : a ∈ s.order := h.descending.bottom root hroot a (Nat.lt_of_not_le hlt)
    exact ha.elim (h.not_reaches_of_done hdone hv) (h.not_reaches_of_done hdone h.node_notMem)
  · have hlinked := h.invariant.linked
    have hlater := h.descending.later
    rw [h.path_eq] at hlinked hlater hmem
    have hdone : ∀ u ∈ s.order, ¬ Reaches adjacency u node ∧ ¬ Reaches adjacency u v :=
      fun u hu => ⟨h.not_reaches_of_done hu h.node_notMem, h.not_reaches_of_done hu hv⟩
    exact meetsFirst_of_path hlinked hlater hdone (.only .refl hnv) root hmem

end Leaving

/-- A node comes before another in a topological order only if it is not reached from later nodes than that, and if a
search from the last node that reaches the other meets the other first. -/
theorem pairwise_root (hasc : adjacency.Ascending) {order : List (Fin n)}
    (h : topologicalOrder adjacency = .sorted order) :
    order.Pairwise fun v w => ∃ root, Reaches adjacency root w ∧
      (∀ a, Reaches adjacency a v ∨ Reaches adjacency a w → a ≤ root) ∧
      (¬ Reaches adjacency w v → MeetsFirst adjacency w v root) :=
  pairwise_topologicalOrder hasc (fun _ _ _ hleaves _ hv _ => hleaves.exists_root hv) h

end Search

end FrameEngine.Graph
