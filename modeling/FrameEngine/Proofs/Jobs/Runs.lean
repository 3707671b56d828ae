import FrameEngine.Proofs.Jobs.Crews

namespace FrameEngine.Jobs

variable {α : Type} {L : Nat}

def System.Obeys (rule : System α L → Nat → Move α L → Prop) (s : System α L) : List (Nat × Move α L) → Prop
  | [] => True
  | (i, move) :: moves => rule s i move ∧ match s.step? i move with
      | none => True
      | some s' => s'.Obeys rule moves

def System.batchFrom (s : System α L) (l : Fin L) (b : Batch α) : List (Nat × Move α L) → Batch α
  | [] => b
  | (i, move) :: moves => match s.step? i move with
      | none => b
      | some s' => s'.batchFrom l (b.note (s.effect i move l)) moves

def System.batch (s : System α L) (l : Fin L) (moves : List (Nat × Move α L)) : Batch α :=
  s.batchFrom l {} moves

instance System.decidableObeys {rule : System α L → Nat → Move α L → Prop}
    [∀ s i move, Decidable (rule s i move)] :
    (s : System α L) → (moves : List (Nat × Move α L)) → Decidable (s.Obeys rule moves)
  | _, [] => isTrue trivial
  | s, (i, move) :: moves =>
      have : Decidable (match s.step? i move with
          | none => True
          | some s' => s'.Obeys rule moves) := match s.step? i move with
        | none => isTrue trivial
        | some s' => decidableObeys s' moves
      inferInstanceAs (Decidable (_ ∧ _))

variable {s s' : System α L} {moves : List (Nat × Move α L)} {rule : System α L → Nat → Move α L → Prop}

theorem run_keeps {P : System α L → (Fin L → Batch α) → Prop}
    (hstep : ∀ s i move s' books, P s books → rule s i move → s.step? i move = some s' →
      P s' fun l => (books l).note (s.effect i move l))
    {books : Fin L → Batch α} (hs : P s books) (hrun : s.run? moves = some s') (hobeys : s.Obeys rule moves) :
    P s' fun l => s.batchFrom l (books l) moves := by
  -- over the moves, with any ledger at the start: the rest of the run goes on with the noted one
  induction moves generalizing s books with
  | nil => cases hrun; exact hs
  | cons head moves ih =>
      obtain ⟨i, move⟩ := head
      rw [run?_cons] at hrun
      obtain ⟨s₁, hmove, hrun⟩ := Option.bind_eq_some_iff.mp hrun
      simp only [System.Obeys, hmove] at hobeys
      simp only [System.batchFrom, hmove]
      exact ih (hstep s i move s₁ books hs hobeys.1 hmove) hrun hobeys.2

structure System.InOrder (s : System α L) (books : Fin L → Batch α) : Prop where
  plain : s.AllPlain
  sound (l : Fin L) : (s.desk l).Sound
  keeps (l : Fin L) : (s.desk l).Keeps (books l)

theorem phases_ofThreads {workers clients i : Nat} {thread : Thread α L}
    (h : (System.ofThreads workers clients : System α L).threads[i]? = some thread) :
    (i < workers ∧ thread.isWorker = true ∧ thread.phases = [.checking]) ∨
      (workers ≤ i ∧ i < workers + clients ∧ thread.isWorker = false ∧ thread.phases = []) := by
  simp only [System.ofThreads, Array.getElem?_append, Array.getElem?_replicate, Array.size_replicate] at h
  split at h
  · cases h
    exact Or.inl ⟨‹_›, rfl, rfl⟩
  · split at h
    · cases h
      exact Or.inr ⟨by omega, by omega, rfl, rfl⟩
    · cases h

theorem desk_ofThreads (workers clients : Nat) (l : Fin L) :
    (System.ofThreads workers clients : System α L).desk l = ⟨{}, 0⟩ := by
  have hlist : (System.ofThreads workers clients : System α L).lists.get l = {} :=
    Vector.getElem_replicate l.isLt
  have hcrew : (System.ofThreads workers clients : System α L).crew l = 0 := by
    refine Multiset.eq_zero_of_forall_notMem fun work hwork => ?_
    obtain ⟨i, thread, hthread, hwork⟩ := mem_crew.mp hwork
    rcases phases_ofThreads hthread with ⟨_, _, hphases⟩ | ⟨_, _, _, hphases⟩ <;> rw [hphases] at hwork <;>
      cases hwork
  rw [System.desk, hlist, hcrew]

theorem inOrder_ofThreads (workers clients : Nat) :
    (System.ofThreads workers clients : System α L).InOrder fun _ => {} where
  plain i thread h := by
    rcases phases_ofThreads h with ⟨_, hworker, hphases⟩ | ⟨_, _, hworker, hphases⟩ <;> rw [hworker, hphases]
    · exact .loop rfl
    · exact .rest
  sound l := by
    rw [desk_ofThreads]
    exact ⟨rfl, fun _ => rfl, nofun, Nat.zero_le 1, Work.allFit_zero _⟩
  keeps l := by
    rw [desk_ofThreads]
    exact ⟨rfl, rfl, rfl, Or.inr rfl, nofun⟩

theorem System.InOrder.step {books : Fin L → Batch α} {i : Nat} {move : Move α L} (hs : s.InOrder books)
    (h : s.step? i move = some s') (ho : s.Orderly i move) :
    s'.InOrder fun l => (books l).note (s.effect i move l) where
  plain := hs.plain.step h ho
  sound l := (hs.sound l).step (System.desk_step hs.plain hs.sound h ho l) (ho.permits l)
  keeps l := (hs.keeps l).step (hs.sound l) (System.desk_step hs.plain hs.sound h ho l) (ho.permits l)

end FrameEngine.Jobs
