import FrameEngine.Proofs.Jobs.Phases

namespace FrameEngine.Jobs

variable {α : Type} {L : Nat} {s s' s₁ : System α L} {isWorker : Bool} {phase : Phase α L}
  {outer : List (Phase α L)} {next : Next α L} {i j : Nat} {l : Fin L} {move : Move α L}

open Work (beside beside_none beside_some)

open Desk (Step)

def worksAt (l : Fin L) (threads : List (Thread α L)) : Multiset (Work α) :=
  threads.filterMap fun thread => workAt l thread.phases

def System.crew (s : System α L) (l : Fin L) : Multiset (Work α) := worksAt l s.threads.toList

def System.others (s : System α L) (i : Nat) (l : Fin L) : Multiset (Work α) :=
  worksAt l (s.threads.toList.eraseIdx i)

def System.desk (s : System α L) (l : Fin L) : Desk α := ⟨s.lists.get l, s.crew l⟩

theorem worksAt_append (l : Fin L) (threads more : List (Thread α L)) :
    worksAt l (threads ++ more) = worksAt l threads + worksAt l more := by
  simp only [worksAt, List.filterMap_append, Multiset.coe_add]

theorem worksAt_cons (l : Fin L) (thread : Thread α L) (threads : List (Thread α L)) :
    worksAt l (thread :: threads) = beside (worksAt l threads) (workAt l thread.phases) := by
  rw [worksAt, List.filterMap_cons]
  cases workAt l thread.phases <;> rfl

theorem mem_worksAt {threads : List (Thread α L)} {work : Work α} :
    work ∈ worksAt l threads ↔ ∃ thread ∈ threads, workAt l thread.phases = some work := by
  simp only [worksAt, Multiset.mem_coe, List.mem_filterMap]

theorem worksAt_split {threads : List (Thread α L)} {thread : Thread α L} (h : threads[i]? = some thread)
    (l : Fin L) : worksAt l threads = beside (worksAt l (threads.eraseIdx i)) (workAt l thread.phases) := by
  obtain ⟨hi, rfl⟩ := List.getElem?_eq_some_iff.mp h
  conv_lhs => rw [← List.take_append_drop i threads, List.drop_eq_getElem_cons hi]
  rw [List.eraseIdx_eq_take_drop_succ, worksAt_append, worksAt_append, worksAt_cons]
  cases workAt l threads[i].phases with
  | none => rfl
  | some work => rw [beside_some, beside_some, Multiset.add_cons]

theorem crew_split {thread : Thread α L} (h : s.threads[i]? = some thread) (l : Fin L) :
    s.crew l = beside (s.others i l) (workAt l thread.phases) :=
  worksAt_split (by simpa using h) l

theorem crew_modify {thread : Thread α L} {f : Thread α L → Thread α L} (h : s.threads[i]? = some thread)
    (hs' : s'.threads = s.threads.modify i f) (l : Fin L) :
    s'.crew l = beside (s.others i l) (workAt l (f thread).phases) := by
  have hthread : s'.threads[i]? = some (f thread) := by rw [hs', Array.getElem?_modify, if_pos rfl, h]; rfl
  rw [crew_split hthread l, System.others, hs']
  congr 2
  rw [Array.toList_modify, List.eraseIdx_modify_of_eq]

theorem mem_others {work : Work α} : work ∈ s.others i l ↔
    ∃ (j : Nat) (thread : Thread α L), j ≠ i ∧ s.threads[j]? = some thread ∧
      workAt l thread.phases = some work := by
  simp only [System.others, mem_worksAt, List.mem_eraseIdx_iff_getElem?, Array.getElem?_toList]
  constructor
  · rintro ⟨thread, ⟨j, hj, hthread⟩, hwork⟩
    exact ⟨j, thread, hj, hthread, hwork⟩
  · rintro ⟨j, thread, hj, hthread, hwork⟩
    exact ⟨thread, ⟨j, hj, hthread⟩, hwork⟩

theorem mem_crew {work : Work α} : work ∈ s.crew l ↔
    ∃ (j : Nat) (thread : Thread α L), s.threads[j]? = some thread ∧ workAt l thread.phases = some work := by
  simp only [System.crew, mem_worksAt, List.mem_iff_getElem?, Array.getElem?_toList]
  constructor
  · rintro ⟨thread, ⟨j, hthread⟩, hwork⟩
    exact ⟨j, thread, hthread, hwork⟩
  · rintro ⟨j, thread, hthread, hwork⟩
    exact ⟨thread, ⟨j, hthread⟩, hwork⟩

theorem fits_of_work (hsound : ∀ l, (s.desk l).Sound) {thread : Thread α L} (hi : s.threads[i]? = some thread)
    {work : Work α} (hwork : workAt l thread.phases = some work) : work.Fits (s.lists.get l).state :=
  (hsound l).fits work (mem_crew.mpr ⟨i, thread, hi, hwork⟩)

inductive Stirred : List (Phase α L) → List (Phase α L) → Prop
  | same (phases) : Stirred phases phases
  | roused (seen outer) : Stirred (.idle seen :: outer) (.retiring seen :: outer)
  | woken (list outer) : Stirred (.blocked list :: outer) (.blocking list :: outer)

theorem Stirred.workAt {phases phases' : List (Phase α L)} (h : Stirred phases phases') (l : Fin L) :
    workAt l phases' = workAt l phases := by
  cases h <;> rfl

theorem Stirred.plain {phases phases' : List (Phase α L)} (h : Stirred phases phases')
    (hplain : Plain isWorker phases) : Plain isWorker phases' := by
  cases h with
  | same => exact hplain
  | roused =>
      cases hplain with
      | loop => exact .loop rfl
      | job hjob => cases hjob
      | call hcall => cases hcall
  | woken =>
      cases hplain with
      | loop hloop => cases hloop
      | job hjob => cases hjob
      | call => exact .call rfl

def roused : List (Phase α L) → List (Phase α L)
  | .idle seen :: outer => .retiring seen :: outer
  | phases => phases

def woken (list : Fin L) : List (Phase α L) → List (Phase α L)
  | .blocked slept :: outer => (if slept = list then .blocking slept else .blocked slept) :: outer
  | phases => phases

theorem stirred_roused (phases : List (Phase α L)) : Stirred phases (roused phases) := by
  unfold roused
  split
  · exact .roused _ _
  · exact .same _

theorem stirred_woken (list : Fin L) (phases : List (Phase α L)) : Stirred phases (woken list phases) := by
  unfold woken
  split
  · split
    · exact .woken _ _
    · exact .same _
  · exact .same _

/-- A phase that goes on stirs the threads, before its own thread is put in place. -/
theorem Advances.stirs (h : Advances s isWorker phase next s₁) :
    ∃ stir : List (Phase α L) → List (Phase α L), (∀ phases, Stirred phases (stir phases)) ∧
      s₁.threads = s.threads.map fun thread => { thread with phases := stir thread.phases } := by
  rcases threads_of_advances h with hthreads | hthreads | ⟨list, hthreads⟩
  · exact ⟨id, .same, hthreads.trans (Array.map_id' _).symm⟩
  · exact ⟨roused, stirred_roused, hthreads⟩
  · exact ⟨woken list, stirred_woken list, hthreads⟩

theorem getElem?_of_stirs {stir : List (Phase α L) → List (Phase α L)} {thread : Thread α L}
    (h : s₁.threads = s.threads.map fun thread => { thread with phases := stir thread.phases })
    (hi : s.threads[i]? = some thread) : s₁.threads[i]? = some { thread with phases := stir thread.phases } := by
  rw [h, Array.getElem?_map, hi]
  rfl

theorem others_map {stir : List (Phase α L) → List (Phase α L)} (hstir : ∀ phases, Stirred phases (stir phases))
    (h : s₁.threads = s.threads.map fun thread => { thread with phases := stir thread.phases }) (i : Nat)
    (l : Fin L) : s₁.others i l = s.others i l := by
  rw [System.others, System.others, h, Array.toList_map, List.eraseIdx_eq_take_drop_succ,
    List.eraseIdx_eq_take_drop_succ, ← List.map_take, ← List.map_drop, ← List.map_append, worksAt, worksAt,
    List.filterMap_map]
  congr 1
  apply List.filterMap_congr
  intro thread _
  exact (hstir thread.phases).workAt l

def System.AllPlain (s : System α L) : Prop :=
  ∀ (i : Nat) (thread : Thread α L), s.threads[i]? = some thread → Plain thread.isWorker thread.phases

def System.effect (s : System α L) (i : Nat) (move : Move α L) (l : Fin L) : Effect α :=
  match move with
  | .advance => effectAt s i l (s.threads[i]?.elim [] (·.phases))
  | .use operation => (workAt l operation.phases).elim .quiet .arrived
  | .endJob panicked => match s.threads[i]?.elim [] (·.phases) with
      | .running list job _ :: _ => if list = l then .ended job panicked else .quiet
      | _ => .quiet
  | .endCallback panicked => match s.threads[i]?.elim [] (·.phases) with
      | .callingBack list job :: _ => if list = l then .calledBack job panicked else .quiet
      | _ => .quiet

theorem effect_of_ne_advance (h : move ≠ .advance) :
    s.effect i move l = .quiet ∨
      (∃ operation work, move = .use operation ∧ workAt l operation.phases = some work ∧
        s.effect i move l = .arrived work) ∨ (∃ job panicked, s.effect i move l = .ended job panicked) ∨
        ∃ job panicked, s.effect i move l = .calledBack job panicked := by
  cases move with
  | advance => exact absurd rfl h
  | use operation =>
      cases hwork : workAt l operation.phases with
      | none => exact Or.inl (by simp only [System.effect, hwork, Option.elim_none])
      | some work =>
          refine Or.inr (Or.inl ⟨operation, work, rfl, hwork, ?_⟩)
          simp only [System.effect, hwork, Option.elim_some]
  | endJob panicked =>
      simp only [System.effect]
      split
      · split
        · exact Or.inr (Or.inr (Or.inl ⟨_, _, rfl⟩))
        · exact Or.inl rfl
      · exact Or.inl rfl
  | endCallback panicked =>
      simp only [System.effect]
      split
      · split
        · exact Or.inr (Or.inr (Or.inr ⟨_, _, rfl⟩))
        · exact Or.inl rfl
      · exact Or.inl rfl

def Operation.isPlain : Operation α L → Bool
  | .completeFrame | .drop => false
  | _ => true

/-- Clients ask only for what fills lists and waits for them, jobs for nothing; and nobody comes to a list when
that is not permitted. -/
structure System.Orderly (s : System α L) (i : Nat) (move : Move α L) : Prop where
  use : ∀ operation, move = .use operation →
    operation.isPlain ∧ ∀ thread, s.threads[i]? = some thread → thread.phases = []
  permits : ∀ l, (s.desk l).Permits (s.effect i move l)

theorem workAt_afterJob (l list : Fin L) (job : Job α) (panicked : Bool) (outer : List (Phase α L)) :
    workAt l (afterJob list job panicked :: outer) =
      if list = l then some (.afterJob job panicked) else none := by
  cases panicked <;> cases hcallback : job.hasCallback <;> simp [afterJob, Work.afterJob, hcallback]

theorem workAt_afterCallback (l list : Fin L) (panicked : Bool) (outer : List (Phase α L)) :
    workAt l (afterCallback list panicked :: outer) =
      if list = l then some (.afterCallback panicked) else none := by
  cases panicked <;> rfl

theorem isJob_afterJob (list : Fin L) (job : Job α) (panicked : Bool) : (afterJob list job panicked).isJob := by
  cases panicked <;> cases hcallback : job.hasCallback <;> simp [afterJob, hcallback, Phase.isJob]

theorem isJob_afterCallback (list : Fin L) (panicked : Bool) :
    (afterCallback list panicked : Phase α L).isJob := by
  cases panicked <;> rfl

theorem Plain.goOn {phase' : Phase α L} (h : Plain isWorker (phase :: outer)) (hphase : phase.isJob)
    (hphase' : phase'.isJob) : Plain isWorker (phase' :: outer) := by
  cases h with
  | job => exact .job hphase'
  | loop hloop => cases phase <;> first | cases hphase; done | cases hloop
  | call hcall => cases phase <;> first | cases hphase; done | cases hcall
  | _ => cases hphase

theorem threads_setPhases (s : System α L) (i : Nat) (phases : List (Phase α L)) :
    (s.setPhases i phases).threads = s.threads.modify i fun thread => { thread with phases := phases } := rfl

theorem thread_of_modify {threads : Array (Thread α L)} {f : Thread α L → Thread α L} {thread' : Thread α L}
    (h : (threads.modify i f)[j]? = some thread') (hf : ∀ thread, (f thread).isWorker = thread.isWorker) :
    ∃ thread, threads[j]? = some thread ∧ thread.isWorker = thread'.isWorker ∧ (j ≠ i → thread' = thread) := by
  rw [Array.getElem?_modify] at h
  split at h
  next hij =>
    obtain ⟨thread, hthread, rfl⟩ := Option.map_eq_some_iff.mp h
    exact ⟨thread, hthread, (hf thread).symm, fun hne => absurd hij.symm hne⟩
  · exact ⟨thread', h, rfl, fun _ => rfl⟩

/-- A move leaves a thread the worker or client that it was, and stirs all threads but its own. -/
theorem thread_of_step (h : s.step? i move = some s') {thread' : Thread α L}
    (hj : s'.threads[j]? = some thread') :
    ∃ thread, s.threads[j]? = some thread ∧ thread.isWorker = thread'.isWorker ∧
      (j ≠ i → Stirred thread.phases thread'.phases) := by
  have hkept {f : Thread α L → Thread α L} (hj : (s.threads.modify i f)[j]? = some thread')
      (hf : ∀ thread, (f thread).isWorker = thread.isWorker) :
      ∃ thread, s.threads[j]? = some thread ∧ thread.isWorker = thread'.isWorker ∧
        (j ≠ i → Stirred thread.phases thread'.phases) := by
    obtain ⟨thread, hthread, hworker, hsame⟩ := thread_of_modify hj hf
    exact ⟨thread, hthread, hworker, fun hne => by rw [hsame hne]; exact .same _⟩
  cases move with
  | advance =>
      obtain ⟨_, _, outer, next, s₁, _, _, hadvance, rfl⟩ := step_advance h
      obtain ⟨stir, hstir, hthreads⟩ := hadvance.stirs
      rw [settle_eq] at hj
      obtain ⟨thread₁, hj₁, hworker, hsame⟩ := thread_of_modify hj (place_isWorker outer next)
      rw [hthreads, Array.getElem?_map] at hj₁
      obtain ⟨thread, hthread, rfl⟩ := Option.map_eq_some_iff.mp hj₁
      exact ⟨thread, hthread, hworker, fun hne => by rw [hsame hne]; exact hstir thread.phases⟩
  | use operation =>
      obtain ⟨_, _, rfl, _⟩ := step_use h
      exact hkept hj fun _ => rfl
  | endJob panicked =>
      obtain ⟨_, _, _, _, outer, _, _, rfl⟩ := step_endJob h
      rw [settle_eq] at hj
      exact hkept hj (place_isWorker outer _)
  | endCallback panicked =>
      obtain ⟨_, _, _, outer, _, _, rfl⟩ := step_endCallback h
      rw [settle_eq] at hj
      exact hkept hj (place_isWorker outer _)

theorem size_of_step (h : s.step? i move = some s') : s'.threads.size = s.threads.size := by
  cases move with
  | advance =>
      obtain ⟨_, _, outer, next, s₁, _, _, hadvance, rfl⟩ := step_advance h
      obtain ⟨stir, _, hthreads⟩ := hadvance.stirs
      rw [settle_eq, Array.size_modify, hthreads, Array.size_map]
  | use operation =>
      obtain ⟨_, _, rfl, _⟩ := step_use h
      rw [threads_setPhases, Array.size_modify]
  | endJob panicked =>
      obtain ⟨_, _, _, _, _, _, _, rfl⟩ := step_endJob h
      rw [settle_eq, Array.size_modify]
      rfl
  | endCallback panicked =>
      obtain ⟨_, _, _, _, _, _, rfl⟩ := step_endCallback h
      rw [settle_eq, Array.size_modify]
      rfl

theorem exists_thread_of_step (h : s.step? i move = some s') {thread : Thread α L}
    (hj : s.threads[j]? = some thread) : ∃ thread', s'.threads[j]? = some thread' := by
  obtain ⟨hlt, _⟩ := Array.getElem?_eq_some_iff.mp hj
  rw [← size_of_step h] at hlt
  exact ⟨_, Array.getElem?_eq_getElem hlt⟩

theorem thread_of_advance {thread thread' : Thread α L} (h : s.step? i .advance = some s')
    (hi : s.threads[i]? = some thread) (hi' : s'.threads[i]? = some thread') :
    ∃ phase outer next s₁ phases, thread.phases = phase :: outer ∧ Advances s thread.isWorker phase next s₁ ∧
      s' = s₁.settle i outer next ∧ thread' = next.place outer { thread with phases := phases } := by
  obtain ⟨thread₀, phase, outer, next, s₁, hi₀, hphases, hadvance, rfl⟩ := step_advance h
  obtain rfl := Option.some.inj (hi₀.symm.trans hi)
  obtain ⟨stir, _, hthreads⟩ := hadvance.stirs
  refine ⟨phase, outer, next, s₁, stir thread₀.phases, hphases, hadvance, rfl, ?_⟩
  rw [settle_eq, Array.getElem?_modify, if_pos rfl, getElem?_of_stirs hthreads hi] at hi'
  exact (Option.some.inj hi').symm

theorem plain_modify {f : Thread α L → Thread α L} {thread : Thread α L} (hs : s.AllPlain)
    (hs' : s'.threads = s.threads.modify i f) (hi : s.threads[i]? = some thread)
    (hf : Plain (f thread).isWorker (f thread).phases) : s'.AllPlain := by
  intro j thread' hj
  rw [hs', Array.getElem?_modify] at hj
  split at hj
  next hij =>
    subst hij
    rw [hi] at hj
    cases hj
    exact hf
  · exact hs j thread' hj

theorem plain_stirred {stir : List (Phase α L) → List (Phase α L)} (hs : s.AllPlain)
    (hstir : ∀ phases, Stirred phases (stir phases))
    (h : s₁.threads = s.threads.map fun thread => { thread with phases := stir thread.phases }) : s₁.AllPlain := by
  intro j thread' hj
  rw [h, Array.getElem?_map] at hj
  obtain ⟨thread, hthread, rfl⟩ := Option.map_eq_some_iff.mp hj
  exact (hstir thread.phases).plain (hs j thread hthread)

theorem isArrival_of_phases {operation : Operation α L} {work : Work α}
    (h : workAt l operation.phases = some work) : work.isArrival := by
  have hwork := workOf?_of_workAt h
  cases operation with
  | add | finish | wait => cases hwork; rfl
  | _ => cases hwork

theorem plain_phases {operation : Operation α L} (h : operation.isPlain) : Plain false operation.phases := by
  cases operation with
  | runBatch jobs => exact .claiming 0 jobs
  | completeFrame | drop => cases h
  | _ => exact .call rfl

theorem System.AllPlain.step (hs : s.AllPlain) (h : s.step? i move = some s')
    (ho : s.Orderly i move) : s'.AllPlain := by
  cases move with
  | advance =>
      obtain ⟨thread, phase, outer, next, s₁, hi, hphases, hadvance, rfl⟩ := step_advance h
      obtain ⟨stir, hstir, hthreads⟩ := hadvance.stirs
      have hplain := hs i thread hi
      rw [hphases] at hplain
      rw [settle_eq]
      refine plain_modify (plain_stirred hs hstir hthreads) rfl (getElem?_of_stirs hthreads hi) ?_
      rw [place_phases, place_isWorker]
      exact hadvance.plain hplain
  | use operation =>
      obtain ⟨hoperation, hrest⟩ := ho.use operation rfl
      obtain ⟨thread, hi, _, hclient, rfl⟩ := step_use_of_rest h hrest
      refine plain_modify hs (threads_setPhases _ _ _) hi ?_
      rw [hclient]
      exact plain_phases hoperation
  | endJob panicked =>
      obtain ⟨thread, list, job, uses, outer, hi, hphases, rfl⟩ := step_endJob h
      have hplain := hs i thread hi
      rw [hphases] at hplain
      rw [settle_eq]
      refine plain_modify hs rfl hi ?_
      rw [place_phases, place_isWorker]
      exact hplain.goOn rfl (isJob_afterJob list job panicked)
  | endCallback panicked =>
      obtain ⟨thread, list, job, outer, hi, hphases, rfl⟩ := step_endCallback h
      have hplain := hs i thread hi
      rw [hphases] at hplain
      rw [settle_eq]
      refine plain_modify hs rfl hi ?_
      rw [place_phases, place_isWorker]
      exact hplain.goOn rfl (isJob_afterCallback list panicked)

/-- A list and its threads before and after the innermost phase of thread `i` goes on. -/
theorem desk_advance (h : s.step? i .advance = some s') (l : Fin L) :
    ∃ thread phase outer next s₁, s.threads[i]? = some thread ∧ thread.phases = phase :: outer ∧
      Advances s thread.isWorker phase next s₁ ∧
      s.desk l = ⟨s.lists.get l, beside (s.others i l) (workAt l (phase :: outer))⟩ ∧
      s'.desk l = ⟨s₁.lists.get l, beside (s.others i l) (workAt l (next.phases outer))⟩ ∧
      s.effect i .advance l = effectAt s i l (phase :: outer) := by
  obtain ⟨thread, phase, outer, next, s₁, hi, hphases, hadvance, rfl⟩ := step_advance h
  obtain ⟨stir, hstir, hthreads⟩ := hadvance.stirs
  have hcrew := crew_split hi l
  rw [hphases] at hcrew
  have heffect : s.effect i .advance l = effectAt s i l (phase :: outer) := by
    simp only [System.effect, hi, Option.elim_some, hphases]
  refine ⟨thread, phase, outer, next, s₁, hi, hphases, hadvance, by rw [System.desk, hcrew], ?_, heffect⟩
  rw [settle_eq, System.desk, crew_modify (getElem?_of_stirs hthreads hi) rfl l, others_map hstir hthreads,
    place_phases]

/-- Moves other than those of a phase that goes on; operations are asked for by threads that are in nothing. -/
theorem desk_step_of_ne_advance (hmove : move ≠ .advance) (h : s.step? i move = some s')
    (huse : ∀ operation, move = .use operation →
      (∀ work, workAt l operation.phases = some work → work.isArrival) ∧
        ∀ thread, s.threads[i]? = some thread → thread.phases = []) :
    Step (s.desk l) (s.effect i move l) (s'.desk l) := by
  cases move with
  | advance => exact absurd rfl hmove
  | use operation =>
      obtain ⟨harrival, hrest⟩ := huse operation rfl
      obtain ⟨thread, hi, hnil, _, rfl⟩ := step_use_of_rest h hrest
      have hcrew := crew_split hi l
      rw [hnil] at hcrew
      rw [System.desk, System.desk, hcrew, crew_modify hi (threads_setPhases _ _ _) l]
      have heffect : s.effect i (.use operation) l = (workAt l operation.phases).elim .quiet .arrived := rfl
      rw [heffect]
      cases hwork : workAt l operation.phases with
      | none => exact .rest _
      | some work => exact .arrive _ _ work (harrival work hwork)
  | endJob panicked =>
      obtain ⟨thread, list, job, uses, outer, hi, hphases, rfl⟩ := step_endJob h
      have hcrew := crew_split hi l
      rw [hphases] at hcrew
      have heffect : s.effect i (.endJob panicked) l = if list = l then .ended job panicked else .quiet := by
        simp only [System.effect, hi, Option.elim_some, hphases]
      rw [settle_eq, System.desk, System.desk, hcrew, heffect, crew_modify (f := Next.place _ _) hi rfl l,
        place_phases, Next.phases, workAt_afterJob]
      by_cases hl : list = l
      · simpa [hl, System.record] using Step.endJob _ _ job panicked
      · simpa [hl, System.record] using Step.rest _
  | endCallback panicked =>
      obtain ⟨thread, list, job, outer, hi, hphases, rfl⟩ := step_endCallback h
      have hcrew := crew_split hi l
      rw [hphases] at hcrew
      have heffect : s.effect i (.endCallback panicked) l =
          if list = l then .calledBack job panicked else .quiet := by
        simp only [System.effect, hi, Option.elim_some, hphases]
      rw [settle_eq, System.desk, System.desk, hcrew, heffect, crew_modify (f := Next.place _ _) hi rfl l,
        place_phases, Next.phases, workAt_afterCallback]
      by_cases hl : list = l
      · simpa [hl, System.record] using Step.endCallback _ _ job panicked
      · simpa [hl, System.record] using Step.rest _

theorem System.desk_step (hs : s.AllPlain) (hsound : ∀ l, (s.desk l).Sound)
    (h : s.step? i move = some s') (ho : s.Orderly i move) (l : Fin L) :
    Step (s.desk l) (s.effect i move l) (s'.desk l) := by
  by_cases hmove : move = .advance
  · subst hmove
    obtain ⟨thread, phase, outer, next, s₁, hi, hphases, hadvance, hdesk, hdesk', heffect⟩ := desk_advance h l
    have hplain := hs i thread hi
    rw [hphases] at hplain
    have hfits (work : Work α) (hwork : workAt l (phase :: outer) = some work) :
        work.Fits (s.lists.get l).state := fits_of_work hsound hi (by rw [hphases, hwork])
    rw [hdesk, hdesk', heffect]
    exact hadvance.step hplain _ fun work hwork => (hfits work hwork).inStep
  · refine desk_step_of_ne_advance hmove h fun operation huse => ?_
    exact ⟨fun _ => isArrival_of_phases, (ho.use operation huse).2⟩

end FrameEngine.Jobs
