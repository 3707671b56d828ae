import FrameEngine.Proofs.Jobs.OneClient

namespace FrameEngine.Jobs

variable {α : Type} {L : Nat} {s s' s₁ : System α L} {isWorker : Bool} {phase : Phase α L}
  {outer : List (Phase α L)} {next : Next α L} {i client : Nat} {l : Fin L} {move : Move α L}
  {books : Fin L → Batch α} {moves : List (Nat × Move α L)}

open Work (beside)

open Desk (Step)

inductive Swept : Bool → List (Phase α L) → Prop
  | plain {isWorker phases} (h : Plain isWorker phases) : Swept isWorker phases
  | sweep (list result) : Swept false [.sweeping list result]
  | wait {phase : Phase α L} {l : Fin L} (h : phase.WaitsFor l) (result) :
      Swept false [phase, .sweeping (l.val + 1) result]

theorem Swept.plain_of_worker {phases : List (Phase α L)} (h : Swept isWorker phases) (hworker : isWorker = true) :
    Plain isWorker phases := by
  cases h with
  | plain h => exact h
  | sweep | wait => cases hworker

namespace Phase.WaitsFor

theorem isCall (h : phase.WaitsFor l) : phase.isCall := by
  cases phase <;> first | rfl | cases h

theorem workOf? (h : phase.WaitsFor l) (outer : List (Phase α L)) :
    ∃ work, workOf? (phase :: outer) = some (l, work) ∧ workOf? [phase] = some (l, work) := by
  cases phase <;> first | (cases h; done) | (cases h; exact ⟨_, rfl, rfl⟩)

theorem workAt (h : phase.WaitsFor l) (outer : List (Phase α L)) (l' : Fin L) :
    workAt l' (phase :: outer) = workAt l' [phase] := by
  obtain ⟨work, houter, halone⟩ := h.workOf? outer
  rw [Jobs.workAt, Jobs.workAt, houter, halone]

theorem effectAt (h : phase.WaitsFor l) (outer : List (Phase α L)) (l' : Fin L) :
    effectAt s i l' (phase :: outer) = .quiet := by
  cases phase <;> first | rfl | cases h

end Phase.WaitsFor

theorem Advances.wait (h : Advances s false phase next s₁) (hwaits : phase.WaitsFor l) :
    (∃ phase', next = .become phase' ∧ phase'.WaitsFor l) ∨ ∃ result, next = .reply (.done result) := by
  cases phase <;> first | (cases hwaits; done) | skip
  case inspecting | blocking => cases hwaits; cases h <;> exact .inl ⟨_, rfl, rfl⟩
  case weighing =>
    cases hwaits
    cases h with
    | weighEmpty => exact .inl ⟨_, rfl, rfl⟩
    | weighJobs => exact .inr ⟨_, rfl⟩
  case handingBack | judging => cases h <;> exact .inr ⟨_, rfl⟩
  case blocked => cases h

def firstError (result waited : Except JobError Unit) : Except JobError Unit :=
  match result with
  | .ok _ => waited
  | .error cause => .error cause

theorem deliver_sweeping (waited result : Except JobError Unit) (list : Nat) :
    (deliver (.done waited) [.sweeping list result] : Option (Outcome L) × List (Phase α L)) =
      (none, [.sweeping list (firstError result waited)]) := by
  cases result <;> rfl

theorem Advances.swept (h : Advances s isWorker phase next s₁) (hs : Swept isWorker (phase :: outer)) :
    Swept isWorker (next.phases outer) := by
  cases hs with
  | plain hplain => exact .plain (h.plain hplain)
  | sweep list result =>
      cases h with
      | sweepWait _ _ hlt =>
          have hwaits : Phase.WaitsFor ⟨list, hlt⟩ (.inspecting ⟨list, hlt⟩ : Phase α L) := rfl
          exact .wait hwaits result
      | sweepNext => exact .sweep _ _
      | sweepEnd =>
          rw [Next.phases, deliver_nil]
          exact .plain .rest
  | wait hwaits result =>
      rcases h.wait hwaits with ⟨phase', rfl, hwaits'⟩ | ⟨waited, rfl⟩
      · exact .wait hwaits' result
      · rw [Next.phases, deliver_sweeping]
        exact .sweep _ _

/-- What a swept thread does when its innermost phase goes on is one step at each list. A sweep that begins to wait
comes to the list. -/
theorem Advances.step_swept (h : Advances s isWorker phase next s₁) (hs : Swept isWorker (phase :: outer))
    (others : Multiset (Work α))
    (hinStep : ∀ work, workAt l (phase :: outer) = some work → work.InStep (s.lists.get l).state) :
    ∃ effect, Step ⟨s.lists.get l, beside others (workAt l (phase :: outer))⟩ effect
        ⟨s₁.lists.get l, beside others (workAt l (next.phases outer))⟩ ∧
      (effect = effectAt s i l (phase :: outer) ∨
        effect = .arrived .inspecting ∧ effectAt s i l (phase :: outer) = .quiet ∧
          workAt l (phase :: outer) = none ∧ isWorker = false) := by
  cases hs with
  | plain hplain => exact ⟨_, h.step hplain others hinStep, .inl rfl⟩
  | sweep list result =>
      cases h with
      | sweepWait _ _ hlt =>
          by_cases hl : (⟨list, hlt⟩ : Fin L) = l
          · exact ⟨.arrived .inspecting, by simpa [hl] using Step.arrive _ _ _ rfl, .inr ⟨rfl, rfl, rfl, rfl⟩⟩
          · exact ⟨.quiet, by simpa [hl] using Step.rest _, .inl rfl⟩
      | sweepNext => exact ⟨.quiet, .rest _, .inl rfl⟩
      | sweepEnd =>
          rw [Next.phases, deliver_nil]
          exact ⟨.quiet, .rest _, .inl rfl⟩
  | @wait _ list hwaits result =>
      have hwork := hwaits.workAt [.sweeping (list.val + 1) result] l
      rw [hwork] at hinStep ⊢
      have hstep := h.step (i := i) (l := l) (.call hwaits.isCall) others hinStep
      rw [hwaits.effectAt] at hstep
      refine ⟨.quiet, ?_, .inl (hwaits.effectAt _ l).symm⟩
      rcases h.wait hwaits with ⟨phase', rfl, hwaits'⟩ | ⟨waited, rfl⟩
      · rw [Next.phases, hwaits'.workAt]
        exact hstep
      · rw [Next.phases, deliver_nil] at hstep
        rw [Next.phases, deliver_sweeping]
        exact hstep

/-- At each list a swept thread is like one in plain phases. -/
theorem Swept.exists_plain {phases : List (Phase α L)} (h : Swept isWorker phases) :
    ∃ phases', Plain isWorker phases' ∧ (∀ l, workAt l phases' = workAt l phases) ∧
      ∀ (s : System α L) i l, effectAt s i l phases' = effectAt s i l phases := by
  cases h with
  | plain h => exact ⟨_, h, fun _ => rfl, fun _ _ _ => rfl⟩
  | sweep list result => exact ⟨[], .rest, fun _ => rfl, fun _ _ _ => rfl⟩
  | wait hwaits result =>
      refine ⟨_, .call hwaits.isCall, fun l => (hwaits.workAt _ l).symm, fun s i l => ?_⟩
      rw [hwaits.effectAt, hwaits.effectAt]

theorem Stirred.swept {phases phases' : List (Phase α L)} (h : Stirred phases phases')
    (hs : Swept isWorker phases) : Swept isWorker phases' := by
  cases hs with
  | plain hplain => exact .plain (h.plain hplain)
  | sweep list result => cases h; exact .sweep list result
  | wait hwaits result =>
      cases h with
      | same => exact .wait hwaits result
      | roused => cases hwaits
      | woken list =>
          have hwoken : Phase.WaitsFor _ (.blocking list : Phase α L) := hwaits
          exact .wait hwoken result

def System.AllSwept (s : System α L) : Prop :=
  ∀ (i : Nat) (thread : Thread α L), s.threads[i]? = some thread → Swept thread.isWorker thread.phases

/-- What a client may ask for that also waits for all batches at once: jobs are added and a batch is ended while the
list is filled. Jobs ask for nothing. -/
def System.UsesLists (s : System α L) (i : Nat) : Move α L → Prop
  | .use .completeFrame => s.threads[i]?.elim [] (·.phases) = []
  | move => s.AsksWell i move

def System.FrameUse (s : System α L) (i : Nat) : Move α L → Prop
  | .use .completeFrame => s.threads[i]?.elim [] (·.phases) = []
  | move => s.SoleUse i move

theorem System.FrameUse.usesLists (h : s.FrameUse i move) : s.UsesLists i move := by
  cases move with
  | use operation =>
      cases operation with
      | completeFrame => exact h
      | _ => exact h.1
  | advance | endJob | endCallback => exact h.1

theorem System.UsesLists.phases_nil {operation : Operation α L} (h : s.UsesLists i (.use operation)) :
    ∀ thread, s.threads[i]? = some thread → thread.phases = [] := by
  cases operation with
  | completeFrame => exact phases_eq_nil h
  | _ => exact phases_eq_nil h.1

theorem System.FrameUse.phases_nil {operation : Operation α L} (h : s.FrameUse i (.use operation)) :
    ∀ thread, s.threads[i]? = some thread → thread.phases = [] :=
  h.usesLists.phases_nil

theorem swept_phases {operation : Operation α L} (h : s.UsesLists i (.use operation)) :
    Swept false operation.phases := by
  cases operation with
  | completeFrame => exact .sweep 0 (.ok ())
  | drop => exact absurd h.2 id
  | _ => exact .plain (plain_phases rfl)

theorem Swept.goOn {phase' : Phase α L} (h : Swept isWorker (phase :: outer)) (hphase : phase.isJob)
    (hphase' : phase'.isJob) : Swept isWorker (phase' :: outer) := by
  cases h with
  | plain hplain => exact .plain (hplain.goOn hphase hphase')
  | sweep => cases hphase
  | wait hwaits => cases phase <;> first | (cases hwaits; done) | cases hphase

theorem thread_of_settle {outer : List (Phase α L)} {thread thread' : Thread α L}
    (hi : s.threads[i]? = some thread) (hi' : (s.settle i outer next).threads[i]? = some thread') :
    thread' = next.place outer thread := by
  rw [settle_eq, Array.getElem?_modify, if_pos rfl, hi] at hi'
  exact (Option.some.inj hi').symm

theorem System.AllSwept.step (hs : s.AllSwept) (hrule : s.UsesLists i move) (h : s.step? i move = some s') :
    s'.AllSwept := by
  intro j thread' hj
  obtain ⟨thread, hthread, hworker, hstirred⟩ := thread_of_step h hj
  have hbefore := hs j thread hthread
  rw [← hworker]
  by_cases hji : j = i
  · subst hji
    cases move with
    | advance =>
        obtain ⟨phase, outer, next, s₁, phases, hphases, hadvance, _, rfl⟩ := thread_of_advance h hthread hj
        rw [hphases] at hbefore
        rw [place_phases]
        exact hadvance.swept hbefore
    | use operation =>
        obtain ⟨thread₀, hi, _, hclient, rfl⟩ := step_use_of_rest h hrule.phases_nil
        obtain rfl := Option.some.inj (hi.symm.trans hthread)
        rw [threads_setPhases, Array.getElem?_modify, if_pos rfl, hthread] at hj
        cases hj
        rw [hclient]
        exact swept_phases hrule
    | endJob panicked =>
        obtain ⟨thread₀, list, job, uses, outer, hi, hphases, rfl⟩ := step_endJob h
        obtain rfl := Option.some.inj (hi.symm.trans hthread)
        rw [hphases] at hbefore
        rw [thread_of_settle (s := s.record _) hthread hj, place_phases]
        exact hbefore.goOn rfl (isJob_afterJob list job panicked)
    | endCallback panicked =>
        obtain ⟨thread₀, list, job, outer, hi, hphases, rfl⟩ := step_endCallback h
        obtain rfl := Option.some.inj (hi.symm.trans hthread)
        rw [hphases] at hbefore
        rw [thread_of_settle (s := s.record _) hthread hj, place_phases]
        exact hbefore.goOn rfl (isJob_afterCallback list panicked)
  · exact (hstirred hji).swept hbefore

structure System.InFrame (s : System α L) (client : Nat) (books : Fin L → Batch α) : Prop where
  swept : s.AllSwept
  onlyClient : s.OnlyClient client
  sound (l : Fin L) : (s.desk l).Sound
  keeps (l : Fin L) : (s.desk l).Keeps (books l)

theorem isClient_of_swept {phases : List (Phase α L)} (h : Swept isWorker phases) {work : Work α}
    (hwork : workAt l phases = some work) : work.isClient = !isWorker := by
  obtain ⟨phases', hplain, hsame, _⟩ := h.exists_plain
  exact isClient_of_plain hplain ((hsame l).trans hwork)

theorem opener_swept (hs : s.AllSwept) (h : (s.effect i move l).isOpening) :
    ∃ thread, s.threads[i]? = some thread ∧ thread.isWorker = false ∧
      ∀ l' work, workAt l' thread.phases = some work → work.lingers = false := by
  obtain rfl := advance_of_isOpening h
  cases hthread : s.threads[i]? with
  | none => simp [System.effect, hthread, Effect.isOpening] at h
  | some thread =>
      simp only [System.effect, hthread, Option.elim_some] at h
      obtain ⟨phases', hplain, hsame, heffect⟩ := (hs i thread hthread).exists_plain
      rw [← heffect] at h
      obtain ⟨hworker, hrests⟩ := hplain.opener h
      exact ⟨thread, rfl, hworker, fun l' work hwork => hrests l' work ((hsame l').trans hwork)⟩

theorem permits_of_frameUse (hs : s.AllSwept) (hclient : s.OnlyClient client) (hrule : s.FrameUse i move)
    (h : s.step? i move = some s') (l : Fin L) : (s.desk l).Permits (s.effect i move l) := by
  have hsole (hrule : s.SoleUse i move) : (s.desk l).Permits (s.effect i move l) := by
    refine permits_of_soleUse hclient (fun j thread hj hworker l work hwork => ?_)
      (fun l => opener_swept hs) hrule h l
    rw [isClient_of_swept (hs j thread hj) hwork, hworker]
    rfl
  cases move with
  | use operation =>
      cases operation with
      | completeFrame => trivial
      | _ => exact hsole hrule
  | advance | endJob | endCallback => exact hsole hrule

/-- A move of a swept thread is one step at each list, and is noted as what it does there. -/
theorem System.InFrame.desk_step (hs : s.InFrame client books) (hrule : s.FrameUse i move)
    (h : s.step? i move = some s') (l : Fin L) :
    ∃ effect, Step (s.desk l) effect (s'.desk l) ∧ (s.desk l).Permits effect ∧
      (books l).note effect = (books l).note (s.effect i move l) := by
  have hpermits := permits_of_frameUse hs.swept hs.onlyClient hrule h l
  by_cases hmove : move = .advance
  · subst hmove
    obtain ⟨thread, phase, outer, next, s₁, hi, hphases, hadvance, hdesk, hdesk', heffect⟩ := desk_advance h l
    have hswept := hs.swept i thread hi
    rw [hphases] at hswept
    have hfits (work : Work α) (hwork : workAt l (phase :: outer) = some work) :
        work.Fits (s.lists.get l).state := fits_of_work hs.sound hi (by rw [hphases, hwork])
    obtain ⟨effect, hstep, rfl | ⟨rfl, hquiet, hnone, hworker⟩⟩ :=
      hadvance.step_swept (i := i) hswept (s.others i l) fun work hwork => (hfits work hwork).inStep
    · rw [hdesk, hdesk', heffect]
      rw [hdesk, heffect] at hpermits
      exact ⟨_, hstep, hpermits, rfl⟩
    · -- the client comes to the list: the others there are workers
      rw [hdesk, hdesk', heffect, hquiet]
      refine ⟨_, hstep, ⟨fun other hother => ?_, trivial⟩, rfl⟩
      rw [hnone] at hother
      obtain ⟨j, thread', hji, hj, hwork⟩ := mem_others.mp hother
      cases hworker' : thread'.isWorker with
      | true =>
          rw [isClient_of_swept (hs.swept j thread' hj) hwork, hworker']
          rfl
      | false => exact absurd ((hs.onlyClient j thread' hj hworker').trans (hs.onlyClient i thread hi hworker).symm) hji
  · refine ⟨_, desk_step_of_ne_advance hmove h fun operation huse => ?_, hpermits, rfl⟩
    subst huse
    exact ⟨fun _ => isArrival_of_phases, hrule.phases_nil⟩

theorem System.InFrame.step (hs : s.InFrame client books) (hrule : s.FrameUse i move)
    (h : s.step? i move = some s') : s'.InFrame client fun l => (books l).note (s.effect i move l) where
  swept := hs.swept.step hrule.usesLists h
  onlyClient := hs.onlyClient.step h
  sound l := by
    obtain ⟨effect, hstep, hpermits, _⟩ := hs.desk_step hrule h l
    exact (hs.sound l).step hstep hpermits
  keeps l := by
    obtain ⟨effect, hstep, hpermits, hnote⟩ := hs.desk_step hrule h l
    rw [← hnote]
    exact (hs.keeps l).step (hs.sound l) hstep hpermits

theorem inFrame_ofThreads (workers : Nat) :
    (System.ofThreads workers 1 : System α L).InFrame workers fun _ => {} where
  swept i thread hi := .plain ((inOrder_ofThreads workers 1).plain i thread hi)
  onlyClient := onlyClient_ofThreads workers
  sound := (inOrder_ofThreads workers 1).sound
  keeps := (inOrder_ofThreads workers 1).keeps

theorem inFrame_of_frameUse {workers : Nat} (hrun : (System.ofThreads workers 1).run? moves = some s)
    (hobeys : (System.ofThreads workers 1).Obeys System.FrameUse moves) :
    s.InFrame workers fun l => (System.ofThreads workers 1).batch l moves :=
  run_keeps (P := fun s books => s.InFrame workers books) (fun _ _ _ _ _ hs hrule h => hs.step hrule h)
    (inFrame_ofThreads workers) hrun hobeys

end FrameEngine.Jobs
