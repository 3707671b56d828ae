import FrameEngine.Jobs.System

namespace FrameEngine.Jobs

variable {α : Type} {L : Nat}

/-- A phase goes on: what becomes of it, and the system then, its thread apart. -/
inductive Advances (s : System α L) (isWorker : Bool) : Phase α L → Next α L → System α L → Prop
  -- the loop of a worker
  | check : Advances s isWorker .checking (.become (if s.executing then .readingEpoch else .stopped)) s
  | readEpoch : Advances s isWorker .readingEpoch (.become (.scanning s.epoch 0)) s
  | find (seen list) (h : list < L) (hjobs : 0 < (s.lists.get ⟨list, h⟩).outstanding) :
      Advances s isWorker (.scanning seen list) (.become (.trying seen ⟨list, h⟩)) s
  | pass (seen list) (h : list < L) (hjobs : (s.lists.get ⟨list, h⟩).outstanding = 0) :
      Advances s isWorker (.scanning seen list) (.become (.scanning seen (list + 1))) s
  | retire (seen list) (h : L ≤ list) : Advances s isWorker (.scanning seen list) (.become (.retiring seen)) s
  | accept (seen list) (h : (s.lists.get list).state = .draining) :
      Advances s isWorker (.trying seen list) (.become (.popping seen list)) s
  | refuse (seen list) (h : (s.lists.get list).state ≠ .draining) :
      Advances s isWorker (.trying seen list) (.become (.scanning seen (list + 1))) s
  | pop (seen list job queue) (h : (s.lists.get list).queue = job :: queue) :
      Advances s isWorker (.popping seen list) (.enter (.running list job 0) .checking)
        ((s.setList list { s.lists.get list with queue := queue }).record (.started list job))
  | miss (seen list) (h : (s.lists.get list).queue = []) :
      Advances s isWorker (.popping seen list) (.become (.scanning seen (list + 1))) s
  | sleep (seen) (h : s.epoch = seen) : Advances s isWorker (.retiring seen) (.become (.idle seen)) s
  | rescan (seen) (h : s.epoch ≠ seen) : Advances s isWorker (.retiring seen) (.become .checking) s
  -- after a job
  | tally (list) :
      Advances s isWorker (.countingPanic list) (.become (.countingDown list))
        (s.setList list { s.lists.get list with panicked := (s.lists.get list).panicked + 1 })
  | countDown (list) (h : (s.lists.get list).outstanding ≠ 1) :
      Advances s isWorker (.countingDown list) .leave
        (s.setList list { s.lists.get list with outstanding := (s.lists.get list).outstanding - 1 })
  | countLast (list) (h : (s.lists.get list).outstanding = 1) :
      Advances s isWorker (.countingDown list) (.become (.completing list))
        (s.setList list { s.lists.get list with outstanding := (s.lists.get list).outstanding - 1 })
  | complete (list) (h : (s.lists.get list).state = .draining) :
      Advances s isWorker (.completing list) .leave (s.completeList list)
  | leaveOpen (list) (h : (s.lists.get list).state ≠ .draining) :
      Advances s isWorker (.completing list) .leave s
  -- filling a list
  | claim (list) (h : list < L) (hfree : (s.lists.get ⟨list, h⟩).state = .complete) :
      Advances s isWorker (.claiming list) (.become (.resetting ⟨list, h⟩))
        (s.setList ⟨list, h⟩ { s.lists.get ⟨list, h⟩ with state := .filling })
  | claimNext (list) (h : list < L) (hheld : (s.lists.get ⟨list, h⟩).state ≠ .complete) :
      Advances s isWorker (.claiming list) (.become (.claiming (list + 1))) s
  | claimNone (list) (h : L ≤ list) :
      Advances s isWorker (.claiming list) (.reply (.done (.error (.noFreeJobLists L)))) s
  | reset (list) :
      Advances s isWorker (.resetting list) (.reply (.claimed list))
        (s.setList list { s.lists.get list with panicked := 0 })
  | busy (list) (h : (s.lists.get list).state = .draining) :
      Advances s isWorker (.beginning list) (.reply (.done (.error (.busy list)))) s
  | begin (list) (h : (s.lists.get list).state ≠ .draining) :
      Advances s isWorker (.beginning list) (.reply (.done (.ok ())))
        (s.setList list { s.lists.get list with state := .filling, panicked := 0 })
  | count (list job) :
      Advances s isWorker (.counting list job) (.become (.pushing list job))
        (s.setList list { s.lists.get list with outstanding := (s.lists.get list).outstanding + 1 })
  | push (list job) :
      Advances s isWorker (.pushing list job) (.reply (.done (.ok ())))
        (s.setList list { s.lists.get list with queue := (s.lists.get list).queue ++ [job] })
  | endEmpty (list) (h : (s.lists.get list).outstanding = 0) :
      Advances s isWorker (.ending list) (.reply (.done (.ok ()))) (s.completeList list)
  | handOver (list) (h : (s.lists.get list).outstanding ≠ 0) :
      Advances s isWorker (.ending list) (.become .signalling)
        (s.setList list { s.lists.get list with state := .draining })
  | signal : Advances s isWorker .signalling (.reply (.done (.ok ()))) s.notify
  -- waiting for a batch
  | findComplete (list) (h : (s.lists.get list).state = .complete) :
      Advances s isWorker (.inspecting list) (.become (.judging list)) s
  | findFilling (list) (h : (s.lists.get list).state = .filling) :
      Advances s isWorker (.inspecting list) (.become (.weighing list)) s
  | findDraining (list) (h : (s.lists.get list).state = .draining) :
      Advances s isWorker (.inspecting list) (.become (if isWorker then .helping list else .blocking list)) s
  | weighEmpty (list) (h : (s.lists.get list).outstanding = 0) :
      Advances s isWorker (.weighing list) (.become (.handingBack list)) s
  | weighJobs (list) (h : (s.lists.get list).outstanding ≠ 0) :
      Advances s isWorker (.weighing list) (.reply (.done (.error (.notEnded list)))) s
  | handBack (list) (h : (s.lists.get list).state = .filling) (hjobs : (s.lists.get list).outstanding = 0) :
      Advances s isWorker (.handingBack list) (.reply (.done (.ok ()))) (s.completeList list)
  | keep (list) (h : ¬((s.lists.get list).state = .filling ∧ (s.lists.get list).outstanding = 0)) :
      Advances s isWorker (.handingBack list) (.reply (.done (.ok ()))) s
  | help (list) (h : (s.lists.get list).state = .draining) :
      Advances s isWorker (.helping list) (.become (.taking list)) s
  | helped (list) (h : (s.lists.get list).state ≠ .draining) :
      Advances s isWorker (.helping list) (.become (.blocking list)) s
  | take (list job queue) (h : (s.lists.get list).queue = job :: queue) :
      Advances s isWorker (.taking list) (.enter (.running list job 0) (.helping list))
        ((s.setList list { s.lists.get list with queue := queue }).record (.started list job))
  | takeNone (list) (h : (s.lists.get list).queue = []) :
      Advances s isWorker (.taking list) (.become (.blocking list)) s
  | block (list) (h : (s.lists.get list).state = .draining) :
      Advances s isWorker (.blocking list) (.become (.blocked list)) s
  | wake (list) (h : (s.lists.get list).state ≠ .draining) :
      Advances s isWorker (.blocking list) (.become (.judging list)) s
  | judge (list) :
      Advances s isWorker (.judging list) (.reply (.done (if (s.lists.get list).panicked = 0 then .ok ()
        else .error (.panicked list (s.lists.get list).panicked)))) s
  | sweepWait (list result) (h : list < L) (hdraining : (s.lists.get ⟨list, h⟩).state = .draining) :
      Advances s isWorker (.sweeping list result)
        (.enter (.inspecting ⟨list, h⟩) (.sweeping (list + 1) result)) s
  | sweepNext (list result) (h : list < L) (hother : (s.lists.get ⟨list, h⟩).state ≠ .draining) :
      Advances s isWorker (.sweeping list result) (.become (.sweeping (list + 1) result)) s
  | sweepEnd (list result) (h : L ≤ list) :
      Advances s isWorker (.sweeping list result) (.reply (.done result)) s
  -- the end of the system
  | stop : Advances s isWorker .stopping (.become .announcingStop) { s with executing := false }
  | announceStop : Advances s isWorker .announcingStop (.become (.joining 0)) s.notify
  | joinNext (thread joined) (h : s.threads[thread]? = some joined) (hstopped : System.hasStopped joined) :
      Advances s isWorker (.joining thread) (.become (.joining (thread + 1))) s
  | joinEnd (thread) (h : s.threads[thread]? = none) :
      Advances s isWorker (.joining thread) (.reply (.done (.ok ()))) s

variable {s s' s₁ : System α L} {isWorker : Bool} {phase : Phase α L} {next : Next α L} {i : Nat}

theorem pop?_of_nil {list : Fin L} (h : (s.lists.get list).queue = []) : s.pop? list = none := by
  rw [System.pop?, h]

theorem pop?_of_cons {list : Fin L} {job : Job α} {queue : List (Job α)}
    (h : (s.lists.get list).queue = job :: queue) : s.pop? list = some (job,
      (s.setList list { s.lists.get list with queue := queue }).record (.started list job)) := by
  rw [System.pop?, h]

theorem advances_of_advance (h : s.advance isWorker phase = some (next, s₁)) :
    Advances s isWorker phase next s₁ := by
  cases phase <;> simp only [System.advance, System.advanceLoop, System.advanceJob, System.advanceFilling,
    System.advanceWait, System.advanceDrop, Option.or_none, Option.none_or] at h
  case idle | stopped | running | callingBack | blocked | batchClaiming | batchFilling | batchEnding => cases h
  case checking => cases h; exact .check
  case readingEpoch => cases h; exact .readEpoch
  case scanning seen list =>
    split at h
    · split at h
      · cases h; exact .find _ _ _ ‹_›
      · cases h; exact .pass _ _ _ (by omega)
    · cases h; exact .retire _ _ (by omega)
  case trying =>
    split at h
    · cases h; exact .accept _ _ ‹_›
    · cases h; exact .refuse _ _ ‹_›
  case popping seen list =>
    cases hqueue : (s.lists.get list).queue with
    | nil => rw [pop?_of_nil hqueue] at h; cases h; exact .miss _ _ hqueue
    | cons job queue => rw [pop?_of_cons hqueue] at h; cases h; exact .pop _ _ _ _ hqueue
  case retiring =>
    split at h
    · cases h; exact .sleep _ ‹_›
    · cases h; exact .rescan _ ‹_›
  case countingPanic => cases h; exact .tally _
  case countingDown =>
    split at h
    · cases h; exact .countLast _ ‹_›
    · cases h; exact .countDown _ ‹_›
  case completing =>
    split at h
    · cases h; exact .complete _ ‹_›
    · cases h; exact .leaveOpen _ ‹_›
  case claiming =>
    split at h
    · split at h
      · cases h; exact .claim _ _ ‹_›
      · cases h; exact .claimNext _ _ ‹_›
    · cases h; exact .claimNone _ (by omega)
  case resetting => cases h; exact .reset _
  case beginning =>
    split at h
    · cases h; exact .busy _ ‹_›
    · cases h; exact .begin _ ‹_›
  case counting => cases h; exact .count _ _
  case pushing => cases h; exact .push _ _
  case ending =>
    split at h
    · cases h; exact .endEmpty _ ‹_›
    · cases h; exact .handOver _ ‹_›
  case signalling => cases h; exact .signal
  case inspecting =>
    split at h
    · cases h; exact .findComplete _ ‹_›
    · cases h; exact .findFilling _ ‹_›
    · cases h; exact .findDraining _ ‹_›
  case weighing =>
    split at h
    · cases h; exact .weighEmpty _ ‹_›
    · cases h; exact .weighJobs _ ‹_›
  case handingBack =>
    split at h
    next hempty => cases h; exact .handBack _ hempty.1 hempty.2
    · cases h; exact .keep _ ‹_›
  case helping =>
    split at h
    · cases h; exact .help _ ‹_›
    · cases h; exact .helped _ ‹_›
  case taking list =>
    cases hqueue : (s.lists.get list).queue with
    | nil => rw [pop?_of_nil hqueue] at h; cases h; exact .takeNone _ hqueue
    | cons job queue => rw [pop?_of_cons hqueue] at h; cases h; exact .take _ _ _ hqueue
  case blocking =>
    split at h
    · cases h; exact .block _ ‹_›
    · cases h; exact .wake _ ‹_›
  case judging => cases h; exact .judge _
  case sweeping =>
    split at h
    · split at h
      · cases h; exact .sweepWait _ _ _ ‹_›
      · cases h; exact .sweepNext _ _ _ ‹_›
    · cases h; exact .sweepEnd _ _ (by omega)
  case stopping => cases h; exact .stop
  case announcingStop => cases h; exact .announceStop
  case joining =>
    split at h
    · cases h; exact .joinEnd _ ‹_›
    next joined hjoined =>
      split at h
      next hstopped => cases h; exact .joinNext _ joined hjoined hstopped
      · cases h

@[simp] def Next.phases (outer : List (Phase α L)) : Next α L → List (Phase α L)
  | .become phase => phase :: outer
  | .enter phase around => phase :: around :: outer
  | .leave => outer
  | .reply outcome => (deliver outcome outer).2

def Next.place (outer : List (Phase α L)) (next : Next α L) (thread : Thread α L) : Thread α L :=
  match next with
  | .reply outcome =>
      { thread with
        phases := (deliver outcome outer).2
        outcome := (deliver outcome outer).1.or thread.outcome }
  | next => { thread with phases := next.phases outer }

@[simp] theorem place_phases (outer : List (Phase α L)) (next : Next α L) (thread : Thread α L) :
    (next.place outer thread).phases = next.phases outer := by
  cases next <;> rfl

@[simp] theorem place_isWorker (outer : List (Phase α L)) (next : Next α L) (thread : Thread α L) :
    (next.place outer thread).isWorker = thread.isWorker := by
  cases next <;> rfl

theorem settle_eq (s : System α L) (i : Nat) (outer : List (Phase α L)) (next : Next α L) :
    s.settle i outer next = { s with threads := s.threads.modify i (next.place outer) } := by
  cases next <;> rfl

theorem step_advance (h : s.step? i .advance = some s') :
    ∃ thread phase outer next s₁, s.threads[i]? = some thread ∧ thread.phases = phase :: outer ∧
      Advances s thread.isWorker phase next s₁ ∧ s' = s₁.settle i outer next := by
  obtain ⟨thread, hi, h⟩ := Option.bind_eq_some_iff.mp h
  cases hphases : thread.phases with
  | nil => simp [hphases] at h
  | cons phase outer =>
      simp only [hphases] at h
      obtain ⟨⟨next, s₁⟩, hadvance, h⟩ := Option.bind_eq_some_iff.mp h
      exact ⟨thread, phase, outer, next, s₁, hi, hphases, advances_of_advance hadvance,
        (Option.some.inj h).symm⟩

theorem step_use {operation : Operation α L} (h : s.step? i (.use operation) = some s') :
    ∃ thread, s.threads[i]? = some thread ∧
      s' = s.setPhases i (operation.phases ++ thread.phases) ∧
      ((thread.phases = [] ∧ thread.isWorker = false) ∨
        ∃ list job uses outer, thread.phases = .running list job uses :: outer) := by
  obtain ⟨thread, hi, h⟩ := Option.bind_eq_some_iff.mp h
  refine ⟨thread, hi, ?_⟩
  cases hphases : thread.phases with
  | nil =>
      rw [hphases] at h
      obtain ⟨_, hworker, h⟩ := Option.bind_eq_some_iff.mp h
      have hworker : thread.isWorker = false := by
        cases hw : thread.isWorker with
        | false => rfl
        | true => rw [hw] at hworker; cases hworker
      rw [List.append_nil]
      exact ⟨(Option.some.inj h).symm, Or.inl ⟨rfl, hworker⟩⟩
  | cons phase outer =>
      rw [hphases] at h
      cases phase
      case running list job uses =>
        exact ⟨(Option.some.inj h).symm, Or.inr ⟨list, job, uses, outer, rfl⟩⟩
      all_goals cases h

theorem step_use_of_rest {operation : Operation α L} (h : s.step? i (.use operation) = some s')
    (hrest : ∀ thread, s.threads[i]? = some thread → thread.phases = []) :
    ∃ thread, s.threads[i]? = some thread ∧ thread.phases = [] ∧ thread.isWorker = false ∧
      s' = s.setPhases i operation.phases := by
  obtain ⟨thread, hi, rfl, hclient | ⟨_, _, _, _, hrunning⟩⟩ := step_use h
  · refine ⟨thread, hi, hclient.1, hclient.2, ?_⟩
    rw [hclient.1, List.append_nil]
  · rw [hrest thread hi] at hrunning
    cases hrunning

def afterJob (list : Fin L) (job : Job α) (panicked : Bool) : Phase α L :=
  if panicked then .countingPanic list else if job.hasCallback then .callingBack list job else .countingDown list

def afterCallback (list : Fin L) (panicked : Bool) : Phase α L :=
  if panicked then .countingPanic list else .countingDown list

theorem step_endJob {panicked : Bool} (h : s.step? i (.endJob panicked) = some s') :
    ∃ thread list job uses outer, s.threads[i]? = some thread ∧
      thread.phases = .running list job uses :: outer ∧
      s' = (s.record (.ended list job panicked)).settle i outer (.become (afterJob list job panicked)) := by
  obtain ⟨thread, hi, h⟩ := Option.bind_eq_some_iff.mp h
  cases hphases : thread.phases with
  | nil => simp [hphases] at h
  | cons phase outer =>
      cases phase <;> simp only [hphases, reduceCtorEq] at h
      case running list job uses =>
        exact ⟨thread, list, job, uses, outer, hi, hphases, (Option.some.inj h).symm⟩

theorem step_endCallback {panicked : Bool} (h : s.step? i (.endCallback panicked) = some s') :
    ∃ thread list job outer, s.threads[i]? = some thread ∧
      thread.phases = .callingBack list job :: outer ∧
      s' = (s.record (.calledBack list job panicked)).settle i outer (.become (afterCallback list panicked)) := by
  obtain ⟨thread, hi, h⟩ := Option.bind_eq_some_iff.mp h
  cases hphases : thread.phases with
  | nil => simp [hphases] at h
  | cons phase outer =>
      cases phase <;> simp only [hphases, reduceCtorEq] at h
      case callingBack list job =>
        exact ⟨thread, list, job, outer, hi, hphases, (Option.some.inj h).symm⟩

def Phase.isEntry : Phase α L → Bool
  | .claiming _ | .beginning _ | .counting _ _ | .ending _ | .signalling | .inspecting _ | .sweeping _ _
  | .stopping | .batchClaiming _ | .batchFilling _ _ | .batchEnding _ | .running _ _ _ | .callingBack _ _
  | .countingPanic _ | .countingDown _ => true
  | _ => false

def Next.fresh : Next α L → List (Phase α L)
  | .become phase => [phase]
  | .enter phase around => [phase, around]
  | .leave | .reply _ => []

theorem isEntry_of_operation (operation : Operation α L) (h : phase ∈ operation.phases) : phase.isEntry := by
  cases operation <;> simp only [Operation.phases, List.mem_cons, List.not_mem_nil, or_false] at h
  case runBatch => rcases h with rfl | rfl <;> rfl
  all_goals subst h; rfl

theorem isEntry_afterJob (list : Fin L) (job : Job α) (panicked : Bool) :
    (afterJob list job panicked).isEntry := by
  cases panicked <;> cases hcallback : job.hasCallback <;> simp [afterJob, hcallback, Phase.isEntry]

theorem isEntry_afterCallback (list : Fin L) (panicked : Bool) :
    (afterCallback list panicked : Phase α L).isEntry := by
  cases panicked <;> rfl

theorem isEntry_of_mem_deliver (outcome : Outcome L) (outer : List (Phase α L))
    (h : phase ∈ (deliver outcome outer).2) : phase ∈ outer ∨ phase.isEntry := by
  fun_induction deliver outcome outer <;> grind [Phase.isEntry]

theorem mem_next_phases {outer : List (Phase α L)} (h : phase ∈ next.phases outer) :
    phase ∈ outer ∨ phase ∈ next.fresh ∨ phase.isEntry := by
  cases next with
  | become p =>
      rcases List.mem_cons.mp h with rfl | h
      · exact Or.inr (Or.inl (by simp [Next.fresh]))
      · exact Or.inl h
  | enter p around =>
      simp only [Next.phases, List.mem_cons] at h
      rcases h with rfl | rfl | h
      · simp [Next.fresh]
      · simp [Next.fresh]
      · exact Or.inl h
  | leave => exact Or.inl h
  | reply outcome =>
      rcases isEntry_of_mem_deliver outcome outer h with h | h
      · exact Or.inl h
      · exact Or.inr (Or.inr h)

def System.InPhase (s : System α L) (i : Nat) (phase : Phase α L) : Prop :=
  ∃ thread, s.threads[i]? = some thread ∧ phase ∈ thread.phases

inductive Origin (s s' : System α L) (i j : Nat) (phase : Phase α L) : Prop
  | kept (h : s.InPhase j phase)
  | roused (seen) (h : s.InPhase j (.idle seen)) (hphase : phase = .retiring seen)
  | woken (list) (h : s.InPhase j (.blocked list)) (hphase : phase = .blocking list)
  | entered (h : phase.isEntry)
  | advanced (hi : j = i) (isWorker before next s₁) (hbefore : s.InPhase i before)
      (h : Advances s isWorker before next s₁) (hphase : phase ∈ next.fresh)
      (hepoch : s'.epoch = s₁.epoch) (hexecuting : s'.executing = s₁.executing)

theorem threads_of_advances (h : Advances s isWorker phase next s₁) :
    s₁.threads = s.threads ∨ s₁.threads = s.rouse.threads ∨
      ∃ list, s₁.threads = (s.wakeWaiting list).threads := by
  cases h with
  | signal | announceStop => exact Or.inr (Or.inl rfl)
  | complete list | endEmpty list | handBack list => exact Or.inr (Or.inr ⟨list, rfl⟩)
  | _ => exact Or.inl rfl

theorem origin_of_advances {j : Nat} {p : Phase α L} (h : Advances s isWorker phase next s₁)
    (hp : s₁.InPhase j p) : Origin s s' i j p := by
  obtain ⟨thread', hj, hp⟩ := hp
  rcases threads_of_advances h with h | h | ⟨list, h⟩
  · rw [h] at hj
    exact .kept ⟨thread', hj, hp⟩
  · simp only [h, System.rouse, Array.getElem?_map, Option.map_eq_some_iff] at hj
    obtain ⟨thread, hj, rfl⟩ := hj
    dsimp only at hp
    split at hp
    next seen outer hphases =>
      rcases List.mem_cons.mp hp with rfl | hp
      · exact .roused seen ⟨thread, hj, by simp [hphases]⟩ rfl
      · exact .kept ⟨thread, hj, by simp [hphases, hp]⟩
    · exact .kept ⟨thread, hj, hp⟩
  · simp only [h, System.wakeWaiting, Array.getElem?_map, Option.map_eq_some_iff] at hj
    obtain ⟨thread, hj, rfl⟩ := hj
    dsimp only at hp
    split at hp
    next slept outer hphases =>
      rcases List.mem_cons.mp hp with hp | hp
      · split at hp
        · exact .woken slept ⟨thread, hj, by simp [hphases]⟩ hp
        · exact .kept ⟨thread, hj, by simp [hphases, hp]⟩
      · exact .kept ⟨thread, hj, by simp [hphases, hp]⟩
    · exact .kept ⟨thread, hj, hp⟩

theorem inPhase_modify {threads : Array (Thread α L)} {f : Thread α L → Thread α L} {phases : List (Phase α L)}
    (hf : ∀ thread, (f thread).phases = phases) {j : Nat} {thread' : Thread α L} {p : Phase α L}
    (h : (threads.modify i f)[j]? = some thread') (hp : p ∈ thread'.phases) :
    (j = i ∧ p ∈ phases) ∨ ∃ thread, threads[j]? = some thread ∧ p ∈ thread.phases := by
  rw [Array.getElem?_modify] at h
  split at h
  next hij =>
    obtain ⟨thread, hthread, rfl⟩ := Option.map_eq_some_iff.mp h
    exact Or.inl ⟨hij.symm, hf thread ▸ hp⟩
  · exact Or.inr ⟨thread', h, hp⟩

theorem origin_of_step {move : Move α L} {j : Nat} {p : Phase α L} (h : s.step? i move = some s')
    (hp : s'.InPhase j p) : Origin s s' i j p := by
  cases move with
  | advance =>
      obtain ⟨thread, phase, outer, next, s₁, hi, hphases, hadvance, rfl⟩ := step_advance h
      obtain ⟨thread', hj, hp⟩ := hp
      rw [settle_eq] at hj
      rcases inPhase_modify (fun thread => place_phases outer next thread) hj hp with ⟨rfl, hp⟩ | hp
      · rcases mem_next_phases hp with hp | hp | hp
        · exact .kept ⟨thread, hi, by simp [hphases, hp]⟩
        · exact .advanced rfl _ phase next s₁ ⟨thread, hi, by simp [hphases]⟩ hadvance hp
            (by rw [settle_eq]) (by rw [settle_eq])
        · exact .entered hp
      · exact origin_of_advances hadvance hp
  | use operation =>
      obtain ⟨thread, hi, rfl, _⟩ := step_use h
      obtain ⟨thread', hj, hp⟩ := hp
      rcases inPhase_modify (f := fun old => { old with phases := operation.phases ++ thread.phases })
        (fun _ => rfl) hj hp with ⟨rfl, hp⟩ | hp
      · rcases List.mem_append.mp hp with hp | hp
        · exact .entered (isEntry_of_operation operation hp)
        · exact .kept ⟨thread, hi, hp⟩
      · exact .kept hp
  | endJob panicked =>
      obtain ⟨thread, list, job, uses, outer, hi, hphases, rfl⟩ := step_endJob h
      obtain ⟨thread', hj, hp⟩ := hp
      rw [settle_eq] at hj
      rcases inPhase_modify (fun thread => place_phases outer _ thread) hj hp with ⟨rfl, hp⟩ | hp
      · rcases List.mem_cons.mp hp with rfl | hp
        · exact .entered (isEntry_afterJob list job panicked)
        · exact .kept ⟨thread, hi, by simp [hphases, hp]⟩
      · exact .kept hp
  | endCallback panicked =>
      obtain ⟨thread, list, job, outer, hi, hphases, rfl⟩ := step_endCallback h
      obtain ⟨thread', hj, hp⟩ := hp
      rw [settle_eq] at hj
      rcases inPhase_modify (fun thread => place_phases outer _ thread) hj hp with ⟨rfl, hp⟩ | hp
      · rcases List.mem_cons.mp hp with rfl | hp
        · exact .entered (isEntry_afterCallback list panicked)
        · exact .kept ⟨thread, hi, by simp [hphases, hp]⟩
      · exact .kept hp

theorem run?_cons (s : System α L) (i : Nat) (move : Move α L) (moves : List (Nat × Move α L)) :
    s.run? ((i, move) :: moves) = (s.step? i move).bind fun s' => s'.run? moves := by
  rw [System.run?, List.foldlM_cons]
  rfl

theorem run?_induction {P : System α L → Prop} {moves : List (Nat × Move α L)}
    (hstep : ∀ s i move s', P s → s.step? i move = some s' → P s') (hs : P s) (h : s.run? moves = some s') :
    P s' := by
  induction moves generalizing s with
  | nil => cases h; exact hs
  | cons head moves ih =>
      rw [run?_cons] at h
      obtain ⟨s₁, hmove, hrun⟩ := Option.bind_eq_some_iff.mp h
      exact ih (hstep s head.1 head.2 s₁ hs hmove) hrun

theorem run?_append (s : System α L) (moves more : List (Nat × Move α L)) :
    s.run? (moves ++ more) = (s.run? moves).bind fun s' => s'.run? more := by
  rw [System.run?, List.foldlM_append]
  rfl

end FrameEngine.Jobs
