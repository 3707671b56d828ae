import FrameEngine.Proofs.Jobs.Moves
import FrameEngine.Proofs.Jobs.Batches

namespace FrameEngine.Jobs

variable {α : Type} {L : Nat}

open Work (beside beside_none beside_some)

@[simp] def workOf? : List (Phase α L) → Option (Fin L × Work α)
  | .popping _ list :: _ => some (list, .popping)
  | .running list job _ :: _ => some (list, .running job)
  | .callingBack list job :: _ => some (list, .callingBack job)
  | .countingPanic list :: _ => some (list, .countingPanic)
  | .countingDown list :: _ => some (list, .countingDown)
  | .completing list :: _ => some (list, .completing)
  | .resetting list :: _ => some (list, .resetting)
  | .beginning list :: .batchFilling _ _ :: _ => some (list, .beginning)
  | .counting list job :: _ => some (list, .counting job)
  | .pushing list job :: _ => some (list, .pushing job)
  | .ending list :: _ => some (list, .ending)
  | .signalling :: .batchEnding list :: _ => some (list, .announcing)
  | .inspecting list :: _ => some (list, .inspecting)
  | .weighing list :: _ => some (list, .weighing)
  | .handingBack list :: _ => some (list, .handingBack)
  | .blocking list :: _ | .blocked list :: _ => some (list, .waiting)
  | .judging list :: _ => some (list, .judging)
  | _ => none

@[simp] def workAt (l : Fin L) (phases : List (Phase α L)) : Option (Work α) :=
  (workOf? phases).bind fun (list, work) => if list = l then some work else none

@[simp] def askedFor : List (Phase α L) → List (Job α)
  | .batchClaiming jobs :: _ => jobs
  | _ => []

@[simp] def effectAt (s : System α L) (i : Nat) (l : Fin L) : List (Phase α L) → Effect α
  | .claiming list :: outer =>
      if list = l.val ∧ (s.lists.get l).state = .complete then .opened i (askedFor outer) else .quiet
  | .beginning list :: _ =>
      if list = l ∧ (s.lists.get l).state = .complete then .opened i [] else .quiet
  | .counting list job :: _ => if list = l then .added job else .quiet
  | .popping _ list :: _ =>
      if list = l then
        match (s.lists.get l).queue with
        | job :: _ => .started job
        | [] => .quiet
      else .quiet
  | _ => .quiet

namespace Phase

def isLoop : Phase α L → Bool
  | .checking | .readingEpoch | .scanning _ _ | .trying _ _ | .popping _ _ | .retiring _ | .idle _
  | .stopped => true
  | _ => false

def isJob : Phase α L → Bool
  | .running _ _ _ | .callingBack _ _ | .countingPanic _ | .countingDown _ | .completing _ => true
  | _ => false

def isCall : Phase α L → Bool
  | .claiming _ | .resetting _ | .beginning _ | .counting _ _ | .pushing _ _ | .ending _ | .signalling
  | .inspecting _ | .weighing _ | .handingBack _ | .blocking _ | .blocked _ | .judging _ => true
  | _ => false

end Phase

inductive Plain : Bool → List (Phase α L) → Prop
  | loop {phase} (h : phase.isLoop) : Plain true [phase]
  | job {phase} (h : phase.isJob) : Plain true [phase, .checking]
  | rest : Plain false []
  | call {phase} (h : phase.isCall) : Plain false [phase]
  | claiming (list jobs) : Plain false [.claiming list, .batchClaiming jobs]
  | resetting (list jobs) : Plain false [.resetting list, .batchClaiming jobs]
  | beginning (list jobs) : Plain false [.beginning list, .batchFilling list jobs]
  | counting (list job jobs) : Plain false [.counting list job, .batchFilling list jobs]
  | pushing (list job jobs) : Plain false [.pushing list job, .batchFilling list jobs]
  | ending (list) : Plain false [.ending list, .batchEnding list]
  | announcing (list) : Plain false [.signalling, .batchEnding list]

variable {s s' s₁ : System α L} {isWorker : Bool} {phase : Phase α L} {outer : List (Phase α L)}
  {next : Next α L} {i : Nat} {l : Fin L} {move : Move α L}

@[simp] theorem get_setList (s : System α L) (list : Fin L) (value : JobList α) (l : Fin L) :
    (s.setList list value).lists.get l = if list = l then value else s.lists.get l := by
  refine (Vector.getElem_set list.isLt l.isLt).trans ?_
  simp only [Fin.ext_iff]
  rfl

@[simp] theorem get_completeList (s : System α L) (list : Fin L) (l : Fin L) :
    (s.completeList list).lists.get l =
      if list = l then { s.lists.get list with state := .complete } else s.lists.get l :=
  get_setList s list _ l

@[simp] theorem lists_notify (s : System α L) : s.notify.lists = s.lists := rfl

@[simp] theorem deliver_nil (outcome : Outcome L) :
    deliver outcome ([] : List (Phase α L)) = (some outcome, []) := by
  rw [deliver] <;> simp

@[simp] theorem deliver_claimed (list : Fin L) (jobs : List (Job α)) :
    (deliver (.claimed list) [.batchClaiming jobs]).2 = [.beginning list, .batchFilling list jobs] := rfl

@[simp] theorem deliver_batchEnding (outcome : Outcome L) (list : Fin L) :
    (deliver outcome [.batchEnding list] : Option (Outcome L) × List (Phase α L)).2 = [.inspecting list] := rfl

@[simp] theorem deliver_noFreeJobLists (cause : JobError) (jobs : List (Job α)) :
    (deliver (.done (.error cause)) [.batchClaiming jobs] : Option (Outcome L) × List (Phase α L)).2 = [] := rfl

@[simp] theorem deliver_error (cause : JobError) (list : Fin L) (jobs : List (Job α)) :
    (deliver (.done (.error cause)) [.batchFilling list jobs]).2 = [] := rfl

theorem plain_filling (list : Fin L) (jobs : List (Job α)) :
    Plain false (deliver (.done (.ok ())) [.batchFilling list jobs]).2 := by
  cases jobs with
  | nil => exact .ending list
  | cons job jobs => exact .counting list job jobs

theorem Advances.plain (h : Advances s isWorker phase next s₁) (hplain : Plain isWorker (phase :: outer)) :
    Plain isWorker (next.phases outer) := by
  cases hplain with
  | loop hloop =>
      cases phase
      case checking => cases h; split <;> exact .loop rfl
      case readingEpoch | scanning | trying | retiring => cases h <;> exact .loop rfl
      case popping =>
        cases h with
        | pop => exact .job rfl
        | miss => exact .loop rfl
      case idle | stopped => cases h
      all_goals cases hloop
  | job hjob =>
      cases phase
      case running | callingBack => cases h
      case countingPanic => cases h; exact .job rfl
      case countingDown =>
        cases h with
        | countDown => exact .loop rfl
        | countLast => exact .job rfl
      case completing => cases h <;> exact .loop rfl
      all_goals cases hjob
  | call hcall =>
      cases phase
      case claiming =>
        cases h with
        | claim | claimNext => exact .call rfl
        | claimNone => exact .rest
      case resetting | handingBack | beginning | pushing | signalling | judging => cases h <;> exact .rest
      case counting | inspecting | blocking => cases h <;> exact .call rfl
      case ending =>
        cases h with
        | endEmpty => exact .rest
        | handOver => exact .call rfl
      case weighing =>
        cases h with
        | weighEmpty => exact .call rfl
        | weighJobs => exact .rest
      case blocked => cases h
      all_goals cases hcall
  | claiming list jobs =>
      cases h with
      | claim => exact .resetting _ jobs
      | claimNext => exact .claiming _ jobs
      | claimNone => exact .rest
  | resetting list jobs => cases h; exact .beginning list jobs
  | beginning list jobs =>
      cases h with
      | busy => exact .rest
      | begin => exact plain_filling list jobs
  | counting list job jobs => cases h; exact .pushing list job jobs
  | pushing list job jobs => cases h; exact plain_filling list jobs
  | ending list =>
      cases h with
      | endEmpty => exact .call rfl
      | handOver => exact .announcing list
  | announcing list => cases h; exact .call rfl

open Desk (Step)

def fillingWork : List (Job α) → Work α
  | [] => .ending
  | job :: _ => .counting job

theorem continues_fillingWork (jobs : List (Job α)) : Work.Continues (some (fillingWork jobs)) := by
  cases jobs <;> trivial

theorem workAt_filling (l list : Fin L) (jobs : List (Job α)) :
    workAt l (deliver (.done (.ok ())) [.batchFilling list jobs]).2 =
      if list = l then some (fillingWork jobs) else none := by
  cases jobs <;> rfl

theorem workOf?_of_workAt {phases : List (Phase α L)} {work : Work α} (h : workAt l phases = some work) :
    workOf? phases = some (l, work) := by
  obtain ⟨⟨list, found⟩, hfound, h⟩ := Option.bind_eq_some_iff.mp h
  dsimp only at h
  split at h
  next hl => cases h; rw [hfound, hl]
  · cases h

inductive Causes (s : System α L) (i : Nat) (l : Fin L) : List (Phase α L) → Effect α → Prop
  | quiet (phases : List (Phase α L)) : Causes s i l phases .quiet
  | claim (outer : List (Phase α L)) (h : (s.lists.get l).state = .complete) :
      Causes s i l (.claiming l.val :: outer) (.opened i (askedFor outer))
  | reopen (outer : List (Phase α L)) (h : (s.lists.get l).state = .complete) :
      Causes s i l (.beginning l :: outer) (.opened i [])
  | add (job : Job α) (outer : List (Phase α L)) : Causes s i l (.counting l job :: outer) (.added job)
  | start (seen : Nat) (job : Job α) (outer : List (Phase α L)) :
      Causes s i l (.popping seen l :: outer) (.started job)

theorem causes_effectAt (s : System α L) (i : Nat) (l : Fin L) (phases : List (Phase α L)) :
    Causes s i l phases (effectAt s i l phases) := by
  unfold effectAt
  split
  · split
    next h => obtain ⟨rfl, h⟩ := h; exact .claim _ h
    · exact .quiet _
  · split
    next h => obtain ⟨rfl, h⟩ := h; exact .reopen _ h
    · exact .quiet _
  · split
    next h => subst h; exact .add _ _
    · exact .quiet _
  · split
    next h =>
      subst h
      split
      · exact .start _ _ _
      · exact .quiet _
    · exact .quiet _
  · exact .quiet _

def place? : List (Phase α L) → Option (Fin L)
  | .trying _ list :: _ | .popping _ list :: _ | .running list _ _ :: _ | .callingBack list _ :: _
  | .countingPanic list :: _ | .countingDown list :: _ | .completing list :: _ | .resetting list :: _
  | .beginning list :: _ | .counting list _ :: _ | .pushing list _ :: _ | .ending list :: _
  | .signalling :: .batchEnding list :: _ | .inspecting list :: _ | .weighing list :: _ | .handingBack list :: _
  | .blocking list :: _ | .blocked list :: _ | .judging list :: _ => some list
  | .claiming list :: _ => if h : list < L then some ⟨list, h⟩ else none
  | _ => none

theorem place?_of_work {phases : List (Phase α L)} {list : Fin L} {work : Work α}
    (h : workOf? phases = some (list, work)) : place? phases = some list := by
  unfold workOf? at h
  split at h <;> cases h <;> rfl

theorem workAt_elsewhere {phases : List (Phase α L)} (hl : place? phases ≠ some l) :
    workAt l phases = none :=
  Option.eq_none_iff_forall_ne_some.mpr fun _ hwork => hl (place?_of_work (workOf?_of_workAt hwork))

theorem effectAt_elsewhere {phases : List (Phase α L)} (hl : place? phases ≠ some l) :
    effectAt s i l phases = .quiet := by
  have hcauses := causes_effectAt s i l phases
  generalize effectAt s i l phases = effect at hcauses
  cases hcauses with
  | quiet => rfl
  | claim => exact absurd (dif_pos l.isLt) hl
  | reopen | add | start => exact absurd rfl hl

/-- A phase that goes on leaves the other lists as they are, and its thread does not come to one of them. -/
theorem Advances.elsewhere (h : Advances s isWorker phase next s₁) (hplain : Plain isWorker (phase :: outer))
    (hl : place? (phase :: outer) ≠ some l) :
    s₁.lists.get l = s.lists.get l ∧ workAt l (next.phases outer) = none := by
  have hlist (list : Fin L) (hphase : place? (phase :: outer) = some list) : list ≠ l :=
    fun he => hl (he ▸ hphase)
  cases hplain with
  | loop hloop =>
      cases phase
      case checking => cases h; cases hexecuting : s.executing <;> exact ⟨rfl, rfl⟩
      case readingEpoch | scanning | retiring => cases h <;> exact ⟨rfl, rfl⟩
      case trying seen list => cases h <;> simp [hlist list rfl]
      case popping seen list => cases h <;> simp [System.record, hlist list rfl]
      case idle | stopped => cases h
      all_goals cases hloop
  | job hjob =>
      cases phase
      case running | callingBack => cases h
      case countingPanic list | countingDown list | completing list => cases h <;> simp [hlist list rfl]
      all_goals cases hjob
  | call hcall =>
      cases phase
      case claiming list =>
        cases h with
        | claim _ hlt => simp [hlist ⟨list, hlt⟩ (dif_pos hlt)]
        | claimNext | claimNone => exact ⟨rfl, rfl⟩
      case signalling => cases h; exact ⟨rfl, rfl⟩
      case blocked => cases h
      case resetting list | beginning list | counting list _ | pushing list _ | ending list | inspecting list
          | weighing list | handingBack list | blocking list | judging list =>
        cases h <;> simp [hlist list rfl]
      all_goals cases hcall
  | claiming list jobs =>
      cases h with
      | claim _ hlt => simp [hlist ⟨list, hlt⟩ (dif_pos hlt)]
      | claimNext | claimNone => exact ⟨rfl, rfl⟩
  | resetting list jobs | counting list job jobs | ending list | announcing list =>
      cases h <;> simp [hlist list rfl]
  | beginning list jobs =>
      cases h with
      | busy => exact ⟨rfl, rfl⟩
      | begin => rw [Next.phases, workAt_filling]; simp [hlist list rfl]
  | pushing list job jobs =>
      cases h
      rw [Next.phases, workAt_filling]
      simp [hlist list rfl]

/-- The work of a thread goes on as `Desk` has it if the list is in this state: it has not been opened again behind a
thread that is to complete it, or been ended for one that fills it. -/
def Work.InStep (state : ListState) : Work α → Prop
  | .completing => state = .draining
  | .beginning => state = .filling
  | _ => True

theorem Work.Fits.inStep {state : ListState} {work : Work α} (h : work.Fits state) : work.InStep state := by
  cases work <;> first | exact h | trivial

section Here

variable (others : Multiset (Work α))

theorem Advances.step_loop (h : Advances s isWorker phase next s₁) (hloop : phase.isLoop)
    (hl : place? [phase] = some l) :
    Step ⟨s.lists.get l, beside others (workAt l [phase])⟩ (effectAt s i l [phase])
      ⟨s₁.lists.get l, beside others (workAt l (next.phases []))⟩ := by
  cases phase
  case trying seen list =>
    obtain rfl := Option.some.inj hl
    cases h with
    | accept _ _ hlist => simpa using Step.look hlist
    | refuse => exact .rest _
  case popping seen list =>
    obtain rfl := Option.some.inj hl
    cases h with
    | pop _ _ job queue hqueue => simpa [System.record, hqueue] using Step.pop hqueue
    | miss _ _ hqueue => simpa [hqueue] using Step.turn Work.Turns.miss
  all_goals first | (cases hl; done) | cases hloop

theorem Advances.step_job (h : Advances s isWorker phase next s₁) (hjob : phase.isJob)
    (hl : place? [phase, .checking] = some l)
    (hinStep : ∀ work, workAt l [phase, .checking] = some work → work.InStep (s.lists.get l).state) :
    Step ⟨s.lists.get l, beside others (workAt l [phase, .checking])⟩ (effectAt s i l [phase, .checking])
      ⟨s₁.lists.get l, beside others (workAt l (next.phases [.checking]))⟩ := by
  cases phase
  case running | callingBack => cases h
  case countingPanic list =>
    obtain rfl := Option.some.inj hl
    cases h
    simpa using Step.countPanic _ _
  case countingDown list =>
    obtain rfl := Option.some.inj hl
    cases h with
    | countDown _ h => simpa using Step.countDown h
    | countLast _ h => simpa using Step.countLast h
  case completing list =>
    obtain rfl := Option.some.inj hl
    cases h with
    | complete => simpa using Step.complete _ _
    | leaveOpen _ h => exact absurd (hinStep .completing (by simp)) h
  all_goals cases hjob

/-- A list is claimed in the same way for a batch whose jobs are known and for one whose jobs are not. -/
theorem Advances.step_claiming {list : Nat} (h : Advances s isWorker (.claiming list) next s₁)
    (hl : place? (.claiming list :: outer) = some l) :
    Step ⟨s.lists.get l, beside others (workAt l (.claiming list :: outer))⟩
      (effectAt s i l (.claiming list :: outer))
      ⟨s₁.lists.get l, beside others (workAt l (next.phases outer))⟩ := by
  cases h with
  | claim _ hlt hfree =>
      obtain rfl := Option.some.inj ((dif_pos hlt).symm.trans hl)
      simpa [hfree] using Step.claim i (askedFor outer) hfree
  | claimNext _ hlt hheld =>
      obtain rfl := Option.some.inj ((dif_pos hlt).symm.trans hl)
      simpa [hheld] using Step.rest _
  | claimNone _ hge => cases (dif_neg (Nat.not_lt.mpr hge)).symm.trans hl

theorem Advances.step_counting {list : Fin L} {job : Job α}
    (h : Advances s isWorker (.counting list job) next s₁) :
    Step ⟨s.lists.get list, beside others (workAt list (.counting list job :: outer))⟩
      (effectAt s i list (.counting list job :: outer))
      ⟨s₁.lists.get list, beside others (workAt list (next.phases outer))⟩ := by
  cases h
  simpa using Step.count _ _ job

theorem Advances.step_call (h : Advances s false phase next s₁) (hcall : phase.isCall)
    (hl : place? [phase] = some l) :
    Step ⟨s.lists.get l, beside others (workAt l [phase])⟩ (effectAt s i l [phase])
      ⟨s₁.lists.get l, beside others (workAt l (next.phases []))⟩ := by
  cases phase
  case claiming list => exact h.step_claiming others hl
  case counting list job =>
    obtain rfl := Option.some.inj hl
    exact h.step_counting others
  case resetting list =>
    obtain rfl := Option.some.inj hl
    cases h
    simpa using Step.reset _ _ none trivial
  case beginning list =>
    obtain rfl := Option.some.inj hl
    cases h with
    | busy _ h => simpa [h] using Step.rest _
    | begin =>
        cases hlist : (s.lists.get list).state with
        | complete => simpa [hlist] using Step.reopen i [] hlist
        | filling =>
            have hstep : Step ⟨_, others⟩ _ _ := Step.refresh hlist
            simpa [hlist] using hstep
        | draining => contradiction
  case pushing list job =>
    obtain rfl := Option.some.inj hl
    cases h
    simpa using Step.push _ _ job none trivial
  case ending list =>
    obtain rfl := Option.some.inj hl
    cases h with
    | endEmpty _ h => simpa using Step.endEmpty h (Or.inl rfl)
    | handOver _ h => simpa using Step.handOver h (Or.inl rfl)
  case inspecting list =>
    obtain rfl := Option.some.inj hl
    cases h with
    | findComplete _ h => simpa using Step.turn (Work.Turns.findComplete h)
    | findFilling _ h => simpa using Step.turn (Work.Turns.findFilling h)
    | findDraining _ h => simpa using Step.turn (Work.Turns.findDraining h)
  case weighing list =>
    obtain rfl := Option.some.inj hl
    cases h with
    | weighEmpty => simpa using Step.turn Work.Turns.weighEmpty
    | weighJobs => simpa using Step.turn Work.Turns.weighJobs
  case handingBack list =>
    obtain rfl := Option.some.inj hl
    cases h with
    | handBack _ _ h => simpa using Step.handBack h
    | keep => simpa using Step.turn Work.Turns.keep
  case blocking list =>
    obtain rfl := Option.some.inj hl
    cases h with
    | block => exact .rest _
    | wake _ h => simpa using Step.turn (Work.Turns.wake h)
  case judging list =>
    obtain rfl := Option.some.inj hl
    cases h
    simpa using Step.turn Work.Turns.judge
  case signalling => cases hl
  case blocked => cases h
  all_goals cases hcall

end Here

/-- What a thread does when its innermost phase goes on is one step at each list. -/
theorem Advances.step (h : Advances s isWorker phase next s₁) (hplain : Plain isWorker (phase :: outer))
    (others : Multiset (Work α))
    (hinStep : ∀ work, workAt l (phase :: outer) = some work → work.InStep (s.lists.get l).state) :
    Step ⟨s.lists.get l, beside others (workAt l (phase :: outer))⟩ (effectAt s i l (phase :: outer))
      ⟨s₁.lists.get l, beside others (workAt l (next.phases outer))⟩ := by
  by_cases hl : place? (phase :: outer) = some l
  · cases hplain with
    | loop hloop => exact h.step_loop others hloop hl
    | job hjob => exact h.step_job others hjob hl hinStep
    | call hcall => exact h.step_call others hcall hl
    | claiming list jobs => exact h.step_claiming others hl
    | resetting list jobs =>
        obtain rfl := Option.some.inj hl
        cases h
        simpa using Step.reset _ _ (some .beginning) trivial
    | beginning list jobs =>
        obtain rfl := Option.some.inj hl
        have hfilling : (s.lists.get list).state = .filling := hinStep .beginning (by simp)
        cases h with
        | busy _ h => cases h.symm.trans hfilling
        | begin =>
            rw [Next.phases, workAt_filling]
            simpa [hfilling] using Step.begin (s.lists.get list) others _ (continues_fillingWork jobs)
    | counting list job jobs =>
        obtain rfl := Option.some.inj hl
        exact h.step_counting others
    | pushing list job jobs =>
        obtain rfl := Option.some.inj hl
        cases h
        rw [Next.phases, workAt_filling]
        simpa using Step.push (s.lists.get list) others job _ (continues_fillingWork jobs)
    | ending list =>
        obtain rfl := Option.some.inj hl
        cases h with
        | endEmpty _ h => simpa using Step.endEmpty h (Or.inr rfl)
        | handOver _ h => simpa using Step.handOver h (Or.inr rfl)
    | announcing list =>
        obtain rfl := Option.some.inj hl
        cases h
        simpa using Step.turn Work.Turns.announce
  · obtain ⟨hlist, hwork⟩ := h.elsewhere hplain hl
    rw [workAt_elsewhere hl, effectAt_elsewhere hl, hlist, hwork]
    exact .rest _

end FrameEngine.Jobs
