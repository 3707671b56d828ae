import FrameEngine.Jobs.Error
import FrameEngine.Jobs.List

namespace FrameEngine.Jobs

variable {α : Type} {L : Nat}

inductive Operation (α : Type) (L : Nat)
  | claim
  | begin (list : Fin L)
  | add (list : Fin L) (job : Job α)
  | finish (list : Fin L)
  | wait (list : Fin L)
  | runBatch (jobs : List (Job α))
  | completeFrame
  | signal
  | drop

inductive Outcome (L : Nat)
  | claimed (list : Fin L)
  | done (result : Except JobError Unit)

inductive Phase (α : Type) (L : Nat)
  | checking
  | readingEpoch
  | scanning (seen list : Nat)
  | trying (seen : Nat) (list : Fin L)
  | popping (seen : Nat) (list : Fin L)
  /-- About to sleep, unless something was signalled since the epoch was read. -/
  | retiring (seen : Nat)
  | idle (seen : Nat)
  | stopped
  | running (list : Fin L) (job : Job α) (uses : Nat)
  | callingBack (list : Fin L) (job : Job α)
  | countingPanic (list : Fin L)
  | countingDown (list : Fin L)
  | completing (list : Fin L)
  | claiming (list : Nat)
  | resetting (list : Fin L)
  | beginning (list : Fin L)
  | counting (list : Fin L) (job : Job α)
  | pushing (list : Fin L) (job : Job α)
  | ending (list : Fin L)
  | signalling
  | inspecting (list : Fin L)
  | weighing (list : Fin L)
  | handingBack (list : Fin L)
  /-- A wait of a worker, which takes jobs off the list itself. -/
  | helping (list : Fin L)
  | taking (list : Fin L)
  | blocking (list : Fin L)
  | blocked (list : Fin L)
  | judging (list : Fin L)
  | batchClaiming (jobs : List (Job α))
  | batchFilling (list : Fin L) (jobs : List (Job α))
  | batchEnding (list : Fin L)
  /-- Lists below `list` are waited for; `result` is the first error among them. -/
  | sweeping (list : Nat) (result : Except JobError Unit)
  | stopping
  | announcingStop
  | joining (thread : Nat)

structure Thread (α : Type) (L : Nat) where
  isWorker : Bool
  phases : List (Phase α L) := []
  outcome : Option (Outcome L) := none

inductive JobEvent (α : Type) (L : Nat)
  | started (list : Fin L) (job : Job α)
  | ended (list : Fin L) (job : Job α) (panicked : Bool)
  | calledBack (list : Fin L) (job : Job α) (panicked : Bool)

structure System (α : Type) (L : Nat) where
  executing : Bool := true
  epoch : Nat := 0
  lists : Vector (JobList α) L
  threads : Array (Thread α L)
  /-- The latest event comes first. -/
  history : List (JobEvent α L) := []

inductive Move (α : Type) (L : Nat)
  | advance
  | use (operation : Operation α L)
  | endJob (panicked : Bool)
  | endCallback (panicked : Bool)

inductive Next (α : Type) (L : Nat)
  | become (phase : Phase α L)
  | enter (phase outer : Phase α L)
  | leave
  | reply (outcome : Outcome L)

def Operation.phases : Operation α L → List (Phase α L)
  | .claim => [.claiming 0]
  | .begin list => [.beginning list]
  | .add list job => [.counting list job]
  | .finish list => [.ending list]
  | .wait list => [.inspecting list]
  | .runBatch jobs => [.claiming 0, .batchClaiming jobs]
  | .completeFrame => [.sweeping 0 (.ok ())]
  | .signal => [.signalling]
  | .drop => [.stopping]

def deliver (outcome : Outcome L) : List (Phase α L) → Option (Outcome L) × List (Phase α L)
  | .batchClaiming jobs :: outer => match outcome with
      | .claimed list => (none, .beginning list :: .batchFilling list jobs :: outer)
      | .done _ => deliver outcome outer
  | .batchFilling list jobs :: outer => match outcome, jobs with
      | .done (.error _), _ => deliver outcome outer
      | _, job :: jobs => (none, .counting list job :: .batchFilling list jobs :: outer)
      | _, [] => (none, .ending list :: .batchEnding list :: outer)
  | .batchEnding list :: outer => (none, .inspecting list :: outer)
  | .sweeping list result :: outer => match result, outcome with
      | .ok _, .done waited => (none, .sweeping list waited :: outer)
      | _, _ => (none, .sweeping list result :: outer)
  | .running list job uses :: outer => (some outcome, .running list job (uses + 1) :: outer)
  | outer => (some outcome, outer)

namespace System

def ofThreads (workers clients : Nat) : System α L where
  lists := Vector.replicate L {}
  threads := Array.replicate workers { isWorker := true, phases := [.checking] } ++
    Array.replicate clients { isWorker := false }

def setList (s : System α L) (list : Fin L) (value : JobList α) : System α L :=
  { s with lists := s.lists.set list.val value list.isLt }

def rouse (s : System α L) : System α L :=
  { s with threads := s.threads.map fun thread =>
    { thread with phases := match thread.phases with
      | .idle seen :: outer => .retiring seen :: outer
      | phases => phases } }

def notify (s : System α L) : System α L := ({ s with epoch := s.epoch + 1 } : System α L).rouse

def wakeWaiting (s : System α L) (list : Fin L) : System α L :=
  { s with threads := s.threads.map fun thread =>
    { thread with phases := match thread.phases with
      | .blocked slept :: outer => (if slept = list then .blocking slept else .blocked slept) :: outer
      | phases => phases } }

def completeList (s : System α L) (list : Fin L) : System α L :=
  (s.setList list { s.lists.get list with state := .complete }).wakeWaiting list

def record (s : System α L) (event : JobEvent α L) : System α L :=
  { s with history := event :: s.history }

def hasStopped (thread : Thread α L) : Bool :=
  !thread.isWorker || match thread.phases with
    | [.stopped] => true
    | _ => false

def pop? (s : System α L) (list : Fin L) : Option (Job α × System α L) :=
  match (s.lists.get list).queue with
  | [] => none
  | job :: queue =>
      some (job, (s.setList list { s.lists.get list with queue := queue }).record (.started list job))

def advanceLoop (s : System α L) : Phase α L → Option (Next α L × System α L)
  | .checking => some (.become (if s.executing then .readingEpoch else .stopped), s)
  | .readingEpoch => some (.become (.scanning s.epoch 0), s)
  | .scanning seen list =>
      if h : list < L then
        if (s.lists.get ⟨list, h⟩).outstanding > 0 then some (.become (.trying seen ⟨list, h⟩), s)
        else some (.become (.scanning seen (list + 1)), s)
      else some (.become (.retiring seen), s)
  | .trying seen list =>
      if (s.lists.get list).state = .draining then some (.become (.popping seen list), s)
      else some (.become (.scanning seen (list + 1)), s)
  | .popping seen list => match s.pop? list with
      | some (job, s) => some (.enter (.running list job 0) .checking, s)
      | none => some (.become (.scanning seen (list + 1)), s)
  | .retiring seen => some (.become (if s.epoch = seen then .idle seen else .checking), s)
  | _ => none

def advanceJob (s : System α L) : Phase α L → Option (Next α L × System α L)
  | .countingPanic list =>
      some (.become (.countingDown list),
        s.setList list { s.lists.get list with panicked := (s.lists.get list).panicked + 1 })
  | .countingDown list =>
      let outstanding := (s.lists.get list).outstanding
      some (if outstanding = 1 then .become (.completing list) else .leave,
        s.setList list { s.lists.get list with outstanding := outstanding - 1 })
  | .completing list =>
      some (.leave, if (s.lists.get list).state = .draining then s.completeList list else s)
  | _ => none

def advanceFilling (s : System α L) : Phase α L → Option (Next α L × System α L)
  | .claiming list =>
      if h : list < L then
        if (s.lists.get ⟨list, h⟩).state = .complete then
          some (.become (.resetting ⟨list, h⟩),
            s.setList ⟨list, h⟩ { s.lists.get ⟨list, h⟩ with state := .filling })
        else some (.become (.claiming (list + 1)), s)
      else some (.reply (.done (.error (.noFreeJobLists L))), s)
  | .resetting list => some (.reply (.claimed list), s.setList list { s.lists.get list with panicked := 0 })
  | .beginning list =>
      if (s.lists.get list).state = .draining then some (.reply (.done (.error (.busy list))), s)
      else some (.reply (.done (.ok ())),
        s.setList list { s.lists.get list with state := .filling, panicked := 0 })
  | .counting list job =>
      some (.become (.pushing list job),
        s.setList list { s.lists.get list with outstanding := (s.lists.get list).outstanding + 1 })
  | .pushing list job =>
      some (.reply (.done (.ok ())),
        s.setList list { s.lists.get list with queue := (s.lists.get list).queue ++ [job] })
  | .ending list =>
      if (s.lists.get list).outstanding = 0 then some (.reply (.done (.ok ())), s.completeList list)
      else some (.become .signalling, s.setList list { s.lists.get list with state := .draining })
  | .signalling => some (.reply (.done (.ok ())), s.notify)
  | _ => none

/-- One step of a wait. A worker that waits takes jobs off the list itself. -/
def advanceWait (s : System α L) (isWorker : Bool) : Phase α L → Option (Next α L × System α L)
  | .inspecting list => match (s.lists.get list).state with
      | .complete => some (.become (.judging list), s)
      | .filling => some (.become (.weighing list), s)
      | .draining => some (.become (if isWorker then .helping list else .blocking list), s)
  | .weighing list =>
      if (s.lists.get list).outstanding = 0 then some (.become (.handingBack list), s)
      else some (.reply (.done (.error (.notEnded list))), s)
  | .handingBack list =>
      some (.reply (.done (.ok ())),
        if (s.lists.get list).state = .filling ∧ (s.lists.get list).outstanding = 0 then
          s.completeList list
        else s)
  | .helping list =>
      some (.become (if (s.lists.get list).state = .draining then .taking list else .blocking list), s)
  | .taking list => match s.pop? list with
      | some (job, s) => some (.enter (.running list job 0) (.helping list), s)
      | none => some (.become (.blocking list), s)
  | .blocking list =>
      some (.become (if (s.lists.get list).state = .draining then .blocked list else .judging list), s)
  | .judging list =>
      let panicked := (s.lists.get list).panicked
      some (.reply (.done (if panicked = 0 then .ok () else .error (.panicked list panicked))), s)
  | .sweeping list result =>
      if h : list < L then
        if (s.lists.get ⟨list, h⟩).state = .draining then
          some (.enter (.inspecting ⟨list, h⟩) (.sweeping (list + 1) result), s)
        else some (.become (.sweeping (list + 1) result), s)
      else some (.reply (.done result), s)
  | _ => none

def advanceDrop (s : System α L) : Phase α L → Option (Next α L × System α L)
  | .stopping => some (.become .announcingStop, { s with executing := false })
  | .announcingStop => some (.become (.joining 0), s.notify)
  | .joining thread => match s.threads[thread]? with
      | none => some (.reply (.done (.ok ())), s)
      | some joined => if hasStopped joined then some (.become (.joining (thread + 1)), s) else none
  | _ => none

def advance (s : System α L) (isWorker : Bool) (phase : Phase α L) : Option (Next α L × System α L) :=
  (s.advanceLoop phase).or <| (s.advanceJob phase).or <| (s.advanceFilling phase).or <|
    (s.advanceWait isWorker phase).or <| s.advanceDrop phase

def setPhases (s : System α L) (i : Nat) (phases : List (Phase α L)) : System α L :=
  { s with threads := s.threads.modify i fun thread => { thread with phases := phases } }

def settle (s : System α L) (i : Nat) (outer : List (Phase α L)) (next : Next α L) : System α L :=
  { s with threads := s.threads.modify i fun thread => match next with
    | .become phase => { thread with phases := phase :: outer }
    | .enter phase around => { thread with phases := phase :: around :: outer }
    | .leave => { thread with phases := outer }
    | .reply outcome =>
        let (answered, phases) := deliver outcome outer
        { thread with phases := phases, outcome := answered.or thread.outcome } }

/-- The system after a move of a thread, if the thread can make it. Every atomic operation and every section under a lock
is one move. What jobs do, and whether they panic, are moves as well. -/
def step? (s : System α L) (i : Nat) (move : Move α L) : Option (System α L) := do
  let thread ← s.threads[i]?
  match move, thread.phases with
  | .advance, phase :: outer =>
      let (next, s) ← s.advance thread.isWorker phase
      return s.settle i outer next
  | .use operation, [] =>
      guard (!thread.isWorker)
      return s.setPhases i operation.phases
  | .use operation, .running list job uses :: outer =>
      return s.setPhases i (operation.phases ++ .running list job uses :: outer)
  | .endJob panicked, .running list job _ :: outer =>
      let phase := if panicked then .countingPanic list
        else if job.hasCallback then .callingBack list job else .countingDown list
      return (s.record (.ended list job panicked)).settle i outer (.become phase)
  | .endCallback panicked, .callingBack list job :: outer =>
      let phase := if panicked then .countingPanic list else .countingDown list
      return (s.record (.calledBack list job panicked)).settle i outer (.become phase)
  | _, _ => none

def run? (s : System α L) (moves : List (Nat × Move α L)) : Option (System α L) :=
  moves.foldlM (fun s (i, move) => s.step? i move) s

def workerCount (s : System α L) : Nat := s.threads.countP (·.isWorker)

def freeLists (s : System α L) : Nat := s.lists.toList.countP fun list => list.state = .complete

def debugText (s : System α L) : String :=
  "JobSystem \x7b workers: " ++ toString s.workerCount ++ ", lists: [" ++
    String.intercalate ", " (s.lists.toList.mapIdx fun index list => list.debugText index) ++ "] \x7d"

end System

end FrameEngine.Jobs
