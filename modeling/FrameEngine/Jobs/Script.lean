import FrameEngine.Jobs.System
import FrameEngine.Total

namespace FrameEngine.Jobs

/-- What a job does: it waits at its gate, runs its batch, leaves its name as a record, and panics
if it is to. A callback leaves a record too, and may panic. -/
inductive Task
  | task (name : String) (gate : Option String) (batch : Option (List Task)) (panics : Bool)
      (callback : Option Bool)
  deriving Inhabited

namespace Task

def name : Task → String
  | .task name _ _ _ _ => name

def gate : Task → Option String
  | .task _ gate _ _ _ => gate

def batch : Task → Option (List Task)
  | .task _ _ batch _ _ => batch

def panics : Task → Bool
  | .task _ _ _ panics _ => panics

def callback : Task → Option Bool
  | .task _ _ _ _ callback => callback

def job (task : Task) : Job Task := ⟨task, task.callback.isSome⟩

mutual

def weight : Task → Nat
  | .task _ _ none _ _ => 1
  | .task _ _ (some batch) _ _ => 1 + weights batch

def weights : List Task → Nat
  | [] => 0
  | first :: rest => first.weight + weights rest

end

end Task

structure Script (L : Nat) where
  system : System Task L
  released : List String := []
  records : Array String := #[]

namespace Script

variable {L : Nat}

def start (workers : Nat) : Except JobError (Script L) :=
  if workers = 0 then .error .noWorkers else .ok { system := System.ofThreads workers 1 }

def listCount (requested : Nat) : Nat := max requested 1

def client (s : Script L) : Nat := s.system.workerCount

def batchRecord (task : Task) (outcome : Option (Outcome L)) : String :=
  task.name ++ ": " ++ match outcome with
    | some (.done (.error cause)) => cause.message
    | _ => "batch ok"

/-- What a thread does next, and what it records then; nothing if it sleeps or stands at a gate. -/
def next? (s : Script L) (thread : Thread Task L) : Option (Move Task L × List String) :=
  match thread.phases with
  | .running _ job uses :: _ =>
      let task := job.task
      if task.gate.any fun gate => gate ∉ s.released then none
      else match task.batch with
        | none => some (.endJob task.panics, [task.name])
        | some batch =>
            if uses = 0 then some (.use (.runBatch (batch.map Task.job)), [])
            else some (.endJob task.panics, [batchRecord task thread.outcome, task.name])
  | .callingBack _ job :: _ =>
      some (.endCallback (job.task.callback = some true), [job.task.name ++ ": done"])
  | [] => none
  | _ => some (.advance, [])

def moved? (s : Script L) (i : Nat) : Option (Script L) := do
  let thread ← s.system.threads[i]?
  let (move, records) ← s.next? thread
  let system ← s.system.step? i move
  return { s with system := system, records := records.foldl Array.push s.records }

def waits (thread : Thread Task L) : Bool :=
  match thread.phases with
  | .blocking _ :: _ | .blocked _ :: _ => true
  | _ => false

def isInJob (s : Script L) (thread : Thread Task L) : Bool :=
  match s.next? thread with
  | some (.endJob _, _) | some (.endCallback _, _) => true
  | _ => false

/-- The workers that are not at the end of a job, if the client waits. -/
def betweenJobs (s : Script L) : List Nat :=
  if (s.system.threads[s.client]?).any waits then
    (List.range s.client).filter fun i => !(s.system.threads[i]?).any s.isInJob
  else []

/-- The client moves first, then the first worker that can. Waking up takes longer than all that
workers do between jobs, but not as long as a job. -/
def turn? (s : Script L) : Option (Script L) :=
  (s.betweenJobs.findSome? s.moved?).or <| (s.moved? s.client).or <|
    (List.range s.client).findSome? s.moved?

def runFor : Nat → Script L → Script L
  | 0, s => s
  | fuel + 1, s => match s.turn? with
      | none => s
      | some s => runFor fuel s

def phaseJobs : Phase Task L → Nat
  | .running _ job _ | .callingBack _ job | .counting _ job | .pushing _ job => job.task.weight
  | .batchClaiming jobs | .batchFilling _ jobs => Task.weights (jobs.map (·.task))
  | _ => 0

def pendingJobs (s : Script L) : Nat :=
  total (s.system.lists.toList.map fun list => Task.weights (list.queue.map (·.task))) +
    total (s.system.threads.toList.map fun thread => total (thread.phases.map phaseJobs))

/-- Moves that are enough for the jobs there are: each is handled in a fixed number of moves, and
whenever some are handed over every worker looks through the lists. -/
def moveLimit (s : Script L) : Nat :=
  64 * (s.pendingJobs + 2) * (s.system.threads.size + 2) * (L + 2)

def settle (s : Script L) : Script L := s.runFor s.moveLimit

def release (s : Script L) (gate : String) : Script L :=
  ({ s with released := gate :: s.released } : Script L).settle

/-- Lets the client ask for an operation; gates are opened one after another once nothing else can
happen. The outcome is there unless the client sleeps for good. -/
def use (s : Script L) (operation : Operation Task L) (gates : List String) :
    Option (Outcome L) × Script L :=
  match s.system.step? s.client (.use operation) with
  | none => (none, s)
  | some system =>
      let s := gates.foldl release ({ s with system := system } : Script L).settle
      ((s.system.threads[s.client]?.bind fun thread =>
        if thread.phases.isEmpty then thread.outcome else none), s)

def takeRecords (s : Script L) : Array String × Script L := (s.records, { s with records := #[] })

end Script

end FrameEngine.Jobs
