import FrameEngine.Jobs.Error

namespace FrameEngine.Jobs

/-- The job system as its client sees it while it asks for nothing: how many workers there are, which
lists are held, and how the next batches will go. -/
structure Pool where
  workers : Nat
  held : List Bool
  /-- For each of the next batches, the numbers of those of its jobs that have ended when the batch is
  answered, the first to end first. All later batches run to their ends. -/
  courses : List (List Nat) := []

namespace Pool

/-- A pool has at least one list, however few are asked for. It needs a worker. -/
def start (workers lists : Nat) : Except JobError Pool :=
  if workers = 0 then .error .noWorkers
  else .ok { workers := workers, held := List.replicate (max lists 1) false }

def usualLists : Nat := 4

def lists (pool : Pool) : Nat := pool.held.length

def free (pool : Pool) : Nat := pool.held.countP fun held => !held

def claim (pool : Pool) : Except JobError (Nat × Pool) :=
  match pool.held.findIdx? fun held => !held with
  | some list => .ok (list, { pool with held := pool.held.set list true })
  | none => .error (.noFreeJobLists pool.lists)

def release (pool : Pool) (list : Nat) : Pool := { pool with held := pool.held.set list false }

/-- Whether a batch can run: it needs a list, which is free again afterwards. -/
def forBatch (pool : Pool) : Except JobError Unit := do
  let _ ← pool.claim
  return ()

/-- Runs jobs as a batch: those that have ended when the batch is answered. -/
def runBatch {α : Type} (pool : Pool) (jobs : List α) : Except JobError (List α × Pool) := do
  pool.forBatch
  match pool.courses with
  | [] => return (jobs, pool)
  | course :: courses => return (course.filterMap fun i => jobs[i]?, { pool with courses := courses })

end Pool

end FrameEngine.Jobs
