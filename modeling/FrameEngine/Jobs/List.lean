namespace FrameEngine.Jobs

inductive ListState
  | complete
  | filling
  | draining
  deriving DecidableEq

def ListState.text : ListState → String
  | .complete => "Complete"
  | .filling => "Filling"
  | .draining => "Draining"

/-- A job: what it does, and whether a callback follows when it has done so. -/
structure Job (α : Type) where
  task : α
  hasCallback : Bool

def Job.debugText {α : Type} (job : Job α) : String :=
  "Job \x7b function: \"<closure>\", on_complete: " ++ (if job.hasCallback then "true" else "false") ++ " \x7d"

structure JobList (α : Type) where
  state : ListState := .complete
  queue : List (Job α) := []
  /-- Number of jobs that were added and have not finished. -/
  outstanding : Nat := 0
  panicked : Nat := 0

def JobList.debugText {α : Type} (list : JobList α) (index : Nat) : String :=
  "JobList \x7b index: " ++ toString index ++ ", state: " ++ list.state.text ++ ", job_count: " ++
    toString list.outstanding ++ ", .. \x7d"

end FrameEngine.Jobs
