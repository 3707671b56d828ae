namespace FrameEngine.Jobs

inductive JobError
  | noWorkers
  | noFreeJobLists (lists : Nat)
  | busy (list : Nat)
  | notEnded (list : Nat)
  | panicked (list count : Nat)
  deriving DecidableEq

def JobError.message : JobError → String
  | .noWorkers => "Job system needs at least one worker thread"
  | .noFreeJobLists lists => "No free job lists (" ++ toString lists ++ " slots all in use)"
  | .busy list => "Job list " ++ toString list ++ " still has a batch in flight"
  | .notEnded list => "Job list " ++ toString list ++ " was waited on before end() was called"
  | .panicked list count => toString count ++ " job(s) in list " ++ toString list ++ " panicked"

end FrameEngine.Jobs
