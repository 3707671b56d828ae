import FrameEngine.Asset.Error
import FrameEngine.Jobs.Error

namespace FrameEngine.Slots

open FrameEngine.Asset FrameEngine.Jobs

inductive SlotError
  | outOfSlots (table : String) (capacity : Nat)
  | missingPlaceholder (table key reason : String)
  | upload (table reason : String)
  | jobs (cause : JobError)
  | asset (cause : AssetError)
  /-- A load asked for a key whose own load it is part of; it would wait for itself. -/
  | selfWait (table : String) (slot : Nat)
  deriving DecidableEq

def SlotError.message : SlotError → String
  | .outOfSlots table capacity => "out of " ++ table ++ " slots (" ++ toString capacity ++ " in use)"
  | .missingPlaceholder table key reason => "missing " ++ table ++ " placeholder " ++ key ++ ": " ++ reason
  | .upload table reason => table ++ " upload failed: " ++ reason
  | .jobs cause => "job system error: " ++ cause.message
  | .asset cause => "asset error: " ++ cause.message
  | .selfWait table slot => table ++ " slot " ++ toString slot ++ " waits for its own load"

inductive LoadError
  | unavailable (reason : String)
  | fatal (cause : SlotError)
  deriving DecidableEq

namespace LoadError

def message : LoadError → String
  | .unavailable reason => reason
  | .fatal cause => cause.message

def ofJob (cause : JobError) : LoadError := .fatal (.jobs cause)

def ofAsset (cause : AssetError) : LoadError :=
  if cause.isMissing then .unavailable cause.message else .fatal (.asset cause)

end LoadError

end FrameEngine.Slots
