import FrameEngine.Slots.Loading

namespace FrameEngine.Slots.Scripted

inductive Step
  | load (key : Nat)
  | set (key : Nat) (outcome : Option (Except LoadError String))
  | during (key : Nat) (steps : List Step)
  | get (key : Nat)
  | slot (slot : Nat)
  | table
  | unload (slot : Nat)
  | unloadAll
  | debug
  deriving Inhabited

inductive Answer
  | nothing
  | loaded (slot : Nat)
  | failed (cause : SlotError)
  | unloaded (done : Bool)
  | got (slot : Option Nat) (isLoaded : Bool)
  | slot (isPresent : Bool) (key : Option Nat) (resource : Option String)
  | table (size : Nat) (isEmpty : Bool) (capacity loads : Nat) (keys : List Nat)
  | debug (text : String)

inductive Trace
  | load (key : Nat)
  | release (resource : String)
  | during (key : Nat) (answer : Answer)

structure Script where
  outcomes : List (Nat × Except LoadError String) := []
  waiting : List (Nat × List Step) := []
  trace : Array Trace := #[]
  journal : Journal := #[]

namespace Script

/-- How the load of a key ends; if nothing was said, with a resource named after the key. -/
def outcome (script : Script) (key : Nat) : Except LoadError String :=
  ((script.outcomes.find? (·.1 = key)).map (·.2)).getD (.ok ("resource-" ++ toString key))

def set (script : Script) (key : Nat) (outcome : Option (Except LoadError String)) : Script :=
  let others := script.outcomes.filter (·.1 ≠ key)
  { script with outcomes := match outcome with
    | some outcome => (key, outcome) :: others
    | none => others }

def wait (script : Script) (key : Nat) (steps : List Step) : Script :=
  { script with waiting := (key, steps) :: script.waiting.filter (·.1 ≠ key) }

def takeWaiting (script : Script) (key : Nat) : List Step × Script :=
  (((script.waiting.find? (·.1 = key)).map (·.2)).getD [],
    { script with waiting := script.waiting.filter (·.1 ≠ key) })

def record (script : Script) (event : Trace) : Script :=
  { script with trace := script.trace.push event }

end Script

variable {N : Nat}

def perform (L : Loader Script Nat String N) (step : Step) (w : Table Nat String N × Script) :
    Answer × (Table Nat String N × Script) :=
  match step with
  | .load key => match L.loadOrGet key w with
      | (.ok s, w) => (.loaded s, w)
      | (.error cause, w) => (.failed cause, w)
  | .set key outcome => (.nothing, w.1, w.2.set key outcome)
  | .during key steps => (.nothing, w.1, w.2.wait key steps)
  | .get key => (.got ((w.1.get? key).map (·.val)) (w.1.isLoaded key), w)
  | .slot slot => (.slot (w.1.isPresent slot) (w.1.keyAt? slot) (w.1.resourceAt? slot), w)
  | .table => (.table w.1.size w.1.isEmpty w.1.capacity w.1.loads w.1.keys, w)
  | .unload slot =>
      let (done, w) := L.unload slot w
      (.unloaded done, w)
  | .unloadAll => (.nothing, L.unloadAll w)
  | .debug => (.debug (w.1.debugText L.kind), w)

def performDuring (L : Loader Script Nat String N) (key : Nat) (steps : List Step)
    (w : Table Nat String N × Script) : Table Nat String N × Script :=
  steps.foldl
    (fun w step =>
      let (answer, t, script) := perform L step w
      (t, script.record (.during key answer))) w

/-- A loader that may load inside its loads, and there again, down to a depth. -/
def loaderOfDepth (placeholder : Nat) : Nat → Loader Script Nat String N
  | 0 => {
      kind := "test"
      placeholder := placeholder
      describe := fun _ key => toString key
      load := fun key w => (w.2.outcome key, w)
      release := fun resource script => script.record (.release resource)
      note := fun event script => { script with journal := script.journal.push event } }
  | depth + 1 => {
      loaderOfDepth placeholder 0 with
      load := fun key w =>
        let script := w.2.record (.load key)
        let (steps, script) := script.takeWaiting key
        let w := performDuring (loaderOfDepth placeholder depth) key steps (w.1, script)
        (w.2.outcome key, w) }

/-- Every load that runs holds a slot of its own, so none runs deeper than there are slots. -/
def loader (N placeholder : Nat) : Loader Script Nat String N := loaderOfDepth placeholder (N + 1)

end FrameEngine.Slots.Scripted
