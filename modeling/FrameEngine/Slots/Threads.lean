import FrameEngine.Slots.Table

namespace FrameEngine.Slots.Threads

variable {κ ρ : Type} [DecidableEq κ] {N : Nat}

inductive Phase (ρ : Type) (N : Nat)
  | lookingUp
  | asleep (slot : Fin N)
  /-- Some load has ended; the slot has to be looked at again. -/
  | woken (slot : Fin N)
  | loading (slot : Fin N)
  | storing (slot : Fin N) (resource : ρ)
  | marking (slot : Fin N)
  | announcing (slot : Fin N)
  | counting (slot : Fin N)
  | clearing (slot : Fin N) (cause : LoadError)
  | announcingFailure (cause : LoadError)
  /-- The placeholder's slot is about to stand in for the wanted key. -/
  | aliasing (slot : Fin N)

/-- A call for the slot of a key. It works on that key or, later, on the placeholder. -/
structure Call (κ ρ : Type) (N : Nat) where
  wanted : κ
  key : κ
  phase : Phase ρ N

/-- A thread: calls that are under way, the innermost first, and results of those that a load did
not make. -/
structure Thread (κ ρ : Type) (N : Nat) where
  calls : List (Call κ ρ N) := []
  results : List (κ × Except SlotError (Fin N)) := []

structure Machine (κ ρ : Type) (N : Nat) where
  table : Table κ ρ N
  threads : Array (Thread κ ρ N)
  entered : List κ := []
  released : List ρ := []

structure Setting (κ : Type) where
  kind : String
  placeholder : κ
  describe : κ → String

inductive Move (κ ρ : Type)
  | call (key : κ)
  | unload (slot : Nat)
  | advance
  | finish (outcome : Except LoadError ρ)

inductive Progress (κ ρ : Type) (N : Nat)
  | goOn (call : Call κ ρ N)
  | ended (result : Except SlotError (Fin N))

def Call.found (c : Call κ ρ N) (slot : Fin N) : Progress κ ρ N :=
  if c.key = c.wanted then .ended (.ok slot) else .goOn { c with phase := .aliasing slot }

def Call.failed (setting : Setting κ) (c : Call κ ρ N) : LoadError → Progress κ ρ N
  | .fatal cause => .ended (.error cause)
  | .unavailable reason =>
      if c.key = setting.placeholder then
        .ended (.error (.missingPlaceholder setting.kind (setting.describe c.key) reason))
      else .goOn { c with key := setting.placeholder, phase := .lookingUp }

def Thread.wake (thread : Thread κ ρ N) : Thread κ ρ N :=
  { thread with calls := thread.calls.map fun c => match c.phase with
    | .asleep slot => { c with phase := .woken slot }
    | _ => c }

namespace Machine

def wakeAll (m : Machine κ ρ N) : Machine κ ρ N := { m with threads := m.threads.map Thread.wake }

def advanceCall (setting : Setting κ) (m : Machine κ ρ N) (c : Call κ ρ N) :
    Option (Progress κ ρ N × Machine κ ρ N) :=
  match c.phase with
  | .lookingUp => match m.table.probe c.key with
      | .hit slot => some (c.found slot, m)
      | .pending slot => some (.goOn { c with phase := .asleep slot }, m)
      | .vacant slot =>
          some (.goOn { c with phase := .loading slot },
            { m with table := m.table.reserve slot c.key, entered := c.key :: m.entered })
      | .full => some (.ended (.error (.outOfSlots setting.kind N)), m)
  | .asleep _ => none
  | .woken slot => match m.table.states.get slot with
      | .loading _ => some (.goOn { c with phase := .asleep slot }, m)
      | .resident _ =>
          if m.table.slotOf? c.key = some slot then some (c.found slot, m)
          else some (.goOn { c with phase := .lookingUp }, m)
      | .empty => some (.goOn { c with phase := .lookingUp }, m)
  | .loading _ => none
  | .storing slot resource =>
      some (.goOn { c with phase := .marking slot }, { m with table := m.table.store slot resource })
  | .marking slot =>
      some (.goOn { c with phase := .announcing slot }, { m with table := m.table.markResident slot })
  | .announcing slot => some (.goOn { c with phase := .counting slot }, m.wakeAll)
  | .counting slot => some (c.found slot, { m with table := m.table.countLoad })
  | .clearing slot cause =>
      some (.goOn { c with phase := .announcingFailure cause }, { m with table := m.table.clear slot })
  | .announcingFailure cause => some (c.failed setting cause, m.wakeAll)
  | .aliasing slot =>
      some (.ended (.ok slot), { m with table := m.table.addAlias c.wanted slot setting.placeholder })

def settle (m : Machine κ ρ N) (i : Nat) (wanted : κ) (outer : List (Call κ ρ N)) :
    Progress κ ρ N → Machine κ ρ N
  | .goOn c => { m with threads := m.threads.modify i fun thread => { thread with calls := c :: outer } }
  | .ended result => { m with threads := m.threads.modify i fun thread =>
      { calls := outer
        results := if outer.isEmpty then (wanted, result) :: thread.results else thread.results } }

/-- Whether a thread can start a call now: it is idle, or its innermost call is in its load. -/
def canCall (thread : Thread κ ρ N) : Bool :=
  match thread.calls with
  | [] => true
  | c :: _ => match c.phase with
      | .loading _ => true
      | _ => false

/-- The machine after a move of a thread, if the thread can make it. Every atomic operation and every section under the
table's lock is one move. -/
def step? (setting : Setting κ) (m : Machine κ ρ N) (i : Nat) (move : Move κ ρ) :
    Option (Machine κ ρ N) := do
  let thread ← m.threads[i]?
  match move with
  | .call key =>
      guard (canCall thread)
      return { m with threads := m.threads.modify i fun thread =>
        { thread with calls := ⟨key, key, .lookingUp⟩ :: thread.calls } }
  | .unload slot =>
      guard (canCall thread)
      match m.table.unload slot with
      | .done _ resource table => return { m with table := table, released := resource.toList ++ m.released }
      | _ => return m
  | .advance => match thread.calls with
      | [] => none
      | c :: outer =>
          let (progress, m) ← m.advanceCall setting c
          return m.settle i c.wanted outer progress
  | .finish outcome => match thread.calls with
      | [] => none
      | c :: outer => match c.phase with
          | .loading slot =>
              let phase := match outcome with
                | .ok resource => .storing slot resource
                | .error cause => .clearing slot cause
              return m.settle i c.wanted outer (.goOn { c with phase := phase })
          | _ => none

def run? (setting : Setting κ) (m : Machine κ ρ N) (moves : List (Nat × Move κ ρ)) :
    Option (Machine κ ρ N) :=
  moves.foldlM (fun m (i, move) => m.step? setting i move) m

def ofCalls (table : Table κ ρ N) (keys : List κ) : Machine κ ρ N where
  table := table
  threads := (keys.map fun key => { calls := [⟨key, key, .lookingUp⟩] : Thread κ ρ N }).toArray

/-- Lets a thread make a move, if it can: loads end as `outcome` says. -/
def turn (setting : Setting κ) (outcome : κ → Except LoadError ρ) (m : Machine κ ρ N) (i : Nat) :
    Machine κ ρ N :=
  match (m.threads[i]?.bind fun thread => thread.calls.head?) with
  | none => m
  | some c => match c.phase with
      | .loading _ => (m.step? setting i (.finish (outcome c.key))).getD m
      | _ => (m.step? setting i .advance).getD m

def isDone (m : Machine κ ρ N) : Bool := m.threads.all fun thread => thread.calls.isEmpty

def rounds (setting : Setting κ) (outcome : κ → Except LoadError ρ) :
    Nat → Machine κ ρ N → Machine κ ρ N
  | 0, m => m
  | n + 1, m =>
      if m.isDone then m
      else rounds setting outcome n ((List.range m.threads.size).foldl (turn setting outcome) m)

/-- Rounds that are enough for so many calls: each makes at most two loads, and in every round but
those right after a wake-up some call goes on. -/
def roundLimit (calls : Nat) : Nat := 40 * (calls + 1)

def callAll (setting : Setting κ) (outcome : κ → Except LoadError ρ) (table : Table κ ρ N)
    (keys : List κ) :
    Machine κ ρ N :=
  (ofCalls table keys).rounds setting outcome (roundLimit keys.length)

def results (m : Machine κ ρ N) : List (κ × Except SlotError (Fin N)) :=
  m.threads.toList.flatMap fun thread => thread.results.reverse

end Machine

end FrameEngine.Slots.Threads
