import FrameEngine.Slots.Error

namespace FrameEngine.Slots

variable {κ ρ : Type} [DecidableEq κ] {N : Nat}

inductive SlotState (κ : Type)
  | empty
  | loading (key : κ)
  | resident (key : κ)
  deriving DecidableEq

def SlotState.key? : SlotState κ → Option κ
  | .empty => none
  | .loading key | .resident key => some key

structure Table (κ ρ : Type) (N : Nat) where
  states : Vector (SlotState κ) N
  /-- The slot of every key that has one, its own or the placeholder's. -/
  lookup : List (κ × Fin N)
  contents : Vector (Option ρ) N
  loads : Nat

inductive Probe (N : Nat)
  | hit (slot : Fin N)
  | pending (slot : Fin N)
  | vacant (slot : Fin N)
  | full

inductive Unloading (κ ρ : Type) (N : Nat)
  | nothing
  | stillLoading
  | done (slot : Fin N) (resource : Option ρ) (table : Table κ ρ N)

namespace Table

def empty : Table κ ρ N where
  states := Vector.replicate N .empty
  lookup := []
  contents := Vector.replicate N none
  loads := 0

def slotOf? (t : Table κ ρ N) (key : κ) : Option (Fin N) :=
  (t.lookup.find? (·.1 = key)).map (·.2)

def firstEmpty? (t : Table κ ρ N) : Option (Fin N) :=
  (List.finRange N).find? fun s => t.states.get s = .empty

def probe (t : Table κ ρ N) (key : κ) : Probe N :=
  match t.slotOf? key with
  | some s => match t.states.get s with
      | .resident _ => .hit s
      | _ => .pending s
  | none => match t.firstEmpty? with
      | some s => .vacant s
      | none => .full

def reserve (t : Table κ ρ N) (s : Fin N) (key : κ) : Table κ ρ N :=
  { t with states := t.states.set s.val (.loading key) s.isLt, lookup := (key, s) :: t.lookup }

def store (t : Table κ ρ N) (s : Fin N) (resource : ρ) : Table κ ρ N :=
  { t with contents := t.contents.set s.val (some resource) s.isLt }

def markResident (t : Table κ ρ N) (s : Fin N) : Table κ ρ N :=
  match (t.states.get s).key? with
  | some key => { t with states := t.states.set s.val (.resident key) s.isLt }
  | none => t

def countLoad (t : Table κ ρ N) : Table κ ρ N := { t with loads := t.loads + 1 }

def install (t : Table κ ρ N) (s : Fin N) (resource : ρ) : Table κ ρ N :=
  ((t.store s resource).markResident s).countLoad

/-- Frees a slot and forgets its key and every key that maps to it. -/
def clear (t : Table κ ρ N) (s : Fin N) : Table κ ρ N :=
  match (t.states.get s).key? with
  | some key =>
      { t with
        states := t.states.set s.val .empty s.isLt
        lookup := t.lookup.filter fun entry => entry.1 ≠ key ∧ entry.2 ≠ s }
  | none => t

/-- Maps a key to the placeholder's slot, if the placeholder is still there and the key has no
slot. -/
def addAlias (t : Table κ ρ N) (key : κ) (s : Fin N) (placeholder : κ) : Table κ ρ N :=
  if t.states.get s = .resident placeholder ∧ t.slotOf? key = none then
    { t with lookup := (key, s) :: t.lookup }
  else t

def unload (t : Table κ ρ N) (n : Nat) : Unloading κ ρ N :=
  if h : n < N then
    match t.states.get ⟨n, h⟩ with
    | .empty => .nothing
    | .loading _ => .stillLoading
    | .resident _ =>
        let t' := t.clear ⟨n, h⟩
        .done ⟨n, h⟩ (t.contents.get ⟨n, h⟩) { t' with contents := t'.contents.set n none h }
  else .nothing

/-- The slot that holds the key itself. -/
def get? (t : Table κ ρ N) (key : κ) : Option (Fin N) :=
  (t.slotOf? key).filter fun s => t.states.get s = .resident key

def isLoaded (t : Table κ ρ N) (key : κ) : Bool := (t.get? key).isSome

def keyAt? (t : Table κ ρ N) (n : Nat) : Option κ := t.states[n]?.bind SlotState.key?

def isPresent (t : Table κ ρ N) (n : Nat) : Bool := (t.keyAt? n).isSome

def resourceAt? (t : Table κ ρ N) (n : Nat) : Option ρ := t.contents[n]?.join

def keys (t : Table κ ρ N) : List κ := t.states.toList.filterMap SlotState.key?

def size (t : Table κ ρ N) : Nat := t.states.toList.countP fun state => state ≠ .empty

def isEmpty (t : Table κ ρ N) : Bool := t.size = 0

def capacity (_ : Table κ ρ N) : Nat := N

def resources (t : Table κ ρ N) : List ρ := t.contents.toList.filterMap id

def debugText (t : Table κ ρ N) (kind : String) : String :=
  "ResourceSlots \x7b kind: \"" ++ kind ++ "\", capacity: " ++ toString N ++ ", len: " ++
    toString t.size ++ " \x7d"

end Table

end FrameEngine.Slots
