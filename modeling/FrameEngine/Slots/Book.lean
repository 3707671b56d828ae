import FrameEngine.Slots.Table

namespace FrameEngine.Slots

variable {κ ρ : Type} [DecidableEq κ] {N : Nat}

inductive SlotFlag
  | empty
  | loading
  | resident
  deriving DecidableEq

/-- A slot table as it lies in memory: what a slot is doing and which key it is for are kept apart, and written one after
the other. -/
structure Book (κ ρ : Type) (N : Nat) where
  flags : Vector SlotFlag N
  lookup : κ → Option (Fin N)
  reverse : Vector (Option κ) N
  contents : Vector (Option ρ) N
  loads : Nat

namespace Book

inductive Unloading (κ ρ : Type) (N : Nat)
  | nothing
  | stillLoading
  | done (slot : Fin N) (resource : Option ρ) (book : Book κ ρ N)

def empty : Book κ ρ N where
  flags := Vector.replicate N .empty
  lookup := fun _ => none
  reverse := Vector.replicate N none
  contents := Vector.replicate N none
  loads := 0

def freeSlot? (b : Book κ ρ N) : Option (Fin N) :=
  (List.finRange N).find? fun s => b.flags.get s = .empty

/-- None if the key is mapped to an empty slot, which would be looked at for ever. -/
def probe (b : Book κ ρ N) (key : κ) : Option (Probe N) :=
  match b.lookup key with
  | some s => match b.flags.get s with
      | .resident => some (.hit s)
      | .loading => some (.pending s)
      | .empty => none
  | none => match b.freeSlot? with
      | some s => some (.vacant s)
      | none => some .full

def reserve (b : Book κ ρ N) (s : Fin N) (key : κ) : Book κ ρ N :=
  { b with
    flags := b.flags.set s.val .loading s.isLt
    reverse := b.reverse.set s.val (some key) s.isLt
    lookup := fun k => if key = k then some s else b.lookup k }

def store (b : Book κ ρ N) (s : Fin N) (resource : ρ) : Book κ ρ N :=
  { b with contents := b.contents.set s.val (some resource) s.isLt }

def markResident (b : Book κ ρ N) (s : Fin N) : Book κ ρ N :=
  { b with flags := b.flags.set s.val .resident s.isLt }

def countLoad (b : Book κ ρ N) : Book κ ρ N := { b with loads := b.loads + 1 }

def clear (b : Book κ ρ N) (s : Fin N) : Book κ ρ N :=
  let b' := { b with flags := b.flags.set s.val .empty s.isLt }
  match b.reverse.get s with
  | none => b'
  | some key =>
      { b' with
        reverse := b.reverse.set s.val none s.isLt
        lookup := fun k => if k = key then none else (b.lookup k).filter fun s' => s' ≠ s }

def addAlias (b : Book κ ρ N) (key : κ) (s : Fin N) (placeholder : κ) : Book κ ρ N :=
  if b.flags.get s = .resident ∧ b.reverse.get s = some placeholder then
    { b with lookup := fun k => if key = k then some ((b.lookup k).getD s) else b.lookup k }
  else b

def unload (b : Book κ ρ N) (n : Nat) : Unloading κ ρ N :=
  if h : n < N then
    match b.flags.get ⟨n, h⟩ with
    | .empty => .nothing
    | .loading => .stillLoading
    | .resident =>
        let b' := b.clear ⟨n, h⟩
        .done ⟨n, h⟩ (b.contents.get ⟨n, h⟩) { b' with contents := b'.contents.set n none h }
  else .nothing

def get? (b : Book κ ρ N) (key : κ) : Option (Fin N) :=
  (b.lookup key).filter fun s => b.flags.get s = .resident ∧ b.reverse.get s = some key

def isPresent (b : Book κ ρ N) (n : Nat) : Bool := b.flags[n]?.any fun flag => flag ≠ .empty

def keyAt? (b : Book κ ρ N) (n : Nat) : Option κ := b.reverse[n]?.join

def keys (b : Book κ ρ N) : List κ := b.reverse.toList.filterMap id

def size (b : Book κ ρ N) : Nat := b.flags.toList.countP fun flag => flag ≠ .empty

end Book

def SlotState.flag : SlotState κ → SlotFlag
  | .empty => .empty
  | .loading _ => .loading
  | .resident _ => .resident

def Table.book (t : Table κ ρ N) : Book κ ρ N where
  flags := t.states.map SlotState.flag
  lookup := t.slotOf?
  reverse := t.states.map SlotState.key?
  contents := t.contents
  loads := t.loads

end FrameEngine.Slots
