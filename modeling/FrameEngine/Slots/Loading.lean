import FrameEngine.Journal
import FrameEngine.Slots.Table

namespace FrameEngine.Slots

variable {σ κ ρ : Type} [DecidableEq κ] {N : Nat}

/-- How the resources of a table are made and given back. `σ` is whatever else the loader works
on. -/
structure Loader (σ κ ρ : Type) (N : Nat) where
  kind : String
  placeholder : κ
  describe : σ → κ → String
  load : κ → Table κ ρ N × σ → Except LoadError ρ × (Table κ ρ N × σ)
  release : ρ → σ → σ
  note : Event → σ → σ

inductive Loaded (N : Nat)
  | slot (slot : Fin N)
  | unavailable (reason : String)

namespace Loader

/-- Finds or loads the key's own slot. A failed load gives its slot back. -/
def loadKey (L : Loader σ κ ρ N) (key : κ) (w : Table κ ρ N × σ) :
    Except SlotError (Loaded N) × (Table κ ρ N × σ) :=
  match w.1.probe key with
  | .hit s => (.ok (.slot s), w)
  | .pending s => (.error (.selfWait L.kind s), w)
  | .full => (.error (.outOfSlots L.kind N), w)
  | .vacant s => match L.load key (w.1.reserve s key, w.2) with
      | (.ok resource, t, e) =>
          (.ok (.slot s), t.install s resource, L.note (.slotSet L.kind s (L.describe e key)) e)
      | (.error (.unavailable reason), t, e) => (.ok (.unavailable reason), t.clear s, e)
      | (.error (.fatal cause), t, e) => (.error cause, t.clear s, e)

/-- The slot of the key, or of the placeholder if the key is not available. -/
def loadOrGet (L : Loader σ κ ρ N) (key : κ) (w : Table κ ρ N × σ) :
    Except SlotError (Fin N) × (Table κ ρ N × σ) :=
  match L.loadKey key w with
  | (.error cause, w) => (.error cause, w)
  | (.ok (.slot s), w) => (.ok s, w)
  | (.ok (.unavailable reason), t, e) =>
      if key = L.placeholder then
        (.error (.missingPlaceholder L.kind (L.describe e key) reason), t, e)
      else
        let e := L.note (.unavailable L.kind (L.describe e key) reason) e
        match L.loadKey L.placeholder (t, e) with
        | (.error cause, w) => (.error cause, w)
        | (.ok (.slot s), t, e) => (.ok s, t.addAlias key s L.placeholder, e)
        | (.ok (.unavailable reason), t, e) =>
            (.error (.missingPlaceholder L.kind (L.describe e L.placeholder) reason), t, e)

def releaseOption (L : Loader σ κ ρ N) (resource : Option ρ) (e : σ) : σ :=
  match resource with
  | some resource => L.release resource e
  | none => e

def unload (L : Loader σ κ ρ N) (n : Nat) (w : Table κ ρ N × σ) : Bool × (Table κ ρ N × σ) :=
  match w.1.unload n with
  | .nothing => (false, w)
  | .stillLoading => (false, w.1, L.note (.stillLoading L.kind n) w.2)
  | .done _ resource t => (true, t, L.note (.unloaded L.kind n) (L.releaseOption resource w.2))

def unloadAll (L : Loader σ κ ρ N) (w : Table κ ρ N × σ) : Table κ ρ N × σ :=
  (List.range N).foldl (fun w n => (L.unload n w).2) w

def drop (L : Loader σ κ ρ N) (w : Table κ ρ N × σ) : σ :=
  w.1.resources.foldl (fun e resource => L.release resource e) w.2

end Loader

end FrameEngine.Slots
