import FrameEngine.Proofs.Slots.Attendance

namespace FrameEngine.Slots

open Indexing

variable {σ κ ρ : Type} [DecidableEq κ] {N : Nat}

namespace Table

variable {t : Table κ ρ N} {placeholder key : κ} {s : Fin N}

def Answers (t : Table κ ρ N) (placeholder key : κ) (s : Fin N) : Prop :=
  t.states.get s = .resident key ∨ t.states.get s = .resident placeholder

omit [DecidableEq κ] in
theorem Answers.getElem? (h : t.Answers placeholder key s) :
    t.states[s.val]? = some (.resident key) ∨ t.states[s.val]? = some (.resident placeholder) := by
  rw [Vector.getElem?_eq_getElem s.isLt, Option.some_inj, Option.some_inj]
  exact h

theorem Settled.answers (h : t.Settled placeholder) (hs : t.slotOf? key = some s) :
    t.Answers placeholder key s := by
  rcases h.coherent.mapped key s hs with hown | halias
  · cases hstate : t.states.get s with
    | empty =>
        rw [hstate] at hown
        cases hown
    | loading k => exact absurd hstate (h.not_loading s k)
    | resident k =>
        rw [hstate] at hown
        cases hown
        exact .inl hstate
  · exact .inr halias

theorem Settled.not_pending (h : t.Settled placeholder) : t.probe key ≠ .pending s := by
  intro hpending
  cases hs : t.slotOf? key with
  | none =>
      rw [probe, hs] at hpending
      cases he : t.firstEmpty? <;> simp [he] at hpending
  | some s' =>
      have hhit : t.probe key = .hit s' := by
        refine probe_eq_hit_iff.mpr ⟨hs, ?_⟩
        rcases h.answers hs with hstate | hstate
        · exact ⟨_, hstate⟩
        · exact ⟨_, hstate⟩
      rw [hhit] at hpending
      cases hpending

omit [DecidableEq κ] in
theorem states_install {resource : ρ} (hs : t.states.get s = .loading key) :
    (t.install s resource).states.get s = .resident key := by
  have hstored : (t.store s resource).states.get s = .loading key := hs
  rw [install, markResident_eq hstored]
  exact get_set_self _ _ _

end Table

namespace Loader

variable {L : Loader σ κ ρ N} {I : σ → Prop} {E : SlotError → Prop} {R : σ → List (Entry ρ) → σ → Prop}

/-- While `I` holds, loads of `L` leave its table alone and keep `I`; they fail for good by `E` only, and
for the placeholder in no other way. -/
structure Soft (L : Loader σ κ ρ N) (I : σ → Prop) (E : SlotError → Prop) : Prop where
  note : ∀ event e, I e → I (L.note event e)
  load : ∀ key t e, I e → ∃ outcome e', L.load key (t, e) = (outcome, t, e') ∧ I e' ∧
    (∀ cause, outcome = .error (.fatal cause) → E cause) ∧
    (∀ reason, outcome = .error (.unavailable reason) → key ≠ L.placeholder)

def Fails (L : Loader σ κ ρ N) (E : SlotError → Prop) (cause : SlotError) : Prop :=
  cause = .outOfSlots L.kind N ∨ E cause

def Finds (L : Loader σ κ ρ N) (E : SlotError → Prop) (key : κ) (t : Table κ ρ N) :
    Except SlotError (Loaded N) → Prop
  | .ok (.slot s) => t.Answers L.placeholder key s
  | .ok (.unavailable _) => key ≠ L.placeholder
  | .error cause => L.Fails E cause

def Gives (L : Loader σ κ ρ N) (E : SlotError → Prop) (key : κ) (t : Table κ ρ N) :
    Except SlotError (Fin N) → Prop
  | .ok s => t.Answers L.placeholder key s
  | .error cause => L.Fails E cause

variable {t : Table κ ρ N} {e : σ}

theorem Soft.loadKey (hL : L.Soft I E) (ht : t.Settled L.placeholder) (he : I e) (key : κ) :
    L.Finds E key (L.loadKey key (t, e)).2.1 (L.loadKey key (t, e)).1 ∧ I (L.loadKey key (t, e)).2.2 := by
  rw [Loader.loadKey]
  split
  next s hprobe => exact ⟨ht.answers (Table.probe_eq_hit_iff.mp hprobe).1, he⟩
  next s hprobe => exact absurd hprobe ht.not_pending
  next => exact ⟨.inl rfl, he⟩
  next s hprobe =>
    obtain ⟨outcome, e', hload, hI, hfatal, hmissing⟩ := hL.load key (t.reserve s key) e he
    rw [hload]
    rcases outcome with (reason | cause) | resource
    · exact ⟨hmissing reason rfl, hI⟩
    · exact ⟨.inr (hfatal cause rfl), hI⟩
    · refine ⟨.inl (Table.states_install ?_), hL.note _ _ hI⟩
      exact get_set_self _ _ _

/-- A call gives the slot of its key or of the placeholder, or fails in one of the ways there are. -/
theorem Soft.loadOrGet (hL : L.Soft I E) (hR : L.Orderly R) (ht : t.Settled L.placeholder) (he : I e)
    (key : κ) :
    L.Gives E key (L.loadOrGet key (t, e)).2.1 (L.loadOrGet key (t, e)).1 ∧ I (L.loadOrGet key (t, e)).2.2 := by
  obtain ⟨hfound, hI⟩ := hL.loadKey ht he key
  have hsettled := ht.leads (hR.loadKey key (t, e))
  rw [Loader.loadOrGet]
  rcases hfirst : L.loadKey key (t, e) with ⟨cause | (s | reason), t', e'⟩
  · rw [hfirst] at hfound hI
    exact ⟨hfound, hI⟩
  · rw [hfirst] at hfound hI
    exact ⟨hfound, hI⟩
  · rw [hfirst] at hfound hI hsettled
    have hkey : key ≠ L.placeholder := hfound
    dsimp only
    rw [if_neg hkey]
    dsimp only at hI hsettled ⊢
    obtain ⟨hfound', hI'⟩ := hL.loadKey hsettled
      (hL.note (.unavailable L.kind (L.describe e' key) reason) e' hI) L.placeholder
    rcases hsecond : L.loadKey L.placeholder _ with ⟨cause | (s | reason'), t'', e''⟩
    · rw [hsecond] at hfound' hI'
      exact ⟨hfound', hI'⟩
    · rw [hsecond] at hfound' hI'
      have hstate : t''.states.get s = .resident L.placeholder := hfound'.elim id id
      refine ⟨.inr ?_, hI'⟩
      rwa [(t''.addAlias_keeps key s L.placeholder).1]
    · rw [hsecond] at hfound'
      exact absurd rfl hfound'

end Loader

end FrameEngine.Slots
