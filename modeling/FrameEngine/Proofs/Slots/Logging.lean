import FrameEngine.Proofs.Slots.Mirrors
import FrameEngine.Proofs.Slots.Outcomes

namespace FrameEngine.Slots

open Indexing

variable {σ κ ρ α : Type} {N : Nat}

namespace Loader

def logging (L : Loader σ κ ρ N) (f : κ → σ → List α) : Loader (σ × List α) κ ρ N where
  kind := L.kind
  placeholder := L.placeholder
  describe := fun w key => L.describe w.1 key
  load := fun key w =>
    let (outcome, t, e) := L.load key (w.1, w.2.1)
    (outcome, t, e, w.2.2 ++ f key w.2.1)
  release := fun resource w => (L.release resource w.1, w.2)
  note := fun event w => (L.note event w.1, w.2)

variable [DecidableEq κ] {L : Loader σ κ ρ N} {t : Table κ ρ N} {key : κ} {e : σ}

omit [DecidableEq κ] in
theorem logging_mirrors (L : Loader σ κ ρ N) (f : κ → σ → List α) :
    L.Mirrors (L.logging f) fun e w => w.1 = e where
  describe key h := congrArg (L.describe · key) h
  note event h := congrArg (L.note event) h
  release resource h := congrArg (L.release resource) h
  load key t h := by
    subst h
    exact ⟨rfl, rfl, rfl⟩

theorem loadOrGet_logging (L : Loader σ κ ρ N) (f : κ → σ → List α) (key : κ) (t : Table κ ρ N) (e : σ)
    (log : List α) : ∃ log', (L.logging f).loadOrGet key (t, e, log) =
      ((L.loadOrGet key (t, e)).1, (L.loadOrGet key (t, e)).2.1, (L.loadOrGet key (t, e)).2.2, log') := by
  have hsame : (e, log).1 = e := rfl
  obtain ⟨answer, t', e', w, hcall, hlogged, rfl⟩ := ((logging_mirrors L f).loadOrGet hsame key t).split
  rw [hcall, hlogged]
  exact ⟨w.2, rfl⟩

/-- What a slot holds after a call was there before, or the call has loaded it for its key, unless it is the
placeholder. -/
theorem Comes.arrived {w : Except SlotError (Fin N) × (Table κ ρ N × σ)} {s : Fin N} {holder : κ} {resource : ρ}
    (h : L.Comes t key e w) (hholder : holder ≠ L.placeholder) (hs : w.2.1.states.get s = .resident holder)
    (hc : w.2.1.contents.get s = some resource) :
    (t.states.get s = .resident holder ∧ t.contents.get s = some resource) ∨
      holder = key ∧ t.probe key = .vacant s ∧
        ∃ e', L.load key (t.reserve s key, e) = (.ok resource, t.reserve s key, e') := by
  induction h with
  | failed hattempt => exact .inl (hattempt.keeps ▸ ⟨hs, hc⟩)
  | missing hattempt => exact .inl (hattempt.keeps_of_unavailable ▸ ⟨hs, hc⟩)
  | @own key e given w hattempt =>
      cases hattempt with
      | found => exact .inl ⟨hs, hc⟩
      | @loaded _ made e' hprobe hload =>
          have hloading : (t.reserve given key).states.get given = .loading key := get_set_self _ _ _
          by_cases hslot : given = s
          · subst hslot
            rw [Table.states_install hloading] at hs
            rw [Table.get_contents_install, if_pos rfl] at hc
            cases hs
            cases hc
            exact .inr ⟨rfl, hprobe, e', hload⟩
          · rw [Table.get_contents_install, if_neg hslot] at hc
            rw [Table.install_eq hloading, Table.reserve] at hs
            dsimp only at hs
            rw [get_set_of_ne _ _ hslot, get_set_of_ne _ _ hslot] at hs
            exact .inl ⟨hs, hc⟩
  | @fallback key e reason t₁ e₁ answer _ _ _ ih =>
      have hcontents : (standIn key answer).2.1.contents = answer.2.1.contents := by
        rcases answer with ⟨cause | given, t₂, e₂⟩ <;> rfl
      rw [states_standIn] at hs
      rw [hcontents] at hc
      obtain hold | ⟨rfl, _⟩ := ih hs hc
      · exact .inl hold
      -- its load was that of the placeholder
      · exact absurd rfl hholder

end Loader

/-- Every resident slot of a settled table has its resource. -/
theorem Table.Settled.filled [DecidableEq κ] {t : Table κ ρ N} {placeholder key : κ} {s : Fin N}
    (h : t.Settled placeholder) (hs : t.states.get s = .resident key) :
    ∃ resource, t.contents.get s = some resource := by
  obtain ⟨trace, hrun⟩ := h
  exact Option.isSome_iff_exists.mp ((((sound_start placeholder).run hrun).filled s).mpr (.inl ⟨key, hs⟩))

end FrameEngine.Slots
