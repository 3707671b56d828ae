import FrameEngine.Proofs.Slots.Logging

namespace FrameEngine.Slots

variable {σ κ ρ α : Type} {N : Nat}

namespace Loader

abbrev BlindTo (L : Loader σ κ ρ N) (R : σ → σ → Prop) : Prop := L.Mirrors L R

variable {L : Loader σ κ ρ N} {R : σ → σ → Prop} {e e' : σ}

/-- A log that is the same for related states is the same after calls. -/
theorem BlindTo.logging (h : L.BlindTo R) {f : κ → σ → List α} (hf : ∀ {e e'} key, R e e' → f key e' = f key e) :
    (L.logging f).BlindTo fun w w' => R w.1 w'.1 ∧ w'.2 = w.2 where
  describe key hR := h.describe key hR.1
  note event hR := ⟨h.note event hR.1, hR.2⟩
  release resource hR := ⟨h.release resource hR.1, hR.2⟩
  load := by
    rintro ⟨e, log⟩ ⟨e', log'⟩ key t ⟨hR, hlog⟩
    obtain ⟨hresult, htable, hrest⟩ := h.load key t hR
    exact ⟨hresult, htable, hrest, congrArg₂ (· ++ ·) hlog (hf key hR)⟩

theorem BlindTo.loadsBegun [DecidableEq κ] (h : L.BlindTo R) (hR : R e e') (key : κ) (t : Table κ ρ N) :
    L.loadsBegun key (t, e') = L.loadsBegun key (t, e) := by
  have htracing : L.tracing.BlindTo fun w w' => R w.1 w'.1 ∧ w'.2 = w.2 :=
    h.logging (fun key _ => rfl : ∀ {e e'} key, R e e' → [key] = [key])
  have hempty : R (e, ([] : List κ)).1 (e', ([] : List κ)).1 ∧ ([] : List κ) = [] := ⟨hR, rfl⟩
  exact (htracing.loadOrGet hempty key t).rest.2

end Loader

end FrameEngine.Slots
