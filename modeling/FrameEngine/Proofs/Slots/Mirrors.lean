import FrameEngine.Proofs.Slots.Sessions

namespace FrameEngine.Slots

variable {σ τ κ ρ β : Type} {N : Nat}

structure Alike (R : σ → τ → Prop) (w : β × (Table κ ρ N × σ)) (w' : β × (Table κ ρ N × τ)) : Prop where
  result : w'.1 = w.1
  table : w'.2.1 = w.2.1
  rest : R w.2.2 w'.2.2

theorem Alike.split {R : σ → τ → Prop} {w : β × (Table κ ρ N × σ)} {w' : β × (Table κ ρ N × τ)}
    (h : Alike R w w') : ∃ result t e e', w = (result, t, e) ∧ w' = (result, t, e') ∧ R e e' := by
  obtain ⟨result, t, e⟩ := w
  obtain ⟨result', t', e'⟩ := w'
  obtain ⟨rfl, rfl, hrest⟩ := h
  exact ⟨_, _, e, e', rfl, rfl, hrest⟩

variable [DecidableEq κ]

namespace Loader

/-- `M` does on its states what `L` does on the states related to them. -/
structure Mirrors (L : Loader σ κ ρ N) (M : Loader τ κ ρ N) (R : σ → τ → Prop) : Prop where
  kind : M.kind = L.kind := by rfl
  placeholder : M.placeholder = L.placeholder := by rfl
  describe : ∀ {e e'} key, R e e' → M.describe e' key = L.describe e key
  note : ∀ {e e'} event, R e e' → R (L.note event e) (M.note event e')
  release : ∀ {e e'} resource, R e e' → R (L.release resource e) (M.release resource e')
  load : ∀ {e e'} key t, R e e' → Alike R (L.load key (t, e)) (M.load key (t, e'))

variable {L : Loader σ κ ρ N} {M : Loader τ κ ρ N} {R : σ → τ → Prop} {e : σ} {e' : τ}

namespace Mirrors

theorem loadKey (h : L.Mirrors M R) (hR : R e e') (key : κ) (t : Table κ ρ N) :
    Alike R (L.loadKey key (t, e)) (M.loadKey key (t, e')) := by
  rw [Loader.loadKey, Loader.loadKey, h.kind]
  dsimp only
  cases t.probe key with
  | hit s | pending s | full => exact ⟨rfl, rfl, hR⟩
  | vacant s =>
      obtain ⟨outcome, t₁, e₁, e₁', hload, hload', hrest⟩ := (h.load key (t.reserve s key) hR).split
      dsimp only
      rw [hload, hload']
      rcases outcome with (reason | cause) | resource
      · exact ⟨rfl, rfl, hrest⟩
      · exact ⟨rfl, rfl, hrest⟩
      · refine ⟨rfl, rfl, ?_⟩
        dsimp only
        rw [h.describe key hrest]
        exact h.note _ hrest

theorem loadOrGet (h : L.Mirrors M R) (hR : R e e') (key : κ) (t : Table κ ρ N) :
    Alike R (L.loadOrGet key (t, e)) (M.loadOrGet key (t, e')) := by
  obtain ⟨answer, t₁, e₁, e₁', hown, hown', hrest⟩ := (h.loadKey hR key t).split
  rw [Loader.loadOrGet, Loader.loadOrGet, hown, hown', h.kind, h.placeholder]
  rcases answer with cause | (s | reason)
  · exact ⟨rfl, rfl, hrest⟩
  · exact ⟨rfl, rfl, hrest⟩
  · dsimp only
    rw [h.describe key hrest]
    by_cases hkey : key = L.placeholder
    · rw [if_pos hkey, if_pos hkey]
      exact ⟨rfl, rfl, hrest⟩
    · rw [if_neg hkey, if_neg hkey]
      have hnoted := h.note (.unavailable L.kind (L.describe e₁ key) reason) hrest
      obtain ⟨answer, t₂, e₂, e₂', hstandIn, hstandIn', hrest'⟩ := (h.loadKey hnoted L.placeholder t₁).split
      rw [hstandIn, hstandIn']
      rcases answer with cause | (s | reason')
      · exact ⟨rfl, rfl, hrest'⟩
      · exact ⟨rfl, rfl, hrest'⟩
      · refine ⟨?_, rfl, hrest'⟩
        dsimp only
        rw [h.describe L.placeholder hrest']

theorem unload (h : L.Mirrors M R) (hR : R e e') (n : Nat) (t : Table κ ρ N) :
    Alike R (L.unload n (t, e)) (M.unload n (t, e')) := by
  rw [Loader.unload, Loader.unload, h.kind]
  dsimp only
  cases t.unload n with
  | nothing => exact ⟨rfl, rfl, hR⟩
  | stillLoading => exact ⟨rfl, rfl, h.note _ hR⟩
  | done s resource t' =>
      cases resource with
      | none => exact ⟨rfl, rfl, h.note _ hR⟩
      | some resource => exact ⟨rfl, rfl, h.note _ (h.release resource hR)⟩

theorem unloadAll (h : L.Mirrors M R) (hR : R e e') (t : Table κ ρ N) :
    (M.unloadAll (t, e')).1 = (L.unloadAll (t, e)).1 ∧ R (L.unloadAll (t, e)).2 (M.unloadAll (t, e')).2 := by
  rw [Loader.unloadAll, Loader.unloadAll]
  generalize List.range N = slots
  induction slots generalizing t e e' with
  | nil => exact ⟨rfl, hR⟩
  | cons n slots ih =>
      obtain ⟨done, t₁, e₁, e₁', hunload, hunload', hrest⟩ := (h.unload hR n t).split
      rw [List.foldl_cons, List.foldl_cons, hunload, hunload']
      exact ih hrest t₁

theorem perform (h : L.Mirrors M R) (hR : R e e') (op : Op κ) (t : Table κ ρ N) :
    (M.perform op (t, e')).1 = (L.perform op (t, e)).1 ∧ R (L.perform op (t, e)).2 (M.perform op (t, e')).2 := by
  cases op with
  | load key => exact ⟨(h.loadOrGet hR key t).table, (h.loadOrGet hR key t).rest⟩
  | unload slot => exact ⟨(h.unload hR slot t).table, (h.unload hR slot t).rest⟩
  | unloadAll => exact h.unloadAll hR t

omit [DecidableEq κ] in
theorem drop (h : L.Mirrors M R) (hR : R e e') (t : Table κ ρ N) : R (L.drop (t, e)) (M.drop (t, e')) := by
  rw [Loader.drop, Loader.drop]
  dsimp only
  generalize t.resources = resources
  induction resources generalizing e e' with
  | nil => exact hR
  | cons resource resources ih => exact ih (h.release resource hR)

end Mirrors

end Loader

abbrev LeadsBy (placeholder : κ) (R : σ → List (Entry ρ) → σ → Prop) (entries : List (Entry ρ))
    (w w' : Table κ ρ N × σ) : Prop :=
  Leads placeholder (fun e noted e' => R e noted e' ∧ noted = entries) w w'

section LeadsBy

variable {placeholder : κ} {R : σ → List (Entry ρ) → σ → Prop} {entries more : List (Entry ρ)}
  {w w' w'' : Table κ ρ N × σ}

theorem LeadsBy.leads (h : LeadsBy placeholder R entries w w') : Leads placeholder R w w' := by
  intro works
  obtain ⟨trace, hrun, hnoted, _⟩ := h works
  exact ⟨trace, hrun, hnoted⟩

variable (hR : Ledger R)
include hR

theorem LeadsBy.refl (w : Table κ ρ N × σ) : LeadsBy placeholder R [] w w := leads_of_rest ⟨hR.refl w.2, rfl⟩

theorem LeadsBy.append (h : LeadsBy placeholder R entries w w') (h' : LeadsBy placeholder R more w' w'') :
    LeadsBy placeholder R (entries ++ more) w w'' := by
  intro works
  obtain ⟨trace, hrun, hnoted, rfl⟩ := h works
  obtain ⟨trace', hrun', hnoted', rfl⟩ := h' works
  refine ⟨trace ++ trace', hrun.append hrun', ?_⟩
  rw [List.flatMap_append]
  exact ⟨hR.trans hnoted hnoted', rfl⟩

end LeadsBy

namespace Loader

variable {L : Loader σ κ ρ N} {R : σ → List (Entry ρ) → σ → Prop}

/-- The same loader, which also keeps what its loads return, what it gives back and what is unloaded. -/
def recorded (L : Loader σ κ ρ N) : Loader (σ × List (Entry ρ)) κ ρ N where
  kind := L.kind
  placeholder := L.placeholder
  describe := fun w key => L.describe w.1 key
  load := fun key w =>
    let (outcome, t, e) := L.load key (w.1, w.2.1)
    (outcome, t, e, w.2.2 ++ entriesOfLoad outcome)
  release := fun resource w => (L.release resource w.1, w.2 ++ [.given resource])
  note := fun event w => (L.note event w.1, w.2 ++ entriesOfNote event)

def entriesOf (L : Loader σ κ ρ N) (op : Op κ) (w : Table κ ρ N × σ) : List (Entry ρ) :=
  (L.recorded.perform op (w.1, w.2, [])).2.2

omit [DecidableEq κ] in
theorem recorded_mirrors (L : Loader σ κ ρ N) : L.Mirrors L.recorded fun e w => w.1 = e where
  describe key h := congrArg (L.describe · key) h
  note event h := congrArg (L.note event) h
  release resource h := congrArg (L.release resource) h
  load key t h := by
    subst h
    exact ⟨rfl, rfl, rfl⟩

/-- Loads leave their table alone. `R` notes what they return, and what is given back and unloaded. -/
structure Tallies (L : Loader σ κ ρ N) (R : σ → List (Entry ρ) → σ → Prop) : Prop where
  ledger : Ledger R
  release : ∀ resource e, R e [.given resource] (L.release resource e)
  note : ∀ event e, R e (entriesOfNote event) (L.note event e)
  load : ∀ key t e, ∃ outcome e', L.load key (t, e) = (outcome, t, e') ∧ R e (entriesOfLoad outcome) e'

namespace Tallies

theorem orderly (h : L.Tallies R) : L.Orderly R where
  ledger := h.ledger
  release := h.release
  note := h.note
  load key w := by
    obtain ⟨outcome, e, hload, hnoted⟩ := h.load key w.1 w.2
    exact ⟨outcome, w.1, w.2, e, hload, .refl h.ledger w, hnoted⟩

omit [DecidableEq κ] in
theorem recorded (h : L.Tallies R) :
    L.recorded.Tallies fun w entries w' => R w.1 entries w'.1 ∧ w'.2 = w.2 ++ entries where
  ledger :=
    { refl w := ⟨h.ledger.refl w.1, (List.append_nil w.2).symm⟩
      trans := fun ⟨hnoted, hlog⟩ ⟨hnoted', hlog'⟩ =>
        ⟨h.ledger.trans hnoted hnoted', by rw [hlog', hlog, List.append_assoc]⟩ }
  release resource w := ⟨h.release resource w.1, rfl⟩
  note event w := ⟨h.note event w.1, rfl⟩
  load key t w := by
    obtain ⟨outcome, e, hload, hnoted⟩ := h.load key t w.1
    refine ⟨outcome, (e, w.2 ++ entriesOfLoad outcome), ?_, hnoted, rfl⟩
    simp only [Loader.recorded, hload]

/-- An operation gets the table on by steps of which the operation's own entries are noted. -/
theorem perform (h : L.Tallies R) (op : Op κ) (w : Table κ ρ N × σ) :
    LeadsBy L.placeholder R (L.entriesOf op w) w (L.perform op w) := by
  obtain ⟨t, e⟩ := w
  have hsame : (e, ([] : List (Entry ρ))).1 = e := rfl
  obtain ⟨htable, hrest⟩ := L.recorded_mirrors.perform hsame op t
  intro works
  obtain ⟨trace, hrun, hnoted, hlog⟩ := h.recorded.orderly.perform op (t, e, []) works
  rw [htable] at hrun
  rw [hrest] at hnoted
  exact ⟨trace, hrun, hnoted, hlog.symm⟩

end Tallies

end Loader

end FrameEngine.Slots
