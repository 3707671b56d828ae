import FrameEngine.Proofs.Slots.Turns

namespace FrameEngine.Slots

open Indexing

namespace Threads

variable {κ ρ : Type} {N : Nat}

def served (setting : Setting κ) (outcome : κ → Except LoadError ρ) (key : κ) : κ :=
  match outcome key with
  | .ok _ => key
  | .error _ => setting.placeholder

/-- The placeholder can be loaded, and no load fails for good. -/
structure Friendly (setting : Setting κ) (outcome : κ → Except LoadError ρ) : Prop where
  placeholder : ∃ resource, outcome setting.placeholder = .ok resource
  soft : ∀ key cause, outcome key ≠ .error (.fatal cause)

section Served

variable {setting : Setting κ} {outcome : κ → Except LoadError ρ} {key : κ}

theorem served_ok {resource : ρ} (h : outcome key = .ok resource) : served setting outcome key = key := by
  rw [served, h]

theorem served_error {cause : LoadError} (h : outcome key = .error cause) :
    served setting outcome key = setting.placeholder := by
  rw [served, h]

theorem served_or (setting : Setting κ) (outcome : κ → Except LoadError ρ) (key : κ) :
    served setting outcome key = key ∨ served setting outcome key = setting.placeholder := by
  cases h : outcome key with
  | ok resource => exact .inl (served_ok h)
  | error cause => exact .inr (served_error h)

theorem Friendly.served_placeholder (hf : Friendly setting outcome) :
    served setting outcome setting.placeholder = setting.placeholder := by
  obtain ⟨resource, h⟩ := hf.placeholder
  exact served_ok h

theorem Friendly.served_ne (hf : Friendly setting outcome) {cause : LoadError} (h : outcome key = .error cause) :
    served setting outcome key ≠ key := by
  intro hsame
  obtain ⟨resource, hplaceholder⟩ := hf.placeholder
  rw [served_error h] at hsame
  rw [hsame, h] at hplaceholder
  cases hplaceholder

end Served

variable (setting : Setting κ) (outcome : κ → Except LoadError ρ)

def Phase.Fits (t : Table κ ρ N) (key : κ) : Phase ρ N → Prop
  | .storing _ _ | .marking _ => served setting outcome key = key
  | .announcing slot | .counting slot => t.states.get slot = .resident key
  | .clearing _ cause | .announcingFailure cause => outcome key = .error cause
  | .aliasing slot => key = setting.placeholder ∧ t.states.get slot = .resident setting.placeholder
  | .lookingUp | .asleep _ | .woken _ | .loading _ => True

structure Call.Fits (t : Table κ ρ N) (c : Call κ ρ N) : Prop where
  key_eq : c.key = c.wanted ∨ c.key = setting.placeholder
  served_eq : served setting outcome c.key = served setting outcome c.wanted
  phase : c.phase.Fits setting outcome t c.key

def Progress.Fits (t : Table κ ρ N) (wanted : κ) : Progress κ ρ N → Prop
  | .goOn c => c.wanted = wanted ∧ c.Fits setting outcome t
  | .ended result => ∃ slot, result = .ok slot ∧ t.states.get slot = .resident (served setting outcome wanted)

variable [DecidableEq κ]

/-- A key that leads to a resident slot leads to what serves it. -/
def Faithful (t : Table κ ρ N) : Prop :=
  ∀ key slot holder, t.slotOf? key = some slot → t.states.get slot = .resident holder →
    holder = served setting outcome key

structure Call.Stands (t : Table κ ρ N) (c : Call κ ρ N) : Prop where
  coherent : t.Coherent setting.placeholder
  faithful : Faithful setting outcome t
  fits : c.Fits setting outcome t
  reserved : ∀ w slot key, c.work? = some w → w.reservation? = some (slot, key) →
    t.states.get slot = .loading key

variable {setting outcome} {t t' : Table κ ρ N} {c : Call κ ρ N} {progress : Progress κ ρ N} {new : List κ}
  {wakes : Bool} {slot : Fin N} {key : κ}

namespace Call.Stands

theorem loading_of_marking (h : c.Stands setting outcome t) (hphase : c.phase = .marking slot) :
    t.states.get slot = .loading c.key := by
  refine h.reserved (.marking slot c.key) slot c.key ?_ rfl
  rw [Call.work?, hphase]

theorem loading_of_clearing {cause : LoadError} (h : c.Stands setting outcome t)
    (hphase : c.phase = .clearing slot cause) : t.states.get slot = .loading c.key := by
  refine h.reserved (.clearing slot c.key) slot c.key ?_ rfl
  rw [Call.work?, hphase]

theorem served_resident (h : c.Stands setting outcome t) (hs : t.states.get slot = .resident key) :
    served setting outcome key = key :=
  (h.faithful key slot key (h.coherent.holder slot key (Table.key?_of_resident hs)) hs).symm

end Call.Stands

inductive Edits (setting : Setting κ) (t : Table κ ρ N) (c : Call κ ρ N) : Table κ ρ N → List κ → Prop
  | keep {u : Table κ ρ N} (hstates : u.states = t.states) (hlookup : u.lookup = t.lookup) :
      Edits setting t c u []
  | reserve {s : Fin N} (hprobe : t.probe c.key = .vacant s) : Edits setting t c (t.reserve s c.key) [c.key]
  | mark {s : Fin N} (hphase : c.phase = .marking s) : Edits setting t c (t.markResident s) []
  | clear {s : Fin N} {cause : LoadError} (hphase : c.phase = .clearing s cause) :
      Edits setting t c (t.clear s) []
  | standIn {s : Fin N} (hphase : c.phase = .aliasing s) :
      Edits setting t c (t.addAlias c.wanted s setting.placeholder) []

theorem Acts.edits (h : Acts setting outcome t c progress t' new wakes) : Edits setting t c t' new := by
  cases h with
  | reserve _ hprobe => exact .reserve hprobe
  | mark hphase => exact .mark hphase
  | clear hphase => exact .clear hphase
  | standIn hphase => exact .standIn hphase
  | _ => exact .keep rfl rfl

section Edits

variable {s : Fin N}

theorem Edits.resident (h : Edits setting t c t' new) (hc : c.Stands setting outcome t)
    (hs : t.states.get s = .resident key) : t'.states.get s = .resident key := by
  have hne {slot : Fin N} {state : SlotState κ} (hslot : t.states.get slot = state)
      (hstate : state ≠ .resident key) : slot ≠ s := by
    rintro rfl
    exact hstate (hslot.symm.trans hs)
  cases h with
  | keep hstates => rwa [hstates]
  | @reserve slot hprobe =>
      have hempty := (Table.vacant_of_probe hprobe).2
      rwa [Table.reserve, get_set_of_ne _ _ (hne hempty (by simp))]
  | @mark slot hphase =>
      have hloading := hc.loading_of_marking hphase
      rwa [Table.markResident_eq hloading, get_set_of_ne _ _ (hne hloading (by simp))]
  | @clear slot cause hphase =>
      have hloading := hc.loading_of_clearing hphase
      rwa [Table.clear_eq (Table.key?_of_loading hloading), get_set_of_ne _ _ (hne hloading (by simp))]
  | @standIn slot => rwa [(t.addAlias_keeps c.wanted slot setting.placeholder).1]

theorem Edits.held (h : Edits setting t c t' new) (hc : c.Stands setting outcome t)
    (hs : (t'.states.get s).key? = some key) : (t.states.get s).key? = some key ∨ key = c.key := by
  have hset {slot : Fin N} {state : SlotState κ} (hstate : state.key? = some c.key ∨ state.key? = none)
      (h : ((t.states.set slot.val state slot.isLt).get s).key? = some key) :
      (t.states.get s).key? = some key ∨ key = c.key := by
    by_cases he : slot = s
    · subst he
      rw [get_set_self] at h
      rcases hstate with hown | hnone
      · exact .inr (Option.some.inj (h.symm.trans hown))
      · rw [hnone] at h
        cases h
    · rw [get_set_of_ne _ _ he] at h
      exact .inl h
  cases h with
  | keep hstates => exact .inl (hstates ▸ hs)
  | reserve => exact hset (.inl rfl) hs
  | mark hphase =>
      rw [Table.markResident_eq (hc.loading_of_marking hphase)] at hs
      exact hset (.inl rfl) hs
  | clear hphase =>
      rw [Table.clear_eq (Table.key?_of_loading (hc.loading_of_clearing hphase))] at hs
      exact hset (.inr rfl) hs
  | @standIn slot =>
      rw [(t.addAlias_keeps c.wanted slot setting.placeholder).1] at hs
      exact .inl hs

/-- A load that is in progress goes on, if it is not the one that the call ends. -/
theorem Edits.loading (h : Edits setting t c t' new) (hs : t.states.get s = .loading key) :
    t'.states.get s = .loading key ∨ c.phase = .marking s ∨ ∃ cause, c.phase = .clearing s cause := by
  cases h with
  | keep hstates => exact .inl (hstates ▸ hs)
  | @reserve slot hprobe =>
      have hne : slot ≠ s := by
        rintro rfl
        rw [(Table.vacant_of_probe hprobe).2] at hs
        cases hs
      exact .inl ((Table.get_reserve_of_ne hne c.key).trans hs)
  | @mark slot hphase =>
      by_cases he : slot = s
      · exact .inr (.inl (he ▸ hphase))
      · exact .inl ((Table.get_markResident_of_ne he).trans hs)
  | @clear slot cause hphase =>
      by_cases he : slot = s
      · exact .inr (.inr ⟨cause, he ▸ hphase⟩)
      · exact .inl ((Table.get_clear_of_ne he).trans hs)
  | @standIn slot =>
      rw [(t.addAlias_keeps c.wanted slot setting.placeholder).1]
      exact .inl hs

/-- No other key leads to a slot while it is loading. -/
theorem Call.Stands.leads_loading (hc : c.Stands setting outcome t) {holder : κ}
    (hs : t.states.get s = .loading holder) (hkey : t.slotOf? key = some s) : key = holder := by
  rcases hc.coherent.mapped key s hkey with hown | halias
  · rw [hs] at hown
    exact (Option.some.inj hown).symm
  · rw [hs] at halias
    cases halias

/-- A call that is about to add an alias wants a key that cannot be loaded. -/
theorem Call.Stands.served_wanted (hc : c.Stands setting outcome t) (hf : Friendly setting outcome)
    (hphase : c.phase = .aliasing slot) : served setting outcome c.wanted = setting.placeholder := by
  have hfits := hc.fits.phase
  rw [hphase] at hfits
  rw [← hc.fits.served_eq, hfits.1, hf.served_placeholder]

theorem Edits.faithful (h : Edits setting t c t' new) (hf : Friendly setting outcome)
    (hc : c.Stands setting outcome t) : Faithful setting outcome t' := by
  intro k s holder hk hs
  cases h with
  | keep hstates hlookup =>
      rw [hstates] at hs
      rw [Table.slotOf?, hlookup] at hk
      exact hc.faithful k s holder hk hs
  | @reserve slot hprobe =>
      have hne : slot ≠ s := by
        rintro rfl
        rw [Table.reserve, get_set_self] at hs
        cases hs
      rw [Table.reserve, get_set_of_ne _ _ hne] at hs
      rw [Table.reserve, Table.slotOf?_cons] at hk
      split at hk
      · exact absurd (Option.some.inj hk) hne
      · exact hc.faithful k s holder hk hs
  | @mark slot hphase =>
      have hloading := hc.loading_of_marking hphase
      rw [Table.markResident_eq hloading] at hk hs
      by_cases he : slot = s
      · subst he
        rw [get_set_self] at hs
        have hfits := hc.fits.phase
        rw [hphase] at hfits
        obtain rfl := hc.leads_loading hloading hk
        cases hs
        exact hfits.symm
      · rw [get_set_of_ne _ _ he] at hs
        exact hc.faithful k s holder hk hs
  | @clear slot cause hphase =>
      have hown := Table.key?_of_loading (hc.loading_of_clearing hphase)
      obtain ⟨hk, hne⟩ := (hc.coherent.slotOf?_clear hown).mp hk
      rw [Table.clear_eq hown, get_set_of_ne _ _ hne.symm] at hs
      exact hc.faithful k s holder hk hs
  | @standIn slot hphase =>
      rw [(t.addAlias_keeps c.wanted slot setting.placeholder).1] at hs
      rw [Table.addAlias] at hk
      split at hk
      next hfree =>
        rw [Table.slotOf?_cons] at hk
        split at hk
        next he =>
          obtain rfl := Option.some.inj hk
          rw [hfree.1] at hs
          cases hs
          rw [← he, hc.served_wanted hf hphase]
        · exact hc.faithful k s holder hk hs
      · exact hc.faithful k s holder hk hs

/-- How often the load of a key that can be loaded was entered, if it is in no slot or in one. -/
def loadsOf (t : Table κ ρ N) (key : κ) : Nat := if t.slotOf? key = none then 0 else 1

/-- The load of a key that can be loaded is entered when its slot is reserved, and that slot is kept. -/
theorem Edits.entered (h : Edits setting t c t' new) (hf : Friendly setting outcome)
    (hc : c.Stands setting outcome t) (hkey : served setting outcome key = key) :
    new.count key + loadsOf t key = loadsOf t' key := by
  cases h with
  | keep hstates hlookup =>
      rw [loadsOf, loadsOf, Table.slotOf?, Table.slotOf?, hlookup]
      exact Nat.zero_add _
  | @reserve slot hprobe =>
      have hnone := (Table.vacant_of_probe hprobe).1
      rw [loadsOf, loadsOf, Table.reserve, Table.slotOf?_cons]
      by_cases he : c.key = key
      · subst he
        simp [hnone]
      · rw [if_neg he, List.count_cons_of_ne he]
        exact Nat.zero_add _
  | @mark slot hphase =>
      rw [Table.markResident_eq (hc.loading_of_marking hphase)]
      exact Nat.zero_add _
  | @clear slot cause hphase =>
      have hloading := hc.loading_of_clearing hphase
      have hfits := hc.fits.phase
      rw [hphase] at hfits
      have hsame : (t.clear slot).slotOf? key = t.slotOf? key := by
        apply Option.ext
        intro s
        rw [hc.coherent.slotOf?_clear (Table.key?_of_loading hloading)]
        refine ⟨And.left, fun hs => ⟨hs, ?_⟩⟩
        rintro rfl
        obtain rfl := hc.leads_loading hloading hs
        exact hf.served_ne hfits hkey
      rw [loadsOf, loadsOf, hsame]
      exact Nat.zero_add _
  | @standIn slot hphase =>
      have hsame : (t.addAlias c.wanted slot setting.placeholder).slotOf? key = t.slotOf? key := by
        rw [Table.addAlias]
        split
        next hfree =>
          have hne : c.wanted ≠ key := by
            rintro rfl
            have hplaceholder := hc.served_wanted hf hphase
            rw [hkey] at hplaceholder
            have hslot := hc.coherent.holder slot _ (Table.key?_of_resident hfree.1)
            rw [← hplaceholder, hfree.2] at hslot
            cases hslot
          rw [Table.slotOf?_cons, if_neg hne]
        · rfl
      rw [loadsOf, loadsOf, hsame]
      exact Nat.zero_add _

end Edits

section Fits

/-- A slot that holds what serves a call's key ends the call, or stands in for the wanted key. -/
theorem fits_found (hf : Friendly setting outcome) (hc : c.Fits setting outcome t)
    (hs : t'.states.get slot = .resident (served setting outcome c.key)) :
    (c.found slot).Fits setting outcome t' c.wanted := by
  rw [Call.found]
  by_cases he : c.key = c.wanted
  · rw [if_pos he]
    exact ⟨slot, rfl, he ▸ hs⟩
  · rw [if_neg he]
    have hkey : c.key = setting.placeholder := hc.key_eq.resolve_left he
    rw [hkey, hf.served_placeholder] at hs
    exact ⟨rfl, hc.key_eq, hc.served_eq, hkey, hs⟩

/-- What a call comes to fits the table after its turn. -/
theorem Acts.fits (h : Acts setting outcome t c progress t' new wakes) (hf : Friendly setting outcome)
    (hc : c.Stands setting outcome t) (hroom : t.probe c.key ≠ .full) :
    progress.Fits setting outcome t' c.wanted := by
  have hfits := hc.fits.phase
  have hgoOn (phase : Phase ρ N) (hphase : phase.Fits setting outcome t' c.key) :
      (Progress.goOn { c with phase := phase }).Fits setting outcome t' c.wanted :=
    ⟨rfl, hc.fits.key_eq, hc.fits.served_eq, hphase⟩
  cases h with
  | hit _ hprobe =>
      obtain ⟨hslot, holder, hs⟩ := Table.probe_eq_hit_iff.mp hprobe
      obtain rfl := hc.faithful _ _ _ hslot hs
      exact fits_found hf hc.fits hs
  | wait | reserve | waitOn | retry => exact hgoOn _ trivial
  | full _ hprobe => exact absurd hprobe hroom
  | find _ hs hslot =>
      obtain rfl := hc.faithful _ _ _ hslot hs
      exact fits_found hf hc.fits hs
  | succeed _ houtcome => exact hgoOn _ (served_ok houtcome)
  | fail _ houtcome => exact hgoOn _ houtcome
  | store hphase =>
      rw [hphase] at hfits
      exact hgoOn _ hfits
  | @mark slot hphase =>
      refine hgoOn _ ?_
      rw [Table.markResident_eq (hc.loading_of_marking hphase)]
      exact get_set_self _ _ _
  | announce hphase =>
      rw [hphase] at hfits
      exact hgoOn _ hfits
  | count hphase =>
      rw [hphase] at hfits
      refine fits_found hf hc.fits ?_
      rw [hc.served_resident hfits]
      exact hfits
  | clear hphase =>
      rw [hphase] at hfits
      exact hgoOn _ hfits
  | @giveUp cause hphase =>
      rw [hphase] at hfits
      cases cause with
      | fatal cause => exact absurd hfits (hf.soft _ _)
      | unavailable reason =>
          have hne : c.key ≠ setting.placeholder := by
            intro he
            exact hf.served_ne hfits ((served_error hfits).trans he.symm)
          rw [Call.failed, if_neg hne]
          refine ⟨rfl, .inr rfl, ?_, trivial⟩
          rw [← hc.fits.served_eq, hf.served_placeholder, served_error hfits]
  | @standIn slot hphase =>
      have hserved := hc.served_wanted hf hphase
      rw [hphase] at hfits
      refine ⟨slot, rfl, ?_⟩
      rw [(t.addAlias_keeps c.wanted slot setting.placeholder).1, hserved]
      exact hfits.2

omit [DecidableEq κ] in
theorem Phase.Fits.keep {phase : Phase ρ N} (h : phase.Fits setting outcome t key)
    (hkeep : ∀ slot holder, t.states.get slot = .resident holder → t'.states.get slot = .resident holder) :
    phase.Fits setting outcome t' key := by
  cases phase with
  | announcing slot | counting slot => exact hkeep slot key h
  | aliasing slot => exact ⟨h.1, hkeep slot _ h.2⟩
  | _ => exact h

omit [DecidableEq κ] in
theorem Call.Fits.keep (h : c.Fits setting outcome t)
    (hkeep : ∀ slot holder, t.states.get slot = .resident holder → t'.states.get slot = .resident holder) :
    c.Fits setting outcome t' :=
  ⟨h.key_eq, h.served_eq, h.phase.keep hkeep⟩

omit [DecidableEq κ] in
theorem Call.Fits.wake (h : c.Fits setting outcome t) : c.wake.Fits setting outcome t := by
  rw [Call.wake]
  split
  · exact ⟨h.key_eq, h.served_eq, trivial⟩
  · exact h

end Fits

end Threads

end FrameEngine.Slots
