import FrameEngine.Proofs.Slots.Growth

namespace FrameEngine.Slots

open Indexing

variable {σ κ ρ : Type} {N : Nat}

section Tracing

namespace Loader

def tracing (L : Loader σ κ ρ N) : Loader (σ × List κ) κ ρ N where
  kind := L.kind
  placeholder := L.placeholder
  describe := fun w key => L.describe w.1 key
  load := fun key w =>
    let (outcome, t, e) := L.load key (w.1, w.2.1)
    (outcome, t, e, w.2.2 ++ [key])
  release := fun resource w => (L.release resource w.1, w.2)
  note := fun event w => (L.note event w.1, w.2)

@[simp] theorem tracing_kind (L : Loader σ κ ρ N) : L.tracing.kind = L.kind := rfl

@[simp] theorem tracing_placeholder (L : Loader σ κ ρ N) : L.tracing.placeholder = L.placeholder := rfl

@[simp] theorem tracing_describe (L : Loader σ κ ρ N) (w : σ × List κ) (key : κ) :
    L.tracing.describe w key = L.describe w.1 key := rfl

@[simp] theorem tracing_note (L : Loader σ κ ρ N) (event : Event) (w : σ × List κ) :
    L.tracing.note event w = (L.note event w.1, w.2) := rfl

end Loader

variable [DecidableEq κ] {L : Loader σ κ ρ N} {t : Table κ ρ N} {key : κ} {e : σ}

def Table.begun (t : Table κ ρ N) (key : κ) : List κ :=
  match t.probe key with
  | .vacant _ => [key]
  | _ => []

theorem Table.begun_eq_nil_iff : t.begun key = [] ↔ ∀ s, t.probe key ≠ .vacant s := by
  rw [begun]
  cases t.probe key <;> simp

theorem Table.begun_of_vacant {s : Fin N} (h : t.probe key = .vacant s) : t.begun key = [key] := by
  rw [begun, h]

namespace Loader

def loadsBegun (L : Loader σ κ ρ N) (key : κ) (w : Table κ ρ N × σ) : List κ :=
  (L.tracing.loadOrGet key (w.1, w.2, [])).2.2.2

theorem loadKey_tracing (L : Loader σ κ ρ N) (key : κ) (t : Table κ ρ N) (e : σ) (loads : List κ) :
    L.tracing.loadKey key (t, e, loads) =
      match L.loadKey key (t, e) with
      | (answer, t', e') => (answer, t', e', loads ++ t.begun key) := by
  rw [loadKey, loadKey, Table.begun]
  dsimp only
  cases t.probe key with
  | hit s | pending s | full => simp [tracing]
  | vacant s =>
      rcases hload : L.load key (t.reserve s key, e) with ⟨(reason | cause) | resource, t', e'⟩
      all_goals simp [tracing, hload]

theorem begun_of_unavailable {reason : String} (h : (L.loadKey key (t, e)).1 = .ok (.unavailable reason)) :
    t.begun key = [key] := by
  rw [loadKey] at h
  cases hprobe : t.probe key with
  | vacant s => exact Table.begun_of_vacant hprobe
  | hit s | pending s | full =>
      rw [hprobe] at h
      cases h

/-- To trace a call changes nothing about it. The first load that it begins, if any, is that of its own key. -/
theorem loadOrGet_tracing (L : Loader σ κ ρ N) (key : κ) (t : Table κ ρ N) (e : σ) :
    ∃ rest, L.tracing.loadOrGet key (t, e, []) =
        ((L.loadOrGet key (t, e)).1, (L.loadOrGet key (t, e)).2.1, (L.loadOrGet key (t, e)).2.2, t.begun key ++ rest) ∧
      (t.begun key = [] → rest = []) := by
  rw [loadOrGet, loadKey_tracing, loadOrGet]
  rcases hfirst : L.loadKey key (t, e) with ⟨cause | (s | reason), t', e'⟩
  · exact ⟨[], by simp, fun _ => rfl⟩
  · exact ⟨[], by simp, fun _ => rfl⟩
  · have hbegun : t.begun key = [key] := begun_of_unavailable (congrArg Prod.fst hfirst)
    have hstarted (rest : List κ) : t.begun key = [] → rest = [] := by simp [hbegun]
    simp only [tracing_kind, tracing_placeholder, tracing_describe, tracing_note, loadKey_tracing]
    split
    · exact ⟨[], by simp, hstarted []⟩
    · refine ⟨t'.begun L.placeholder, ?_, hstarted _⟩
      rcases L.loadKey L.placeholder (t', _) with ⟨cause | (s | reason'), t'', e''⟩
      all_goals rfl

theorem loadsBegun_eq_nil_iff : L.loadsBegun key (t, e) = [] ↔ ∀ s, t.probe key ≠ .vacant s := by
  obtain ⟨rest, htraced, hnone⟩ := L.loadOrGet_tracing key t e
  rw [← Table.begun_eq_nil_iff, loadsBegun, htraced, List.append_eq_nil_iff]
  exact ⟨And.left, fun h => ⟨h, hnone h⟩⟩

theorem loadsBegun_of_vacant {s : Fin N} (h : t.probe key = .vacant s) :
    ∃ rest, L.loadsBegun key (t, e) = key :: rest := by
  obtain ⟨rest, htraced, _⟩ := L.loadOrGet_tracing key t e
  refine ⟨rest, ?_⟩
  rw [loadsBegun, htraced, Table.begun_of_vacant h]
  rfl

end Loader

end Tracing

variable [DecidableEq κ]

namespace Table

variable {t : Table κ ρ N} {key : κ} {s : Fin N}

theorem firstEmpty?_eq_none_iff : t.firstEmpty? = none ↔ ∀ s, t.states.get s ≠ .empty := by
  simp [firstEmpty?]

theorem probe_eq_full_iff : t.probe key = .full ↔ t.slotOf? key = none ∧ ∀ s, t.states.get s ≠ .empty := by
  rw [← firstEmpty?_eq_none_iff, probe]
  cases t.slotOf? key with
  | none => cases t.firstEmpty? <;> simp
  | some s => cases hs : t.states.get s <;> simp [hs]

/-- Where a slot is free for one key, no other lacks one. -/
theorem not_full_of_vacant (h : t.probe key = .vacant s) (key' : κ) : t.probe key' ≠ .full :=
  fun hfull => (probe_eq_full_iff.mp hfull).2 s (vacant_of_probe h).2

def withKeys (t : Table κ ρ N) (keys : List κ) (s : Fin N) : Table κ ρ N :=
  { t with lookup := keys.map (fun key => (key, s)) ++ t.lookup }

theorem slotOf?_withKeys (t : Table κ ρ N) (key : κ) (s : Fin N) (k : κ) :
    (t.withKeys [key] s).slotOf? k = if key = k then some s else t.slotOf? k := by
  rw [withKeys, List.map_singleton, List.singleton_append, slotOf?_cons]

theorem slotOf?_install (t : Table κ ρ N) (key : κ) (s : Fin N) (resource : ρ) (k : κ) :
    ((t.reserve s key).install s resource).slotOf? k = if key = k then some s else t.slotOf? k := by
  have hloading : (t.reserve s key).states.get s = .loading key := get_set_self _ _ _
  rw [install_eq hloading, reserve, slotOf?_cons]
  rfl

end Table

namespace Loader

variable {L : Loader σ κ ρ N} {R : σ → σ → Prop} {t t' : Table κ ρ N} {key : κ} {e e' : σ}

/-- What looking for a key by itself comes to. A load that fails has left no trace in the table. -/
inductive Attempt (L : Loader σ κ ρ N) (t : Table κ ρ N) (key : κ) (e : σ) :
    Except SlotError (Loaded N) × (Table κ ρ N × σ) → Prop
  | found {s} (hprobe : t.probe key = .hit s) : Attempt L t key e (.ok (.slot s), t, e)
  | full (hprobe : t.probe key = .full) : Attempt L t key e (.error (.outOfSlots L.kind N), t, e)
  | loaded {s resource e'} (hprobe : t.probe key = .vacant s)
      (hload : L.load key (t.reserve s key, e) = (.ok resource, t.reserve s key, e')) :
      Attempt L t key e (.ok (.slot s), (t.reserve s key).install s resource,
        L.note (.slotSet L.kind s (L.describe e' key)) e')
  | missing {s reason e'} (hprobe : t.probe key = .vacant s)
      (hload : L.load key (t.reserve s key, e) = (.error (.unavailable reason), t.reserve s key, e')) :
      Attempt L t key e (.ok (.unavailable reason), t, e')
  | fatal {s cause e'} (hprobe : t.probe key = .vacant s)
      (hload : L.load key (t.reserve s key, e) = (.error (.fatal cause), t.reserve s key, e')) :
      Attempt L t key e (.error cause, t, e')

def standIn (key : κ) :
    Except SlotError (Fin N) × (Table κ ρ N × σ) → Except SlotError (Fin N) × (Table κ ρ N × σ)
  | (.ok s, t, e) => (.ok s, t.withKeys [key] s, e)
  | (.error cause, w) => (.error cause, w)

def warned (L : Loader σ κ ρ N) (key : κ) (reason : String) (e : σ) : σ :=
  L.note (.unavailable L.kind (L.describe e key) reason) e

/-- What a call comes to. -/
inductive Comes (L : Loader σ κ ρ N) (t : Table κ ρ N) :
    κ → σ → Except SlotError (Fin N) × (Table κ ρ N × σ) → Prop
  | own {key e s w} (hattempt : L.Attempt t key e (.ok (.slot s), w)) : Comes L t key e (.ok s, w)
  | failed {key e cause w} (hattempt : L.Attempt t key e (.error cause, w)) : Comes L t key e (.error cause, w)
  | missing {e reason t' e'} (hattempt : L.Attempt t L.placeholder e (.ok (.unavailable reason), t', e')) :
      Comes L t L.placeholder e
        (.error (.missingPlaceholder L.kind (L.describe e' L.placeholder) reason), t', e')
  | fallback {key e reason t' e' answer} (hkey : key ≠ L.placeholder)
      (hattempt : L.Attempt t key e (.ok (.unavailable reason), t', e'))
      (hanswer : Comes L t L.placeholder (L.warned key reason e') answer) : Comes L t key e (standIn key answer)

section Cases

theorem Attempt.keeps {cause : SlotError} (h : L.Attempt t key e (.error cause, t', e')) : t' = t := by
  cases h <;> rfl

theorem Attempt.keeps_of_unavailable {reason : String} (h : L.Attempt t key e (.ok (.unavailable reason), t', e')) :
    t' = t := by
  cases h
  rfl

theorem Attempt.vacant {reason : String} (h : L.Attempt t key e (.ok (.unavailable reason), t', e')) :
    ∃ s, t.probe key = .vacant s ∧
      L.load key (t.reserve s key, e) = (.error (.unavailable reason), t.reserve s key, e') := by
  cases h with
  | missing hprobe hload => exact ⟨_, hprobe, hload⟩

/-- A call that gives a slot found it resident, or put a resource of the key or of the placeholder into it. Some keys
may be mapped to it besides. -/
theorem Comes.answered {s : Fin N} (h : L.Comes t key e (.ok s, t', e')) :
    ∃ aliases, (∃ holder, t.states.get s = .resident holder ∧ t' = t.withKeys aliases s) ∨
      ∃ holder resource, (holder = key ∨ holder = L.placeholder) ∧ t.probe holder = .vacant s ∧
        (∃ s', t.probe key = .vacant s') ∧ t' = ((t.reserve s holder).install s resource).withKeys aliases s := by
  generalize hanswer : (Except.ok s, t', e') = answer at h
  induction h generalizing t' with
  | failed | missing => cases hanswer
  | own hattempt =>
      cases hanswer
      refine ⟨[], ?_⟩
      cases hattempt with
      | found hprobe =>
          obtain ⟨_, holder, hs⟩ := Table.probe_eq_hit_iff.mp hprobe
          exact .inl ⟨holder, hs, rfl⟩
      | loaded hprobe _ => exact .inr ⟨_, _, .inl rfl, hprobe, ⟨s, hprobe⟩, rfl⟩
  | @fallback key e reason t₁ e₁ answer hkey hattempt _ ih =>
      obtain ⟨s₁, hprobe, _⟩ := hattempt.vacant
      rcases answer with ⟨cause | s', t₂, e₂⟩
      · cases hanswer
      · cases hanswer
        obtain ⟨aliases, ⟨holder, hs, rfl⟩ | ⟨holder, resource, hholder, hvacant, _, rfl⟩⟩ := ih rfl
        · exact ⟨key :: aliases, .inl ⟨holder, hs, rfl⟩⟩
        · exact ⟨key :: aliases, .inr ⟨holder, resource, .inr (hholder.elim id id), hvacant, ⟨s₁, hprobe⟩, rfl⟩⟩

section Mapped

variable {w : Except SlotError (Fin N) × (Table κ ρ N × σ)} {key' : κ} {s : Fin N}

theorem slotOf?_standIn (h : (standIn key w).2.1.slotOf? key' = some s) : w.2.1.slotOf? key' = some s ∨ key' = key := by
  rcases w with ⟨cause | given, t, e⟩
  · exact .inl h
  · rw [standIn, Table.slotOf?_withKeys] at h
    split at h
    next hkey => exact .inr hkey.symm
    · exact .inl h

omit [DecidableEq κ] in
theorem states_standIn : (standIn key w).2.1.states = w.2.1.states := by
  rcases w with ⟨cause | given, t, e⟩ <;> rfl

/-- What a call maps a key to is a slot that holds it, unless the key's own load has found nothing. -/
theorem Comes.mapped (h : L.Comes t key e w) (hs : w.2.1.slotOf? key' = some s) :
    t.slotOf? key' = some s ∨ w.2.1.states.get s = .resident key' ∨
      (key' = key ∧ key ≠ L.placeholder) ∧ ∃ free reason e₁, t.probe key = .vacant free ∧
        L.load key (t.reserve free key, e) = (.error (.unavailable reason), t.reserve free key, e₁) := by
  induction h with
  | failed hattempt => exact .inl (hattempt.keeps ▸ hs)
  | missing hattempt => exact .inl (hattempt.keeps_of_unavailable ▸ hs)
  | own hattempt =>
      cases hattempt with
      | found => exact .inl hs
      | loaded =>
          rw [Table.slotOf?_install] at hs
          split at hs
          next hkey =>
            cases hs
            subst hkey
            exact .inr (.inl (Table.states_install (get_set_self _ _ _)))
          · exact .inl hs
  | fallback hkey hattempt _ ih =>
      obtain ⟨free, hprobe, hload⟩ := hattempt.vacant
      rw [states_standIn]
      rcases slotOf?_standIn hs with hs | rfl
      · obtain hold | hown | ⟨⟨_, hplaceholder⟩, _⟩ := ih hs
        · exact .inl hold
        · exact .inr (.inl hown)
        -- nothing stands in for the placeholder itself
        · exact absurd rfl hplaceholder
      · exact .inr (.inr ⟨⟨rfl, hkey⟩, free, _, _, hprobe, hload⟩)

/-- A call maps no keys but its own and the placeholder, and takes the slot of none away. -/
theorem Comes.others (h : L.Comes t key e w) (hkey : key' ≠ key) (hplaceholder : key' ≠ L.placeholder) :
    w.2.1.slotOf? key' = t.slotOf? key' := by
  induction h with
  | failed hattempt => rw [hattempt.keeps]
  | missing hattempt => rw [hattempt.keeps_of_unavailable]
  | own hattempt =>
      cases hattempt with
      | found => rfl
      | loaded => rw [Table.slotOf?_install, if_neg hkey.symm]
  | @fallback key e reason t₁ e₁ answer _ _ _ ih =>
      rcases answer with ⟨cause | given, t₂, e₂⟩
      · exact ih hplaceholder
      · rw [standIn, Table.slotOf?_withKeys, if_neg hkey.symm]
        exact ih hplaceholder

end Mapped

end Cases

section Detached

variable (hL : L.Detached R) (ht : t.Settled L.placeholder)
include hL ht

theorem Detached.attempt (key : κ) (e : σ) : L.Attempt t key e (L.loadKey key (t, e)) := by
  rw [Loader.loadKey]
  dsimp only
  cases hprobe : t.probe key with
  | hit s => exact .found hprobe
  | pending s => exact absurd hprobe ht.not_pending
  | full => exact .full hprobe
  | vacant s =>
      obtain ⟨outcome, e', hload, _⟩ := hL.load key (t.reserve s key) e
      have hsame : (t.reserve s key).clear s = t := Table.clear_reserve ht.coherent hprobe
      dsimp only
      rw [hload]
      rcases outcome with (reason | cause) | resource
      · dsimp only
        rw [hsame]
        exact .missing hprobe hload
      · dsimp only
        rw [hsame]
        exact .fatal hprobe hload
      · exact .loaded hprobe hload

/-- A call for a key that is not available is answered as a call for the placeholder is, once the key's load has
failed. -/
theorem Detached.loadOrGet_fallback {reason : String} (hkey : key ≠ L.placeholder)
    (hown : L.loadKey key (t, e) = (.ok (.unavailable reason), t, e')) :
    L.loadOrGet key (t, e) = standIn key (L.loadOrGet L.placeholder (t, L.warned key reason e')) := by
  have hfirst := hL.loadKey ht key e
  rw [hown] at hfirst
  have hsecond := hL.loadKey ht L.placeholder (L.warned key reason e')
  rw [Loader.loadOrGet, hown, Loader.loadOrGet]
  dsimp only
  rw [if_neg hkey, warned]
  rw [warned] at hsecond
  rcases hanswer : L.loadKey L.placeholder (t, _) with ⟨cause | (s | reason'), t', e''⟩
  · rfl
  · rw [hanswer] at hsecond
    obtain ⟨holder, hserves⟩ := hsecond.serves s rfl
    have hstate := (hsecond.fills.grows.settled ht).answers hserves.mapped
    have hnone := (hsecond.others key hkey).trans (hfirst.missing reason rfl)
    dsimp only
    rw [Table.addAlias, if_pos ⟨hstate.elim id id, hnone⟩]
    rfl
  · dsimp only
    rw [if_pos rfl]
    rfl

theorem Detached.comes (key : κ) (e : σ) : L.Comes t key e (L.loadOrGet key (t, e)) := by
  have hplaceholder (e : σ) : L.Comes t L.placeholder e (L.loadOrGet L.placeholder (t, e)) := by
    have hattempt := hL.attempt ht L.placeholder e
    rw [Loader.loadOrGet]
    rcases hown : L.loadKey L.placeholder (t, e) with ⟨cause | (s | reason), t', e'⟩
    · rw [hown] at hattempt
      exact .failed hattempt
    · rw [hown] at hattempt
      exact .own hattempt
    · rw [hown] at hattempt
      dsimp only
      rw [if_pos rfl]
      exact .missing hattempt
  by_cases hkey : key = L.placeholder
  · subst hkey
    exact hplaceholder e
  have hattempt := hL.attempt ht key e
  rcases hown : L.loadKey key (t, e) with ⟨cause | (s | reason), t', e'⟩
  · rw [hown] at hattempt
    rw [Loader.loadOrGet, hown]
    exact .failed hattempt
  · rw [hown] at hattempt
    rw [Loader.loadOrGet, hown]
    exact .own hattempt
  · rw [hown] at hattempt
    obtain rfl := hattempt.keeps_of_unavailable
    rw [hL.loadOrGet_fallback ht hkey hown]
    exact .fallback hkey hattempt (hplaceholder _)

end Detached

end Loader

end FrameEngine.Slots
