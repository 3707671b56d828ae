import FrameEngine.Proofs.Slots.Sessions
import FrameEngine.Proofs.Slots.Threads

namespace FrameEngine.Slots

open Indexing Threads

variable {σ κ ρ : Type} [DecidableEq κ] {N : Nat}

structure Table.Serves (t : Table κ ρ N) (key : κ) (s : Fin N) (holder : κ) : Prop where
  mapped : t.slotOf? key = some s
  resident : t.states.get s = .resident holder

section Step

variable {placeholder key holder : κ} {s : Fin N} {x y : Moment κ ρ N} {effect : Effect ρ N}
  {trace : List (Effect ρ N)}

theorem Table.Serves.cons {t : Table κ ρ N} (h : t.Serves key s holder) {key' : κ}
    (hnone : t.slotOf? key' = none) (s' : Fin N) :
    ({ t with lookup := (key', s') :: t.lookup } : Table κ ρ N).slotOf? key = some s := by
  have hne : key' ≠ key := by
    rintro rfl
    rw [h.mapped] at hnone
    cases hnone
  rw [Table.slotOf?_cons, if_neg hne]
  exact h.mapped

theorem Table.Coherent.serves_clear {t : Table κ ρ N} (hc : t.Coherent placeholder)
    (h : t.Serves key s holder) {s' : Fin N} {key' : κ} (hs' : (t.states.get s').key? = some key')
    (hne : s' ≠ s) : (t.clear s').Serves key s holder where
  mapped := (hc.slotOf?_clear hs').mpr ⟨h.mapped, hne.symm⟩
  resident := by rw [Table.clear_eq hs', get_set_of_ne _ _ hne, h.resident]

/-- Every step but the eviction of its slot leaves a key served as it was. -/
theorem Step.serves (hstep : Step placeholder x effect y) (hx : x.Sound placeholder)
    (hevict : ∀ resource, effect ≠ .evicted s resource) (h : x.table.Serves key s holder) :
    y.table.Serves key s holder ∧ y.table.contents.get s = x.table.contents.get s := by
  obtain ⟨hc, hp, _⟩ := hx
  -- loads change only slots that were reserved for them, and those are not resident
  have hne {s' : Fin N} {state : SlotState κ} (hs' : x.table.states.get s' = state)
      (hother : state ≠ .resident holder) : s' ≠ s := by
    rintro rfl
    exact hother (hs'.symm.trans h.resident)
  cases hstep with
  | rest | succeed | fail => exact ⟨h, rfl⟩
  | count => exact ⟨⟨h.mapped, h.resident⟩, rfl⟩
  | @reserve table works slot key' hprobe =>
      obtain ⟨hnone, hempty⟩ := Table.vacant_of_probe hprobe
      refine ⟨⟨h.cons hnone slot, ?_⟩, rfl⟩
      exact (get_set_of_ne _ _ (hne hempty (by simp))).trans h.resident
  | store table works slot key' resource =>
      exact ⟨⟨h.mapped, h.resident⟩, get_set_of_ne _ _ (hne (hp.head rfl) (by simp))⟩
  | mark table works slot key' =>
      have hloading := hp.head rfl
      rw [Table.markResident_eq hloading]
      refine ⟨⟨h.mapped, ?_⟩, rfl⟩
      exact (get_set_of_ne _ _ (hne hloading (by simp))).trans h.resident
  | clear table works slot key' =>
      have hloading := hp.head rfl
      refine ⟨hc.serves_clear h (Table.key?_of_loading hloading) (hne hloading (by simp)), ?_⟩
      rw [Table.clear_eq (Table.key?_of_loading hloading)]
  | standIn table works key' slot =>
      obtain ⟨hstates, hcontents, _⟩ := table.addAlias_keeps key' slot placeholder
      refine ⟨⟨?_, by rw [hstates, h.resident]⟩, by rw [hcontents]⟩
      rw [Table.addAlias]
      split
      next hfree => exact h.cons hfree.2 slot
      · exact h.mapped
  | @unload table table' works n slot resource hunload =>
      have hslot : slot ≠ s := by
        rintro rfl
        exact hevict resource rfl
      obtain ⟨_, _, ⟨key', hresident⟩, rfl⟩ := Table.unload_done hunload
      have hclear := hc.serves_clear h (Table.key?_of_resident hresident) hslot
      refine ⟨⟨hclear.mapped, hclear.resident⟩, ?_⟩
      rw [get_set_of_ne _ _ hslot, Table.clear_eq (Table.key?_of_resident hresident)]

theorem Run.serves (hrun : Run placeholder x trace y) (hx : x.Sound placeholder)
    (hevict : ∀ resource, Effect.evicted s resource ∉ trace) (h : x.table.Serves key s holder) :
    y.table.Serves key s holder ∧ y.table.contents.get s = x.table.contents.get s := by
  induction hrun with
  | nil => exact ⟨h, rfl⟩
  | @cons x effect y trace z hstep _ ih =>
      have hfirst (resource : Option ρ) : effect ≠ .evicted s resource := by
        rintro rfl
        exact hevict resource (List.mem_cons_self ..)
      obtain ⟨hy, hcontents⟩ := hstep.serves hx hfirst h
      obtain ⟨hz, hcontents'⟩ :=
        ih (hx.step hstep) (fun resource hm => hevict resource (List.mem_cons_of_mem _ hm)) hy
      exact ⟨hz, hcontents'.trans hcontents⟩

end Step

section Calls

variable {t : Table κ ρ N} {key holder : κ} {s : Fin N}

theorem Table.Serves.probe (h : t.Serves key s holder) : t.probe key = .hit s :=
  Table.probe_eq_hit_iff.mpr ⟨h.mapped, holder, h.resident⟩

theorem Table.Serves.loadOrGet (h : t.Serves key s holder) (L : Loader σ κ ρ N) (e : σ) :
    L.loadOrGet key (t, e) = (.ok s, t, e) := by
  have hkey : L.loadKey key (t, e) = (.ok (.slot s), t, e) := by rw [Loader.loadKey, h.probe]
  rw [Loader.loadOrGet, hkey]

theorem Table.Serves.advanceCall {m : Machine κ ρ N} (h : m.table.Serves key s holder) (setting : Setting κ) :
    m.advanceCall setting ⟨key, key, .lookingUp⟩ = some (.ended (.ok s), m) := by
  simp only [Machine.advanceCall, h.probe, Call.found, if_true]

end Calls

/-- What a caller that was given a slot relies on: the slot has its key and its resource still, and asking
again answers with it, without a load and without any change. -/
structure Table.KeepsServing (t t' : Table κ ρ N) (key : κ) (s : Fin N) : Prop where
  key_eq : t'.keyAt? s.val = t.keyAt? s.val
  resource_eq : ∃ resource, t.resourceAt? s.val = some resource ∧ t'.resourceAt? s.val = some resource
  answered : ∀ {σ : Type} (L : Loader σ κ ρ N) (e : σ), L.loadOrGet key (t', e) = (.ok s, t', e)

theorem keepsServing_of_run {placeholder key holder : κ} {s : Fin N} {x y : Moment κ ρ N}
    {trace : List (Effect ρ N)} (hrun : Run placeholder x trace y) (hx : x.Sound placeholder)
    (hevict : ∀ resource, Effect.evicted s resource ∉ trace) (h : x.table.Serves key s holder) :
    x.table.KeepsServing y.table key s := by
  obtain ⟨hy, hcontents⟩ := hrun.serves hx hevict h
  obtain ⟨resource, hresource⟩ :=
    Option.isSome_iff_exists.mp ((hx.filled s).mpr (Or.inl ⟨holder, h.resident⟩))
  refine ⟨?_, ⟨resource, ?_, ?_⟩, hy.loadOrGet⟩
  · rw [Table.keyAt?_eq, Table.keyAt?_eq, hy.resident, h.resident]
  · rw [Table.resourceAt?_eq, hresource]
  · rw [Table.resourceAt?_eq, hcontents, hresource]

/-- A key that maps to a resident slot, its own or the placeholder's, is answered with that slot, which keeps
its key and its resource, after any moves of threads and any session of calls in which the slot is not
unloaded. -/
theorem resident_slot_stable :
    (∀ (setting : Setting κ) (threads : Nat) (before moves : List (Nat × Move κ ρ)) (m m' : Machine κ ρ N)
      (key holder : κ) (s : Fin N),
      (Machine.idle threads).run? setting before = some m → m.table.slotOf? key = some s →
      m.table.states.get s = .resident holder → m.run? setting moves = some m' → ¬ m.Evicts setting moves s →
        m.table.KeepsServing m'.table key s ∧
        m'.advanceCall setting ⟨key, key, .lookingUp⟩ = some (.ended (.ok s), m')) ∧
    ∀ (L : Loader σ κ ρ N) (log : σ → List (Entry ρ)) (depth : Nat) (trace : List (Effect ρ N))
      (t t' : Table κ ρ N) (works : Multiset (Work κ ρ N)) (e e' : σ) (entries : List (Entry ρ))
      (key holder : κ) (s : Fin N),
      Run L.placeholder .start trace ⟨t, works⟩ → t.slotOf? key = some s → t.states.get s = .resident holder →
      L.Nests [log] depth → L.Session [log] (t, e) (t', e') → log e' = log e ++ entries →
      .unloaded s.val ∉ entries →
        t.KeepsServing t' key s := by
  refine ⟨?_, ?_⟩
  · intro setting threads before moves m m' key holder s hbefore hmapped hresident hmoves hevict
    obtain ⟨trace, hrun, _, _, hevicted⟩ := run_moment hmoves
    have hnone (resource : Option ρ) : Effect.evicted s resource ∉ trace :=
      fun hm => hevict (hevicted s resource hm)
    have hserved := (hrun.serves (sound_of_run hbefore) hnone ⟨hmapped, hresident⟩).1
    exact ⟨keepsServing_of_run hrun (sound_of_run hbefore) hnone ⟨hmapped, hresident⟩,
      hserved.advanceCall setting⟩
  · intro L log depth trace t t' works e e' entries key holder s hstart hmapped hresident hL hsession hlog
      hunloaded
    obtain ⟨more, hrun, hgrows⟩ := hL.orderly.session hsession works
    have hentries : entries = more.flatMap Effect.entries :=
      List.append_cancel_left (hlog.symm.trans (hgrows log (List.mem_singleton_self log)))
    refine keepsServing_of_run hrun ((sound_start _).run hstart) (fun resource hm => ?_) ⟨hmapped, hresident⟩
    rw [hentries] at hunloaded
    exact hunloaded (List.mem_flatMap.mpr ⟨_, hm, by simp [Effect.entries]⟩)

def aliasRecorder : Loader (List (Entry Nat)) Nat Nat 2 :=
  Loader.recorder 9 (fun key => if key = 2 then .error (.unavailable "none") else .ok (10 * key))
    (fun key => if key = 1 then [.load 2, .unload 1] else []) 1

/-- The placeholder's slot serves key 2 throughout: in the moves above, and while slot 1 is loaded, found in
use, unloaded and loaded again. -/
theorem resident_slot_stable_placeholder :
    (nestedMachine.table.KeepsServing laterMachine.table 2 1 ∧
      laterMachine.advanceCall nestedSetting ⟨2, 2, .lookingUp⟩ = some (.ended (.ok 1), laterMachine)) ∧
    (aliasRecorder.perform (.load 2) (.empty, [])).1.KeepsServing
      ([.load 1, .load 3, .unload 1, .load 3].foldl (fun w op => aliasRecorder.perform op w)
        (aliasRecorder.perform (.load 2) (.empty, []))).1 2 0 := by
  refine ⟨?_, ?_⟩
  · refine (@resident_slot_stable Unit Nat Nat _ 2).1 nestedSetting 1 nestedMoves laterMoves nestedMachine
      laterMachine 2 9 1 run_nestedMoves rfl rfl run_laterMoves ?_
    rintro ⟨before, i, after, middle, resource, table, hmoves, _⟩
    have hm : (i, Move.unload 1) ∈ laterMoves := by
      rw [hmoves]
      exact List.mem_append_right _ (List.mem_cons_self ..)
    simp [laterMoves] at hm
  · have hnests : aliasRecorder.Nests [id] 1 := Loader.recorder_nests _ _ _ 1
    obtain ⟨trace, hstart, _⟩ := hnests.orderly.session (Loader.session_perform (.load 2) (.empty, [])) 0
    exact resident_slot_stable.2 aliasRecorder id 1 trace _ _ 0 _ _
      [.made 10, .given 10, .unloaded 1, .made 30] 2 9 0 hstart rfl rfl hnests
      (Loader.session_foldl [.load 1, .load 3, .unload 1, .load 3] _) (by with_unfolding_all rfl) (by decide)

end FrameEngine.Slots
