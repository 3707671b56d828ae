import FrameEngine.Proofs.Slots.Conservation
import FrameEngine.Proofs.Slots.StandIns

namespace FrameEngine.Slots

open Indexing

variable {σ κ ρ : Type} [DecidableEq κ] {N : Nat}

namespace Table

/-- What is left of a table without a slot: no key maps to it, and everything else is as it was. -/
structure Evicted (t : Table κ ρ N) (s : Fin N) (t' : Table κ ρ N) : Prop where
  empty : t'.states.get s = .empty
  taken : t'.contents.get s = none
  mapped : ∀ key s', t'.slotOf? key = some s' ↔ t.slotOf? key = some s' ∧ s' ≠ s
  others : ∀ s', s' ≠ s → t'.states.get s' = t.states.get s' ∧ t'.contents.get s' = t.contents.get s'
  loads : t'.loads = t.loads

variable {t : Table κ ρ N} {placeholder key holder : κ} {s : Fin N}

theorem unload_of_resident (hs : t.states.get s = .resident key) :
    t.unload s.val = .done s (t.contents.get s)
      { t.clear s with contents := (t.clear s).contents.set s.val none s.isLt } := by
  rw [unload, dif_pos s.isLt]
  simp only [Fin.eta, hs]

theorem Coherent.evicted (hc : t.Coherent placeholder) (hs : t.states.get s = .resident key) :
    t.Evicted s { t.clear s with contents := (t.clear s).contents.set s.val none s.isLt } where
  empty := by
    rw [clear_eq (key?_of_resident hs)]
    exact get_set_self _ _ _
  taken := get_set_self _ _ _
  mapped key' s' := hc.slotOf?_clear (key?_of_resident hs)
  others s' hne := by
    refine ⟨get_clear_of_ne hne.symm, ?_⟩
    rw [get_set_of_ne _ _ hne.symm, (t.clear_keeps s).1]
  loads := (t.clear_keeps s).2

/-- To evict a slot that was filled for a key leaves no trace but the count of the load. -/
theorem unload_install (hc : t.Coherent placeholder) (hprobe : t.probe holder = .vacant s)
    (hnone : t.contents.get s = none) (resource : ρ) (aliases : List κ) :
    (((t.reserve s holder).install s resource).withKeys aliases s).unload s.val =
      .done s (some resource) t.countLoad := by
  have hloading : (t.reserve s holder).states.get s = .loading holder := get_set_self _ _ _
  have hresident : (((t.reserve s holder).install s resource).withKeys aliases s).states.get s = .resident holder :=
    states_install hloading
  have hcontents : (((t.reserve s holder).install s resource).withKeys aliases s).contents.get s = some resource := by
    rw [withKeys, get_contents_install, if_pos rfl]
  -- no alias outlives the slot, and what a failed load would leave is left of the rest
  have hcleared : (((t.reserve s holder).install s resource).withKeys aliases s).clear s =
      { (t.reserve s holder).clear s with
        contents := t.contents.set s.val (some resource) s.isLt
        loads := t.loads + 1 } := by
    rw [clear_eq (key?_of_resident hresident), clear_eq (key?_of_loading hloading), install_eq hloading]
    simp [withKeys, reserve]
  rw [unload_of_resident hresident, hcontents, hcleared, clear_reserve hc hprobe]
  have hcontents' : (t.contents.set s.val (some resource) s.isLt).set s.val none s.isLt = t.contents := by
    rw [Vector.set_set, ← hnone]
    exact Vector.set_getElem_self s.isLt
  dsimp only
  rw [hcontents', countLoad]

/-- A key is mapped to the slot that holds it, or its load has found nothing. -/
def Explained (t : Table κ ρ N) (missed : κ → Prop) : Prop :=
  ∀ key s, t.slotOf? key = some s → t.states.get s = .resident key ∨ missed key

theorem Explained.evicted {t' : Table κ ρ N} {missed : κ → Prop} (h : t.Explained missed) (hevicted : t.Evicted s t') :
    t'.Explained missed := by
  intro key s' hs'
  obtain ⟨hmapped, hne⟩ := (hevicted.mapped key s').mp hs'
  rw [(hevicted.others s' hne).1]
  exact h key s' hmapped

theorem Settled.eq_none (ht : t.Settled placeholder) (hs : t.states.get s = .empty) : t.contents.get s = none := by
  obtain ⟨trace, hrun⟩ := ht
  obtain ⟨_, hplaced, hfilled⟩ := (sound_start placeholder).run hrun
  exact hfilled.eq_none_of_empty hplaced hs

end Table

namespace Loader

variable {L : Loader σ κ ρ N} {t t' : Table κ ρ N} {key : κ} {e e' : σ} {s : Fin N}

theorem unload_of_done {resource : ρ} (h : t.unload s.val = .done s (some resource) t') (L : Loader σ κ ρ N) (e : σ) :
    L.unload s.val (t, e) = (true, t', L.note (.unloaded L.kind s.val) (L.release resource e)) := by
  rw [unload, h]
  rfl

theorem unload_of_not_resident {n : Nat} (hn : ∀ s : Fin N, s.val = n → ∀ key, t.states.get s ≠ .resident key)
    (L : Loader σ κ ρ N) (e : σ) :
    ∃ e', L.unload n (t, e) = (false, t, e') ∧ (e' = e ∨ e' = L.note (.stillLoading L.kind n) e) := by
  rw [unload]
  cases h : t.unload n with
  | nothing => exact ⟨e, rfl, .inl rfl⟩
  | stillLoading => exact ⟨_, rfl, .inr rfl⟩
  | done s resource t' =>
      obtain ⟨rfl, _, ⟨key, hs⟩, _⟩ := Table.unload_done h
      exact absurd hs (hn s rfl key)

theorem unload_explained {placeholder : κ} {missed : κ → Prop} (hc : t.Coherent placeholder) (h : t.Explained missed)
    (L : Loader σ κ ρ N) (n : Nat) (e : σ) : (L.unload n (t, e)).2.1.Explained missed := by
  rw [unload]
  cases hunload : t.unload n with
  | nothing | stillLoading => exact h
  | done s resource t' =>
      obtain ⟨_, _, ⟨key, hs⟩, rfl⟩ := Table.unload_done hunload
      exact h.evicted (hc.evicted hs)

theorem Orderly.unloadAll_explained {R : σ → List (Entry ρ) → σ → Prop} {missed : κ → Prop} {w : Table κ ρ N × σ}
    (hL : L.Orderly R) (ht : w.1.Settled L.placeholder) (h : w.1.Explained missed) :
    (L.unloadAll w).1.Explained missed := by
  rw [Loader.unloadAll]
  generalize List.range N = slots
  induction slots generalizing w with
  | nil => exact h
  | cons n slots ih => exact ih (ht.leads (hL.unload n w)) (unload_explained ht.coherent h L n w.2)

/-- In whatever moment, a resident slot is evicted with everything that maps to it, its resource is given back, and
nothing else is changed; of any other slot nothing comes but perhaps a note. So what a call has put into a free slot of a
settled table, with loads that leave the table alone, is taken back by the slot's eviction but for the count of the load,
and the same call then begins with a load of its key again. -/
theorem unload_undoes_load :
    (∀ (L : Loader σ κ ρ N) (trace : List (Effect ρ N)) (t : Table κ ρ N) (works : Multiset (Work κ ρ N)) (n : Nat)
      (e : σ), Run L.placeholder .start trace ⟨t, works⟩ →
        (∃ (s : Fin N) (resource : ρ) (t' : Table κ ρ N), s.val = n ∧ (∃ key, t.states.get s = .resident key) ∧
          t.contents.get s = some resource ∧ t.Evicted s t' ∧
          L.unload n (t, e) = (true, t', L.note (.unloaded L.kind n) (L.release resource e))) ∨
        (∀ s : Fin N, s.val = n → ∀ key, t.states.get s ≠ .resident key) ∧
          ∃ e', L.unload n (t, e) = (false, t, e') ∧ (e' = e ∨ e' = L.note (.stillLoading L.kind n) e)) ∧
    ∀ (L : Loader σ κ ρ N) (R : σ → σ → Prop) (t t' : Table κ ρ N) (key : κ) (s : Fin N) (e e' : σ), L.Detached R →
      t.Settled L.placeholder → t.states.get s = .empty → L.loadOrGet key (t, e) = (.ok s, t', e') →
        (∃ resource, t'.contents.get s = some resource ∧
          L.unload s.val (t', e') = (true, t.countLoad, L.note (.unloaded L.kind s.val) (L.release resource e'))) ∧
        ∀ e'', ∃ rest, L.loadsBegun key (t.countLoad, e'') = key :: rest := by
  refine ⟨fun L trace t works n e hrun => ?_, fun L R t t' key s e e' hL ht hempty hcall => ?_⟩
  · obtain ⟨hcoherent, _, hfilled⟩ := (sound_start _).run hrun
    by_cases hn : ∃ s : Fin N, s.val = n ∧ ∃ key, t.states.get s = .resident key
    · obtain ⟨s, rfl, key, hs⟩ := hn
      obtain ⟨resource, hresource⟩ := Option.isSome_iff_exists.mp ((hfilled s).mpr (.inl ⟨key, hs⟩))
      have hdone := Table.unload_of_resident hs
      rw [hresource] at hdone
      exact .inl ⟨s, resource, _, rfl, ⟨key, hs⟩, hresource, hcoherent.evicted hs, unload_of_done hdone L e⟩
    · have hnone : ∀ s : Fin N, s.val = n → ∀ key, t.states.get s ≠ .resident key :=
        fun s hs key hstate => hn ⟨s, hs, key, hstate⟩
      exact .inr ⟨hnone, unload_of_not_resident hnone L e⟩
  · have hcomes := hL.comes ht key e
    rw [hcall] at hcomes
    obtain ⟨aliases, ⟨holder, hs, _⟩ | ⟨holder, resource, _, hholder, ⟨s', hprobe⟩, rfl⟩⟩ := hcomes.answered
    · rw [hempty] at hs
      cases hs
    · refine ⟨⟨resource, ?_, ?_⟩, fun e'' => loadsBegun_of_vacant (hprobe : t.countLoad.probe key = .vacant s')⟩
      · rw [Table.withKeys, Table.get_contents_install, if_pos rfl]
      · exact unload_of_done (Table.unload_install ht.coherent hholder (ht.eq_none hempty) resource aliases) L e'

/-- With key 1 in slot 0, the placeholder is loaded into slot 1 for key 2, and evicted from there. -/
theorem unload_undoes_load_brittle :
    (∃ (s : Fin 2) (t' : Table Nat Nat 2), s.val = 0 ∧ brittleTable.Evicted s t' ∧
      (brittle false).unload 0 (brittleTable, false) = (true, t', false)) ∧
    ((brittle false).unload 1 (brittleTable, false)).1 = false ∧
    ((brittle false).loadOrGet 2 (brittleTable, false)).1.toOption.map (·.val) = some 1 ∧
      ((brittle false).unload 1 ((brittle false).loadOrGet 2 (brittleTable, false)).2).2.1 = brittleTable.countLoad ∧
      ∃ rest, (brittle false).loadsBegun 2 (brittleTable.countLoad, false) = 2 :: rest := by
  obtain ⟨trace, hrun⟩ := brittleTable_settled
  obtain ⟨⟨resource, _, hunload⟩, hagain⟩ := unload_undoes_load.2 (brittle false) _ brittleTable
    ((brittle false).loadOrGet 2 (brittleTable, false)).2.1 2 ⟨1, by decide⟩ false false (brittle_detached false)
    brittleTable_settled rfl rfl
  refine ⟨?_, ?_, rfl, congrArg (fun w => w.2.1) hunload, hagain false⟩
  · rcases unload_undoes_load.1 (brittle false) trace brittleTable 0 0 false hrun with
      ⟨s, resource, t', hs, _, _, hevicted, hunload⟩ | ⟨hnone, _⟩
    · exact ⟨s, t', hs, hevicted, hunload⟩
    · exact absurd rfl (hnone ⟨0, by decide⟩ rfl 1)
  · rcases unload_undoes_load.1 (brittle false) trace brittleTable 0 1 false hrun with
      ⟨s, resource, t', hs, ⟨key, hstate⟩, _⟩ | ⟨_, e', hunload, _⟩
    · obtain rfl : s = ⟨1, by decide⟩ := Fin.ext hs
      cases hstate
    · rw [hunload]

/-- The load of key 1 puts the placeholder into slot 1 besides, for key 2. The eviction of slot 0 leaves it there. -/
theorem unload_leaves_nested_load :
    (.empty : Table Nat Nat 2).keys = [] ∧
      (nestedRecorder.loadOrGet 1 (.empty, [])).1.toOption.map (·.val) = some 0 ∧
      (nestedRecorder.unload 0 (nestedRecorder.loadOrGet 1 (.empty, [])).2).1 = true ∧
      (nestedRecorder.unload 0 (nestedRecorder.loadOrGet 1 (.empty, [])).2).2.1.keys = [9] :=
  ⟨rfl, rfl, rfl, rfl⟩

end Loader

end FrameEngine.Slots
