import FrameEngine.Proofs.Slots.Waiting
import Mathlib.Data.Set.Finite.List
import Mathlib.Logic.Relation
import Mathlib.Order.WellFoundedSet

namespace FrameEngine.Slots

open Relation

namespace Threads

variable {κ ρ : Type} {N : Nat}

/-- In the load of `key`, a call is made that works on `inner`. -/
def Machine.Depends (m : Machine κ ρ N) (key inner : κ) : Prop :=
  ∃ thread ∈ m.threads, ∃ pair ∈ thread.calls.zip thread.calls.tail, pair.2.key = key ∧ pair.1.key = inner

def Machine.Acyclic (m : Machine κ ρ N) : Prop := ∀ key, ¬ TransGen m.Depends key key

theorem acyclic_of_rank {m : Machine κ ρ N} (rank : κ → Nat)
    (h : ∀ thread ∈ m.threads.toList, ∀ pair ∈ thread.calls.zip thread.calls.tail,
      rank pair.1.key < rank pair.2.key) : m.Acyclic := by
  intro key hcycle
  have hrank : ∀ key inner, m.Depends key inner → rank key > rank inner := by
    rintro key inner ⟨thread, hthread, pair, hpair, rfl, rfl⟩
    exact h thread (Array.mem_toList_iff.mpr hthread) pair hpair
  have hdescends : TransGen (· > ·) (rank key) (rank key) := hcycle.lift rank hrank
  rw [transGen_eq_self] at hdescends
  exact Nat.lt_irrefl _ hdescends

/-- The calls around the innermost one depend on it. -/
theorem transGen_of_outer {R : κ → κ → Prop} {c d : Call κ ρ N} {outer : List (Call κ ρ N)}
    (hR : ∀ pair ∈ (c :: outer).zip outer, R pair.2.key pair.1.key) (hd : d ∈ outer) : TransGen R d.key c.key := by
  induction outer generalizing c with
  | nil => cases hd
  | cons next outer ih =>
      rw [List.zip_cons_cons, List.forall_mem_cons] at hR
      rcases List.mem_cons.mp hd with rfl | hd
      · exact .single hR.1
      · exact .tail (ih hR.2 hd) hR.1

def Machine.innermost (m : Machine κ ρ N) : List (Call κ ρ N) := m.threads.toList.filterMap (·.calls.head?)

variable {m : Machine κ ρ N} {c : Call κ ρ N}

theorem mem_innermost : c ∈ m.innermost ↔ ∃ thread ∈ m.threads, ∃ outer, thread.calls = c :: outer := by
  simp only [Machine.innermost, List.mem_filterMap, Array.mem_toList_iff, List.head?_eq_some_iff]

/-- Every call is the innermost of its thread, or in its load, which depends on the innermost. -/
theorem Machine.Nested.innermost_or (hm : m.Nested) (hc : c ∈ m.calls) :
    c ∈ m.innermost ∨ (∃ slot, c.phase = .loading slot) ∧ ∃ inner ∈ m.innermost, TransGen m.Depends c.key inner.key := by
  obtain ⟨thread, hthread, hc⟩ := mem_calls.mp hc
  cases hcalls : thread.calls with
  | nil =>
      rw [hcalls] at hc
      cases hc
  | cons inner outer =>
      have hinner : inner ∈ m.innermost := mem_innermost.mpr ⟨thread, hthread, outer, hcalls⟩
      rw [hcalls] at hc
      rcases List.mem_cons.mp hc with rfl | hc
      · exact .inl hinner
      · have houter := hm thread hthread c (by rwa [hcalls])
        refine .inr ⟨houter, inner, hinner, transGen_of_outer (fun pair hpair => ?_) hc⟩
        exact ⟨thread, hthread, pair, by rwa [hcalls], rfl, rfl⟩

/-- Some member of a finite list leads to no other, if nothing leads to itself. -/
theorem exists_last {R : κ → κ → Prop} (hR : ∀ key, ¬ TransGen R key key) {keys : List κ} (hkeys : keys ≠ []) :
    ∃ key ∈ keys, ∀ key' ∈ keys, ¬ TransGen R key key' := by
  have : IsStrictOrder κ fun key key' => TransGen R key' key :=
    { irrefl := hR
      trans := fun _ _ _ h h' => h'.trans h }
  have hwell : {key | key ∈ keys}.WellFoundedOn fun key key' => TransGen R key' key :=
    keys.finite_toSet.wellFoundedOn
  obtain ⟨key, rest, rfl⟩ := List.exists_cons_of_ne_nil hkeys
  obtain ⟨⟨last, hlast⟩, _, hmin⟩ := hwell.has_min Set.univ ⟨⟨key, List.mem_cons_self⟩, trivial⟩
  exact ⟨last, hlast, fun key' hkey' => hmin ⟨key', hkey'⟩ trivial⟩

variable [DecidableEq κ] {setting : Setting κ} {m' : Machine κ ρ N} {i : Nat} {move : Move κ ρ}
  {moves : List (Nat × Move κ ρ)} {thread : Thread κ ρ N} {slot : Fin N}

/-- Where no innermost call is awake, each waits for a load that another innermost call holds up. -/
theorem Machine.Waits.depends (hw : m.Waits setting)
    (hasleep : ∀ c ∈ m.innermost, ∃ slot, c.phase = .asleep slot) (hc : c ∈ m.innermost) :
    ∃ inner ∈ m.innermost, TransGen m.Depends c.key inner.key := by
  have hmember {c : Call κ ρ N} (hc : c ∈ m.innermost) : c ∈ m.calls := by
    obtain ⟨thread, hthread, outer, hcalls⟩ := mem_innermost.mp hc
    refine mem_calls.mpr ⟨thread, hthread, ?_⟩
    rw [hcalls]
    exact List.mem_cons_self
  obtain ⟨slot, hphase⟩ := hasleep c hc
  have hloading : m.table.states.get slot = .loading c.key := by
    rcases hw.roused c (hmember hc) slot hphase with ⟨key, hs⟩ | ⟨c', hc', hannounces⟩
    · rw [hs, hw.own c (hmember hc) slot key (by rw [hphase]; rfl) hs]
    · -- whoever announces the end of a load is innermost, and awake
      rcases hw.nested.innermost_or hc' with hinnermost | ⟨⟨_, hphase'⟩, _⟩
      · obtain ⟨_, hphase'⟩ := hasleep c' hinnermost
        rw [hphase'] at hannounces
        cases hannounces
      · rw [hphase'] at hannounces
        cases hannounces
  obtain ⟨w, hwork, hreserves⟩ := hw.attended slot c.key hloading
  obtain ⟨loader, hloader, hload⟩ := mem_worksOf.mp hwork
  rcases hw.nested.innermost_or hloader with hinnermost | ⟨⟨loaded, hphase'⟩, hdepends⟩
  · obtain ⟨_, hphase'⟩ := hasleep loader hinnermost
    rw [Call.work?, hphase'] at hload
    cases hload
  · rw [Call.work?, hphase'] at hload
    cases hload
    obtain ⟨_, hkey⟩ : loaded = slot ∧ loader.key = c.key := by simpa [Work.reservation?] using hreserves
    rwa [hkey] at hdepends

/-- If the keys do not depend on each other in a circle and not all calls have ended, some thread can go on. -/
theorem Machine.Waits.exists_awake (hw : m.Waits setting) (hacyclic : m.Acyclic) (hcalls : m.calls ≠ []) :
    ∃ i, ∀ outcome, (m.go? setting outcome i).isSome := by
  by_contra hstuck
  have hasleep : ∀ c ∈ m.innermost, ∃ slot, c.phase = .asleep slot := by
    intro c hc
    by_contra hawake
    obtain ⟨thread, hthread, outer, hcalls⟩ := mem_innermost.mp hc
    obtain ⟨i, hi⟩ := Array.getElem?_of_mem hthread
    exact hstuck ⟨i, fun outcome => go_isSome hi hcalls fun slot hslot => hawake ⟨slot, hslot⟩⟩
  have hsome : m.innermost.map Call.key ≠ [] := by
    obtain ⟨c, _, he⟩ := List.exists_cons_of_ne_nil hcalls
    have hc : c ∈ m.calls := by
      rw [he]
      exact List.mem_cons_self
    obtain ⟨inner, hinner⟩ : ∃ inner, inner ∈ m.innermost := by
      rcases hw.nested.innermost_or hc with hc | ⟨_, inner, hinner, _⟩
      · exact ⟨c, hc⟩
      · exact ⟨inner, hinner⟩
    exact List.ne_nil_of_mem (List.mem_map_of_mem hinner)
  -- the innermost call of a key that leads to no other cannot be held up by one
  obtain ⟨key, hkey, hlast⟩ := exists_last hacyclic hsome
  obtain ⟨c, hc, rfl⟩ := List.mem_map.mp hkey
  obtain ⟨inner, hinner, hdepends⟩ := hw.depends hasleep hc
  exact hlast inner.key (List.mem_map_of_mem hinner) hdepends

/-- Where slots are reserved alone, a call falls asleep only while its own key loads, and waits for no load of
another key after; threads whose keys do not depend on each other in a circle do not wait for each other for ever. -/
theorem waits_for_own_key {threads : Nat} (hrun : (Machine.idle threads).run? setting moves = some m)
    (halone : (Machine.idle threads : Machine κ ρ N).AlwaysReservesAlone setting moves) :
    (∀ i move m' thread c slot, m.step? setting i move = some m' → m'.threads[i]? = some thread →
      thread.calls.head? = some c → c.phase = .asleep slot → m'.table.states.get slot = .loading c.key) ∧
    (∀ c ∈ m.calls, ∀ slot key, c.phase = .asleep slot → m.table.states.get slot = .loading key → key = c.key) ∧
    (m.Acyclic → m.calls ≠ [] → ∃ i, ∀ outcome, (m.go? setting outcome i).isSome) := by
  have hw := (waits_idle setting threads).run halone hrun
  refine ⟨?_, ?_, hw.exists_awake⟩
  · intro i move m' thread c slot hstep hi hhead hasleep
    exact hw.asleep_step hstep hi hhead hasleep
  · intro c hc slot key hasleep hs
    exact hw.own c hc slot key (by rw [hasleep]; rfl) hs

theorem waits_for_own_key_shared :
    (Machine.idle 2).run? nestedSetting sharedMoves = some sharedMachine ∧
    (Machine.idle 2 : Machine Nat Nat 2).AlwaysReservesAlone nestedSetting sharedMoves ∧
    (∃ m thread c slot, sharedMachine.step? nestedSetting 1 .advance = some m ∧ m.threads[1]? = some thread ∧
      thread.calls.head? = some c ∧ c.phase = .asleep slot ∧ m.table.states.get slot = .loading c.key) ∧
    sharedMachine.Acyclic ∧ sharedMachine.calls ≠ [] ∧
    ∃ i, ∀ outcome, (sharedMachine.go? nestedSetting outcome i).isSome := by
  have halone : (Machine.idle 2 : Machine Nat Nat 2).AlwaysReservesAlone nestedSetting sharedMoves := by decide +kernel
  obtain ⟨hloading, _, hprogress⟩ := waits_for_own_key run_sharedMoves halone
  have hacyclic : sharedMachine.Acyclic := acyclic_of_rank id (by decide +kernel)
  have hcalls : sharedMachine.calls ≠ [] := List.cons_ne_nil _ _
  refine ⟨run_sharedMoves, halone, ?_, hacyclic, hcalls, hprogress hacyclic hcalls⟩
  exact ⟨_, _, _, _, rfl, rfl, rfl, rfl, hloading 1 .advance _ _ _ _ rfl rfl rfl rfl⟩

/-- A call for key 2, made in the load of key 1, is woken, finds its slot loading key 3 and sleeps on it. The load of
key 3 waits for that of key 1: nobody can go on, though key 1 does not depend on key 3. -/
theorem waits_for_another_key :
    (Machine.idle 3).run? nestedSetting reusedMoves = some reusedMachine ∧
    (∃ m thread c slot, reusedMachine.step? nestedSetting 0 .advance = some m ∧ m.threads[0]? = some thread ∧
      thread.calls.head? = some c ∧ c.phase = .asleep slot ∧ c.key = 2 ∧ m.table.states.get slot = .loading 3) ∧
    reusedMachine.run? nestedSetting strandedMoves = some strandedMachine ∧ strandedMachine.Acyclic ∧
    strandedMachine.calls ≠ [] ∧ ∀ i outcome, strandedMachine.go? nestedSetting outcome i = none := by
  refine ⟨run_reusedMoves, ?_, run_strandedMoves, ?_, ?_, ?_⟩
  · exact ⟨_, _, _, _, rfl, rfl, rfl, rfl, rfl, rfl⟩
  · exact acyclic_of_rank (fun key => if key = 3 then 2 else if key = 1 then 1 else 0) (by decide +kernel)
  · exact List.cons_ne_nil _ _
  · intro i outcome
    rcases i with _ | _ | _ | i
    · rfl
    · rfl
    · rfl
    · rfl

end Threads

end FrameEngine.Slots
