import FrameEngine.Indexing
import FrameEngine.Slots.Table
import Mathlib.Data.List.Nodup

namespace FrameEngine.Slots

open Indexing

variable {κ ρ : Type} [DecidableEq κ] {N : Nat}

namespace Table

/-- No key is mapped twice. A slot's own key maps to it, and any other key that does stands in for it
at the placeholder's slot. -/
structure Coherent (t : Table κ ρ N) (placeholder : κ) : Prop where
  nodup : (t.lookup.map Prod.fst).Nodup
  holder : ∀ s key, (t.states.get s).key? = some key → t.slotOf? key = some s
  mapped : ∀ key s, t.slotOf? key = some s →
    (t.states.get s).key? = some key ∨ t.states.get s = .resident placeholder

variable {t t' : Table κ ρ N} {placeholder key : κ} {s : Fin N}

theorem coherent_empty (placeholder : κ) : (empty : Table κ ρ N).Coherent placeholder where
  nodup := List.nodup_nil
  holder s key h := by simp [empty, Vector.get, SlotState.key?] at h
  mapped key s h := by simp [empty, slotOf?] at h

omit [DecidableEq κ] in
theorem keyAt?_eq (t : Table κ ρ N) (s : Fin N) : t.keyAt? s.val = (t.states.get s).key? := by
  rw [keyAt?, Vector.getElem?_eq_getElem s.isLt]
  rfl

omit [DecidableEq κ] in
theorem resourceAt?_eq (t : Table κ ρ N) (s : Fin N) : t.resourceAt? s.val = t.contents.get s := by
  rw [resourceAt?, Vector.getElem?_eq_getElem s.isLt]
  rfl

theorem slotOf?_eq_some_iff (hn : (t.lookup.map Prod.fst).Nodup) :
    t.slotOf? key = some s ↔ (key, s) ∈ t.lookup := by
  rw [slotOf?, Option.map_eq_some_iff]
  constructor
  · rintro ⟨⟨k, _⟩, hfind, rfl⟩
    obtain rfl : k = key := by simpa using List.find?_some hfind
    exact List.mem_of_find?_eq_some hfind
  · intro hm
    obtain ⟨entry, hentry⟩ : ∃ entry, t.lookup.find? (·.1 = key) = some entry := by
      rw [← Option.isSome_iff_exists, List.find?_isSome]
      exact ⟨(key, s), hm, by simp⟩
    have hkey : entry.1 = key := by simpa using List.find?_some hentry
    have he : entry = (key, s) := List.inj_on_of_nodup_map hn (List.mem_of_find?_eq_some hentry) hm hkey
    exact ⟨entry, hentry, by rw [he]⟩

theorem slotOf?_eq_none_iff : t.slotOf? key = none ↔ key ∉ t.lookup.map Prod.fst := by
  rw [slotOf?, Option.map_eq_none_iff, List.find?_eq_none, List.mem_map]
  constructor
  · rintro h ⟨entry, hm, rfl⟩
    exact h entry hm (decide_eq_true rfl)
  · intro h entry hm he
    exact h ⟨entry, hm, of_decide_eq_true he⟩

theorem slotOf?_cons (states : Vector (SlotState κ) N) (lookup : List (κ × Fin N))
    (contents : Vector (Option ρ) N) (loads : Nat) (k : κ) :
    (⟨states, (key, s) :: lookup, contents, loads⟩ : Table κ ρ N).slotOf? k =
      if key = k then some s else (⟨states, lookup, contents, loads⟩ : Table κ ρ N).slotOf? k := by
  by_cases h : key = k <;> simp [slotOf?, h]

theorem firstEmpty?_eq_some (h : t.firstEmpty? = some s) : t.states.get s = .empty := by
  simpa [firstEmpty?] using List.find?_some h

theorem probe_eq_hit_iff :
    t.probe key = .hit s ↔ t.slotOf? key = some s ∧ ∃ k, t.states.get s = .resident k := by
  rw [probe]
  cases hs : t.slotOf? key with
  | none => cases t.firstEmpty? <;> simp
  | some s' =>
      cases hstate : t.states.get s' <;> simp only [hstate, reduceCtorEq, Probe.hit.injEq, Option.some.injEq]
      case resident k => exact ⟨fun h => ⟨h, k, h ▸ hstate⟩, And.left⟩
      all_goals
        refine ⟨False.elim, ?_⟩
        rintro ⟨rfl, k, hk⟩
        rw [hstate] at hk
        cases hk

theorem vacant_of_probe (h : t.probe key = .vacant s) : t.slotOf? key = none ∧ t.states.get s = .empty := by
  rw [probe] at h
  cases hs : t.slotOf? key with
  | none =>
      cases he : t.firstEmpty? with
      | none => simp [hs, he] at h
      | some s' =>
          obtain rfl : s' = s := by simpa [hs, he] using h
          exact ⟨rfl, firstEmpty?_eq_some he⟩
  | some s' => cases hstate : t.states.get s' <;> simp [hs, hstate] at h

omit [DecidableEq κ] in
theorem markResident_eq (hs : t.states.get s = .loading key) :
    t.markResident s = { t with states := t.states.set s.val (.resident key) s.isLt } := by
  rw [markResident, hs]
  rfl

theorem clear_eq (hs : (t.states.get s).key? = some key) :
    t.clear s = { t with
      states := t.states.set s.val .empty s.isLt
      lookup := t.lookup.filter fun entry => entry.1 ≠ key ∧ entry.2 ≠ s } := by
  rw [clear, hs]

omit [DecidableEq κ] in
theorem get_markResident_of_ne {s' : Fin N} (h : s ≠ s') : (t.markResident s).states.get s' = t.states.get s' := by
  cases hs : (t.states.get s).key? with
  | none => rw [markResident, hs]
  | some key =>
      rw [markResident, hs]
      exact get_set_of_ne _ _ h

theorem get_clear_of_ne {s' : Fin N} (h : s ≠ s') : (t.clear s).states.get s' = t.states.get s' := by
  cases hs : (t.states.get s).key? with
  | none => rw [clear, hs]
  | some key =>
      rw [clear_eq hs]
      exact get_set_of_ne _ _ h

omit [DecidableEq κ] in
theorem eq_empty_of_key? {state : SlotState κ} (h : state.key? = none) : state = .empty := by
  cases state <;> first | rfl | cases h

omit [DecidableEq κ] in
theorem markResident_ne_loading (t : Table κ ρ N) (s : Fin N) (key : κ) :
    (t.markResident s).states.get s ≠ .loading key := by
  cases hs : (t.states.get s).key? with
  | none => rw [markResident, hs, eq_empty_of_key? hs]; simp
  | some holder => rw [markResident, hs, get_set_self]; simp

theorem clear_ne_loading (t : Table κ ρ N) (s : Fin N) (key : κ) : (t.clear s).states.get s ≠ .loading key := by
  cases hs : (t.states.get s).key? with
  | none => rw [clear, hs, eq_empty_of_key? hs]; simp
  | some holder => rw [clear_eq hs, get_set_self]; simp

omit [DecidableEq κ] in
theorem get_reserve_of_ne {s' : Fin N} (h : s ≠ s') (key : κ) : (t.reserve s key).states.get s' = t.states.get s' :=
  get_set_of_ne _ _ h

theorem unload_done {n : Nat} {resource : Option ρ} (h : t.unload n = .done s resource t') :
    n = s.val ∧ resource = t.contents.get s ∧ (∃ key, t.states.get s = .resident key) ∧
      t' = { t.clear s with contents := (t.clear s).contents.set s.val none s.isLt } := by
  rw [unload] at h
  split at h
  next hn =>
    cases hstate : t.states.get ⟨n, hn⟩ with
    | empty => simp [hstate] at h
    | loading key => simp [hstate] at h
    | resident key =>
        simp only [hstate, Unloading.done.injEq] at h
        obtain ⟨rfl, rfl, rfl⟩ := h
        exact ⟨rfl, rfl, ⟨key, hstate⟩, rfl⟩
  next => cases h

omit [DecidableEq κ] in
theorem key?_of_resident (hs : t.states.get s = .resident key) : (t.states.get s).key? = some key := by
  rw [hs]
  rfl

omit [DecidableEq κ] in
theorem key?_of_loading (hs : t.states.get s = .loading key) : (t.states.get s).key? = some key := by
  rw [hs]
  rfl

theorem addAlias_keeps (t : Table κ ρ N) (key : κ) (s : Fin N) (placeholder : κ) :
    (t.addAlias key s placeholder).states = t.states ∧ (t.addAlias key s placeholder).contents = t.contents ∧
      (t.addAlias key s placeholder).loads = t.loads := by
  rw [addAlias]
  split <;> exact ⟨rfl, rfl, rfl⟩

section Coherent

variable (hc : t.Coherent placeholder)
include hc

theorem Coherent.holder_unique {s' : Fin N} (hs : (t.states.get s).key? = some key)
    (hs' : (t.states.get s').key? = some key) : s = s' :=
  Option.some.inj ((hc.holder s key hs).symm.trans (hc.holder s' key hs'))

theorem Coherent.reserve (h : t.probe key = .vacant s) : (t.reserve s key).Coherent placeholder := by
  obtain ⟨hnone, hempty⟩ := vacant_of_probe h
  refine ⟨List.nodup_cons.mpr ⟨slotOf?_eq_none_iff.mp hnone, hc.nodup⟩, fun s' k hk => ?_, fun k s' hk => ?_⟩
  · rw [Table.reserve, slotOf?_cons]
    by_cases hs : s = s'
    · subst hs
      simp only [Table.reserve, get_set_self, SlotState.key?, Option.some.injEq] at hk
      rw [if_pos hk]
    · simp only [Table.reserve, get_set_of_ne _ _ hs] at hk
      have hm := hc.holder s' k hk
      rw [if_neg (fun he => by rw [he, hm] at hnone; cases hnone)]
      exact hm
  · rw [Table.reserve, slotOf?_cons] at hk
    by_cases hs : s = s'
    · subst hs
      refine Or.inl ?_
      simp only [Table.reserve, get_set_self, SlotState.key?, Option.some.injEq]
      by_contra hne
      rw [if_neg hne] at hk
      -- the slot was empty, so no key was mapped to it
      rcases hc.mapped k s hk with hm | hm <;> rw [hempty] at hm <;> cases hm
    · simp only [Table.reserve, get_set_of_ne _ _ hs]
      by_cases he : key = k
      · rw [if_pos he] at hk
        exact absurd (Option.some.inj hk) hs
      · rw [if_neg he] at hk
        exact hc.mapped k s' hk

theorem Coherent.markResident (hs : t.states.get s = .loading key) :
    (t.markResident s).Coherent placeholder := by
  rw [markResident_eq hs]
  have hkey (s' : Fin N) :
      ((t.states.set s.val (.resident key) s.isLt).get s').key? = (t.states.get s').key? := by
    by_cases he : s = s'
    · subst he
      rw [get_set_self, hs]
      rfl
    · rw [get_set_of_ne _ _ he]
  refine ⟨hc.nodup, fun s' k hk => hc.holder s' k (hkey s' ▸ hk), fun k s' hk => ?_⟩
  rw [hkey]
  refine (hc.mapped k s' hk).imp_right fun hm => ?_
  have hne : s ≠ s' := by
    rintro rfl
    rw [hs] at hm
    cases hm
  rwa [get_set_of_ne _ _ hne]

theorem Coherent.slotOf?_clear (hs : (t.states.get s).key? = some key) {k : κ} {s' : Fin N} :
    (t.clear s).slotOf? k = some s' ↔ t.slotOf? k = some s' ∧ s' ≠ s := by
  have hlookup : (t.clear s).lookup = t.lookup.filter fun entry => entry.1 ≠ key ∧ entry.2 ≠ s := by
    rw [clear_eq hs]
  have hn : ((t.clear s).lookup.map Prod.fst).Nodup := by
    rw [hlookup]
    exact hc.nodup.sublist (List.filter_sublist.map _)
  rw [slotOf?_eq_some_iff hn, slotOf?_eq_some_iff hc.nodup, hlookup, List.mem_filter]
  simp only [ne_eq, decide_eq_true_eq]
  constructor
  · rintro ⟨hm, _, hne⟩
    exact ⟨hm, hne⟩
  · rintro ⟨hm, hne⟩
    refine ⟨hm, ?_, hne⟩
    rintro rfl
    -- the slot's own key maps to no other slot
    have hown := hc.holder s k hs
    rw [slotOf?_eq_some_iff hc.nodup] at hown
    exact hne (congrArg Prod.snd (List.inj_on_of_nodup_map hc.nodup hm hown rfl))

theorem Coherent.clear (hs : (t.states.get s).key? = some key) : (t.clear s).Coherent placeholder := by
  have hself : (t.clear s).states.get s = .empty := by rw [clear_eq hs, get_set_self]
  have hother {s'} (hne : s ≠ s') : (t.clear s).states.get s' = t.states.get s' := by
    rw [clear_eq hs, get_set_of_ne _ _ hne]
  refine ⟨?_, fun s' k hk => ?_, fun k s' hk => ?_⟩
  · rw [clear_eq hs]
    exact hc.nodup.sublist (List.filter_sublist.map _)
  · have hne : s ≠ s' := by
      rintro rfl
      rw [hself] at hk
      cases hk
    rw [hother hne] at hk
    exact (hc.slotOf?_clear hs).mpr ⟨hc.holder s' k hk, Ne.symm hne⟩
  · obtain ⟨hk, hne⟩ := (hc.slotOf?_clear hs).mp hk
    rw [hother (Ne.symm hne)]
    exact hc.mapped k s' hk

theorem Coherent.unload {n : Nat} {resource : Option ρ} (h : t.unload n = .done s resource t') :
    t'.Coherent placeholder := by
  obtain ⟨_, _, ⟨key, hs⟩, rfl⟩ := unload_done h
  have hclear := hc.clear (key?_of_resident hs)
  exact ⟨hclear.nodup, hclear.holder, hclear.mapped⟩

theorem Coherent.addAlias (key : κ) (s : Fin N) : (t.addAlias key s placeholder).Coherent placeholder := by
  rw [Table.addAlias]
  split
  next h =>
    obtain ⟨hs, hnone⟩ := h
    refine ⟨List.nodup_cons.mpr ⟨slotOf?_eq_none_iff.mp hnone, hc.nodup⟩, fun s' k hk => ?_,
      fun k s' hk => ?_⟩
    · have hm := hc.holder s' k hk
      rw [slotOf?_cons, if_neg (fun he => by rw [he, hm] at hnone; cases hnone)]
      exact hm
    · rw [slotOf?_cons] at hk
      by_cases he : key = k
      · rw [if_pos he] at hk
        exact Or.inr (Option.some.inj hk ▸ hs)
      · rw [if_neg he] at hk
        exact hc.mapped k s' hk
  next => exact hc

theorem Coherent.store (s : Fin N) (resource : ρ) : (t.store s resource).Coherent placeholder :=
  ⟨hc.nodup, hc.holder, hc.mapped⟩

theorem Coherent.countLoad : t.countLoad.Coherent placeholder := ⟨hc.nodup, hc.holder, hc.mapped⟩

end Coherent

end Table

end FrameEngine.Slots
