import FrameEngine.Proofs.Slots.Sessions

namespace FrameEngine.Slots

open Indexing

variable {σ κ ρ : Type} {N : Nat}

/-- Each loading slot has its load in progress. -/
def Attended (table : Table κ ρ N) (works : Multiset (Work κ ρ N)) : Prop :=
  ∀ s key, table.states.get s = .loading key → ∃ w ∈ works, w.reservation? = some (s, key)

section Attended

variable {table table' : Table κ ρ N} {works works' : Multiset (Work κ ρ N)} {w w' : Work κ ρ N}
  {slot : Fin N} {key : κ}

theorem Attended.replace (h : Attended table (w ::ₘ works)) (hw : w'.reservation? = w.reservation?) :
    Attended table (w' ::ₘ works) := by
  intro s k hs
  obtain ⟨v, hv, hr⟩ := h s k hs
  rcases Multiset.mem_cons.mp hv with rfl | hv
  · exact ⟨w', Multiset.mem_cons_self _ _, hw.trans hr⟩
  · exact ⟨v, Multiset.mem_cons_of_mem hv, hr⟩

theorem Attended.change (h : Attended table works)
    (hs : ∀ s k, table'.states.get s = .loading k → table.states.get s = .loading k) :
    Attended table' works :=
  fun s k hk => h s k (hs s k hk)

/-- A load that ends takes its own slot out of loading, and leaves the others to their loads. -/
theorem Attended.finish {state : SlotState κ} (h : Attended table (w ::ₘ works))
    (hw : w.reservation? = some (slot, key)) (hstates : table'.states = table.states.set slot.val state slot.isLt)
    (hstate : ∀ k, state ≠ .loading k) : Attended table' works := by
  intro s k hs
  rw [hstates] at hs
  by_cases he : slot = s
  · subst he
    rw [get_set_self] at hs
    exact absurd hs (hstate k)
  · rw [get_set_of_ne _ _ he] at hs
    obtain ⟨v, hv, hr⟩ := h s k hs
    rcases Multiset.mem_cons.mp hv with rfl | hv
    · rw [hw] at hr
      cases hr
      exact absurd rfl he
    · exact ⟨v, hv, hr⟩

theorem Attended.cons (h : Attended table works) (w : Work κ ρ N) : Attended table (w ::ₘ works) := by
  intro s k hs
  obtain ⟨v, hv, hr⟩ := h s k hs
  exact ⟨v, Multiset.mem_cons_of_mem hv, hr⟩

theorem Attended.tail (h : Attended table (w ::ₘ works)) (hw : w.reservation? = none) :
    Attended table works := by
  intro s k hs
  obtain ⟨v, hv, hr⟩ := h s k hs
  rcases Multiset.mem_cons.mp hv with rfl | hv
  · rw [hw] at hr
    cases hr
  · exact ⟨v, hv, hr⟩

theorem Attended.reserve (h : Attended table works) (slot : Fin N) (key : κ) :
    Attended (table.reserve slot key) (.loading slot key ::ₘ works) := by
  intro s k hs
  by_cases he : slot = s
  · subst he
    rw [Table.reserve, get_set_self] at hs
    cases hs
    exact ⟨_, Multiset.mem_cons_self _ _, rfl⟩
  · rw [Table.reserve, get_set_of_ne _ _ he] at hs
    exact (h.cons _) s k hs

end Attended

variable [DecidableEq κ] {placeholder : κ} {x y : Moment κ ρ N} {effect : Effect ρ N}
  {trace : List (Effect ρ N)}

theorem Step.attended (h : Step placeholder x effect y) (hx : x.Sound placeholder)
    (ha : Attended x.table x.works) : Attended y.table y.works := by
  obtain ⟨_, hp, _⟩ := hx
  cases h with
  | rest => exact ha
  | reserve => exact ha.reserve _ _
  | succeed | fail => exact ha.replace rfl
  | store table works slot key resource =>
      have hmarking : Attended table (.marking slot key ::ₘ works) := ha.replace rfl
      exact hmarking.change fun _ _ hk => hk
  | mark table works slot key =>
      have hstates : (table.markResident slot).states = table.states.set slot.val (.resident key) slot.isLt := by
        rw [Table.markResident_eq (hp.head rfl)]
      exact (ha.finish rfl hstates (by simp)).cons _
  | count => exact (ha.tail rfl).change fun _ _ hk => hk
  | clear table works slot key =>
      have hstates : (table.clear slot).states = table.states.set slot.val .empty slot.isLt := by
        rw [Table.clear_eq (Table.key?_of_loading (hp.head rfl))]
      exact ha.finish rfl hstates (by simp)
  | standIn table works key slot =>
      refine ha.change fun s k hk => ?_
      rwa [(table.addAlias_keeps key slot placeholder).1] at hk
  | @unload table table' works n slot resource hunload =>
      obtain ⟨_, _, ⟨key, hresident⟩, rfl⟩ := Table.unload_done hunload
      refine ha.change fun s k hk => ?_
      rw [Table.clear_eq (Table.key?_of_resident hresident)] at hk
      by_cases he : slot = s
      · subst he
        rw [get_set_self] at hk
        cases hk
      · rwa [get_set_of_ne _ _ he] at hk

theorem Run.attended (h : Run placeholder x trace y) (hx : x.Sound placeholder)
    (ha : Attended x.table x.works) : Attended y.table y.works := by
  induction h with
  | nil => exact ha
  | cons hstep _ ih => exact ih (hx.step hstep) (hstep.attended hx ha)

omit [DecidableEq κ] in
theorem attended_start : Attended (Moment.start : Moment κ ρ N).table Moment.start.works := by
  intro s k hs
  simp [Moment.start, Table.empty, Vector.get] at hs

namespace Table

variable {t t' : Table κ ρ N}

def Settled (t : Table κ ρ N) (placeholder : κ) : Prop :=
  ∃ trace, Run placeholder .start trace ⟨t, 0⟩

theorem settled_empty (placeholder : κ) : (empty : Table κ ρ N).Settled placeholder := ⟨[], .nil _⟩

theorem Settled.coherent (h : t.Settled placeholder) : t.Coherent placeholder := by
  obtain ⟨trace, hrun⟩ := h
  exact ((sound_start placeholder).run hrun).coherent

theorem Settled.not_loading (h : t.Settled placeholder) (s : Fin N) (key : κ) :
    t.states.get s ≠ .loading key := by
  intro hs
  obtain ⟨trace, hrun⟩ := h
  obtain ⟨w, hw, _⟩ := hrun.attended (sound_start placeholder) attended_start s key hs
  exact Multiset.notMem_zero w hw

theorem Settled.leads {R : σ → List (Entry ρ) → σ → Prop} {e e' : σ} (h : t.Settled placeholder)
    (hleads : Leads placeholder R (t, e) (t', e')) : t'.Settled placeholder := by
  obtain ⟨trace, hrun⟩ := h
  obtain ⟨more, hmore, _⟩ := hleads 0
  exact ⟨trace ++ more, hrun.append hmore⟩

end Table

end FrameEngine.Slots
