import FrameEngine.Proofs.Slots.Fallback
import FrameEngine.Proofs.Slots.Stability

namespace FrameEngine.Slots

open Indexing

variable {σ κ ρ : Type} [DecidableEq κ] {N : Nat}

def Sparing (_ : Unit) (entries : List (Entry ρ)) (_ : Unit) : Prop := ∀ n, .unloaded n ∉ entries

namespace Table

/-- Steps that evict nothing lead from one state of a table to another, whatever loads are in progress. -/
def GrowsTo (placeholder : κ) (t t' : Table κ ρ N) : Prop := Leads placeholder Sparing (t, ()) (t', ())

variable {placeholder key holder : κ} {t t' t'' : Table κ ρ N} {s : Fin N} {resource : ρ}

omit [DecidableEq κ] in
theorem ledger_sparing : Ledger (Sparing (ρ := ρ)) where
  refl _ _ := List.not_mem_nil
  trans h h' n hn := (List.mem_append.mp hn).elim (h n) (h' n)

theorem GrowsTo.refl (t : Table κ ρ N) : t.GrowsTo placeholder t := Leads.refl ledger_sparing (t, ())

theorem GrowsTo.trans (h : t.GrowsTo placeholder t') (h' : t'.GrowsTo placeholder t'') :
    t.GrowsTo placeholder t'' :=
  Leads.trans ledger_sparing h h'

theorem growsTo_install (hprobe : t.probe key = .vacant s) (resource : ρ) :
    t.GrowsTo placeholder ((t.reserve s key).install s resource) := by
  have hmade : Sparing () [Entry.made resource] () := fun n hn => by cases List.mem_singleton.mp hn
  exact Loader.leads_install ledger_sparing hprobe (.refl ledger_sparing _) hmade (ledger_sparing.refl ())

theorem growsTo_addAlias (t : Table κ ρ N) (key : κ) (s : Fin N) (placeholder : κ) :
    t.GrowsTo placeholder (t.addAlias key s placeholder) :=
  leads_of_step (fun works => .standIn t works key s) (ledger_sparing.refl ())

theorem GrowsTo.settled (h : t.GrowsTo placeholder t') (ht : t.Settled placeholder) : t'.Settled placeholder :=
  ht.leads h

theorem GrowsTo.serves (h : t.GrowsTo placeholder t') (ht : t.Settled placeholder) (hserves : t.Serves key s holder) :
    t'.Serves key s holder ∧ t'.contents.get s = t.contents.get s := by
  obtain ⟨before, hbefore⟩ := ht
  obtain ⟨trace, hrun, hspares⟩ := h 0
  refine hrun.serves ((sound_start placeholder).run hbefore) (fun resource hm => ?_) hserves
  exact hspares s.val (List.mem_flatMap.mpr ⟨_, hm, by simp [Effect.entries]⟩)

/-- A call for a key is answered by a place without a load. -/
def Finds (t : Table κ ρ N) (key : κ) (place : Nat) : Prop := ∃ s holder, s.val = place ∧ t.Serves key s holder

variable {place : Nat}

theorem Finds.grow (h : t.Finds key place) (ht : t.Settled placeholder) (hgrows : t.GrowsTo placeholder t') :
    t'.Finds key place := by
  obtain ⟨s, holder, hs, hserves⟩ := h
  exact ⟨s, holder, hs, (hgrows.serves ht hserves).1⟩

theorem Finds.loadOrGet (h : t.Finds key place) (L : Loader σ κ ρ N) (e : σ) :
    ∃ s, s.val = place ∧ L.loadOrGet key (t, e) = (.ok s, t, e) := by
  obtain ⟨s, holder, hs, hserves⟩ := h
  exact ⟨s, hs, hserves.loadOrGet L e⟩

theorem GrowsTo.resident (h : t.GrowsTo placeholder t') (ht : t.Settled placeholder)
    (hs : t.states.get s = .resident holder) :
    t'.states.get s = .resident holder ∧ t'.contents.get s = t.contents.get s := by
  have hmapped := ht.coherent.holder s holder (key?_of_resident hs)
  obtain ⟨hserves, hcontents⟩ := h.serves ht ⟨hmapped, hs⟩
  exact ⟨hserves.resident, hcontents⟩

/-- A load that fails leaves no trace in its table. -/
theorem clear_reserve (hc : t.Coherent placeholder) (hprobe : t.probe key = .vacant s) :
    (t.reserve s key).clear s = t := by
  obtain ⟨hnone, hempty⟩ := vacant_of_probe hprobe
  have hloading : (t.reserve s key).states.get s = .loading key := get_set_self _ _ _
  have hlookup : t.lookup.filter (fun entry => entry.1 ≠ key ∧ entry.2 ≠ s) = t.lookup := by
    refine List.filter_eq_self.mpr fun entry hentry => decide_eq_true ⟨?_, ?_⟩
    · rintro rfl
      exact slotOf?_eq_none_iff.mp hnone (List.mem_map_of_mem hentry)
    · rintro rfl
      have hslot : t.slotOf? entry.1 = some entry.2 := (slotOf?_eq_some_iff hc.nodup).mpr hentry
      rcases hc.mapped _ _ hslot with hown | halias
      · rw [hempty] at hown
        cases hown
      · rw [hempty] at halias
        cases halias
  have hstates : (t.states.set s.val (.loading key) s.isLt).set s.val .empty s.isLt = t.states := by
    rw [Vector.set_set, ← hempty]
    exact Vector.set_getElem_self s.isLt
  have hcleared : ((key, s) :: t.lookup).filter (fun entry => entry.1 ≠ key ∧ entry.2 ≠ s) = t.lookup := by
    rw [List.filter_cons_of_neg (by simp), hlookup]
  rw [clear_eq (key?_of_loading hloading)]
  simp only [reserve, hstates, hcleared]

omit [DecidableEq κ] in
theorem install_eq (hs : t.states.get s = .loading key) (resource : ρ) :
    t.install s resource = { t with
      states := t.states.set s.val (.resident key) s.isLt
      contents := t.contents.set s.val (some resource) s.isLt
      loads := t.loads + 1 } := by
  have hstored : (t.store s resource).states.get s = .loading key := hs
  rw [install, markResident_eq hstored]
  rfl

theorem serves_install (t : Table κ ρ N) (s : Fin N) (key : κ) (resource : ρ) :
    ((t.reserve s key).install s resource).Serves key s key := by
  have hloading : (t.reserve s key).states.get s = .loading key := get_set_self _ _ _
  refine ⟨?_, states_install hloading⟩
  rw [install_eq hloading, reserve, slotOf?_cons, if_pos rfl]

omit [DecidableEq κ] in
theorem get_contents_install (t : Table κ ρ N) (s s' : Fin N) (key : κ) (resource : ρ) :
    ((t.reserve s key).install s resource).contents.get s' = if s = s' then some resource else t.contents.get s' := by
  have hloading : (t.reserve s key).states.get s = .loading key := get_set_self _ _ _
  rw [install_eq hloading]
  by_cases he : s = s'
  · subst he
    rw [if_pos rfl]
    exact get_set_self _ _ _
  · rw [if_neg he]
    exact get_set_of_ne _ _ he

theorem serves_addAlias (hs : t.states.get s = .resident placeholder) (hnone : t.slotOf? key = none) :
    (t.addAlias key s placeholder).Serves key s placeholder := by
  rw [addAlias, if_pos ⟨hs, hnone⟩]
  refine ⟨?_, hs⟩
  rw [slotOf?_cons, if_pos rfl]

end Table

namespace Loader

variable {L : Loader σ κ ρ N} {R : σ → σ → Prop} {t t' t'' : Table κ ρ N} {e e' e'' : σ} {key : κ}

/-- Loads of `L` leave its table alone, and what else it works on goes on by `R`. -/
structure Detached (L : Loader σ κ ρ N) (R : σ → σ → Prop) : Prop where
  refl : ∀ e, R e e
  trans : ∀ {e e' e''}, R e e' → R e' e'' → R e e''
  note : ∀ event e, R e (L.note event e)
  load : ∀ key t e, ∃ outcome e', L.load key (t, e) = (outcome, t, e') ∧ R e e'

/-- What calls do to a table: nothing is evicted, and whatever is in a slot was there before or comes from a load. -/
structure Fills (L : Loader σ κ ρ N) (R : σ → σ → Prop) (t : Table κ ρ N) (e : σ) (t' : Table κ ρ N) (e' : σ) :
    Prop where
  grows : t.GrowsTo L.placeholder t'
  goesOn : R e e'
  made : ∀ s resource, t'.contents.get s = some resource → t.contents.get s = some resource ∨
    ∃ key t₀ e₀ e₁, R e e₀ ∧ L.load key (t₀, e₀) = (.ok resource, t₀, e₁) ∧ R e₁ e'

structure Tries (L : Loader σ κ ρ N) (R : σ → σ → Prop) (key : κ) (t : Table κ ρ N) (e : σ)
    (result : Except SlotError (Loaded N)) (t' : Table κ ρ N) (e' : σ) : Prop where
  fills : L.Fills R t e t' e'
  serves : ∀ s, result = .ok (.slot s) → ∃ holder, t'.Serves key s holder
  missing : ∀ reason, result = .ok (.unavailable reason) → t'.slotOf? key = none
  others : ∀ key', key' ≠ key → t'.slotOf? key' = t.slotOf? key'

theorem fills_refl (t : Table κ ρ N) (h : R e e') : L.Fills R t e t e' where
  grows := .refl t
  goesOn := h
  made _ _ := .inl

variable (hL : L.Detached R)
include hL

theorem Detached.fills_trans (h : L.Fills R t e t' e') (h' : L.Fills R t' e' t'' e'') : L.Fills R t e t'' e'' where
  grows := h.grows.trans h'.grows
  goesOn := hL.trans h.goesOn h'.goesOn
  made s resource hs := by
    rcases h'.made s resource hs with hs | ⟨key, t₀, e₀, e₁, hbefore, hload, hafter⟩
    · refine (h.made s resource hs).imp_right ?_
      rintro ⟨key, t₀, e₀, e₁, hbefore, hload, hafter⟩
      exact ⟨key, t₀, e₀, e₁, hbefore, hload, hL.trans hafter h'.goesOn⟩
    · exact .inr ⟨key, t₀, e₀, e₁, hL.trans h.goesOn hbefore, hload, hafter⟩

theorem Detached.fills_install {s : Fin N} {resource : ρ} (hprobe : t.probe key = .vacant s)
    (hload : L.load key (t.reserve s key, e) = (.ok resource, t.reserve s key, e')) (h : R e e') (hnote : R e' e'') :
    L.Fills R t e ((t.reserve s key).install s resource) e'' where
  grows := Table.growsTo_install hprobe resource
  goesOn := hL.trans h hnote
  made s' resource' hs' := by
    rw [Table.get_contents_install] at hs'
    split at hs'
    · cases hs'
      exact .inr ⟨key, _, e, e', hL.refl e, hload, hnote⟩
    · exact .inl hs'

theorem Detached.fills_addAlias (h : L.Fills R t e t' e') (key : κ) (s : Fin N) :
    L.Fills R t e (t'.addAlias key s L.placeholder) e' := by
  refine hL.fills_trans h ⟨t'.growsTo_addAlias key s L.placeholder, hL.refl e', fun s' resource hs' => .inl ?_⟩
  rwa [(t'.addAlias_keeps key s L.placeholder).2.1] at hs'

theorem Detached.loadKey (ht : t.Settled L.placeholder) (key : κ) (e : σ) :
    L.Tries R key t e (L.loadKey key (t, e)).1 (L.loadKey key (t, e)).2.1 (L.loadKey key (t, e)).2.2 := by
  have hstays : L.Fills R t e t e := fills_refl t (hL.refl e)
  rw [Loader.loadKey]
  split
  next s hprobe =>
    obtain ⟨hslot, holder, hs⟩ := Table.probe_eq_hit_iff.mp hprobe
    refine ⟨hstays, ?_, by simp, fun _ _ => rfl⟩
    intro s' h
    cases h
    exact ⟨holder, hslot, hs⟩
  next s hprobe => exact absurd hprobe ht.not_pending
  next => exact ⟨hstays, by simp, by simp, fun _ _ => rfl⟩
  next s hprobe =>
    obtain ⟨outcome, e', hload, hR⟩ := hL.load key (t.reserve s key) e
    have hnone := (Table.vacant_of_probe hprobe).1
    have hsame : (t.reserve s key).clear s = t := Table.clear_reserve ht.coherent hprobe
    rw [hload]
    -- only a load that ends well leaves something in the table
    rcases outcome with (reason | cause) | resource
    · dsimp only
      rw [hsame]
      exact ⟨fills_refl t hR, by simp, fun _ _ => hnone, fun _ _ => rfl⟩
    · dsimp only
      rw [hsame]
      exact ⟨fills_refl t hR, by simp, by simp, fun _ _ => rfl⟩
    · refine ⟨hL.fills_install hprobe hload hR (hL.note _ _), ?_, by simp, fun key' hne => ?_⟩
      · intro s' h
        cases h
        exact ⟨key, t.serves_install s key resource⟩
      · have hloading : (t.reserve s key).states.get s = .loading key := get_set_self _ _ _
        dsimp only
        rw [Table.install_eq hloading, Table.reserve, Table.slotOf?_cons, if_neg hne.symm]
        rfl

theorem Detached.loadOrGet (ht : t.Settled L.placeholder) (key : κ) (e : σ) :
    L.Fills R t e (L.loadOrGet key (t, e)).2.1 (L.loadOrGet key (t, e)).2.2 ∧
      ∀ s, (L.loadOrGet key (t, e)).1 = .ok s → ∃ holder, (L.loadOrGet key (t, e)).2.1.Serves key s holder := by
  have hfirst := hL.loadKey ht key e
  rw [Loader.loadOrGet]
  rcases hown : L.loadKey key (t, e) with ⟨cause | (s | reason), t', e'⟩
  · rw [hown] at hfirst
    exact ⟨hfirst.fills, by simp⟩
  · rw [hown] at hfirst
    refine ⟨hfirst.fills, ?_⟩
    intro s' h
    cases h
    exact hfirst.serves s rfl
  · rw [hown] at hfirst
    dsimp only
    split
    · exact ⟨hfirst.fills, by simp⟩
    next hkey =>
      have hnoted := hL.note (.unavailable L.kind (L.describe e' key) reason) e'
      have hsettled := hfirst.fills.grows.settled ht
      have hsecond := hL.loadKey hsettled L.placeholder (L.note (.unavailable L.kind (L.describe e' key) reason) e')
      have hfills := hL.fills_trans hfirst.fills (hL.fills_trans (fills_refl t' hnoted) hsecond.fills)
      -- the placeholder's load does not bring the key itself into the table
      have hnone := (hsecond.others key hkey).trans (hfirst.missing reason rfl)
      rcases hfallback : L.loadKey L.placeholder _ with ⟨cause | (s | reason'), t'', e''⟩
      · rw [hfallback] at hfills
        exact ⟨hfills, by simp⟩
      · rw [hfallback] at hfills hnone hsecond
        refine ⟨hL.fills_addAlias hfills key s, ?_⟩
        intro s' h
        cases h
        obtain ⟨holder, hserves⟩ := hsecond.serves s rfl
        have hs := (hsecond.fills.grows.settled hsettled).answers hserves.mapped
        exact ⟨L.placeholder, Table.serves_addAlias (hs.elim id id) hnone⟩
      · rw [hfallback] at hfills
        exact ⟨hfills, by simp⟩

theorem Detached.finds (ht : t.Settled L.placeholder) {place : Nat}
    (h : (L.loadOrGet key (t, e)).1.map (·.val) = .ok place) : (L.loadOrGet key (t, e)).2.1.Finds key place := by
  have hserves := (hL.loadOrGet ht key e).2
  rcases hresult : (L.loadOrGet key (t, e)).1 with cause | s
  · rw [hresult] at h
    cases h
  · rw [hresult] at h
    obtain ⟨holder, hholder⟩ := hserves s hresult
    exact ⟨s, holder, Except.ok.inj h, hholder⟩

end Loader

end FrameEngine.Slots
