import FrameEngine.Proofs.Slots.Refusals

namespace FrameEngine.Slots

open Indexing

variable {σ κ ρ : Type} [DecidableEq κ] {N : Nat}

namespace Table

variable {t : Table κ ρ N} {key : κ} {s : Fin N}

theorem get?_of_slotOf?_none (h : t.slotOf? key = none) : t.get? key = none := by
  rw [get?, h]
  rfl

theorem get?_of_holder {holder : κ} (hs : t.slotOf? key = some s) (hstate : t.states.get s = .resident holder)
    (hne : holder ≠ key) : t.get? key = none := by
  rw [get?, hs]
  simp [Option.filter, hstate, hne]

end Table

namespace Loader

variable {L : Loader σ κ ρ N} {R : σ → σ → Prop} {t t' : Table κ ρ N} {key : κ} {e e' : σ} {free : Fin N}

def placeholderLoad (L : Loader σ κ ρ N) (t : Table κ ρ N) (s : Fin N) (e : σ) : Except LoadError ρ × String :=
  let (outcome, _, e') := L.load L.placeholder (t.reserve s L.placeholder, e)
  (outcome, L.describe e' L.placeholder)

section StandIn

omit [DecidableEq κ] in
theorem standIn_fst (key : κ) (answer : Except SlotError (Fin N) × (Table κ ρ N × σ)) :
    (standIn key answer).1 = answer.1 := by
  rcases answer with ⟨cause | s, t, e⟩ <;> rfl

omit [DecidableEq κ] in
theorem standIn_table_congr (key : κ) {answer answer' : Except SlotError (Fin N) × (Table κ ρ N × σ)}
    (h : answer.1 = answer'.1) (htable : answer.2.1 = answer'.2.1) :
    (standIn key answer).2.1 = (standIn key answer').2.1 := by
  obtain ⟨result, t, e⟩ := answer
  obtain ⟨result', t', e'⟩ := answer'
  obtain rfl : result = result' := h
  obtain rfl : t = t' := htable
  cases result <;> rfl

/-- What else the loader works on matters to a call for the placeholder only as far as the placeholder's load does. -/
theorem Detached.loadOrGet_placeholder_congr (hL : L.Detached R)
    (h : ∀ s, L.placeholderLoad t s e = L.placeholderLoad t s e') :
    (L.loadOrGet L.placeholder (t, e)).1 = (L.loadOrGet L.placeholder (t, e')).1 ∧
      (L.loadOrGet L.placeholder (t, e)).2.1 = (L.loadOrGet L.placeholder (t, e')).2.1 := by
  rw [Loader.loadOrGet, Loader.loadKey, Loader.loadOrGet, Loader.loadKey]
  dsimp only
  cases t.probe L.placeholder with
  | hit s | pending s | full => exact ⟨rfl, rfl⟩
  | vacant s =>
      obtain ⟨outcome, e₁, hload, _⟩ := hL.load L.placeholder (t.reserve s L.placeholder) e
      obtain ⟨outcome', e₂, hload', _⟩ := hL.load L.placeholder (t.reserve s L.placeholder) e'
      have hsame := h s
      rw [placeholderLoad, placeholderLoad, hload, hload'] at hsame
      obtain rfl : outcome = outcome' := congrArg Prod.fst hsame
      have hname : L.describe e₁ L.placeholder = L.describe e₂ L.placeholder := congrArg Prod.snd hsame
      dsimp only
      rw [hload, hload']
      rcases outcome with (reason | cause) | resource
      · dsimp only
        rw [if_pos rfl, if_pos rfl, hname]
        exact ⟨rfl, rfl⟩
      · exact ⟨rfl, rfl⟩
      · exact ⟨rfl, rfl⟩

/-- A call for the placeholder leaves each slot as it was, but for the one that it gives if that was free before. -/
theorem Comes.kept_or_given {answer : Except SlotError (Fin N)} (h : L.Comes t L.placeholder e (answer, t', e'))
    (s : Fin N) :
    t'.states.get s = t.states.get s ∨
      answer = .ok s ∧ t.states.get s = .empty ∧ t'.states.get s = .resident L.placeholder := by
  cases answer with
  | error cause =>
      obtain ⟨rfl, _⟩ := h.refused
      exact .inl rfl
  | ok given =>
      obtain ⟨aliases, ⟨holder, _, rfl⟩ | ⟨holder, resource, hholder, hprobe, _, rfl⟩⟩ := h.answered
      · exact .inl rfl
      · obtain rfl : holder = L.placeholder := hholder.elim id id
        have hloading : (t.reserve given L.placeholder).states.get given = .loading L.placeholder := get_set_self _ _ _
        rw [Table.install_eq hloading]
        by_cases hs : given = s
        · subst hs
          exact .inr ⟨rfl, (Table.vacant_of_probe hprobe).2, get_set_self _ _ _⟩
        · refine .inl ?_
          have hinstalled : ((t.reserve given L.placeholder).states.set given.val (.resident L.placeholder)
              given.isLt).get s = (t.reserve given L.placeholder).states.get s := get_set_of_ne _ _ hs
          exact hinstalled.trans (Table.get_reserve_of_ne hs _)

end StandIn

/-- A call for a key without a slot, when one is free and the key's load finds nothing, is answered as a call for the
placeholder is once that load has failed, and the key is mapped to the slot that this gives. So it is answered as if
the placeholder had been asked for at once, unless the placeholder's load ends otherwise now. Only what that load reports
makes it fail, it takes up no slot but the placeholder's, and the key has none of its own after it. -/
theorem missing_key_stood_in (hL : L.Detached R) (ht : t.Settled L.placeholder) (hkey : key ≠ L.placeholder)
    (hnone : t.slotOf? key = none) (hfree : t.firstEmpty? = some free) {reason : String}
    (hload : L.load key (t.reserve free key, e) = (.error (.unavailable reason), t', e')) :
    L.loadOrGet key (t, e) = standIn key (L.loadOrGet L.placeholder (t, L.warned key reason e')) ∧
    ((∀ s, L.placeholderLoad t s (L.warned key reason e') = L.placeholderLoad t s e) →
      (L.loadOrGet key (t, e)).1 = (L.loadOrGet L.placeholder (t, e)).1 ∧
      (L.loadOrGet key (t, e)).2.1 = (standIn key (L.loadOrGet L.placeholder (t, e))).2.1) ∧
    (∀ cause, (L.loadOrGet key (t, e)).1 = .error cause → L.Reported t L.placeholder cause) ∧
    (∀ s, (L.loadOrGet key (t, e)).2.1.states.get s = t.states.get s ∨
      (L.loadOrGet key (t, e)).1 = .ok s ∧ t.states.get s = .empty ∧
        (L.loadOrGet key (t, e)).2.1.states.get s = .resident L.placeholder) ∧
    (L.loadOrGet key (t, e)).2.1.get? key = none := by
  have hprobe : t.probe key = .vacant free := by rw [Table.probe, hnone, hfree]
  have hanswer : L.loadOrGet key (t, e) = standIn key (L.loadOrGet L.placeholder (t, L.warned key reason e')) := by
    obtain ⟨outcome, e₁, hdetached, _⟩ := hL.load key (t.reserve free key) e
    obtain ⟨rfl, rfl, rfl⟩ : outcome = _ ∧ _ ∧ e₁ = _ := by simpa using hdetached.symm.trans hload
    refine hL.loadOrGet_fallback ht hkey ?_
    rw [loadKey, hprobe]
    dsimp only
    rw [hload]
    dsimp only
    rw [Table.clear_reserve ht.coherent hprobe]
  have hcomes := hL.comes ht L.placeholder (L.warned key reason e')
  refine ⟨hanswer, fun hsame => ?_, ?_⟩
  · obtain ⟨hresult, htable⟩ := hL.loadOrGet_placeholder_congr hsame
    rw [hanswer]
    exact ⟨(standIn_fst key _).trans hresult, standIn_table_congr key hresult htable⟩
  rw [hanswer]
  rcases hgiven : L.loadOrGet L.placeholder (t, L.warned key reason e') with ⟨cause | given, t₁, e₁⟩
  · rw [hgiven] at hcomes
    obtain ⟨rfl, ⟨hfull, _⟩ | ⟨_, hreported⟩⟩ := hcomes.refused
    · exact absurd hfull (Table.not_full_of_vacant hprobe _)
    · refine ⟨?_, fun s => .inl rfl, Table.get?_of_slotOf?_none hnone⟩
      rintro _ ⟨⟩
      exact hreported
  · obtain ⟨hfills, hserves⟩ := hL.loadOrGet ht L.placeholder (L.warned key reason e')
    rw [hgiven] at hcomes hfills hserves
    obtain ⟨holder, hholder⟩ := hserves given rfl
    have hstate : t₁.states.get given = .resident L.placeholder :=
      ((hfills.grows.settled ht).answers hholder.mapped).elim id id
    have hmapped : (t₁.withKeys [key] given).slotOf? key = some given := by
      rw [Table.slotOf?_withKeys, if_pos rfl]
    exact ⟨by simp [standIn], hcomes.kept_or_given, Table.get?_of_holder hmapped hstate hkey.symm⟩

/-- Key 2 is not available, and the placeholder, 9, is. If it `breaks`, the placeholder is not available either once the
load of key 2 has failed. -/
def brittle (breaks : Bool) : Loader Bool Nat Nat 2 where
  kind := "brittle"
  placeholder := 9
  describe := fun _ _ => ""
  load := fun key w =>
    if key = 2 then (.error (.unavailable "none"), w.1, w.2 || breaks)
    else if key = 9 ∧ w.2 then (.error (.unavailable "broken"), w)
    else (.ok (10 * key), w)
  release := fun _ broken => broken
  note := fun _ broken => broken

theorem brittle_detached (breaks : Bool) : (brittle breaks).Detached fun _ _ => True where
  refl _ := trivial
  trans _ _ := trivial
  note _ _ := trivial
  load key t broken := by
    simp only [brittle]
    split
    · exact ⟨_, _, rfl, trivial⟩
    · split
      · exact ⟨_, _, rfl, trivial⟩
      · exact ⟨_, _, rfl, trivial⟩

def brittleTable : Table Nat Nat 2 := ((brittle false).loadOrGet 1 (.empty, false)).2.1

theorem brittleTable_settled : brittleTable.Settled (brittle false).placeholder :=
  ((brittle_detached false).loadOrGet (Table.settled_empty _) 1 false).1.grows.settled (Table.settled_empty _)

/-- The placeholder takes the last slot for key 2. -/
theorem missing_key_stood_in_brittle :
    brittleTable.slotOf? 2 = none ∧ brittleTable.firstEmpty?.map (·.val) = some 1 ∧
      ((brittle false).loadOrGet 2 (brittleTable, false)).1.toOption.map (·.val) = some 1 ∧
      ((brittle false).loadOrGet 2 (brittleTable, false)).2.1 =
        (standIn 2 ((brittle false).loadOrGet 9 (brittleTable, false))).2.1 ∧
      ((brittle false).loadOrGet 2 (brittleTable, false)).2.1.get? 2 = none := by
  obtain ⟨free, hfree⟩ : ∃ free, brittleTable.firstEmpty? = some free := ⟨_, rfl⟩
  obtain ⟨_, hsame, _, _, hget⟩ := missing_key_stood_in (brittle_detached false) brittleTable_settled
    (by decide : 2 ≠ 9) (rfl : brittleTable.slotOf? 2 = none) hfree
    (rfl : (brittle false).load 2 (brittleTable.reserve free 2, false) = (.error (.unavailable "none"), _, false))
  obtain ⟨hresult, htable⟩ := hsame fun _ => rfl
  refine ⟨rfl, rfl, ?_, htable, hget⟩
  rw [hresult]
  rfl

/-- The load of key 2 takes the placeholder along. -/
theorem missing_key_unlike_placeholder :
    (brittle true).Detached (fun _ _ => True) ∧ (.empty : Table Nat Nat 2).Settled (brittle true).placeholder ∧
      (.empty : Table Nat Nat 2).slotOf? 2 = none ∧ (.empty : Table Nat Nat 2).firstEmpty?.isSome ∧
      (∀ t, ((brittle true).load 2 (t, false)).1 = .error (.unavailable "none")) ∧
      ((brittle true).loadOrGet 9 (.empty, false)).1.isOk ∧
      ((brittle true).loadOrGet 2 (.empty, false)).1 = .error (.missingPlaceholder "brittle" "" "broken") :=
  ⟨brittle_detached true, Table.settled_empty _, rfl, rfl, fun _ => rfl, rfl, rfl⟩

end Loader

end FrameEngine.Slots
