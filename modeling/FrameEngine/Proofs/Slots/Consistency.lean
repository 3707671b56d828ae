import FrameEngine.Proofs.Slots.Sessions
import FrameEngine.Proofs.Slots.Threads

namespace FrameEngine.Slots

open Threads

variable {σ κ ρ : Type} {N : Nat}

namespace Table

theorem key?_eq_none_iff {state : SlotState κ} : state.key? = none ↔ state = .empty := by
  cases state <;> simp [SlotState.key?]

def ShowsResidents (t : Table κ ρ N) : Prop :=
  ∀ s : Fin N, (t.resourceAt? s.val).isSome ↔ ∃ key, t.states.get s = .resident key

theorem showsResidents_of_filled {t : Table κ ρ N} {works : Multiset (Work κ ρ N)} (hf : Filled t works)
    (hw : ∀ s key, Work.marking s key ∉ works) : t.ShowsResidents := by
  intro s
  rw [resourceAt?_eq, hf s]
  simp only [hw, exists_false, or_false]

variable [DecidableEq κ]

theorem size_eq_length_keys (t : Table κ ρ N) : t.size = t.keys.length := by
  rw [size, keys, List.length_filterMap_eq_countP]
  refine List.countP_congr fun state _ => ?_
  cases state <;> simp [SlotState.key?]

theorem size_le (t : Table κ ρ N) : t.size ≤ N := by
  rw [size]
  exact List.countP_le_length.trans_eq t.states.length_toList

/-- What the look-up, the slots and their keys say about each other. -/
structure Consistent (t : Table κ ρ N) (placeholder : κ) : Prop where
  empty_iff : ∀ s : Fin N, t.states.get s = .empty ↔ t.keyAt? s.val = none
  mapped : ∀ (s : Fin N) key, t.keyAt? s.val = some key → t.slotOf? key = some s
  held : ∀ key s, t.slotOf? key = some s →
    s.val < N ∧ (t.keyAt? s.val = some key ∨ t.states.get s = .resident placeholder)
  held_once : ∀ (s s' : Fin N) key, t.keyAt? s.val = some key → t.keyAt? s'.val = some key → s = s'
  size_eq : t.size = t.keys.length
  size_le : t.size ≤ N
  get?_iff : ∀ key s, t.get? key = some s ↔
    (∃ k, t.states.get s = .resident k) ∧ t.keyAt? s.val = some key

variable {t : Table κ ρ N} {placeholder : κ}

theorem Coherent.get?_eq_some_iff (hc : t.Coherent placeholder) {key : κ} {s : Fin N} :
    t.get? key = some s ↔ t.states.get s = .resident key := by
  rw [get?, Option.filter_eq_some_iff]
  simp only [decide_eq_true_eq]
  constructor
  · exact And.right
  · intro hs
    exact ⟨hc.holder s key (key?_of_resident hs), hs⟩

theorem Coherent.consistent (hc : t.Coherent placeholder) : t.Consistent placeholder where
  empty_iff s := by rw [keyAt?_eq, key?_eq_none_iff]
  mapped s key hs := hc.holder s key (by rwa [keyAt?_eq] at hs)
  held key s hs := ⟨s.isLt, by
    rw [keyAt?_eq]
    exact hc.mapped key s hs⟩
  held_once s s' key hs hs' := by
    rw [keyAt?_eq] at hs hs'
    exact hc.holder_unique hs hs'
  size_eq := t.size_eq_length_keys
  size_le := t.size_le
  get?_iff key s := by
    rw [hc.get?_eq_some_iff, keyAt?_eq]
    constructor
    · intro hs
      exact ⟨⟨key, hs⟩, key?_of_resident hs⟩
    · rintro ⟨⟨k, hs⟩, hkey⟩
      rw [key?_of_resident hs] at hkey
      rw [hs, Option.some.inj hkey]

end Table

variable [DecidableEq κ]

/-- The parts of a table agree after any moves of threads, whose loads may make calls of their own, and
after any session of calls, also of one inside loads. Only a slot that is about to be marked resident shows
its resource too soon. -/
theorem table_consistent :
    (∀ (setting : Setting κ) (threads : Nat) (moves : List (Nat × Move κ ρ)) (m : Machine κ ρ N),
      (Machine.idle threads).run? setting moves = some m →
        m.table.Consistent setting.placeholder ∧
        (∀ c ∈ m.calls, ∀ w s key, c.work? = some w → w.reservation? = some (s, key) →
          m.table.states.get s = .loading key) ∧
        ((∀ c ∈ m.calls, ∀ s, c.phase ≠ .marking s) → m.table.ShowsResidents)) ∧
    ∀ (L : Loader σ κ ρ N) (depth : Nat) (trace : List (Effect ρ N)) (t t' : Table κ ρ N)
      (works : Multiset (Work κ ρ N)) (e e' : σ),
      Run L.placeholder .start trace ⟨t, works⟩ → (∀ s key, Work.marking s key ∉ works) →
      L.Nests [] depth → L.Session [] (t, e) (t', e') →
        t'.Consistent L.placeholder ∧ t'.ShowsResidents := by
  refine ⟨fun setting threads moves m h => ?_, fun L depth trace t t' works e e' hstart hworks hL h => ?_⟩
  · obtain ⟨hc, hp, hf⟩ := sound_of_run h
    refine ⟨hc.consistent, fun c hm w s key hw hr => ?_, fun hphase => ?_⟩
    · exact hp.reserved w (mem_worksOf.mpr ⟨c, hm, hw⟩) s key hr
    · refine Table.showsResidents_of_filled hf fun s key hmarking => ?_
      obtain ⟨⟨wanted, key', phase⟩, hm, hw⟩ := mem_worksOf.mp hmarking
      cases phase <;> cases hw
      exact hphase _ hm s rfl
  · obtain ⟨more, hrun, _⟩ := hL.orderly.session h works
    obtain ⟨hc, _, hf⟩ := ((sound_start _).run hstart).run hrun
    exact ⟨hc.consistent, Table.showsResidents_of_filled hf hworks⟩

/-- Nested moves of a thread, and a script that loads and unloads inside a load. -/
theorem table_consistent_nested :
    (nestedMachine.table.Consistent 9 ∧ nestedMachine.table.states.get 0 = .loading 1 ∧
      nestedMachine.table.ShowsResidents) ∧
    ∀ script : Scripted.Script,
      ((Scripted.loader 3 9).loadOrGet 1
        (.empty,
          script.wait 1 [.load 2, .load 9, .unload 1, .during 4 [.unloadAll], .load 4])).2.1.Consistent 9 := by
  refine ⟨?_, fun script => ?_⟩
  · obtain ⟨hc, hreserved, hshows⟩ :=
      (@table_consistent Unit Nat Nat 2 _).1 nestedSetting 1 nestedMoves _ run_nestedMoves
    refine ⟨hc, ?_, hshows ?_⟩
    · exact hreserved ⟨1, 1, .loading 0⟩ (by simp [Machine.calls, nestedMachine]) _ 0 1 rfl rfl
    · simp [Machine.calls, nestedMachine]
  · have hsession : (Scripted.loader 3 9).Session [] _ _ := Loader.session_perform (.load 1)
      (.empty, script.wait 1 [.load 2, .load 9, .unload 1, .during 4 [.unloadAll], .load 4])
    have hc := (table_consistent.2 (Scripted.loader 3 9) 4 [] .empty _ 0 _ _ (.nil _) (by simp)
      (Scripted.loaderOfDepth_nests 9 4) hsession).1
    rwa [Scripted.loader, Scripted.loaderOfDepth_placeholder] at hc

end FrameEngine.Slots
