import FrameEngine.Proofs.Slots.Attendance
import FrameEngine.Proofs.Slots.Conservation
import FrameEngine.Proofs.Slots.Consistency
import FrameEngine.Proofs.Slots.Ranks
import FrameEngine.Proofs.Slots.Serving
import Mathlib.Data.Fintype.Card

namespace FrameEngine.Slots

open Indexing

namespace Table

variable {κ ρ : Type} {N : Nat} {t : Table κ ρ N} {key : κ}

theorem keys_eq (t : Table κ ρ N) : t.keys = (List.finRange N).filterMap fun slot => (t.states.get slot).key? := by
  have hlist : t.states.toList = (List.finRange N).map t.states.get :=
    List.ext_getElem (by simp) fun i _ _ => by simp [Vector.get]
  rw [keys, hlist, List.filterMap_map]
  rfl

theorem mem_keys : key ∈ t.keys ↔ ∃ slot, (t.states.get slot).key? = some key := by
  rw [keys_eq, List.mem_filterMap]
  constructor
  · rintro ⟨slot, _, hslot⟩
    exact ⟨slot, hslot⟩
  · rintro ⟨slot, hslot⟩
    exact ⟨slot, List.mem_finRange slot, hslot⟩

theorem Coherent.nodup_keys [DecidableEq κ] {placeholder : κ} (hc : t.Coherent placeholder) : t.keys.Nodup := by
  rw [keys_eq]
  apply List.Nodup.filterMap
  · intro slot slot' key hslot hslot'
    exact hc.holder_unique (Option.mem_def.mp hslot) (Option.mem_def.mp hslot')
  · exact List.nodup_finRange N

/-- Slots are held by different keys, so there are no more of them than of the keys. -/
theorem Coherent.le_card [DecidableEq κ] {placeholder : κ} (hc : t.Coherent placeholder) {known : Finset κ}
    (h : ∀ slot, ∃ key ∈ known, (t.states.get slot).key? = some key) : N ≤ known.card := by
  choose holder hknown hholder using h
  have hinjective : Function.Injective holder := by
    intro slot slot' he
    apply hc.holder_unique (hholder slot)
    rw [he]
    exact hholder slot'
  calc N = (Finset.univ.image holder).card := by
        rw [Finset.card_image_of_injective _ hinjective, Finset.card_univ, Fintype.card_fin]
    _ ≤ known.card := Finset.card_le_card (Finset.image_subset_iff.mpr fun slot _ => hknown slot)

end Table

namespace Threads

variable {κ ρ : Type} {N : Nat}

def Phase.announces : Phase ρ N → Bool
  | .announcing _ | .announcingFailure _ => true
  | _ => false

section Wake

variable {c : Call κ ρ N}

theorem wanted_wake (c : Call κ ρ N) : c.wake.wanted = c.wanted := by
  rw [Call.wake]
  split <;> rfl

theorem wake_awake (c : Call κ ρ N) (slot : Fin N) : c.wake.phase ≠ .asleep slot := by
  rw [Call.wake]
  split
  · simp
  next hawake => exact hawake slot

theorem mem_wakeIf {wakes : Bool} {calls : Multiset (Call κ ρ N)} (h : c ∈ wakeIf wakes calls) :
    wakes = false ∧ c ∈ calls ∨ ∃ c' ∈ calls, c = c'.wake := by
  cases wakes with
  | false => exact .inl ⟨rfl, h⟩
  | true =>
      obtain ⟨c', hc', rfl⟩ := Multiset.mem_map.mp h
      exact .inr ⟨c', hc', rfl⟩

theorem wanted_wakeIf (wakes : Bool) (calls : Multiset (Call κ ρ N)) :
    (wakeIf wakes calls).map Call.wanted = calls.map Call.wanted := by
  cases wakes with
  | false => rfl
  | true =>
      refine (Multiset.map_map _ _ _).trans (Multiset.map_congr rfl fun c _ => ?_)
      exact wanted_wake c

end Wake

variable [DecidableEq κ] {setting : Setting κ} {outcome : κ → Except LoadError ρ}

theorem loading_of_pending {t : Table κ ρ N} {placeholder key : κ} {slot : Fin N} (hc : t.Coherent placeholder)
    (h : t.probe key = .pending slot) : t.states.get slot = .loading key := by
  rw [Table.probe] at h
  cases hslot : t.slotOf? key with
  | none =>
      rw [hslot] at h
      cases he : t.firstEmpty? <;> simp [he] at h
  | some s =>
      have hmapped := hc.mapped key s hslot
      cases hs : t.states.get s with
      | resident holder => simp [hslot, hs] at h
      | loading holder =>
          obtain rfl : s = slot := by simpa [hslot, hs] using h
          rw [hs] at hmapped
          rcases hmapped with hown | halias
          · rw [hs, Option.some.inj hown]
          · cases halias
      | empty =>
          rw [hs] at hmapped
          rcases hmapped with hown | halias
          · cases hown
          · cases halias

section Acts

variable {t t' : Table κ ρ N} {c c' : Call κ ρ N} {progress : Progress κ ρ N} {new : List κ} {wakes : Bool}
  {slot : Fin N} {key : κ}

theorem Acts.wakes_eq (h : Acts setting outcome t c progress t' new wakes) : wakes = c.phase.announces := by
  cases h with
  | hit hphase | wait hphase | reserve hphase | full hphase | waitOn hphase | find hphase | retry hphase
  | succeed hphase | fail hphase | store hphase | mark hphase | announce hphase | count hphase | clear hphase
  | giveUp hphase | standIn hphase =>
      rw [hphase]
      rfl

/-- A call that ends the time its slot is loading wakes the others next. -/
theorem Acts.announces (h : Acts setting outcome t c progress t' new wakes)
    (hc : c.phase = .marking slot ∨ ∃ cause, c.phase = .clearing slot cause) :
    ∃ c', progress = .goOn c' ∧ c'.phase.announces = true := by
  cases h with
  | mark | clear => exact ⟨_, rfl, rfl⟩
  | hit hphase | wait hphase | reserve hphase | full hphase | waitOn hphase | find hphase | retry hphase
  | succeed hphase | fail hphase | store hphase | announce hphase | count hphase | giveUp hphase
  | standIn hphase => simp [hphase] at hc

theorem phase_of_found (h : c.found slot = .goOn c') : c'.phase = .aliasing slot := by
  rw [Call.found] at h
  split at h
  · cases h
  · cases h
    rfl

theorem phase_of_failed {cause : LoadError} (h : c.failed setting cause = .goOn c') : c'.phase = .lookingUp := by
  cases cause with
  | fatal cause => cases h
  | unavailable reason =>
      rw [Call.failed] at h
      split at h
      · cases h
      · cases h
        rfl

/-- A call falls asleep on a slot that is loading. -/
theorem Acts.loading_of_asleep (h : Acts setting outcome t c (.goOn c') t' new wakes)
    (hc : t.Coherent setting.placeholder) (hasleep : c'.phase = .asleep slot) :
    ∃ holder, t'.states.get slot = .loading holder := by
  generalize hp : Progress.goOn c' = progress at h
  cases h with
  | wait _ hprobe =>
      cases hp
      cases hasleep
      exact ⟨_, loading_of_pending hc hprobe⟩
  | waitOn _ hs =>
      cases hp
      cases hasleep
      exact ⟨_, hs⟩
  | hit | find | count => cases (phase_of_found hp.symm).symm.trans hasleep
  | giveUp => cases (phase_of_failed hp.symm).symm.trans hasleep
  | full | standIn => cases hp
  | reserve | retry | succeed | fail | store | mark | announce | clear =>
      cases hp
      cases hasleep

end Acts

/-- Whoever sleeps will be woken: the load it sleeps for is in progress, or its end is about to be announced. -/
def Roused (t : Table κ ρ N) (calls : Multiset (Call κ ρ N)) : Prop :=
  ∀ c ∈ calls, ∀ slot, c.phase = .asleep slot →
    (∃ key, t.states.get slot = .loading key) ∨ ∃ c' ∈ calls, c'.phase.announces = true

structure Crowd.Serves (setting : Setting κ) (outcome : κ → Except LoadError ρ) (keys : List κ)
    (x : Crowd κ ρ N) : Prop where
  asked : x.calls.map Call.wanted + x.results.map Prod.fst = keys
  faithful : Faithful setting outcome x.table
  fits : ∀ c ∈ x.calls, c.Fits setting outcome x.table
  answered : ∀ answer ∈ x.results, ∃ slot, answer.2 = .ok slot ∧
    x.table.states.get slot = .resident (served setting outcome answer.1)
  /-- Slots are held by keys that were asked for, or that serve such keys. -/
  held : ∀ slot key, (x.table.states.get slot).key? = some key →
    ∃ wanted ∈ keys, key = wanted ∨ key = served setting outcome wanted
  entered : ∀ key, served setting outcome key = key → x.entered.count key = loadsOf x.table key
  roused : Roused x.table x.calls

def Crowd.moment (x : Crowd κ ρ N) : Moment κ ρ N := ⟨x.table, x.calls.filterMap Call.work?⟩

theorem used_of_full {t : Table κ ρ N} {key : κ} (h : t.probe key = .full) :
    t.slotOf? key = none ∧ ∀ slot, ∃ holder, (t.states.get slot).key? = some holder := by
  rw [Table.probe] at h
  cases hslot : t.slotOf? key with
  | some s =>
      rw [hslot] at h
      cases hs : t.states.get s <;> simp [hs] at h
  | none =>
      rw [hslot] at h
      cases hfirst : t.firstEmpty? with
      | some s => simp [hfirst] at h
      | none =>
          refine ⟨rfl, fun slot => ?_⟩
          have hused := List.find?_eq_none.mp hfirst slot (List.mem_finRange slot)
          cases hs : t.states.get slot with
          | empty => simp [hs] at hused
          | loading holder | resident holder => exact ⟨holder, rfl⟩

omit [DecidableEq κ] in
theorem Progress.Fits.asked {t : Table κ ρ N} {wanted : κ} {progress : Progress κ ρ N}
    (h : progress.Fits setting outcome t wanted) :
    progress.calls.map Call.wanted + (progress.results wanted).map Prod.fst = {wanted} := by
  cases progress with
  | goOn c =>
      obtain ⟨rfl, _⟩ := h
      rfl
  | ended result => rfl

omit [DecidableEq κ] in
theorem Progress.mem_calls {progress : Progress κ ρ N} {c : Call κ ρ N} : c ∈ progress.calls ↔ progress = .goOn c := by
  cases progress with
  | goOn c' => simp [Progress.calls, eq_comm]
  | ended result => simp [Progress.calls]

omit [DecidableEq κ] in
theorem Progress.mem_results {progress : Progress κ ρ N} {wanted : κ} {answer : κ × Except SlotError (Fin N)} :
    answer ∈ progress.results wanted ↔ ∃ result, progress = .ended result ∧ answer = (wanted, result) := by
  cases progress with
  | goOn c => simp [Progress.results]
  | ended result => simp [Progress.results]

section Step

variable {keys : List κ} {x y : Crowd κ ρ N}

theorem Crowd.Serves.stands (h : x.Serves setting outcome keys) (hx : x.moment.Sound setting.placeholder)
    {c : Call κ ρ N} (hc : c ∈ x.calls) : c.Stands setting outcome x.table where
  coherent := hx.coherent
  faithful := h.faithful
  fits := h.fits c hc
  reserved w slot key hw hr := hx.placed.reserved w ((Multiset.mem_filterMap _ _).mpr ⟨c, hc, hw⟩) slot key hr

theorem Crowd.Serves.asks (h : x.Serves setting outcome keys) {c : Call κ ρ N} (hc : c ∈ x.calls) :
    c.wanted ∈ keys := by
  have hmem : c.wanted ∈ x.calls.map Call.wanted + x.results.map Prod.fst :=
    Multiset.mem_add.mpr (.inl (Multiset.mem_map_of_mem _ hc))
  rwa [h.asked] at hmem

/-- What a call works on was asked for, or serves what was. -/
theorem Crowd.Serves.key_eq (h : x.Serves setting outcome keys) (hf : Friendly setting outcome)
    {c : Call κ ρ N} (hc : c ∈ x.calls) : ∃ wanted ∈ keys, c.key = wanted ∨ c.key = served setting outcome wanted := by
  refine ⟨c.wanted, h.asks hc, ?_⟩
  rcases (h.fits c hc).key_eq with hown | hplaceholder
  · exact .inl hown
  · right
    rw [← (h.fits c hc).served_eq, hplaceholder, hf.served_placeholder]

/-- There is room for what a call works on: the other slots are held by keys that were asked for and by the
placeholder. -/
theorem Crowd.Serves.room (h : x.Serves setting outcome keys) (hf : Friendly setting outcome)
    (hx : x.moment.Sound setting.placeholder) (hroom : keys.dedup.length + 1 ≤ N) {c : Call κ ρ N}
    (hc : c ∈ x.calls) : x.table.probe c.key ≠ .full := by
  intro hfull
  obtain ⟨hnone, hused⟩ := used_of_full hfull
  have hknown {key : κ} (hkey : ∃ wanted ∈ keys, key = wanted ∨ key = served setting outcome wanted) :
      key ∈ insert setting.placeholder keys.toFinset := by
    obtain ⟨wanted, hwanted, hkey⟩ := hkey
    have hmem : wanted ∈ keys.toFinset := List.mem_toFinset.mpr hwanted
    rcases hkey with rfl | rfl
    · exact Finset.mem_insert_of_mem hmem
    · rcases served_or setting outcome wanted with he | he
      · rw [he]
        exact Finset.mem_insert_of_mem hmem
      · rw [he]
        exact Finset.mem_insert_self _ _
  have hothers (slot : Fin N) : ∃ key ∈ (insert setting.placeholder keys.toFinset).erase c.key,
      (x.table.states.get slot).key? = some key := by
    obtain ⟨key, hkey⟩ := hused slot
    refine ⟨key, Finset.mem_erase.mpr ⟨?_, hknown (h.held slot key hkey)⟩, hkey⟩
    rintro rfl
    cases hnone.symm.trans (hx.coherent.holder slot c.key hkey)
  have hcard := hx.coherent.le_card hothers
  rw [Finset.card_erase_of_mem (hknown (h.key_eq hf hc))] at hcard
  have hinsert := Finset.card_insert_le setting.placeholder keys.toFinset
  rw [List.card_toFinset] at hinsert
  omega

theorem Acts.roused {t t' : Table κ ρ N} {c : Call κ ρ N} {progress : Progress κ ρ N} {new : List κ} {wakes : Bool}
    {rest : Multiset (Call κ ρ N)} (hacts : Acts setting outcome t c progress t' new wakes)
    (hc : t.Coherent setting.placeholder) (h : Roused t (c ::ₘ rest)) :
    Roused t' (progress.calls + wakeIf wakes rest) := by
  intro c' hc' slot hasleep
  rcases Multiset.mem_add.mp hc' with hnew | hold
  · obtain rfl := Progress.mem_calls.mp hnew
    exact .inl (hacts.loading_of_asleep hc hasleep)
  · rcases mem_wakeIf hold with ⟨rfl, hc₁⟩ | ⟨c₁, _, rfl⟩
    · rcases h c' (Multiset.mem_cons_of_mem hc₁) slot hasleep with ⟨key, hs⟩ | ⟨c₂, hc₂, hannounces⟩
      · -- if the load ends in this turn, the call is about to announce it
        rcases hacts.edits.loading hs with hstill | hends
        · exact .inl ⟨key, hstill⟩
        · obtain ⟨c₂, hgoOn, hannounces⟩ := hacts.announces hends
          exact .inr ⟨c₂, Multiset.mem_add.mpr (.inl (Progress.mem_calls.mpr hgoOn)), hannounces⟩
      · rcases Multiset.mem_cons.mp hc₂ with rfl | hc₂
        · rw [← hacts.wakes_eq] at hannounces
          cases hannounces
        · exact .inr ⟨c₂, Multiset.mem_add.mpr (.inr hc₂), hannounces⟩
    · exact absurd hasleep (wake_awake c₁ slot)

theorem Crowd.Serves.step (h : x.Serves setting outcome keys) (hf : Friendly setting outcome)
    (hx : x.moment.Sound setting.placeholder) (hroom : keys.dedup.length + 1 ≤ N)
    (hstep : Crowd.Step setting outcome x y) : y.Serves setting outcome keys := by
  cases hstep with
  | @turn t c progress t' new wakes rest results entered hacts =>
      have hmem : c ∈ c ::ₘ rest := Multiset.mem_cons_self c rest
      have hc : c.Stands setting outcome t := h.stands hx hmem
      have hprogress := hacts.fits hf hc (h.room hf hx hroom hmem)
      have hkeep : ∀ slot holder, t.states.get slot = .resident holder → t'.states.get slot = .resident holder :=
        fun _ _ => hacts.edits.resident hc
      have hothers {c' : Call κ ρ N} (hc' : c' ∈ rest) : c'.Fits setting outcome t' :=
        (h.fits c' (Multiset.mem_cons_of_mem hc')).keep hkeep
      refine
        { asked := ?asked
          faithful := hacts.edits.faithful hf hc
          fits := ?fits
          answered := ?answered
          held := ?held
          entered := ?entered
          roused := hacts.roused hc.coherent h.roused }
      case asked =>
        have hasked := h.asked
        dsimp only at hasked ⊢
        rw [← hasked, Multiset.map_add, Multiset.map_add, wanted_wakeIf, Multiset.map_cons,
          ← Multiset.singleton_add, ← hprogress.asked]
        abel
      case fits =>
        intro c' hc'
        rcases Multiset.mem_add.mp hc' with hnew | hold
        · obtain rfl := Progress.mem_calls.mp hnew
          exact hprogress.2
        · rcases mem_wakeIf hold with ⟨_, hc₁⟩ | ⟨c₁, hc₁, rfl⟩
          · exact hothers hc₁
          · exact (hothers hc₁).wake
      case answered =>
        intro answer hanswer
        rcases Multiset.mem_add.mp hanswer with hnew | hold
        · obtain ⟨result, rfl, rfl⟩ := Progress.mem_results.mp hnew
          exact hprogress
        · obtain ⟨slot, hresult, hs⟩ := h.answered answer hold
          exact ⟨slot, hresult, hkeep slot _ hs⟩
      case held =>
        intro slot key hs
        rcases hacts.edits.held hc hs with hold | rfl
        · exact h.held slot key hold
        · exact h.key_eq hf hmem
      case entered =>
        intro key hkey
        have hentered := h.entered key hkey
        dsimp only at hentered ⊢
        rw [List.count_append, hentered, hacts.edits.entered hf hc hkey]

end Step

section Machine

variable {keys : List κ} {m m' : Machine κ ρ N} {i turns : Nat}

structure Machine.Serves (setting : Setting κ) (outcome : κ → Except LoadError ρ) (keys : List κ)
    (m : Machine κ ρ N) (turns : Nat) : Prop where
  single : m.Single
  crowd : m.crowd.Serves setting outcome keys
  run : ∃ trace, Run setting.placeholder .start trace m.moment ∧ trace.filterMap Effect.released? = []
  rank : turns + rankOf setting.placeholder keys.length m.crowd.calls ≤ keys.length * (4 * keys.length + 14)

omit [DecidableEq κ] in
theorem moment_ofCalls (keys : List κ) : (Machine.ofCalls .empty keys : Machine κ ρ N).moment = .start := by
  rw [Machine.moment, calls_ofCalls, worksOf, List.filterMap_map]
  have hnone : (keys.filterMap (Call.work? ∘ fun key => (⟨key, key, .lookingUp⟩ : Call κ ρ N))) = [] := by
    rw [List.filterMap_eq_nil_iff]
    intro key _
    rfl
  rw [hnone]
  rfl

theorem crowd_ofCalls (keys : List κ) :
    (Machine.ofCalls .empty keys : Machine κ ρ N).crowd.Serves setting outcome keys := by
  have hstart {c : Call κ ρ N} (hc : c ∈ (Machine.ofCalls .empty keys : Machine κ ρ N).crowd.calls) :
      ∃ key, c = ⟨key, key, .lookingUp⟩ := by
    rw [Machine.crowd, calls_ofCalls] at hc
    obtain ⟨key, _, rfl⟩ := List.mem_map.mp (Multiset.mem_coe.mp hc)
    exact ⟨key, rfl⟩
  have hempty (slot : Fin N) : (Table.empty : Table κ ρ N).states.get slot = .empty := by
    simp [Table.empty, Vector.get]
  refine
    { asked := ?asked
      faithful := ?faithful
      fits := ?fits
      answered := ?answered
      held := ?held
      entered := fun _ _ => rfl
      roused := ?roused }
  case asked =>
    rw [Machine.crowd, calls_ofCalls, results_ofCalls, Multiset.map_coe, List.map_map]
    exact (Multiset.add_zero _).trans (congrArg _ (List.map_id' keys))
  case faithful =>
    intro key slot holder hkey
    cases hkey
  case fits =>
    intro c hc
    obtain ⟨key, rfl⟩ := hstart hc
    exact ⟨.inl rfl, rfl, trivial⟩
  case answered =>
    intro answer hanswer
    rw [Machine.crowd, results_ofCalls] at hanswer
    exact absurd hanswer (Multiset.notMem_zero answer)
  case held =>
    intro slot key hkey
    change ((Table.empty : Table κ ρ N).states.get slot).key? = some key at hkey
    rw [hempty] at hkey
    cases hkey
  case roused =>
    intro c hc slot hasleep
    obtain ⟨key, rfl⟩ := hstart hc
    cases hasleep

theorem serves_ofCalls (keys : List κ) :
    (Machine.ofCalls .empty keys : Machine κ ρ N).Serves setting outcome keys 0 where
  single := single_ofCalls .empty keys
  crowd := crowd_ofCalls keys
  run := by
    rw [moment_ofCalls]
    exact ⟨[], .nil _, rfl⟩
  rank := by
    rw [Nat.zero_add]
    exact rankOf_ofCalls_le .empty keys keys.length

namespace Machine.Serves

theorem sound (h : m.Serves setting outcome keys turns) : m.moment.Sound setting.placeholder := by
  obtain ⟨trace, hrun, _⟩ := h.run
  exact (sound_start _).run hrun

theorem attended (h : m.Serves setting outcome keys turns) : Attended m.table (worksOf m.calls) := by
  obtain ⟨trace, hrun, _⟩ := h.run
  exact hrun.attended (sound_start _) attended_start

theorem card_le (h : m.Serves setting outcome keys turns) : m.crowd.calls.card ≤ keys.length := by
  have hcard := congrArg Multiset.card h.crowd.asked
  rw [Multiset.card_add, Multiset.card_map, Multiset.coe_card] at hcard
  omega

theorem go (h : m.Serves setting outcome keys turns) (hf : Friendly setting outcome)
    (hroom : keys.dedup.length + 1 ≤ N) (hgo : m.go? setting outcome i = some m') :
    m'.Serves setting outcome keys (turns + 1) := by
  obtain ⟨hstep, hsingle⟩ := go_crowd h.single hgo
  refine ⟨hsingle, h.crowd.step hf h.sound hroom hstep, ?_, ?_⟩
  · obtain ⟨trace, hrun, hkept⟩ := h.run
    obtain ⟨effect, hmoment, hkeeps⟩ := go_moment hgo
    refine ⟨trace ++ [effect], hrun.append (.cons hmoment (.nil _)), ?_⟩
    rw [List.filterMap_append, hkept, filterMap_cons_toList, hkeeps]
    rfl
  · have hless := hstep.rank_lt h.card_le
    have hrank := h.rank
    omega

theorem of_play (hf : Friendly setting outcome) (hroom : keys.dedup.length + 1 ≤ N) {order : List Nat}
    (h : (Machine.ofCalls .empty keys).play? setting outcome order = some m) :
    m.Serves setting outcome keys order.length := by
  have hplay := play_keeps (P := fun m turns => m.Serves setting outcome keys turns)
    (fun m i m' n hm hgo => hm.go hf hroom hgo) (serves_ofCalls keys) h
  rwa [Nat.zero_add] at hplay

omit [DecidableEq κ] in
theorem mem_calls {thread : Thread κ ρ N} {c : Call κ ρ N} (hthread : thread ∈ m.threads)
    (hc : c ∈ thread.calls) : c ∈ m.calls :=
  List.mem_flatMap.mpr ⟨thread, Array.mem_toList_iff.mpr hthread, hc⟩

/-- Not every call that is under way sleeps: the load that one sleeps for is in the hands of another. -/
theorem exists_awake (h : m.Serves setting outcome keys turns) {c : Call κ ρ N} (hc : c ∈ m.calls) :
    ∃ c' ∈ m.calls, ∀ slot, c'.phase ≠ .asleep slot := by
  by_cases hawake : ∀ slot, c.phase ≠ .asleep slot
  · exact ⟨c, hc, hawake⟩
  push Not at hawake
  obtain ⟨slot, hasleep⟩ := hawake
  rcases h.crowd.roused c hc slot hasleep with ⟨key, hloading⟩ | ⟨c', hc', hannounces⟩
  · obtain ⟨w, hw, _⟩ := h.attended slot key hloading
    obtain ⟨c', hc', hwork⟩ := mem_worksOf.mp hw
    refine ⟨c', hc', fun s hs => ?_⟩
    rw [Call.work?, hs] at hwork
    cases hwork
  · refine ⟨c', hc', fun s hs => ?_⟩
    rw [hs] at hannounces
    cases hannounces

theorem exists_go (h : m.Serves setting outcome keys turns) (hdone : m.isDone = false) :
    ∃ i, (m.go? setting outcome i).isSome := by
  obtain ⟨thread, hthread, hcalls⟩ := Array.all_eq_false'.mp hdone
  obtain ⟨c, hc⟩ : ∃ c, c ∈ thread.calls := by
    apply List.exists_mem_of_ne_nil
    rintro hnil
    rw [hnil] at hcalls
    exact hcalls rfl
  obtain ⟨c', hc', hawake⟩ := h.exists_awake (mem_calls hthread hc)
  obtain ⟨thread', hmem, hc'⟩ := List.mem_flatMap.mp hc'
  have hthread' : thread' ∈ m.threads := Array.mem_toList_iff.mp hmem
  obtain ⟨i, hi⟩ := Array.getElem?_of_mem hthread'
  have hhead : thread'.calls = [c'] := by
    obtain ⟨c₁, hone⟩ := List.length_eq_one_iff.mp
      (Nat.le_antisymm (h.single thread' hthread') (List.length_pos_of_mem hc'))
    rw [hone] at hc' ⊢
    rw [List.mem_singleton.mp hc']
  exact ⟨i, go_isSome hi hhead hawake⟩

theorem given (h : m.Serves setting outcome keys turns) {answer : κ × Except SlotError (Fin N)}
    (hanswer : answer ∈ m.results) :
    ∃ slot, answer.2 = .ok slot ∧ m.table.get? (served setting outcome answer.1) = some slot := by
  obtain ⟨slot, hresult, hs⟩ := h.crowd.answered answer hanswer
  exact ⟨slot, hresult, h.sound.coherent.get?_eq_some_iff.mpr hs⟩

end Machine.Serves

end Machine

section Done

variable {keys : List κ} {m : Machine κ ρ N} {turns : Nat}

omit [DecidableEq κ] in
theorem calls_of_done (hdone : m.isDone) : m.calls = [] := by
  rw [Machine.calls, List.flatMap_eq_nil_iff]
  intro thread hthread
  have hempty := Array.all_eq_true'.mp hdone thread (Array.mem_toList_iff.mp hthread)
  exact List.isEmpty_iff.mp hempty

namespace Machine.Serves

variable (h : m.Serves setting outcome keys turns) (hdone : m.isDone)
include h hdone

theorem answered : (m.results.map Prod.fst).Perm keys := by
  have hasked := h.crowd.asked
  rw [Machine.crowd, calls_of_done hdone] at hasked
  exact Multiset.coe_eq_coe.mp ((Multiset.zero_add _).symm.trans hasked)

theorem not_loading (slot : Fin N) (key : κ) : m.table.states.get slot ≠ .loading key := by
  intro hs
  obtain ⟨w, hw, _⟩ := h.attended slot key hs
  rw [calls_of_done hdone] at hw
  exact Multiset.notMem_zero w hw

theorem resident_of_key {slot : Fin N} {key : κ} (hs : (m.table.states.get slot).key? = some key) :
    m.table.states.get slot = .resident key := by
  cases hstate : m.table.states.get slot with
  | empty =>
      rw [hstate] at hs
      cases hs
  | loading holder => exact absurd hstate (h.not_loading hdone slot holder)
  | resident holder =>
      rw [hstate] at hs
      cases hs
      rfl

theorem resident_of_mem {key : κ} (hkey : key ∈ keys) :
    ∃ slot, m.table.states.get slot = .resident (served setting outcome key) := by
  obtain ⟨answer, hanswer, rfl⟩ := List.mem_map.mp ((h.answered hdone).mem_iff.mpr hkey)
  obtain ⟨slot, _, hs⟩ := h.crowd.answered answer hanswer
  exact ⟨slot, hs⟩

theorem entered_eq {key : κ} (hkey : key ∈ keys) (hserved : served setting outcome key = key) :
    m.entered.count key = 1 := by
  obtain ⟨slot, hs⟩ := h.resident_of_mem hdone hkey
  rw [hserved] at hs
  refine (h.crowd.entered key hserved).trans ?_
  rw [loadsOf, if_neg]
  intro hnone
  have hslot := h.sound.coherent.holder slot key (Table.key?_of_resident hs)
  cases hnone.symm.trans hslot

theorem keys_perm : m.table.keys.Perm (keys.map (served setting outcome)).dedup := by
  apply (List.perm_ext_iff_of_nodup h.sound.coherent.nodup_keys (List.nodup_dedup _)).mpr
  intro key
  rw [Table.mem_keys, List.mem_dedup, List.mem_map]
  constructor
  · rintro ⟨slot, hkey⟩
    have hs := h.resident_of_key hdone hkey
    have hserved : key = served setting outcome key :=
      h.crowd.faithful key slot key (h.sound.coherent.holder slot key hkey) hs
    obtain ⟨wanted, hwanted, rfl | rfl⟩ := h.crowd.held slot key hkey
    · exact ⟨key, hwanted, hserved.symm⟩
    · exact ⟨wanted, hwanted, rfl⟩
  · rintro ⟨wanted, hwanted, rfl⟩
    obtain ⟨slot, hs⟩ := h.resident_of_mem hdone hwanted
    exact ⟨slot, Table.key?_of_resident hs⟩

theorem loads_eq : m.table.loads = m.table.keys.length := by
  obtain ⟨trace, hrun, hkept⟩ := h.run
  have hbalanced := (balanced_of_run hrun).counted
  rw [hkept] at hbalanced
  have hworks : m.moment.works = 0 := by
    rw [Machine.moment, calls_of_done hdone]
    rfl
  refine (hbalanced hworks).trans ?_
  rw [Table.keys_eq, Table.residents, List.length_filterMap_eq_countP]
  refine List.countP_congr fun slot _ => ?_
  cases hs : m.table.states.get slot with
  | empty => simp [SlotState.isResident, SlotState.key?, Machine.moment, hs]
  | loading key => exact absurd hs (h.not_loading hdone slot key)
  | resident key => simp [SlotState.isResident, SlotState.key?, Machine.moment, hs]

end Machine.Serves

end Done

section Agrees

/-- What calls for `keys` come to while their threads take turns. -/
structure Machine.Agrees (setting : Setting κ) (outcome : κ → Except LoadError ρ) (keys : List κ)
    (m : Machine κ ρ N) : Prop where
  /-- As long as a call is under way, there is a thread that can take its turn. -/
  goes : m.isDone = false → ∃ i, (m.go? setting outcome i).isSome
  given : ∀ answer ∈ m.results, ∃ slot, answer.2 = .ok slot ∧
    m.table.get? (served setting outcome answer.1) = some slot
  entered : ∀ key resource, outcome key = .ok resource → m.entered.count key ≤ 1
  /-- When all calls have ended, each has its answer, and what serves their keys is loaded and nothing else. -/
  done : m.isDone → (m.results.map Prod.fst).Perm keys ∧
    (∀ key ∈ keys, ∀ resource, outcome key = .ok resource → m.entered.count key = 1) ∧
    m.table.keys.Perm (keys.map (served setting outcome)).dedup ∧ m.table.loads = m.table.keys.length

variable {keys : List κ} {m : Machine κ ρ N} {turns : Nat}

theorem Machine.Serves.agrees (h : m.Serves setting outcome keys turns) : m.Agrees setting outcome keys where
  goes := h.exists_go
  given answer hanswer := h.given hanswer
  entered key resource houtcome := by
    refine (h.crowd.entered key (served_ok houtcome)).trans_le ?_
    rw [loadsOf]
    split
    · exact Nat.zero_le 1
    · exact Nat.le_refl 1
  done hdone := by
    refine ⟨h.answered hdone, ?_, h.keys_perm hdone, h.loads_eq hdone⟩
    intro key hkey resource houtcome
    exact h.entered_eq hdone hkey (served_ok houtcome)

theorem rounds_agree (hf : Friendly setting outcome) (keys : List κ) (hroom : keys.dedup.length + 1 ≤ N) (n : Nat) :
    ((Machine.ofCalls .empty keys : Machine κ ρ N).rounds setting outcome n).Agrees setting outcome keys := by
  obtain ⟨order, horder⟩ := rounds_eq_play setting outcome n (Machine.ofCalls .empty keys : Machine κ ρ N)
  exact (Machine.Serves.of_play hf hroom horder).agrees

/-- Threads make one call each to an empty table, with room for every key and the placeholder, and loads that
do not fail for good. In whatever order they take turns, none is stuck, and all have ended after so many turns.
Calls for a key that can be loaded are given its slot, which is loaded once; all others are given the slot of
the placeholder. -/
theorem calls_agree (hf : Friendly setting outcome) (keys : List κ) (hroom : keys.dedup.length + 1 ≤ N)
    (order : List Nat) (h : (Machine.ofCalls .empty keys).play? setting outcome order = some m) :
    m.Agrees setting outcome keys ∧ order.length ≤ keys.length * (4 * keys.length + 14) := by
  have hm := Machine.Serves.of_play hf hroom h
  exact ⟨hm.agrees, (Nat.le_add_right _ _).trans hm.rank⟩

def sharedOutcome (key : Nat) : Except LoadError Nat :=
  if key = 2 then .error (.unavailable "none") else .ok (10 * key)

/-- Four threads: the second waits for the first, and the fourth first for the load of key 2, which fails, and
then for that of the placeholder. -/
def sharedTurns : List Nat :=
  [0, 1, 2, 3, 2, 2, 2, 1, 3, 2, 3, 2, 3, 0, 0, 0, 0, 1, 0, 3, 3, 3, 2, 2, 2, 3, 2, 3, 2]

theorem calls_agree_shared : ∃ m : Machine Nat Nat 3,
    (Machine.ofCalls .empty [1, 1, 2, 2]).play? nestedSetting sharedOutcome sharedTurns = some m ∧
      m.Agrees nestedSetting sharedOutcome [1, 1, 2, 2] ∧ m.table.keys.Perm [1, 9] ∧ m.table.loads = 2 := by
  have hends : ((Machine.ofCalls .empty [1, 1, 2, 2] : Machine Nat Nat 3).play? nestedSetting sharedOutcome
      sharedTurns).map Machine.isDone = some true := by
    decide +kernel
  obtain ⟨m, hplay, hdone⟩ := Option.map_eq_some_iff.mp hends
  have hf : Friendly nestedSetting sharedOutcome := by
    refine ⟨⟨90, rfl⟩, fun key cause h => ?_⟩
    rw [sharedOutcome] at h
    split at h <;> cases h
  obtain ⟨hagrees, _⟩ := calls_agree hf [1, 1, 2, 2] (by decide) sharedTurns hplay
  obtain ⟨_, _, hkeys, hloads⟩ := hagrees.done hdone
  have hserved : ([1, 1, 2, 2].map (served nestedSetting sharedOutcome)).dedup = [1, 9] := by decide
  rw [hserved] at hkeys
  exact ⟨m, hplay, hagrees, hkeys, hloads.trans hkeys.length_eq⟩

end Agrees

end Threads

end FrameEngine.Slots
