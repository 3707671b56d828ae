import FrameEngine.Proofs.Slots.Coherence
import Mathlib.Data.Multiset.Filter

namespace FrameEngine.Slots

open Indexing

variable {κ ρ : Type} {N : Nat}

inductive Work (κ ρ : Type) (N : Nat)
  | loading (slot : Fin N) (key : κ)
  | storing (slot : Fin N) (key : κ) (resource : ρ)
  /-- The resource is in its slot, which is not resident yet. -/
  | marking (slot : Fin N) (key : κ)
  /-- The slot is resident, but the load is not counted yet. -/
  | counting
  | clearing (slot : Fin N) (key : κ)

def Work.reservation? : Work κ ρ N → Option (Fin N × κ)
  | .loading slot key | .storing slot key _ | .marking slot key | .clearing slot key => some (slot, key)
  | .counting => none

def Work.slot? (w : Work κ ρ N) : Option (Fin N) := w.reservation?.map Prod.fst

structure Moment (κ ρ : Type) (N : Nat) where
  table : Table κ ρ N
  works : Multiset (Work κ ρ N)

def Moment.start : Moment κ ρ N := ⟨.empty, 0⟩

inductive Effect (ρ : Type) (N : Nat)
  | quiet
  | returned (resource : ρ)
  | evicted (slot : Fin N) (resource : Option ρ)

def Effect.returned? : Effect ρ N → Option ρ
  | .returned resource => some resource
  | _ => none

def Effect.released? : Effect ρ N → Option ρ
  | .evicted _ resource => resource
  | _ => none

inductive Step [DecidableEq κ] (placeholder : κ) : Moment κ ρ N → Effect ρ N → Moment κ ρ N → Prop
  | rest (x) : Step placeholder x .quiet x
  | reserve {table works slot key} (hprobe : table.probe key = .vacant slot) :
      Step placeholder ⟨table, works⟩ .quiet ⟨table.reserve slot key, .loading slot key ::ₘ works⟩
  | succeed (table) (works) (slot) (key) (resource) :
      Step placeholder ⟨table, .loading slot key ::ₘ works⟩ (.returned resource)
        ⟨table, .storing slot key resource ::ₘ works⟩
  | fail (table) (works) (slot) (key) :
      Step placeholder ⟨table, .loading slot key ::ₘ works⟩ .quiet ⟨table, .clearing slot key ::ₘ works⟩
  | store (table) (works) (slot) (key) (resource) :
      Step placeholder ⟨table, .storing slot key resource ::ₘ works⟩ .quiet
        ⟨table.store slot resource, .marking slot key ::ₘ works⟩
  | mark (table) (works) (slot) (key) :
      Step placeholder ⟨table, .marking slot key ::ₘ works⟩ .quiet
        ⟨table.markResident slot, .counting ::ₘ works⟩
  | count (table) (works) :
      Step placeholder ⟨table, .counting ::ₘ works⟩ .quiet ⟨table.countLoad, works⟩
  | clear (table) (works) (slot) (key) :
      Step placeholder ⟨table, .clearing slot key ::ₘ works⟩ .quiet ⟨table.clear slot, works⟩
  | standIn (table) (works) (key) (slot) :
      Step placeholder ⟨table, works⟩ .quiet ⟨table.addAlias key slot placeholder, works⟩
  | unload {table table' works n slot resource} (hunload : table.unload n = .done slot resource table') :
      Step placeholder ⟨table, works⟩ (.evicted slot resource) ⟨table', works⟩

inductive Run [DecidableEq κ] (placeholder : κ) : Moment κ ρ N → List (Effect ρ N) → Moment κ ρ N → Prop
  | nil (x) : Run placeholder x [] x
  | cons {x effect y trace z} : Step placeholder x effect y → Run placeholder y trace z →
      Run placeholder x (effect :: trace) z

/-- Each load in progress has a slot of its own, which is loading for its key. -/
structure Placed (table : Table κ ρ N) (works : Multiset (Work κ ρ N)) : Prop where
  reserved : ∀ w ∈ works, ∀ slot key, w.reservation? = some (slot, key) →
    table.states.get slot = .loading key
  apart : (works.filterMap Work.slot?).Nodup

/-- A slot holds a resource if it is resident, or its load is about to make it so. -/
def Filled (table : Table κ ρ N) (works : Multiset (Work κ ρ N)) : Prop :=
  ∀ slot, (table.contents.get slot).isSome ↔
    (∃ key, table.states.get slot = .resident key) ∨ ∃ key, Work.marking slot key ∈ works

structure Moment.Sound [DecidableEq κ] (x : Moment κ ρ N) (placeholder : κ) : Prop where
  coherent : x.table.Coherent placeholder
  placed : Placed x.table x.works
  filled : Filled x.table x.works

section Placed

variable {table table' : Table κ ρ N} {works : Multiset (Work κ ρ N)} {w w' : Work κ ρ N} {slot : Fin N}
  {key : κ}

theorem slot?_of_reservation (h : w.reservation? = some (slot, key)) : w.slot? = some slot := by
  rw [Work.slot?, h]
  rfl

theorem Placed.tail (h : Placed table (w ::ₘ works)) : Placed table works where
  reserved v hv := h.reserved v (Multiset.mem_cons_of_mem hv)
  apart := Multiset.nodup_of_le (Multiset.filterMap_le_filterMap _ (Multiset.le_cons_self works w)) h.apart

theorem Placed.head (h : Placed table (w ::ₘ works)) (hw : w.reservation? = some (slot, key)) :
    table.states.get slot = .loading key :=
  h.reserved w (Multiset.mem_cons_self w works) slot key hw

theorem Placed.ne_head (h : Placed table (w ::ₘ works)) (hw : w.reservation? = some (slot, key))
    {v : Work κ ρ N} (hv : v ∈ works) {s : Fin N} {k : κ} (hr : v.reservation? = some (s, k)) : slot ≠ s := by
  rintro rfl
  have hn := h.apart
  rw [Multiset.filterMap_cons_some _ _ _ (slot?_of_reservation hw), Multiset.nodup_cons,
    Multiset.mem_filterMap] at hn
  exact hn.1 ⟨v, hv, slot?_of_reservation hr⟩

theorem Placed.replace (h : Placed table (w ::ₘ works)) (hw : w'.reservation? = w.reservation?) :
    Placed table (w' ::ₘ works) where
  reserved v hv s k hr := by
    rcases Multiset.mem_cons.mp hv with rfl | hv
    · exact h.head (hw ▸ hr)
    · exact h.reserved v (Multiset.mem_cons_of_mem hv) s k hr
  apart := by
    have hn := h.apart
    rw [Multiset.filterMap_cons] at hn ⊢
    rwa [Work.slot?, hw]

theorem Placed.change (h : Placed table works)
    (hs : ∀ w ∈ works, ∀ s k, w.reservation? = some (s, k) → table'.states.get s = table.states.get s) :
    Placed table' works where
  reserved w hw s k hr := by rw [hs w hw s k hr, h.reserved w hw s k hr]
  apart := h.apart

theorem Placed.store {resource : ρ} (h : Placed table (.storing slot key resource ::ₘ works)) :
    Placed (table.store slot resource) (.marking slot key ::ₘ works) := by
  have hmarking : Placed table (.marking slot key ::ₘ works) := h.replace rfl
  exact hmarking.change fun _ _ _ _ _ => rfl

theorem Placed.mark (h : Placed table (.marking slot key ::ₘ works)) :
    Placed (table.markResident slot) (.counting ::ₘ works) := by
  rw [Table.markResident_eq (h.head rfl)]
  refine ⟨fun v hv s k hr => ?_, ?_⟩
  · rcases Multiset.mem_cons.mp hv with rfl | hv
    · cases hr
    · rw [get_set_of_ne _ _ (h.ne_head rfl hv hr)]
      exact h.tail.reserved v hv s k hr
  · rw [Multiset.filterMap_cons_none _ _ (by rfl)]
    exact h.tail.apart

theorem Placed.reserve (h : Placed table works) (hempty : table.states.get slot = .empty) :
    Placed (table.reserve slot key) (.loading slot key ::ₘ works) := by
  have hne {v} (hv : v ∈ works) {s k} (hr : Work.reservation? v = some (s, k)) : slot ≠ s := by
    rintro rfl
    rw [h.reserved v hv slot k hr] at hempty
    cases hempty
  refine ⟨fun v hv s k hr => ?_, ?_⟩
  · rcases Multiset.mem_cons.mp hv with rfl | hv
    · cases hr
      exact get_set_self _ _ _
    · simp only [Table.reserve, get_set_of_ne _ _ (hne hv hr)]
      exact h.reserved v hv s k hr
  · rw [Multiset.filterMap_cons_some Work.slot? (.loading slot key) works rfl, Multiset.nodup_cons,
      Multiset.mem_filterMap]
    refine ⟨?_, h.apart⟩
    rintro ⟨v, hv, hslot⟩
    obtain ⟨⟨s, k⟩, hr, rfl⟩ := Option.map_eq_some_iff.mp hslot
    exact hne hv hr rfl

end Placed

section Filled

variable {table table' : Table κ ρ N} {works works' : Multiset (Work κ ρ N)} {slot : Fin N} {key : κ}

theorem Filled.congr (h : Filled table works) (hc : table'.contents = table.contents)
    (hs : table'.states = table.states) (hw : ∀ s k, Work.marking s k ∈ works' ↔ Work.marking s k ∈ works) :
    Filled table' works' := by
  intro s
  rw [hc, hs, h s]
  simp only [hw]

/-- What changes at one slot only has to be looked at there. -/
theorem Filled.change (h : Filled table works) (slot : Fin N)
    (hc : ∀ s, slot ≠ s → table'.contents.get s = table.contents.get s)
    (hs : ∀ s, slot ≠ s → table'.states.get s = table.states.get s)
    (hw : ∀ s k, slot ≠ s → (Work.marking s k ∈ works' ↔ Work.marking s k ∈ works))
    (hslot : (table'.contents.get slot).isSome ↔
      (∃ key, table'.states.get slot = .resident key) ∨ ∃ key, Work.marking slot key ∈ works') :
    Filled table' works' := by
  intro s
  by_cases he : slot = s
  · rw [← he]
    exact hslot
  · rw [hc s he, hs s he, h s]
    simp only [hw s _ he]

theorem Filled.eq_none (h : Filled table works) (hs : ∀ k, table.states.get slot ≠ .resident k)
    (hw : ∀ k, Work.marking slot k ∉ works) : table.contents.get slot = none := by
  rw [← Option.not_isSome_iff_eq_none, h slot]
  rintro (⟨k, hk⟩ | ⟨k, hk⟩)
  · exact hs k hk
  · exact hw k hk

theorem Placed.not_marking (h : Placed table works) (hs : ∀ k, table.states.get slot ≠ .loading k) (k : κ) :
    Work.marking slot k ∉ works :=
  fun hm => hs k (h.reserved _ hm slot k rfl)

theorem Placed.not_marking_tail {w : Work κ ρ N} (h : Placed table (w ::ₘ works))
    (hw : w.reservation? = some (slot, key)) (k : κ) : Work.marking slot k ∉ works :=
  fun hm => h.ne_head hw hm rfl rfl

theorem Filled.reserve (hf : Filled table works) (hp : Placed table works)
    (hempty : table.states.get slot = .empty) :
    Filled (table.reserve slot key) (.loading slot key ::ₘ works) := by
  have hw : ∀ k, Work.marking slot k ∉ works := hp.not_marking (by simp [hempty])
  have hnone : table.contents.get slot = none := hf.eq_none (by simp [hempty]) hw
  refine hf.change slot (fun _ _ => rfl) (fun s hs => get_set_of_ne _ _ hs) (by simp) ?_
  simp [Table.reserve, get_set_self, hnone, hw]

theorem Filled.store {resource : ρ} (hf : Filled table (.storing slot key resource ::ₘ works)) :
    Filled (table.store slot resource) (.marking slot key ::ₘ works) := by
  refine hf.change slot (fun s hs => get_set_of_ne _ _ hs) (fun _ _ => rfl)
    (fun s k hs => by simp [Ne.symm hs]) ?_
  simp only [Table.store, get_set_self, Option.isSome_some, true_iff]
  exact Or.inr ⟨key, Multiset.mem_cons_self _ _⟩

theorem Filled.mark (hf : Filled table (.marking slot key ::ₘ works))
    (hstate : table.states.get slot = .loading key) :
    Filled (table.markResident slot) (.counting ::ₘ works) := by
  have hsome : (table.contents.get slot).isSome := (hf slot).mpr (Or.inr ⟨key, Multiset.mem_cons_self _ _⟩)
  rw [Table.markResident_eq hstate]
  refine hf.change slot (fun _ _ => rfl) (fun s hs => get_set_of_ne _ _ hs)
    (fun s k hs => by simp [Ne.symm hs]) ?_
  simp [get_set_self, hsome]

end Filled

variable [DecidableEq κ]

section Run

variable {placeholder : κ} {x y z : Moment κ ρ N} {effect : Effect ρ N} {trace more : List (Effect ρ N)}

theorem Run.single (h : Step placeholder x effect y) : Run placeholder x [effect] y := .cons h (.nil y)

theorem Run.append (h : Run placeholder x trace y) (h' : Run placeholder y more z) :
    Run placeholder x (trace ++ more) z := by
  induction h with
  | nil => exact h'
  | cons hs _ ih => exact .cons hs (ih h')

end Run

section Sound

variable {placeholder key : κ} {table table' : Table κ ρ N} {works : Multiset (Work κ ρ N)} {slot : Fin N}
  {n : Nat} {resource : Option ρ}

theorem Placed.clear (h : Placed table (.clearing slot key ::ₘ works)) : Placed (table.clear slot) works := by
  refine h.tail.change fun v hv s k hr => ?_
  rw [Table.clear_eq (Table.key?_of_loading (h.head rfl)), get_set_of_ne _ _ (h.ne_head rfl hv hr)]

theorem Placed.unload (h : Placed table works) (hunload : table.unload n = .done slot resource table') :
    Placed table' works := by
  obtain ⟨_, _, ⟨k, hstate⟩, rfl⟩ := Table.unload_done hunload
  refine h.change fun v hv s k' hr => ?_
  have hne : slot ≠ s := by
    rintro rfl
    rw [h.reserved v hv slot k' hr] at hstate
    cases hstate
  rw [Table.clear_eq (Table.key?_of_resident hstate), get_set_of_ne _ _ hne]

theorem Filled.clear (hf : Filled table (.clearing slot key ::ₘ works))
    (hp : Placed table (.clearing slot key ::ₘ works)) : Filled (table.clear slot) works := by
  have hstate := hp.head rfl
  have hw := hp.not_marking_tail rfl
  have hnone : table.contents.get slot = none := hf.eq_none (by simp [hstate]) (by simp [hw])
  rw [Table.clear_eq (Table.key?_of_loading hstate)]
  refine hf.change slot (fun _ _ => rfl) (fun s hs => get_set_of_ne _ _ hs) (fun s k hs => by simp) ?_
  simp [get_set_self, hnone, hw]

theorem Filled.unload (hf : Filled table works) (hp : Placed table works)
    (hunload : table.unload n = .done slot resource table') : Filled table' works := by
  obtain ⟨_, _, ⟨k, hstate⟩, rfl⟩ := Table.unload_done hunload
  have hw : ∀ k, Work.marking slot k ∉ works := hp.not_marking (by simp [hstate])
  rw [Table.clear_eq (Table.key?_of_resident hstate)]
  refine hf.change slot (fun s hs => get_set_of_ne _ _ hs) (fun s hs => get_set_of_ne _ _ hs)
    (fun _ _ _ => Iff.rfl) ?_
  simp [get_set_self, hw]

theorem sound_start (placeholder : κ) : (Moment.start : Moment κ ρ N).Sound placeholder where
  coherent := Table.coherent_empty placeholder
  placed := ⟨fun w hw => absurd hw (Multiset.notMem_zero w), Multiset.nodup_zero⟩
  filled slot := by simp [Moment.start, Table.empty, Vector.get]

variable {x y : Moment κ ρ N} {effect : Effect ρ N} {trace : List (Effect ρ N)}

theorem Moment.Sound.step (hx : x.Sound placeholder) (h : Step placeholder x effect y) :
    y.Sound placeholder := by
  obtain ⟨hc, hp, hf⟩ := hx
  cases h with
  | rest => exact ⟨hc, hp, hf⟩
  | reserve hprobe =>
      have hempty := (Table.vacant_of_probe hprobe).2
      exact ⟨hc.reserve hprobe, hp.reserve hempty, hf.reserve hp hempty⟩
  | succeed => exact ⟨hc, hp.replace rfl, hf.congr rfl rfl (by simp)⟩
  | fail => exact ⟨hc, hp.replace rfl, hf.congr rfl rfl (by simp)⟩
  | store => exact ⟨hc.store _ _, hp.store, hf.store⟩
  | mark => exact ⟨hc.markResident (hp.head rfl), hp.mark, hf.mark (hp.head rfl)⟩
  | count => exact ⟨hc.countLoad, hp.tail.change fun _ _ _ _ _ => rfl, hf.congr rfl rfl (by simp)⟩
  | clear => exact ⟨hc.clear (Table.key?_of_loading (hp.head rfl)), hp.clear, hf.clear hp⟩
  | standIn table works key slot =>
      obtain ⟨hstates, hcontents, _⟩ := table.addAlias_keeps key slot placeholder
      exact ⟨hc.addAlias key slot, hp.change fun _ _ _ _ _ => by rw [hstates],
        hf.congr hcontents hstates fun _ _ => Iff.rfl⟩
  | unload hunload => exact ⟨hc.unload hunload, hp.unload hunload, hf.unload hp hunload⟩

theorem Moment.Sound.run (hx : x.Sound placeholder) (h : Run placeholder x trace y) :
    y.Sound placeholder := by
  induction h with
  | nil => exact hx
  | cons hs _ ih => exact ih (hx.step hs)

end Sound

end FrameEngine.Slots
