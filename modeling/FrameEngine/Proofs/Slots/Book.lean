import FrameEngine.Proofs.Slots.Sessions
import FrameEngine.Proofs.Slots.Threads
import FrameEngine.Slots.Book

namespace FrameEngine.Slots

variable {κ ρ : Type} {N : Nat}

section Flags

theorem flag_eq_empty {state : SlotState κ} : state.flag = .empty ↔ state = .empty := by
  cases state <;> simp [SlotState.flag]

theorem flag_resident_iff {state : SlotState κ} {key : κ} :
    state.flag = .resident ∧ state.key? = some key ↔ state = .resident key := by
  cases state <;> simp [SlotState.flag, SlotState.key?]

end Flags

variable [DecidableEq κ]

namespace Table

variable {t : Table κ ρ N} {placeholder key : κ} {s : Fin N}

@[simp] theorem flags_book (t : Table κ ρ N) (s : Fin N) : t.book.flags.get s = (t.states.get s).flag :=
  Vector.getElem_map _ s.isLt

@[simp] theorem reverse_book (t : Table κ ρ N) (s : Fin N) : t.book.reverse.get s = (t.states.get s).key? :=
  Vector.getElem_map _ s.isLt

@[simp] theorem lookup_book (t : Table κ ρ N) : t.book.lookup = t.slotOf? := rfl

theorem book_empty : (empty : Table κ ρ N).book = .empty := by
  rw [book, Book.empty]
  congr 1 <;> simp [empty, SlotState.flag, SlotState.key?]

theorem book_reserve (t : Table κ ρ N) (s : Fin N) (key : κ) : (t.reserve s key).book = t.book.reserve s key := by
  rw [book, Book.reserve]
  congr 1
  · exact Vector.map_set
  · funext k
    rw [reserve, slotOf?_cons]
    rfl
  · exact Vector.map_set

/-- A slot that is being loaded has its key already, so that only its flag is to be written. -/
theorem book_markResident (hs : t.states.get s = .loading key) :
    (t.markResident s).book = t.book.markResident s := by
  rw [markResident_eq hs, book, Book.markResident]
  congr 1
  · exact Vector.map_set
  · have hkey : (SlotState.resident key).key? = t.book.reverse.get s := by rw [reverse_book, hs]; rfl
    rw [Vector.map_set, hkey]
    exact Vector.set_getElem_self s.isLt

theorem Coherent.book_clear (hc : t.Coherent placeholder) (s : Fin N) : (t.clear s).book = t.book.clear s := by
  rw [Book.clear, reverse_book]
  cases hs : (t.states.get s).key? with
  | none =>
      have hflag : t.book.flags.get s = .empty := by rw [flags_book, eq_empty_of_key? hs]; rfl
      have hsame : t.book.flags.set s.val .empty s.isLt = t.book.flags := by
        rw [← hflag]
        exact Vector.set_getElem_self s.isLt
      rw [Table.clear, hs, hsame]
  | some key =>
      have hown := hc.holder s key hs
      have hlookup (k : κ) (s' : Fin N) : (t.clear s).slotOf? k = some s' ↔ t.slotOf? k = some s' ∧ s' ≠ s :=
        hc.slotOf?_clear hs
      rw [clear_eq hs] at hlookup ⊢
      rw [book]
      congr 1
      · exact Vector.map_set (h := s.isLt)
      · funext k
        refine Option.ext fun s' => ?_
        rw [hlookup]
        by_cases hk : k = key
        · subst hk
          simp only [hown, Option.some.injEq, ↓reduceIte, reduceCtorEq, iff_false]
          rintro ⟨rfl, hne⟩
          exact hne rfl
        · simp [hk]
      · exact Vector.map_set (h := s.isLt)

theorem book_addAlias (t : Table κ ρ N) (key : κ) (s : Fin N) (placeholder : κ) :
    (t.addAlias key s placeholder).book = t.book.addAlias key s placeholder := by
  have hholder : t.book.flags.get s = .resident ∧ t.book.reverse.get s = some placeholder ↔
      t.states.get s = .resident placeholder := by
    rw [flags_book, reverse_book, flag_resident_iff]
  rw [addAlias, Book.addAlias]
  by_cases hs : t.states.get s = .resident placeholder
  · rw [if_pos (hholder.mpr hs)]
    cases hkey : t.slotOf? key with
    | none =>
        rw [if_pos ⟨hs, rfl⟩, book]
        congr 1
        funext k
        rw [slotOf?_cons, lookup_book]
        by_cases hk : key = k
        · subst hk
          rw [if_pos rfl, if_pos rfl, hkey]
          rfl
        · rw [if_neg hk, if_neg hk]
    | some own =>
        have hlookup : (fun k => if key = k then some ((t.slotOf? k).getD s) else t.slotOf? k) = t.slotOf? := by
          funext k
          by_cases hk : key = k
          · subst hk
            rw [if_pos rfl, hkey]
            rfl
          · rw [if_neg hk]
        rw [if_neg (by simp), lookup_book, hlookup]
        rfl
  · rw [if_neg fun h => hs h.1, if_neg fun h => hs (hholder.mp h)]

end Table

def Unloading.book : Unloading κ ρ N → Book.Unloading κ ρ N
  | .nothing => .nothing
  | .stillLoading => .stillLoading
  | .done slot resource table => .done slot resource table.book

namespace Table

variable {t : Table κ ρ N} {placeholder : κ}

theorem Coherent.book_unload (hc : t.Coherent placeholder) (n : Nat) : (t.unload n).book = t.book.unload n := by
  rw [Table.unload, Book.unload]
  by_cases hn : n < N
  · rw [dif_pos hn, dif_pos hn, flags_book]
    cases hs : t.states.get ⟨n, hn⟩ with
    | empty => rfl
    | loading key => rfl
    | resident key =>
        have hclear := hc.book_clear ⟨n, hn⟩
        simp only [SlotState.flag, Unloading.book]
        rw [← hclear]
        rfl
  · rw [dif_neg hn, dif_neg hn]
    rfl

theorem freeSlot?_book (t : Table κ ρ N) : t.book.freeSlot? = t.firstEmpty? := by
  rw [Book.freeSlot?, firstEmpty?]
  congr 1
  funext s
  rw [flags_book]
  exact decide_eq_decide.mpr flag_eq_empty

/-- No key is mapped to an empty slot. -/
theorem Coherent.probe_book (hc : t.Coherent placeholder) (key : κ) : t.book.probe key = some (t.probe key) := by
  rw [Book.probe, probe, lookup_book, freeSlot?_book]
  cases hkey : t.slotOf? key with
  | none =>
      dsimp only
      cases t.firstEmpty? <;> rfl
  | some s =>
      dsimp only
      rw [flags_book]
      have hmapped := hc.mapped key s hkey
      cases hs : t.states.get s with
      | empty =>
          rw [hs] at hmapped
          simp [SlotState.key?] at hmapped
      | loading key => rfl
      | resident key => rfl

theorem get?_book (t : Table κ ρ N) (key : κ) : t.book.get? key = t.get? key := by
  rw [Book.get?, get?, lookup_book]
  congr 1
  funext s
  rw [flags_book, reverse_book]
  exact decide_eq_decide.mpr flag_resident_iff

theorem keyAt?_book (t : Table κ ρ N) (n : Nat) : t.book.keyAt? n = t.keyAt? n := by
  rw [Book.keyAt?, keyAt?, book, Vector.getElem?_map]
  cases t.states[n]? <;> rfl

theorem isPresent_book (t : Table κ ρ N) (n : Nat) : t.book.isPresent n = t.isPresent n := by
  rw [Book.isPresent, isPresent, keyAt?, book, Vector.getElem?_map]
  cases hs : t.states[n]? with
  | none => rfl
  | some state => cases state <;> rfl

theorem keys_book (t : Table κ ρ N) : t.book.keys = t.keys := by
  rw [Book.keys, keys, book, Vector.toList_map, List.filterMap_map]
  rfl

theorem size_book (t : Table κ ρ N) : t.book.size = t.size := by
  rw [Book.size, size, book, Vector.toList_map, List.countP_map]
  refine List.countP_congr fun state _ => ?_
  simp [flag_eq_empty]

end Table

namespace Book

structure Moment (κ ρ : Type) (N : Nat) where
  book : Book κ ρ N
  works : Multiset (Work κ ρ N)

def Moment.start : Moment κ ρ N := ⟨.empty, 0⟩

inductive Step (placeholder : κ) : Moment κ ρ N → Effect ρ N → Moment κ ρ N → Prop
  | rest (x) : Step placeholder x .quiet x
  | reserve {book works slot key} (hprobe : book.probe key = some (.vacant slot)) :
      Step placeholder ⟨book, works⟩ .quiet ⟨book.reserve slot key, .loading slot key ::ₘ works⟩
  | succeed (book) (works) (slot) (key) (resource) :
      Step placeholder ⟨book, .loading slot key ::ₘ works⟩ (.returned resource)
        ⟨book, .storing slot key resource ::ₘ works⟩
  | fail (book) (works) (slot) (key) :
      Step placeholder ⟨book, .loading slot key ::ₘ works⟩ .quiet ⟨book, .clearing slot key ::ₘ works⟩
  | store (book) (works) (slot) (key) (resource) :
      Step placeholder ⟨book, .storing slot key resource ::ₘ works⟩ .quiet
        ⟨book.store slot resource, .marking slot key ::ₘ works⟩
  | mark (book) (works) (slot) (key) :
      Step placeholder ⟨book, .marking slot key ::ₘ works⟩ .quiet ⟨book.markResident slot, .counting ::ₘ works⟩
  | count (book) (works) :
      Step placeholder ⟨book, .counting ::ₘ works⟩ .quiet ⟨book.countLoad, works⟩
  | clear (book) (works) (slot) (key) :
      Step placeholder ⟨book, .clearing slot key ::ₘ works⟩ .quiet ⟨book.clear slot, works⟩
  | standIn (book) (works) (key) (slot) :
      Step placeholder ⟨book, works⟩ .quiet ⟨book.addAlias key slot placeholder, works⟩
  | unload {book book' works n slot resource} (hunload : book.unload n = .done slot resource book') :
      Step placeholder ⟨book, works⟩ (.evicted slot resource) ⟨book', works⟩

inductive Run (placeholder : κ) : Moment κ ρ N → List (Effect ρ N) → Moment κ ρ N → Prop
  | nil (x) : Run placeholder x [] x
  | cons {x effect y trace z} : Step placeholder x effect y → Run placeholder y trace z →
      Run placeholder x (effect :: trace) z

end Book

def Moment.book (x : Moment κ ρ N) : Book.Moment κ ρ N := ⟨x.table.book, x.works⟩

section Simulation

variable {placeholder : κ} {x y : Moment κ ρ N} {c : Book.Moment κ ρ N} {effect : Effect ρ N}
  {trace : List (Effect ρ N)}

theorem Moment.book_start : (Moment.start : Moment κ ρ N).book = .start := by
  rw [book, Book.Moment.start, ← Table.book_empty]
  rfl

theorem Step.book (hx : x.Sound placeholder) (h : Step placeholder x effect y) :
    Book.Step placeholder x.book effect y.book := by
  obtain ⟨hc, hp, _⟩ := hx
  cases h with
  | rest => exact .rest _
  | @reserve table works slot key hprobe =>
      have hbook := hc.probe_book key
      rw [hprobe] at hbook
      rw [Moment.book, Moment.book, Table.book_reserve]
      exact .reserve hbook
  | succeed => exact .succeed _ _ _ _ _
  | fail => exact .fail _ _ _ _
  | store => exact .store _ _ _ _ _
  | mark =>
      rw [Moment.book, Moment.book, Table.book_markResident (hp.head rfl)]
      exact .mark _ _ _ _
  | count => exact .count _ _
  | clear =>
      rw [Moment.book, Moment.book, hc.book_clear]
      exact .clear _ _ _ _
  | standIn =>
      rw [Moment.book, Moment.book, Table.book_addAlias]
      exact .standIn _ _ _ _
  | @unload table table' works n slot resource hunload =>
      have hbook := hc.book_unload n
      rw [hunload] at hbook
      exact .unload hbook.symm

/-- A table can do whatever its image in memory can. -/
theorem step_of_book (hx : x.Sound placeholder) (h : Book.Step placeholder x.book effect c) :
    ∃ y, Step placeholder x effect y ∧ y.book = c := by
  obtain ⟨t, works⟩ := x
  obtain ⟨hc, hp, _⟩ := hx
  rw [Moment.book] at h
  cases h with
  | rest => exact ⟨_, .rest _, rfl⟩
  | @reserve _ _ slot key hprobe =>
      rw [hc.probe_book key] at hprobe
      refine ⟨_, .reserve (Option.some.inj hprobe), ?_⟩
      rw [Moment.book, Table.book_reserve]
  | succeed => exact ⟨_, .succeed _ _ _ _ _, rfl⟩
  | fail => exact ⟨_, .fail _ _ _ _, rfl⟩
  | store => exact ⟨_, .store _ _ _ _ _, rfl⟩
  | mark =>
      refine ⟨_, .mark _ _ _ _, ?_⟩
      rw [Moment.book, Table.book_markResident (hp.head rfl)]
  | count => exact ⟨_, .count _ _, rfl⟩
  | clear =>
      refine ⟨_, .clear _ _ _ _, ?_⟩
      rw [Moment.book, hc.book_clear]
  | standIn _ _ key slot =>
      refine ⟨_, .standIn t works key slot, ?_⟩
      rw [Moment.book, Table.book_addAlias]
  | @unload _ _ _ n _ _ hunload =>
      rw [← hc.book_unload n] at hunload
      cases ht : t.unload n with
      | nothing | stillLoading =>
          rw [ht] at hunload
          cases hunload
      | done slot resource t' =>
          rw [ht] at hunload
          cases hunload
          exact ⟨_, .unload ht, rfl⟩

theorem Run.book (hx : x.Sound placeholder) (h : Run placeholder x trace y) :
    Book.Run placeholder x.book trace y.book := by
  induction h with
  | nil => exact .nil _
  | cons hstep _ ih => exact .cons (hstep.book hx) (ih (hx.step hstep))

theorem run_of_book {b : Book.Moment κ ρ N} (h : Book.Run placeholder b trace c) (hx : x.Sound placeholder)
    (hb : x.book = b) : ∃ y, Run placeholder x trace y ∧ y.book = c := by
  induction h generalizing x with
  | nil => exact ⟨x, .nil x, hb⟩
  | cons hstep _ ih =>
      obtain ⟨y, hy, hbook⟩ := step_of_book hx (hb ▸ hstep)
      obtain ⟨z, hz, hlast⟩ := ih (hx.step hy) hbook
      exact ⟨z, .cons hy hz, hlast⟩

/-- Tables come to just what lies in memory after the same steps. -/
theorem run_book_iff :
    Book.Run placeholder .start trace c ↔ ∃ y, Run placeholder .start trace y ∧ y.book = c := by
  rw [← Moment.book_start]
  constructor
  · intro h
    exact run_of_book h (sound_start placeholder) rfl
  · rintro ⟨y, h, rfl⟩
    exact h.book (sound_start placeholder)

/-- A slot has a key just when it is not empty, and the key of a load is there when its slot is marked. -/
theorem paired_of_run (h : Book.Run placeholder .start trace c) :
    (∀ s, c.book.flags.get s = .empty ↔ c.book.reverse.get s = none) ∧
      ∀ s key, Work.marking s key ∈ c.works →
        c.book.flags.get s = .loading ∧ c.book.reverse.get s = some key := by
  obtain ⟨y, hrun, rfl⟩ := run_book_iff.mp h
  obtain ⟨_, hp, _⟩ := (sound_start placeholder).run hrun
  refine ⟨fun s => ?_, fun s key hmarking => ?_⟩
  · rw [Moment.book, Table.flags_book, Table.reverse_book]
    cases y.table.states.get s <;> simp [SlotState.flag, SlotState.key?]
  · rw [Moment.book, Table.flags_book, Table.reverse_book, hp.reserved _ hmarking s key rfl]
    exact ⟨rfl, rfl⟩

/-- What threads do to a table, they do to what lies in memory. -/
theorem book_of_run {setting : Threads.Setting κ} {threads : Nat} {moves : List (Nat × Threads.Move κ ρ)}
    {m : Threads.Machine κ ρ N} (h : (Threads.Machine.idle threads).run? setting moves = some m) :
    ∃ trace, Book.Run setting.placeholder .start trace m.moment.book := by
  obtain ⟨trace, hrun, _⟩ := Threads.run_moment h
  rw [Threads.moment_idle] at hrun
  exact ⟨trace, run_book_iff.mpr ⟨_, hrun, rfl⟩⟩

theorem Leads.book {σ : Type} {R : σ → List (Entry ρ) → σ → Prop} {w w' : Table κ ρ N × σ}
    (h : Leads placeholder R w w') {works : Multiset (Work κ ρ N)}
    (hw : (⟨w.1, works⟩ : Moment κ ρ N).Sound placeholder) :
    ∃ trace, Book.Run placeholder ⟨w.1.book, works⟩ trace ⟨w'.1.book, works⟩ ∧
      R w.2 (trace.flatMap Effect.entries) w'.2 := by
  obtain ⟨trace, hrun, hnoted⟩ := h works
  exact ⟨trace, hrun.book hw, hnoted⟩

end Simulation

end FrameEngine.Slots
