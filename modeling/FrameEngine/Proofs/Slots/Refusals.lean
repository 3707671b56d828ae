import FrameEngine.Proofs.Slots.Outcomes

namespace FrameEngine.Slots

variable {σ κ ρ : Type} [DecidableEq κ] {N : Nat}

namespace Loader

variable {L : Loader σ κ ρ N} {R : σ → σ → Prop} {t t' : Table κ ρ N} {key : κ} {e e' : σ}

section Refusals

/-- What loads report is why a call fails: one of them fails for good, or that of the placeholder finds nothing. -/
inductive Reported (L : Loader σ κ ρ N) (t : Table κ ρ N) (key : κ) : SlotError → Prop
  | fatal {key' s e cause} (hkey : key' = key ∨ key' = L.placeholder)
      (hload : (L.load key' (t.reserve s key', e)).1 = .error (.fatal cause)) : Reported L t key cause
  | missing {s e e' reason}
      (hload : (L.load L.placeholder (t.reserve s L.placeholder, e)).1 = .error (.unavailable reason)) :
      Reported L t key (.missingPlaceholder L.kind (L.describe e' L.placeholder) reason)

variable {cause : SlotError}

theorem Attempt.full_or_reported (h : L.Attempt t key e (.error cause, t', e')) :
    (t.probe key = .full ∧ cause = .outOfSlots L.kind N) ∨ (∃ s, t.probe key = .vacant s) ∧ L.Reported t key cause := by
  cases h with
  | full hprobe => exact .inl ⟨hprobe, rfl⟩
  | fatal hprobe hload => exact .inr ⟨⟨_, hprobe⟩, .fatal (.inl rfl) (congrArg Prod.fst hload)⟩

theorem Comes.refused (h : L.Comes t key e (.error cause, t', e')) :
    t' = t ∧ ((t.probe key = .full ∧ cause = .outOfSlots L.kind N) ∨
      (∃ s, t.probe key = .vacant s) ∧ L.Reported t key cause) := by
  generalize hanswer : (Except.error cause, t', e') = answer at h
  induction h with
  | own => cases hanswer
  | failed hattempt =>
      cases hanswer
      exact ⟨hattempt.keeps, hattempt.full_or_reported⟩
  | missing hattempt =>
      cases hanswer
      obtain ⟨s, hprobe, hload⟩ := hattempt.vacant
      exact ⟨hattempt.keeps_of_unavailable, .inr ⟨⟨s, hprobe⟩, .missing (congrArg Prod.fst hload)⟩⟩
  | @fallback key e reason t₁ e₁ answer hkey hattempt _ ih =>
      obtain ⟨s, hprobe, _⟩ := hattempt.vacant
      rcases answer with ⟨cause' | s', t₂, e₂⟩
      · cases hanswer
        obtain ⟨hsame, ⟨hfull, _⟩ | ⟨_, hreported⟩⟩ := ih rfl
        · exact absurd hfull (Table.not_full_of_vacant hprobe _)
        · refine ⟨hsame, .inr ⟨⟨s, hprobe⟩, ?_⟩⟩
          cases hreported with
          | fatal hkey' hload => exact .fatal (.inr (hkey'.elim id id)) hload
          | missing hload => exact .missing hload
      · cases hanswer

end Refusals

/-- A call that fails on a settled table, with loads that leave the table alone, leaves it in every part as it was. For
want of a slot, and before any load, it fails just if its key has none and none is free; if loads were begun, they
report why it fails. -/
theorem refused_call_undone (hL : L.Detached R) (ht : t.Settled L.placeholder) (key : κ) (e : σ) :
    (∀ cause t' e', L.loadOrGet key (t, e) = (.error cause, t', e') →
      t' = t ∧ (L.loadsBegun key (t, e) ≠ [] → L.Reported t key cause)) ∧
    ((L.loadOrGet key (t, e)).1 = .error (.outOfSlots L.kind N) ∧ L.loadsBegun key (t, e) = [] ↔
      t.slotOf? key = none ∧ ∀ s, t.states.get s ≠ .empty) := by
  have hcomes := hL.comes ht key e
  rw [loadsBegun_eq_nil_iff, ← Table.probe_eq_full_iff]
  refine ⟨fun cause t' e' hanswer => ?_, ?_, fun hfull => ?_⟩
  · rw [hanswer] at hcomes
    obtain ⟨hsame, ⟨hfull, _⟩ | ⟨_, hreported⟩⟩ := hcomes.refused
    · exact ⟨hsame, fun hbegun => absurd (loadsBegun_eq_nil_iff.mpr fun s => by simp [hfull]) hbegun⟩
    · exact ⟨hsame, fun _ => hreported⟩
  · rintro ⟨hanswer, hnone⟩
    rcases hcall : L.loadOrGet key (t, e) with ⟨answer, t', e'⟩
    rw [hcall] at hcomes hanswer
    obtain rfl := hanswer
    obtain ⟨_, ⟨hfull, _⟩ | ⟨⟨s, hvacant⟩, _⟩⟩ := hcomes.refused
    · exact hfull
    · exact absurd hvacant (hnone s)
  · have hown : L.loadKey key (t, e) = (.error (.outOfSlots L.kind N), t, e) := by rw [loadKey, hfull]
    exact ⟨by rw [loadOrGet, hown], by simp [hfull]⟩

def scanty : Loader (List (Entry Nat)) Nat Nat 2 :=
  recorder 9 (fun key => if key < 2 then .ok (10 * key) else .error (.unavailable "none")) (fun _ => []) 0

def scantyTable (keys : List Nat) : Table Nat Nat 2 :=
  ((keys.map Op.load).foldl (fun w op => scanty.perform op w) (.empty, [])).1

theorem scanty_detached : scanty.Detached fun _ _ => True where
  refl _ := trivial
  trans _ _ := trivial
  note _ _ := trivial
  load _ _ _ := ⟨_, _, rfl, trivial⟩

theorem scantyTable_settled (keys : List Nat) : (scantyTable keys).Settled scanty.placeholder := by
  have hnests : scanty.Nests [id] 0 := recorder_nests _ _ _ 0
  exact (Table.settled_empty _).leads (hnests.orderly.session (session_foldl (keys.map Op.load) (.empty, [])))

/-- With one slot taken, the loads of a missing key and of the placeholder are begun in vain. With both taken, neither
is. -/
theorem refused_call_undone_scanty :
    (scanty.loadsBegun 2 (scantyTable [1], []) = [2, 9] ∧
      (scanty.loadOrGet 2 (scantyTable [1], [])).2.1 = scantyTable [1] ∧
      scanty.Reported (scantyTable [1]) 2 (.missingPlaceholder "recorded" "" "none")) ∧
    scanty.loadsBegun 2 (scantyTable [1, 0], []) = [] ∧
      (scantyTable [1, 0]).slotOf? 2 = none ∧ ∀ s, (scantyTable [1, 0]).states.get s ≠ .empty := by
  obtain ⟨hone, _⟩ := refused_call_undone scanty_detached (scantyTable_settled [1]) 2 []
  obtain ⟨hsame, hreported⟩ := hone (.missingPlaceholder "recorded" "" "none") (scantyTable [1]) [] rfl
  obtain ⟨_, hboth⟩ := refused_call_undone scanty_detached (scantyTable_settled [1, 0]) 2 []
  have hloads : scanty.loadsBegun 2 (scantyTable [1], []) = [2, 9] := rfl
  exact ⟨⟨hloads, hsame, hreported (by simp [hloads])⟩, rfl, hboth.mp ⟨rfl, rfl⟩⟩

end Loader

end FrameEngine.Slots
