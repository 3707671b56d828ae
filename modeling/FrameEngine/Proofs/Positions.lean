import Mathlib.Data.List.Nodup

namespace FrameEngine.Positions

variable {α β : Type}

theorem notMem_before {before after : List α} {a : α} (h : (before ++ a :: after).Nodup) : a ∉ before :=
  fun hm => (List.nodup_cons.mp (List.nodup_middle.mp h)).1 (List.mem_append_left _ hm)

theorem notMem_after {before after : List α} {a : α} (h : (before ++ a :: after).Nodup) : a ∉ after :=
  fun hm => (List.nodup_cons.mp (List.nodup_middle.mp h)).1 (List.mem_append_right _ hm)

theorem mem_of_idxOf_lt [DecidableEq α] {before after : List α} {a b : α} (hn : (before ++ a :: after).Nodup)
    (h : (before ++ a :: after).idxOf b < (before ++ a :: after).idxOf a) : b ∈ before := by
  rw [List.idxOf_append_of_notMem (notMem_before hn), List.idxOf_cons_self, Nat.add_zero] at h
  by_contra hb
  rw [List.idxOf_append_of_notMem hb] at h
  omega

theorem idxOf_map_of_injective [DecidableEq α] [DecidableEq β] {f : α → β} (hf : Function.Injective f)
    (l : List α) (a : α) : (l.map f).idxOf (f a) = l.idxOf a := by
  induction l with
  | nil => rfl
  | cons b l ih =>
      rw [List.map_cons]
      by_cases h : b = a
      · rw [h, List.idxOf_cons_self, List.idxOf_cons_self]
      · rw [List.idxOf_cons_ne _ h, List.idxOf_cons_ne _ (hf.ne h), ih]

theorem rel_of_idxOf_lt [DecidableEq α] {R : α → α → Prop} {l : List α} (h : l.Pairwise R) {a b : α} (hb : b ∈ l)
    (hlt : l.idxOf a < l.idxOf b) : R a b := by
  have hbl : l.idxOf b < l.length := List.idxOf_lt_length_of_mem hb
  have hrel := List.pairwise_iff_getElem.mp h _ _ (Nat.lt_trans hlt hbl) hbl hlt
  rwa [List.getElem_idxOf, List.getElem_idxOf] at hrel

theorem idxOf_lt_of_rel [DecidableEq α] {R : α → α → Prop} {l : List α} (h : l.Pairwise R) {a b : α} (ha : a ∈ l)
    (hne : a ≠ b) (hba : ¬ R b a) : l.idxOf a < l.idxOf b := by
  refine Nat.lt_of_le_of_ne (Nat.le_of_not_lt fun hlt => hba (rel_of_idxOf_lt h ha hlt)) fun he => hne ?_
  exact (List.idxOf_inj ha).mp he

theorem pairwise_of_idxOf_lt [DecidableEq α] {R : α → α → Prop} {l : List α} (hn : l.Nodup)
    (htotal : ∀ a b, a ≠ b → R a b ∨ R b a) (h : ∀ a b, R a b → l.idxOf a < l.idxOf b) : l.Pairwise R := by
  refine List.pairwise_iff_getElem.mpr fun i j hi hj hij => ?_
  have hne : l[i] ≠ l[j] := fun he => Nat.ne_of_lt hij (hn.getElem_inj_iff.mp he)
  refine (htotal _ _ hne).resolve_right fun hji => ?_
  have hlt := h _ _ hji
  rw [hn.idxOf_getElem, hn.idxOf_getElem] at hlt
  omega

/-- A list that respects a relation between all items is determined by its items. -/
theorem eq_of_idxOf_lt [DecidableEq α] {R : α → α → Prop} {l m : List α} (hl : l.Nodup) (hm : m.Nodup)
    (hmem : ∀ a, a ∈ l ↔ a ∈ m) (htotal : ∀ a b, a ≠ b → R a b ∨ R b a)
    (h : ∀ a b, R a b → l.idxOf a < l.idxOf b) (h' : ∀ a b, R a b → m.idxOf a < m.idxOf b) : l = m := by
  refine List.Perm.eq_of_pairwise ?_ (pairwise_of_idxOf_lt hl htotal h) (pairwise_of_idxOf_lt hm htotal h')
    ((List.perm_ext_iff_of_nodup hl hm).mpr hmem)
  intro a b _ _ hab hba
  exact absurd (h a b hab) (Nat.lt_asymm (h b a hba))

theorem findSome?_eq_some_iff_getElem? {f : α → Option β} {l : List α} {b : β} :
    l.findSome? f = some b ↔
      ∃ (k : Nat) (a : α), l[k]? = some a ∧ f a = some b ∧ ∀ j < k, ∀ a', l[j]? = some a' → f a' = none := by
  rw [List.findSome?_eq_some_iff]
  constructor
  · rintro ⟨before, a, after, rfl, ha, hnone⟩
    refine ⟨before.length, a, by simp, ha, fun j hj a' ha' => hnone a' ?_⟩
    rw [List.getElem?_append_left hj] at ha'
    exact List.mem_of_getElem? ha'
  · rintro ⟨k, a, hk, ha, hnone⟩
    obtain ⟨hlt, rfl⟩ := List.getElem?_eq_some_iff.mp hk
    refine ⟨l.take k, l[k], l.drop (k + 1), by simp, ha, fun a' ha' => ?_⟩
    obtain ⟨j, hj, rfl⟩ := List.mem_iff_getElem.mp ha'
    rw [List.length_take] at hj
    exact hnone j (by omega) _ (by rw [List.getElem_take, List.getElem?_eq_getElem])

theorem mem_zip_split {l : List α} {m : List β} {a : α} {b : β} (h : (a, b) ∈ l.zip m) :
    ∃ l₁ l₂ m₁ m₂, l = l₁ ++ a :: l₂ ∧ m = m₁ ++ b :: m₂ ∧ l₁.length = m₁.length := by
  induction l generalizing m with
  | nil => cases h
  | cons x l ih =>
      cases m with
      | nil => cases h
      | cons y m =>
          rcases List.mem_cons.mp h with he | h
          · cases he
            exact ⟨[], l, [], m, rfl, rfl, rfl⟩
          · obtain ⟨l₁, l₂, m₁, m₂, rfl, rfl, hlength⟩ := ih h
            exact ⟨x :: l₁, l₂, y :: m₁, m₂, rfl, rfl, congrArg (· + 1) hlength⟩

end FrameEngine.Positions
