namespace FrameEngine

def total (amounts : List Nat) : Nat := amounts.foldr (· + ·) 0

@[simp] theorem total_nil : total [] = 0 := rfl

@[simp] theorem total_cons (n : Nat) (rest : List Nat) : total (n :: rest) = n + total rest := rfl

theorem total_map_le {α : Type} (f g : α → Nat) (l : List α) (h : ∀ a ∈ l, g a ≤ f a) :
    total (l.map g) ≤ total (l.map f) := by
  induction l with
  | nil => simp
  | cons a l ih =>
      have ha := h a (by simp)
      have hl := ih fun b hb => h b (by simp [hb])
      simp only [List.map_cons, total_cons]
      omega

/-- A total that loses `k` at one item and gains nowhere loses `k`. -/
theorem total_map_add_le {α : Type} (f g : α → Nat) (k : Nat) (l : List α) (a : α) (ha : a ∈ l)
    (hk : g a + k ≤ f a) (h : ∀ b ∈ l, g b ≤ f b) : total (l.map g) + k ≤ total (l.map f) := by
  induction l with
  | nil => simp at ha
  | cons b l ih =>
      simp only [List.map_cons, total_cons]
      rcases List.mem_cons.mp ha with rfl | ha
      · have hl := total_map_le f g l fun b hb => h b (by simp [hb])
        omega
      · have hb := h b (by simp)
        have hl := ih ha fun b hb => h b (by simp [hb])
        omega

end FrameEngine
