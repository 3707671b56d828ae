import FrameEngine.Proofs.Cubemap.Ranges
import Mathlib.Algebra.Group.Nat.Defs

namespace FrameEngine.Texture

open FrameEngine.Cubemap

def levelSizes (width height : Nat) : List (Nat × Nat) :=
  if width = 1 ∧ height = 1 then [(width, height)]
  else (width, height) :: levelSizes (half width) (half height)
-- a side of zero becomes one, so it weighs as much as two
termination_by (width + 2 * (1 - width)) + (height + 2 * (1 - height))
decreasing_by
  simp only [half]
  omega

section Count

variable {w h n : Nat}

theorem fullMipCount_of_pos (hn : 0 < max w h) : fullMipCount w h = Nat.log2 (max w h) + 1 := by
  rw [fullMipCount, if_neg (Nat.ne_of_gt hn)]

/-- The bit length of a number. -/
theorem pow_le_of_mipCount (hn : 0 < max w h) :
    2 ^ (fullMipCount w h - 1) ≤ max w h ∧ max w h < 2 ^ fullMipCount w h := by
  rw [fullMipCount_of_pos hn, Nat.add_sub_cancel]
  exact ⟨Nat.log2_self_le (Nat.ne_of_gt hn), Nat.lt_log2_self⟩

theorem fullMipCount_le_bits (hw : w < UInt32.size) (hh : h < UInt32.size) : fullMipCount w h ≤ 32 := by
  rw [fullMipCount]
  split
  · decide
  next hn => exact (Nat.log2_lt hn).mpr (Nat.max_lt.mpr ⟨hw, hh⟩)

end Count

section Sizes

variable {w h n : Nat}

theorem half_max (w h : Nat) : half (max w h) = max (half w) (half h) := by
  simp only [half]
  omega

theorem log2_half (hn : 2 ≤ n) : Nat.log2 n = Nat.log2 (half n) + 1 := by
  rw [half_of_two_le hn, Nat.log2_def, if_pos hn]

theorem length_levelSizes_of_pos (hw : 0 < w) (hh : 0 < h) :
    (levelSizes w h).length = Nat.log2 (max w h) + 1 := by
  induction w, h using levelSizes.induct with
  | case1 w h hone =>
      obtain ⟨rfl, rfl⟩ := hone
      rw [levelSizes, if_pos ⟨rfl, rfl⟩]
      decide
  | case2 w h hmore ih =>
      have htwo : 2 ≤ max w h := by omega
      rw [levelSizes, if_neg hmore, List.length_cons, ih (half_pos w) (half_pos h), ← half_max, log2_half htwo]

/-- A size without pixels has one size more than its halves have. -/
theorem length_levelSizes_of_zero (hzero : min w h = 0) :
    (levelSizes w h).length = Nat.log2 (half (max w h)) + 2 := by
  have hmore : ¬ (w = 1 ∧ h = 1) := by omega
  rw [levelSizes, if_neg hmore, List.length_cons, length_levelSizes_of_pos (half_pos w) (half_pos h), half_max]

theorem length_levelSizes (hn : 0 < max w h) :
    (levelSizes w h).length = fullMipCount w h + if min w h = 0 ∧ max w h = 1 then 1 else 0 := by
  rw [fullMipCount_of_pos hn]
  by_cases hzero : min w h = 0
  · rw [length_levelSizes_of_zero hzero]
    by_cases hone : max w h = 1
    · rw [if_pos ⟨hzero, hone⟩, hone]
      decide
    · rw [if_neg fun hboth => hone hboth.2, log2_half (by omega : 2 ≤ max w h)]
  · rw [if_neg fun hboth => hzero hboth.1, length_levelSizes_of_pos (by omega) (by omega)]

/-- Where a side of zero counts as one, the number of sizes is the number of mips without exception. -/
theorem length_levelSizes_max_one (w h : Nat) :
    (levelSizes (max w 1) (max h 1)).length = fullMipCount w h := by
  rw [length_levelSizes_of_pos (by omega) (by omega), fullMipCount]
  by_cases hn : max w h = 0
  · obtain ⟨rfl, rfl⟩ : w = 0 ∧ h = 0 := by omega
    decide
  · have hmax : max (max w 1) (max h 1) = max w h := by omega
    rw [hmax, if_neg hn]

theorem mipCount_le_length (n : Nat) : mipCount n ≤ (levelSizes n n).length := by
  refine Nat.le_trans (Nat.min_le_left _ _) ?_
  rcases Nat.eq_zero_or_pos n with rfl | hn
  · rw [length_levelSizes_of_zero rfl]
    decide
  · rw [length_levelSizes (by omega)]
    exact Nat.le_add_right _ _

end Sizes

/-- The number of mips of an image is the bit length of its larger side, and the number of sizes down to one by one,
except where one side is zero and the other one: there are two sizes then, and one mip. If a side of zero counts as
one, there is no exception. A cubemap does not have more mips than its faces have sizes. -/
theorem mips_by_halving (width height : Nat) (hw : width < UInt32.size) (hh : height < UInt32.size)
    (hsome : ¬ (width = 0 ∧ height = 0)) :
    2 ^ (fullMipCount width height - 1) ≤ max width height ∧ max width height < 2 ^ fullMipCount width height ∧
      1 ≤ fullMipCount width height ∧ fullMipCount width height ≤ 32 ∧
      ((levelSizes width height).length = fullMipCount width height ↔
        ¬ (min width height = 0 ∧ max width height = 1)) ∧
      (levelSizes (max width 1) (max height 1)).length = fullMipCount width height ∧
      ∀ n, mipCount n ≤ (levelSizes n n).length := by
  have hlargest : 0 < max width height := by omega
  obtain ⟨hlow, hhigh⟩ := pow_le_of_mipCount hlargest
  refine ⟨hlow, hhigh, ?_, fullMipCount_le_bits hw hh, ?_, length_levelSizes_max_one width height, mipCount_le_length⟩
  · rw [fullMipCount_of_pos hlargest]
    exact Nat.le_add_left 1 _
  · rw [length_levelSizes hlargest]
    split
    next hboth => exact ⟨fun hlength => by omega, fun hnot => absurd hboth hnot⟩
    next hnot => exact ⟨fun _ => hnot, fun _ => rfl⟩

/-- Nine mips for a side of three hundred, however small the other side is. -/
theorem mips_by_halving_strip : 2 ^ 8 ≤ 300 ∧ 300 < 2 ^ 9 ∧ (levelSizes 300 7).length = 9 ∧ mipCount 300 ≤ 9 := by
  have hcount : fullMipCount 300 7 = 9 := by decide
  obtain ⟨hlow, hhigh, _, _, hsizes, _, _⟩ := mips_by_halving 300 7 (by decide) (by decide) (by decide)
  rw [hcount] at hlow hhigh hsizes
  exact ⟨hlow, hhigh, hsizes.mpr (by decide), Nat.le_trans (Nat.min_le_right _ _) (by decide)⟩

/-- An image of no width and one row has one mip, but it is halved once to be one by one. -/
theorem empty_row_halved_once : fullMipCount 0 1 = 1 ∧ levelSizes 0 1 = [(0, 1), (1, 1)] ∧
    (levelSizes 0 1).length ≠ fullMipCount 0 1 := by
  have hsizes : levelSizes 0 1 = [(0, 1), (1, 1)] := by
    rw [levelSizes, levelSizes]
    decide
  exact ⟨by decide, hsizes, by rw [hsizes]; decide⟩

end FrameEngine.Texture
