import FrameEngine.Cubemap.Mips
import Mathlib.Data.Nat.Log
import Mathlib.Logic.Function.Iterate

namespace FrameEngine.Cubemap

open FrameEngine.Texture

structure IsLinearized (source result : Array UInt8) : Prop where
  size_eq : result.size = source.size
  bytes : ∀ i v, source[i]? = some v → result[i]? = some (if i % 4 = 3 then v else linear v)

def place (side x y c : Nat) : Nat := (y * side + x) * 4 + c

/-- Each pixel of the result is the mean of two by two source pixels, halves rounded up. All of these
bytes are there. -/
structure IsBoxFiltered (side : Nat) (source result : Array UInt8) : Prop where
  size_eq : result.size = 4 * (side / 2 * (side / 2))
  mean : ∀ x y c, x < side / 2 → y < side / 2 → c < 4 → ∃ p q r s,
    source[place side (2 * x) (2 * y) c]? = some p ∧ source[place side (2 * x + 1) (2 * y) c]? = some q ∧
    source[place side (2 * x) (2 * y + 1) c]? = some r ∧
    source[place side (2 * x + 1) (2 * y + 1) c]? = some s ∧
    result[place (side / 2) x y c]? = some (UInt8.ofNat ((p.toNat + q.toNat + r.toNat + s.toNat + 2) / 4))

theorem isLinearized_linearize (pixels : Array UInt8) : IsLinearized pixels (linearize pixels) where
  size_eq := Array.size_mapIdx
  bytes := by
    intro i v h
    rw [linearize, Array.getElem?_mapIdx, h]
    rfl

section Place

variable {side x y c : Nat}

theorem place_lt (hx : x < side) (hy : y < side) (hc : c < 4) : place side x y c < 4 * (side * side) := by
  have hrow : y * side + x < side * side := by
    calc y * side + x < y * side + side := by omega
      _ = (y + 1) * side := (Nat.succ_mul y side).symm
      _ ≤ side * side := Nat.mul_le_mul_right side hy
  rw [place]
  omega

theorem column_of_place (hx : x < side) (hc : c < 4) : place side x y c / 4 % side = x := by
  have hpixel : place side x y c / 4 = y * side + x := by rw [place]; omega
  rw [hpixel, Nat.mul_comm, Nat.mul_add_mod, Nat.mod_eq_of_lt hx]

theorem row_of_place (hx : x < side) (hc : c < 4) : place side x y c / 4 / side = y := by
  have hpixel : place side x y c / 4 = y * side + x := by rw [place]; omega
  rw [hpixel, Nat.mul_comm, Nat.mul_add_div (Nat.zero_lt_of_lt hx), Nat.div_eq_of_lt hx, Nat.add_zero]

theorem channel_of_place (hc : c < 4) : place side x y c % 4 = c := by
  rw [place]
  omega

end Place

section Downsample

variable {pixels : Array UInt8} {side x y c : Nat}

theorem half_of_two_le (h : 2 ≤ side) : half side = side / 2 := by
  rw [half]
  omega

theorem getElem?_downsample (hx : x < half side) (hy : y < half side) (hc : c < 4) :
    (downsample pixels side)[place (half side) x y c]? = some (boxed pixels side x y c) := by
  have hlt : place (half side) x y c < half side * half side * 4 := by
    have hplace := place_lt hx hy hc
    omega
  rw [downsample, Array.getElem?_ofFn, dif_pos hlt]
  simp only [column_of_place hx hc, row_of_place hx hc, channel_of_place hc]

theorem channelAt_eq {v : UInt8} (h : pixels[place side x y c]? = some v) :
    channelAt pixels side x y c = v.toNat := by
  rw [channelAt, Array.getD_eq_getD_getElem?]
  rw [place] at h
  rw [h]
  rfl

theorem isBoxFiltered_downsample (hsize : pixels.size = 4 * (side * side)) (hside : 2 ≤ side) :
    IsBoxFiltered side pixels (downsample pixels side) where
  size_eq := by
    rw [downsample, Array.size_ofFn, half_of_two_le hside, Nat.mul_comm]
  mean := by
    intro x y c hx hy hc
    have hread (x' y' : Nat) (hx' : x' < side) (hy' : y' < side) :
        ∃ v, pixels[place side x' y' c]? = some v := by
      have hlt : place side x' y' c < pixels.size := hsize ▸ place_lt hx' hy' hc
      exact ⟨_, Array.getElem?_eq_getElem hlt⟩
    obtain ⟨p, hp⟩ := hread (2 * x) (2 * y) (by omega) (by omega)
    obtain ⟨q, hq⟩ := hread (2 * x + 1) (2 * y) (by omega) (by omega)
    obtain ⟨r, hr⟩ := hread (2 * x) (2 * y + 1) (by omega) (by omega)
    obtain ⟨s, hs⟩ := hread (2 * x + 1) (2 * y + 1) (by omega) (by omega)
    refine ⟨p, q, r, s, hp, hq, hr, hs, ?_⟩
    have hhalf := half_of_two_le hside
    have hresult : (downsample pixels side)[place (half side) x y c]? = some (boxed pixels side x y c) :=
      getElem?_downsample (hhalf.symm ▸ hx) (hhalf.symm ▸ hy) hc
    rw [hhalf] at hresult
    rw [hresult, boxed]
    -- a pixel of the next level has both of its columns and rows inside, so nothing is clamped
    rw [Nat.min_eq_left (by omega), Nat.min_eq_left (by omega), Nat.min_eq_left (by omega),
      Nat.min_eq_left (by omega), channelAt_eq hp, channelAt_eq hq, channelAt_eq hr, channelAt_eq hs]

end Downsample

section Chain

variable {pixels a : Array UInt8} {side more i : Nat}

theorem length_chain (pixels : Array UInt8) (side more : Nat) : (chain pixels side more).length = more + 1 := by
  induction more generalizing pixels side with
  | zero => rfl
  | succ more ih => rw [chain, List.length_cons, ih]

theorem head_chain : (chain pixels side more)[0]? = some pixels := by
  cases more <;> rfl

theorem next_of_chain (h : (chain pixels side more)[i]? = some a) (hi : i < more) :
    (chain pixels side more)[i + 1]? = some (downsample a (half^[i] side)) := by
  induction i generalizing pixels side more with
  | zero =>
      obtain ⟨more, rfl⟩ : ∃ m, more = m + 1 := ⟨more - 1, by omega⟩
      rw [head_chain] at h
      cases h
      rw [chain, List.getElem?_cons_succ, head_chain]
      rfl
  | succ i ih =>
      obtain ⟨more, rfl⟩ : ∃ m, more = m + 1 := ⟨more - 1, by omega⟩
      rw [chain, List.getElem?_cons_succ] at h ⊢
      exact ih h (by omega)

end Chain

section Sides

variable {n i : Nat}

/-- A level with another one below it is at least two pixels wide. -/
theorem two_le_side (h : i + 1 < mipCount n) : 2 ≤ n >>> i := by
  have hfull : i + 1 < fullMipCount n n := lt_of_lt_of_le h (Nat.min_le_left _ _)
  rw [fullMipCount, Nat.max_self] at hfull
  by_cases hn : n = 0
  · rw [if_pos hn] at hfull; omega
  · rw [if_neg hn] at hfull
    have hpow : 2 ^ (i + 1) ≤ n := by
      apply (Nat.le_log2 hn).mp
      omega
    rw [Nat.shiftRight_eq_div_pow, Nat.le_div_iff_mul_le (Nat.two_pow_pos i), ← Nat.pow_succ']
    exact hpow

theorem half_shiftRight (h : i + 1 < mipCount n) : half (n >>> i) = n >>> (i + 1) := by
  rw [half_of_two_le (two_le_side h), Nat.shiftRight_succ]

theorem iterate_half (h : i < mipCount n) : half^[i] n = n >>> i := by
  induction i with
  | zero => rfl
  | succ i ih => rw [Function.iterate_succ_apply', ih (by omega), half_shiftRight h]

end Sides

section Sizes

variable {pixels a b : Array UInt8} {n i : Nat}

theorem filtered_of_chain (hsize : a.size = 4 * (n >>> i * n >>> i)) (hi : i + 1 < mipCount n)
    (ha : (chain pixels n (mipCount n - 1))[i]? = some a)
    (hb : (chain pixels n (mipCount n - 1))[i + 1]? = some b) : IsBoxFiltered (n >>> i) a b := by
  have hnext := next_of_chain ha (by omega)
  rw [iterate_half (by omega), hb] at hnext
  rw [Option.some.inj hnext]
  exact isBoxFiltered_downsample hsize (two_le_side hi)

theorem size_of_chain (hsize : pixels.size = 4 * (n * n)) (hi : i < mipCount n)
    (ha : (chain pixels n (mipCount n - 1))[i]? = some a) : a.size = 4 * (n >>> i * n >>> i) := by
  induction i generalizing a with
  | zero =>
      rw [head_chain] at ha
      rw [← Option.some.inj ha]
      exact hsize
  | succ i ih =>
      have hlength : i < (chain pixels n (mipCount n - 1)).length := by rw [length_chain]; omega
      have hbefore := List.getElem?_eq_getElem hlength
      have hfiltered := filtered_of_chain (ih (by omega) hbefore) hi hbefore ha
      rw [hfiltered.size_eq, Nat.shiftRight_succ]

end Sizes

end FrameEngine.Cubemap
