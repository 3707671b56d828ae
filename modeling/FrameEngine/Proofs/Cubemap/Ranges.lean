import FrameEngine.Proofs.Cubemap.Mips

namespace FrameEngine.Cubemap

open FrameEngine.Texture

def clamped (side k : Nat) : Nat := min k (side - 1)

/-- Each byte of the result is the mean of four bytes of the same channel in the source, halves rounded up, and it is
neither below all of them nor above. All of these bytes are there. -/
structure IsHalved (side : Nat) (source result : Array UInt8) : Prop where
  size_eq : result.size = 4 * (max 1 (side / 2) * max 1 (side / 2))
  mean : ∀ x y c, x < max 1 (side / 2) → y < max 1 (side / 2) → c < 4 → ∃ p q r s v : UInt8,
    source[place side (clamped side (2 * x)) (clamped side (2 * y)) c]? = some p ∧
    source[place side (clamped side (2 * x + 1)) (clamped side (2 * y)) c]? = some q ∧
    source[place side (clamped side (2 * x)) (clamped side (2 * y + 1)) c]? = some r ∧
    source[place side (clamped side (2 * x + 1)) (clamped side (2 * y + 1)) c]? = some s ∧
    result[place (max 1 (side / 2)) x y c]? = some v ∧
    v.toNat = (p.toNat + q.toNat + r.toNat + s.toNat + 2) / 4 ∧
    min (min p.toNat q.toNat) (min r.toNat s.toNat) ≤ v.toNat ∧
    v.toNat ≤ max (max p.toNat q.toNat) (max r.toNat s.toNat)

def IsSample (pixels : Array UInt8) (side c : Nat) (v : UInt8) : Prop :=
  ∃ x y, x < side ∧ y < side ∧ pixels[place side x y c]? = some v

def InRange (pixels : Array UInt8) (side c : Nat) (low high : UInt8) : Prop :=
  ∀ v, IsSample pixels side c v → low ≤ v ∧ v ≤ high

def ChannelLe (side c : Nat) (pixels others : Array UInt8) : Prop :=
  ∀ x y v w, x < side → y < side → pixels[place side x y c]? = some v → others[place side x y c]? = some w → v ≤ w

section Halved

variable {pixels others : Array UInt8} {side x y c : Nat}

theorem half_eq_max (side : Nat) : half side = max 1 (side / 2) := Nat.max_comm _ _

theorem half_pos (side : Nat) : 0 < half side := by
  rw [half]
  omega

theorem clamped_lt (h : 0 < side) (k : Nat) : clamped side k < side := by
  rw [clamped]
  omega

theorem exists_sample (hsize : pixels.size = 4 * (side * side)) (hx : x < side) (hy : y < side) (hc : c < 4) :
    ∃ v, pixels[place side x y c]? = some v :=
  ⟨_, Array.getElem?_eq_getElem (hsize ▸ place_lt hx hy hc)⟩

/-- The mean of four bytes is a byte. -/
theorem toNat_mean (p q r s : UInt8) :
    (UInt8.ofNat ((p.toNat + q.toNat + r.toNat + s.toNat + 2) / 4)).toNat =
      (p.toNat + q.toNat + r.toNat + s.toNat + 2) / 4 := by
  have hp := p.toNat_lt
  have hq := q.toNat_lt
  have hr := r.toNat_lt
  have hs := s.toNat_lt
  exact UInt8.toNat_ofNat_of_lt' (by rw [UInt8.size]; omega)

theorem mean_between (p q r s : Nat) :
    min (min p q) (min r s) ≤ (p + q + r + s + 2) / 4 ∧ (p + q + r + s + 2) / 4 ≤ max (max p q) (max r s) := by
  omega

theorem size_downsample (pixels : Array UInt8) (side : Nat) :
    (downsample pixels side).size = 4 * (half side * half side) := by
  rw [downsample, Array.size_ofFn, Nat.mul_comm]

theorem isHalved_downsample (hside : 0 < side) (hsize : pixels.size = 4 * (side * side)) :
    IsHalved side pixels (downsample pixels side) where
  size_eq := by rw [size_downsample, half_eq_max]
  mean := by
    intro x y c hx hy hc
    rw [← half_eq_max] at hx hy ⊢
    have hread (x' y' : Nat) : ∃ v, pixels[place side (clamped side x') (clamped side y') c]? = some v :=
      exists_sample hsize (clamped_lt hside x') (clamped_lt hside y') hc
    obtain ⟨p, hp⟩ := hread (2 * x) (2 * y)
    obtain ⟨q, hq⟩ := hread (2 * x + 1) (2 * y)
    obtain ⟨r, hr⟩ := hread (2 * x) (2 * y + 1)
    obtain ⟨s, hs⟩ := hread (2 * x + 1) (2 * y + 1)
    have hboxed : boxed pixels side x y c = UInt8.ofNat ((p.toNat + q.toNat + r.toNat + s.toNat + 2) / 4) := by
      rw [boxed, ← channelAt_eq hp, ← channelAt_eq hq, ← channelAt_eq hr, ← channelAt_eq hs]
      rfl
    refine ⟨p, q, r, s, _, hp, hq, hr, hs, getElem?_downsample hx hy hc, ?_⟩
    rw [hboxed, toNat_mean]
    exact ⟨rfl, mean_between ..⟩

/-- What is halved depends on each sample of the same channel, and grows with it. -/
theorem ChannelLe.downsample (hside : 0 < side) (hpixels : pixels.size = 4 * (side * side))
    (hothers : others.size = 4 * (side * side)) (hc : c < 4) (h : ChannelLe side c pixels others) :
    ChannelLe (half side) c (downsample pixels side) (Cubemap.downsample others side) := by
  intro x y v w hx hy hv hw
  rw [half_eq_max] at hx hy hv hw
  obtain ⟨p, q, r, s, _, hp, hq, hr, hs, hmean, heq, _⟩ := (isHalved_downsample hside hpixels).mean x y c hx hy hc
  obtain ⟨p', q', r', s', _, hp', hq', hr', hs', hmean', heq', _⟩ :=
    (isHalved_downsample hside hothers).mean x y c hx hy hc
  cases hmean.symm.trans hv
  cases hmean'.symm.trans hw
  have hle {x' y' : Nat} {a b : UInt8}
      (ha : pixels[place side (clamped side x') (clamped side y') c]? = some a)
      (hb : others[place side (clamped side x') (clamped side y') c]? = some b) : a.toNat ≤ b.toNat :=
    UInt8.le_iff_toNat_le.mp (h _ _ a b (clamped_lt hside x') (clamped_lt hside y') ha hb)
  have hple := hle hp hp'
  have hqle := hle hq hq'
  have hrle := hle hr hr'
  have hsle := hle hs hs'
  rw [UInt8.le_iff_toNat_le, heq, heq']
  omega

theorem InRange.downsample {low high : UInt8} (hside : 0 < side) (hsize : pixels.size = 4 * (side * side))
    (hc : c < 4) (h : InRange pixels side c low high) : InRange (downsample pixels side) (half side) c low high := by
  rintro v ⟨x, y, hx, hy, hv⟩
  rw [half_eq_max] at hx hy hv
  obtain ⟨p, q, r, s, _, hp, hq, hr, hs, hmean, _, hlow, hhigh⟩ :=
    (isHalved_downsample hside hsize).mean x y c hx hy hc
  cases hmean.symm.trans hv
  have hwithin {x' y' : Nat} {a : UInt8}
      (ha : pixels[place side (clamped side x') (clamped side y') c]? = some a) :
      low.toNat ≤ a.toNat ∧ a.toNat ≤ high.toNat := by
    have hle := h a ⟨_, _, clamped_lt hside x', clamped_lt hside y', ha⟩
    exact ⟨UInt8.le_iff_toNat_le.mp hle.1, UInt8.le_iff_toNat_le.mp hle.2⟩
  have hp := hwithin hp
  have hq := hwithin hq
  have hr := hwithin hr
  have hs := hwithin hs
  rw [UInt8.le_iff_toNat_le, UInt8.le_iff_toNat_le]
  omega

end Halved

def IsUniform (pixels : Array UInt8) (side c : Nat) (v : UInt8) : Prop := ∀ w, IsSample pixels side c w → w = v

/-- Levels whose side is halved from each to the next: none leaves the range of the first one in any channel, and a
uniform channel keeps its value. -/
structure KeepsRanges (side : Nat) (levels : List (Array UInt8)) : Prop where
  size_eq : ∀ (i : Nat) level, levels[i]? = some level → level.size = 4 * (half^[i] side * half^[i] side)
  inRange : ∀ base, levels[0]? = some base → ∀ (i : Nat) level, levels[i]? = some level → ∀ c < 4, ∀ low high,
    InRange base side c low high → InRange level (half^[i] side) c low high
  uniform : ∀ base, levels[0]? = some base → ∀ (i : Nat) level, levels[i]? = some level → ∀ c < 4, ∀ v,
    IsUniform base side c v → IsUniform level (half^[i] side) c v

section Levels

variable {pixels level : Array UInt8} {side more i : Nat}

theorem isUniform_iff {c : Nat} {v : UInt8} : IsUniform pixels side c v ↔ InRange pixels side c v v := by
  refine forall₂_congr fun w _ => ⟨?_, fun h => UInt8.le_antisymm h.2 h.1⟩
  rintro rfl
  exact ⟨UInt8.le_refl w, UInt8.le_refl w⟩

theorem iterate_half_pos (h : 0 < side) (i : Nat) : 0 < half^[i] side := by
  cases i with
  | zero => exact h
  | succ i =>
      rw [Function.iterate_succ_apply']
      exact half_pos _

/-- A level of a chain is its first picture, or half of the level before it. -/
theorem level_of_chain (h : (chain pixels side more)[i + 1]? = some level) :
    ∃ above, (chain pixels side more)[i]? = some above ∧ level = downsample above (half^[i] side) := by
  obtain ⟨hlength, _⟩ := List.getElem?_eq_some_iff.mp h
  have hmore : i < more := by
    rw [length_chain] at hlength
    omega
  have habove : (chain pixels side more)[i]? = some _ := List.getElem?_eq_getElem (Nat.lt_of_succ_lt hlength)
  have hnext := next_of_chain habove hmore
  rw [h] at hnext
  exact ⟨_, habove, Option.some.inj hnext⟩

theorem size_of_level (hsize : pixels.size = 4 * (side * side)) (h : (chain pixels side more)[i]? = some level) :
    level.size = 4 * (half^[i] side * half^[i] side) := by
  cases i with
  | zero =>
      rw [head_chain] at h
      rw [← Option.some.inj h]
      exact hsize
  | succ i =>
      obtain ⟨above, _, rfl⟩ := level_of_chain h
      rw [size_downsample, Function.iterate_succ_apply']

theorem inRange_of_level {c : Nat} {low high : UInt8} (hside : 0 < side) (hsize : pixels.size = 4 * (side * side))
    (hc : c < 4) (hrange : InRange pixels side c low high) (h : (chain pixels side more)[i]? = some level) :
    InRange level (half^[i] side) c low high := by
  induction i generalizing level with
  | zero =>
      rw [head_chain] at h
      rw [← Option.some.inj h]
      exact hrange
  | succ i ih =>
      obtain ⟨above, habove, rfl⟩ := level_of_chain h
      rw [Function.iterate_succ_apply']
      exact (ih habove).downsample (iterate_half_pos hside i) (size_of_level hsize habove) hc

theorem keepsRanges_chain (hside : 0 < side) (hsize : pixels.size = 4 * (side * side)) (more : Nat) :
    KeepsRanges side (chain pixels side more) where
  size_eq _ _ h := size_of_level hsize h
  inRange base hbase i level h c hc low high hrange := by
    rw [head_chain] at hbase
    rw [← Option.some.inj hbase] at hrange
    exact inRange_of_level hside hsize hc hrange h
  uniform base hbase i level h c hc v huniform := by
    rw [head_chain] at hbase
    rw [← Option.some.inj hbase] at huniform
    exact isUniform_iff.mpr (inRange_of_level hside hsize hc (isUniform_iff.mp huniform) h)

theorem length_faceLevels (face : TextureData) (mips : Nat) : (faceLevels face mips).length = max 1 mips := by
  rw [faceLevels, length_chain]
  omega

theorem keepsRanges_faceLevels (face : TextureData) (hside : 0 < side)
    (hsquare : face.width = side ∧ face.height = side) (mips : Nat) : KeepsRanges side (faceLevels face mips) := by
  have hsize : face.pixels.size = 4 * (side * side) := by rw [face.size_pixels, hsquare.1, hsquare.2]
  rw [faceLevels, hsquare.1]
  refine keepsRanges_chain hside ?_ _
  -- to make a face linear keeps its size
  split
  · rw [(isLinearized_linearize _).size_eq, hsize]
  · exact hsize

end Levels

/-- For a square picture with any pixels, halving reads bytes of the picture only, gives means of its channels, and is
monotone in each channel; and no level of a face, however many there are, leaves the ranges of its first level. -/
theorem mips_keep_ranges (n : Nat) (hn : 1 ≤ n) :
    (∀ pixels : Array UInt8, pixels.size = 4 * (n * n) → IsHalved n pixels (downsample pixels n)) ∧
    (∀ pixels others : Array UInt8, pixels.size = 4 * (n * n) → others.size = 4 * (n * n) → ∀ c < 4,
      ChannelLe n c pixels others → ChannelLe (half n) c (downsample pixels n) (downsample others n)) ∧
    ∀ (face : TextureData) (mips : Nat), face.width = n ∧ face.height = n →
      (faceLevels face mips).length = max 1 mips ∧ KeepsRanges n (faceLevels face mips) := by
  refine ⟨fun pixels hsize => isHalved_downsample hn hsize, ?_, ?_⟩
  · intro pixels others hpixels hothers c hc hle
    exact hle.downsample hn hpixels hothers hc
  · intro face mips hsquare
    exact ⟨length_faceLevels face mips, keepsRanges_faceLevels face hn hsquare mips⟩

def steps : TextureData where
  width := 3
  height := 3
  format := .rgba8Unorm
  pixels := Array.ofFn (n := 36) fun i => if i.val % 4 = 3 then 200 else UInt8.ofNat (7 * i.val)
  size_pixels := Array.size_ofFn

theorem mips_keep_ranges_steps : 1 ≤ 3 ∧ IsHalved 3 steps.pixels (downsample steps.pixels 3) ∧
    ∃ level, (faceLevels steps 4)[3]? = some level ∧ IsUniform level 1 3 200 := by
  obtain ⟨hhalved, _, hlevels⟩ := mips_keep_ranges 3 (by decide)
  obtain ⟨hlength, hkeeps⟩ := hlevels steps 4 ⟨rfl, rfl⟩
  have hlast : (faceLevels steps 4)[3]? = some _ := List.getElem?_eq_getElem (by rw [hlength]; decide)
  refine ⟨by decide, hhalved _ steps.size_pixels, _, hlast, ?_⟩
  refine hkeeps.uniform steps.pixels rfl 3 _ hlast 3 (by decide) 200 ?_
  rintro w ⟨x, y, hx, hy, hw⟩
  have hlt := place_lt hx hy (by decide : 3 < 4)
  rw [steps, Array.getElem?_ofFn, dif_pos hlt] at hw
  rw [← Option.some.inj hw, if_pos (channel_of_place (by decide))]

/-- Two rows of two pixels become the mean of all four. -/
example : downsample #[0, 0, 0, 255, 100, 100, 100, 255, 200, 200, 200, 255, 100, 100, 100, 255] 2 =
    #[100, 100, 100, 255] := by decide

end FrameEngine.Cubemap
