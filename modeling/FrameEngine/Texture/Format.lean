namespace FrameEngine

structure Format where
  raw : Int
  deriving DecidableEq

namespace Format

def rgba8Unorm : Format := ⟨37⟩

def rgba8Srgb : Format := ⟨43⟩

def rgba16Float : Format := ⟨97⟩

def depth32Float : Format := ⟨126⟩

def rgba8 (srgb : Bool) : Format := if srgb then rgba8Srgb else rgba8Unorm

end Format

end FrameEngine
