import FrameEngine.Json.Value
import FrameEngine.Text.Hex

namespace FrameEngine.Asset

structure AssetId where
  raw : UInt32
  deriving DecidableEq

namespace AssetId

def offsetBasis : UInt32 := 2166136261

def multiplier : UInt32 := 16777619

def separator (byte : UInt8) : UInt8 := if byte = 92 then 47 else byte

def mix (hash : UInt32) (byte : UInt8) : UInt32 := (hash ^^^ byte.toUInt32) * multiplier

/-- The hash runs over the bytes of the path and a closing zero byte. -/
def ofBytes (path : List UInt8) : AssetId :=
  ⟨(path.map separator ++ [0]).foldl mix offsetBasis⟩

def ofPath (path : String) : AssetId := ofBytes (path.toList.flatMap String.utf8EncodeChar)

def text (id : AssetId) : String := Text.Hex.prefixed 8 id.raw.toNat

instance : LT AssetId := ⟨fun a b => a.raw < b.raw⟩

instance (a b : AssetId) : Decidable (a < b) := inferInstanceAs (Decidable (a.raw < b.raw))

def jsonText (id : AssetId) : String := toString id.raw

/-- Takes an integer that fits 32 bits. -/
def ofJson? : Json → Option AssetId
  | .number (.natural n) => if n.toNat < UInt32.size then some ⟨n.toUInt32⟩ else none
  | _ => none

def sorted (ids : List AssetId) : List AssetId :=
  (ids.mergeSort (fun a b => a.raw ≤ b.raw)).foldr
    (fun id rest => if rest.head? = some id then rest else id :: rest) []

end AssetId

end FrameEngine.Asset
