namespace FrameEngine.Image.Checksum

def crcBit (crc : UInt32) : UInt32 :=
  if crc &&& 1 = 1 then (crc >>> 1) ^^^ 0xEDB88320 else crc >>> 1

def crcByte (crc : UInt32) (byte : UInt8) : UInt32 := Nat.repeat crcBit 8 (crc ^^^ byte.toUInt32)

def crc32 (bytes : List UInt8) : UInt32 := ~~~(bytes.foldl crcByte 0xFFFFFFFF)

def adlerModulus : Nat := 65521

def adlerSums (bytes : List UInt8) : Nat × Nat :=
  bytes.foldl (fun (low, high) byte =>
    let low := (low + byte.toNat) % adlerModulus
    (low, (high + low) % adlerModulus)) (1, 0)

def adler32 (bytes : List UInt8) : UInt32 :=
  let (low, high) := adlerSums bytes
  (high.toUInt32 <<< 16) ||| low.toUInt32

end FrameEngine.Image.Checksum
