namespace FrameEngine.Text.Hex

def padded (width n : Nat) : String :=
  let digits := Nat.toDigits 16 n
  String.ofList (List.replicate (width - digits.length) '0' ++ digits)

def prefixed (width n : Nat) : String := "0x" ++ padded width n

def digit (n : Nat) : Char :=
  if n < 10 then Char.ofNat (48 + n) else Char.ofNat (87 + n)

def digitValue? (c : Char) : Option Nat :=
  if '0' ≤ c ∧ c ≤ '9' then some (c.toNat - 48)
  else if 'a' ≤ c ∧ c ≤ 'f' then some (c.toNat - 87)
  else if 'A' ≤ c ∧ c ≤ 'F' then some (c.toNat - 55)
  else none

def ofBytes (bytes : List UInt8) : String :=
  String.ofList (bytes.foldr (fun b rest => digit (b.toNat / 16) :: digit (b.toNat % 16) :: rest) [])

def toBytes? : List Char → Option (List UInt8)
  | [] => some []
  | high :: low :: rest => do
      let h ← digitValue? high
      let l ← digitValue? low
      return UInt8.ofNat (16 * h + l) :: (← toBytes? rest)
  | [_] => none

def toNat? (digits : List Char) : Option Nat :=
  digits.foldlM (fun n c => (digitValue? c).map (16 * n + ·)) 0

end FrameEngine.Text.Hex
