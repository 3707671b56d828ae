namespace FrameEngine.Json.Text

inductive Piece
  | octet (b : UInt8)
  | unit (n : Nat)

def hexValue? (c : Char) : Option Nat :=
  if '0' ≤ c ∧ c ≤ '9' then some (c.toNat - 48)
  else if 'a' ≤ c ∧ c ≤ 'f' then some (c.toNat - 87)
  else if 'A' ≤ c ∧ c ≤ 'F' then some (c.toNat - 55)
  else none

def escaped? : Char → Option UInt8
  | '"' => some 34
  | '\\' => some 92
  | '/' => some 47
  | 'b' => some 8
  | 'f' => some 12
  | 'n' => some 10
  | 'r' => some 13
  | 't' => some 9
  | _ => none

def codeUnit? (a b c d : Char) : Option Nat := do
  return 4096 * (← hexValue? a) + 256 * (← hexValue? b) + 16 * (← hexValue? c) + (← hexValue? d)

def scan? : List Char → Option (List Piece × List Char)
  | '"' :: rest => some ([], rest)
  | '\\' :: 'u' :: a :: b :: c :: d :: rest => do
      let n ← codeUnit? a b c d
      let (pieces, rest) ← scan? rest
      return (.unit n :: pieces, rest)
  | '\\' :: c :: rest => do
      let b ← escaped? c
      let (pieces, rest) ← scan? rest
      return (.octet b :: pieces, rest)
  | c :: rest =>
      if c.toNat < 32 ∨ c = '\\' then none
      else (scan? rest).map fun (pieces, rest) => (.octet c.toNat.toUInt8 :: pieces, rest)
  | [] => none

def isHigh (n : Nat) : Bool := 0xD800 ≤ n && n ≤ 0xDBFF

def isLow (n : Nat) : Bool := 0xDC00 ≤ n && n ≤ 0xDFFF

/-- The octets a string stands for; none if a surrogate lacks its partner. -/
def octets? : List Piece → Option (List UInt8)
  | [] => some []
  | .octet b :: rest => (octets? rest).map (b :: ·)
  | .unit n :: .unit m :: rest =>
      if isHigh n && isLow m then
        let c := Char.ofNat (0x10000 + 1024 * (n - 0xD800) + (m - 0xDC00))
        (octets? rest).map (String.utf8EncodeChar c ++ ·)
      else if isHigh n || isLow n then none
      else (octets? (.unit m :: rest)).map (String.utf8EncodeChar (Char.ofNat n) ++ ·)
  | .unit n :: rest =>
      if isHigh n || isLow n then none
      else (octets? rest).map (String.utf8EncodeChar (Char.ofNat n) ++ ·)

def decode? (pieces : List Piece) : Option String := do
  String.fromUTF8? ⟨(← octets? pieces).toArray⟩

end FrameEngine.Json.Text
