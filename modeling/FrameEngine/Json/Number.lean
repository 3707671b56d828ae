namespace FrameEngine.Json

inductive Number
  | natural (n : UInt64)
  /-- The integer `-n`, where `n` is neither zero nor above `2 ^ 63`. -/
  | negative (n : UInt64)
  | real (x : Float)
  | outOfRange

namespace Number

def digit? (c : Char) : Option Nat := if '0' ≤ c ∧ c ≤ '9' then some (c.toNat - 48) else none

def wordLimit : Nat := UInt64.size

/-- What reading a run of digits leaves: the number so far, how many digits went into it, how many
were passed over because it would no longer fit 64 bits, and the text after them. -/
structure Digits where
  value : Nat
  kept : Nat
  dropped : Nat
  rest : List Char

def dropDigits (value kept : Nat) : Nat → List Char → Digits
  | dropped, c :: rest => match digit? c with
      | some _ => dropDigits value kept (dropped + 1) rest
      | none => ⟨value, kept, dropped, c :: rest⟩
  | dropped, [] => ⟨value, kept, dropped, []⟩

def takeDigits : Nat → Nat → List Char → Digits
  | value, kept, c :: rest => match digit? c with
      | some d =>
          if 10 * value + d < wordLimit then takeDigits (10 * value + d) (kept + 1) rest
          else dropDigits value kept 1 rest
      | none => ⟨value, kept, 0, c :: rest⟩
  | value, kept, [] => ⟨value, kept, 0, []⟩

def tenTo (k : Nat) : Float := Float.ofScientific 1 false k

def divide (x : Float) (k : Nat) : Float :=
  if k ≤ 308 then x / tenTo k
  else if x == 0 then x
  else divide (x / tenTo 308) (k - 308)
termination_by k

/-- `n * 10 ^ e`, with one rounding for the product or each quotient. -/
def ofParts (isNegative : Bool) (n : Nat) (e : Int) : Number :=
  let x := n.toUInt64.toFloat
  let signed (y : Float) := Number.real (if isNegative then -y else y)
  if e < 0 then signed (divide x e.natAbs)
  else if e ≤ 308 then
    let y := x * tenTo e.natAbs
    if y.isInf then .outOfRange else signed y
  else if x == 0 then signed x
  else .outOfRange

def ofInteger (isNegative : Bool) (n : Nat) : Number :=
  if !isNegative then .natural n.toUInt64
  else if n = 0 ∨ wordLimit / 2 < n then .real (-n.toUInt64.toFloat)
  else .negative n.toUInt64

/-- Exponents are counted up to here; one this large decides the size of a number whatever digits
stand before it. -/
def exponentLimit : Nat := 10000000000

def exponent? (s : List Char) : Option (Int × List Char) :=
  let (isNegative, s) := match s with
    | '+' :: s => (false, s)
    | '-' :: s => (true, s)
    | s => (false, s)
  let (digits, rest) := s.span fun c => (digit? c).isSome
  if digits.isEmpty then none
  else
    let n := digits.foldl (fun n c => min (10 * n + (digit? c).getD 0) exponentLimit) 0
    some (if isNegative then -(n : Int) else n, rest)

def scaled? (isNegative : Bool) (n : Nat) (e : Int) (s : List Char) : Option (Number × List Char) :=
  match s with
  | c :: rest =>
      if c = 'e' ∨ c = 'E' then (exponent? rest).map fun (k, rest) => (ofParts isNegative n (e + k), rest)
      else some (ofParts isNegative n e, s)
  | [] => some (ofParts isNegative n e, s)

def continue? (isNegative : Bool) (digits : Digits) : Option (Number × List Char) :=
  match digits.rest with
  | '.' :: s =>
      let fraction := takeDigits digits.value 0 s
      if fraction.kept + fraction.dropped = 0 then none
      else scaled? isNegative fraction.value ((digits.dropped : Int) - fraction.kept) fraction.rest
  | c :: rest =>
      if c = 'e' ∨ c = 'E' ∨ digits.dropped ≠ 0 then
        scaled? isNegative digits.value digits.dropped (c :: rest)
      else some (ofInteger isNegative digits.value, c :: rest)
  | [] =>
      if digits.dropped ≠ 0 then some (ofParts isNegative digits.value digits.dropped, [])
      else some (ofInteger isNegative digits.value, [])

def scan? (isNegative : Bool) (s : List Char) : Option (Number × List Char) :=
  match s with
  | '0' :: rest =>
      if (rest.head?.bind digit?).isSome then none else continue? isNegative ⟨0, 1, 0, rest⟩
  | c :: _ => if (digit? c).isSome then continue? isNegative (takeDigits 0 0 s) else none
  | [] => none

open Float.Model in
/-- The number of single precision nearest to a double, the even one of two that are as near. -/
def single (x : Float) : Float32 :=
  match x.toModel.unpack with
  | .finite sign mantissa exponent _ =>
      .ofModel (.pack (UnpackedFloat.round Format.binary32 sign mantissa exponent))
  | exact => .ofModel (.pack exact)

def toFloat32? : Number → Option Float32
  | .natural n => some n.toFloat32
  | .negative n => some (-n.toFloat32)
  | .real x => some (single x)
  | .outOfRange => none

end Number

end FrameEngine.Json
