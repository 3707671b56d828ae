namespace FrameEngine.Inspector

structure Options where
  assets : Option String := none
  materials : List String := []
  cubemap : Option String := none
  workers : Option Nat := none
  blur : Bool := false
  deriving DecidableEq

namespace Options

def digit? (c : Char) : Option Nat := if '0' ≤ c ∧ c ≤ '9' then some (c.toNat - 48) else none

def countLimit : Nat := UInt64.size

def addDigit (n : Nat) (c : Char) : Option Nat := do
  let n := 10 * n + (← digit? c)
  if n < countLimit then some n else none

/-- A count in decimal digits, at least one of them, behind an optional plus sign. -/
def count? (text : String) : Option Nat :=
  let digits := match text.toList with
    | '+' :: digits => digits
    | digits => digits
  if digits.isEmpty then none else digits.foldlM addDigit 0

/-- Takes options off the arguments, later ones over earlier ones. Unknown arguments are passed over, and so are options
whose value is missing or is no number where one is needed. -/
def take (options : Options) : List String → Options
  | [] => options
  | [flag] => if flag = "--blur" then { options with blur := true } else options
  | flag :: value :: rest =>
      if flag = "--assets" then take { options with assets := some value } rest
      else if flag = "--material" then take { options with materials := options.materials ++ [value] } rest
      else if flag = "--cubemap" then take { options with cubemap := some value } rest
      else if flag = "--workers" then
        match count? value with
        | some n => take { options with workers := some n } rest
        | none => take options (value :: rest)
      else if flag = "--blur" then take { options with blur := true } (value :: rest)
      else take options (value :: rest)
termination_by arguments => arguments.length

def ofArguments (arguments : List String) : Options := take {} arguments

end Options

end FrameEngine.Inspector
