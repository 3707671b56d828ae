import FrameEngine.Text.Hex
import FrameEngine.Text.Invisible

namespace FrameEngine.Text.Quoted

open FrameEngine.Text

def escape (c : Char) : String :=
  if c = '\x00' then "\\0"
  else if c = '\t' then "\\t"
  else if c = '\r' then "\\r"
  else if c = '\n' then "\\n"
  else if c = '\\' then "\\\\"
  else if c = '"' then "\\\""
  else if Invisible.isInvisible c then "\\u\x7b" ++ Hex.padded 1 c.toNat ++ "\x7d"
  else c.toString

def quote (text : String) : String :=
  "\"" ++ String.join (text.toList.map escape) ++ "\""

def bracketed (items : List String) : String := "[" ++ String.intercalate ", " items ++ "]"

def optional : Option String → String
  | none => "None"
  | some text => "Some(" ++ text ++ ")"

end FrameEngine.Text.Quoted
