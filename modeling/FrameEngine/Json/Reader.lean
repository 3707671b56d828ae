import FrameEngine.Json.Text
import FrameEngine.Json.Value

namespace FrameEngine.Json.Reader

inductive Open
  | items (done : List Json)
  /-- The value of `key` comes next. -/
  | members (done : List (Option String × Json)) (key : Option String)

def deepest : Nat := 127

def skipSpace (s : List Char) : List Char :=
  s.dropWhile fun c => c = ' ' ∨ c = '\n' ∨ c = '\t' ∨ c = '\r'

def closed (above : List Open) (value : Json) : Json :=
  if (above.drop (deepest - 1)).isEmpty then value else .tooDeep

def key? (s : List Char) : Option (Option String × List Char) := do
  let (pieces, s) ← Text.scan? s
  match skipSpace s with
  | ':' :: s => return (Text.decode? pieces, s)
  | _ => none

inductive Task
  | value
  | after (value : Json)

def scalar? : List Char → Option (Json × List Char)
  | 'n' :: 'u' :: 'l' :: 'l' :: s => some (.null, s)
  | 't' :: 'r' :: 'u' :: 'e' :: s => some (.bool true, s)
  | 'f' :: 'a' :: 'l' :: 's' :: 'e' :: s => some (.bool false, s)
  | '"' :: s => (Text.scan? s).map fun (pieces, s) => (.string (Text.decode? pieces), s)
  | '-' :: s => (Number.scan? true s).map fun (n, s) => (.number n, s)
  | s => (Number.scan? false s).map fun (n, s) => (.number n, s)

/-- Runs the reader. Every step but the last takes an octet, so the length of the text bounds their
number. -/
def run : Nat → Task → List Open → List Char → Option Json
  | 0, _, _, _ => none
  | fuel + 1, .value, stack, s => match skipSpace s with
      | '[' :: s => match skipSpace s with
          | ']' :: s => run fuel (.after (closed stack (.array []))) stack s
          | s => run fuel .value (.items [] :: stack) s
      | '{' :: s => match skipSpace s with
          | '}' :: s => run fuel (.after (closed stack (.object []))) stack s
          | '"' :: s => do
              let (key, s) ← key? s
              run fuel .value (.members [] key :: stack) s
          | _ => none
      | s => do
          let (value, s) ← scalar? s
          run fuel (.after value) stack s
  | _ + 1, .after value, [], s => if (skipSpace s).isEmpty then some value else none
  | fuel + 1, .after value, .items done :: stack, s => match skipSpace s with
      | ',' :: s => run fuel .value (.items (value :: done) :: stack) s
      | ']' :: s => run fuel (.after (closed stack (.array (value :: done).reverse))) stack s
      | _ => none
  | fuel + 1, .after value, .members done key :: stack, s => match skipSpace s with
      | ',' :: s => match skipSpace s with
          | '"' :: s => do
              let (next, s) ← key? s
              run fuel .value (.members ((key, value) :: done) next :: stack) s
          | _ => none
      | '}' :: s => run fuel (.after (closed stack (.object ((key, value) :: done).reverse))) stack s
      | _ => none

end Reader

/-- The value a document holds, if it is JSON. -/
def read? (bytes : ByteArray) : Option Json :=
  let s := bytes.toList.map fun b => Char.ofNat b.toNat
  Reader.run (s.length + 2) .value [] s

end FrameEngine.Json
