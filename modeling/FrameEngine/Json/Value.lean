import FrameEngine.Json.Number

namespace FrameEngine

inductive Json
  | null
  | bool (value : Bool)
  | number (value : Json.Number)
  /-- The text of a string; none if its octets are not UTF-8 or a surrogate stands alone. -/
  | string (text : Option String)
  | array (items : List Json)
  | object (members : List (Option String × Json))
  | tooDeep

namespace Json

mutual

/-- Whether all of the value can be kept: every text, every number and every level of it. -/
def isSound : Json → Bool
  | .null => true
  | .bool _ => true
  | .number .outOfRange => false
  | .number _ => true
  | .string text => text.isSome
  | .array items => itemsSound items
  | .object members => membersSound members
  | .tooDeep => false

def itemsSound : List Json → Bool
  | [] => true
  | item :: rest => item.isSound && itemsSound rest

def membersSound : List (Option String × Json) → Bool
  | [] => true
  | member :: rest => memberSound member && membersSound rest

def memberSound : Option String × Json → Bool
  | (key, value) => key.isSome && value.isSound

end

end Json

end FrameEngine
