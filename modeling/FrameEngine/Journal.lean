import FrameEngine.Text.Quoted

namespace FrameEngine

inductive Event
  | unavailable (table key reason : String)
  | slotSet (table : String) (slot : Nat) (key : String)
  | stillLoading (table : String) (slot : Nat)
  | unloaded (table : String) (slot : Nat)
  | solved (order : List String)
  | built (barriers passes : Nat)
  | recorded (frame : Nat)
  | noMaterials
  | resolved (environment : Option Nat) (materials : List Nat)

def Event.line : Event → String
  | .unavailable table key reason =>
      "WARN " ++ table ++ " " ++ key ++ " unavailable (" ++ reason ++ "), using placeholder"
  | .slotSet table slot key => "INFO " ++ table ++ " slot " ++ toString slot ++ " set to " ++ key
  | .stillLoading table slot =>
      "WARN " ++ table ++ " slot " ++ toString slot ++ " is still loading, not unloading"
  | .unloaded table slot => "DEBUG " ++ table ++ " slot " ++ toString slot ++ " unloaded"
  | .solved order =>
      "DEBUG solved render graph; order=" ++ Text.Quoted.bracketed (order.map Text.Quoted.quote)
  | .built barriers passes =>
      "INFO frame graph built; barriers=" ++ toString barriers ++ "; passes=" ++ toString passes
  | .recorded frame => "DEBUG frame recorded; frame=" ++ toString frame
  | .noMaterials => "WARN opaque pass has no materials"
  | .resolved environment materials =>
      "DEBUG opaque pass resolved slots; environment=" ++ Text.Quoted.optional (environment.map toString) ++
        "; materials=" ++ Text.Quoted.bracketed (materials.map toString)

abbrev Journal := Array Event

end FrameEngine
