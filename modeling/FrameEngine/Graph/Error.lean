import FrameEngine.Graph.Usage
import FrameEngine.Slots.Error

namespace FrameEngine.Graph

open FrameEngine.Slots

inductive GraphError
  | circularDependency (passes : List String)
  | multipleWriters (image : ImageHandle) (first second : String)
  | undefinedLayout (image : ImageHandle) (pass : String)
  | stalePass (index generation : UInt32)
  | notBuilt
  | setup (pass : String) (cause : SlotError)
  deriving DecidableEq

def GraphError.message : GraphError → String
  | .circularDependency passes =>
      "circular dependency detected between passes: " ++ String.intercalate " -> " passes
  | .multipleWriters image first second =>
      "image " ++ image.text ++ " is written by both " ++ first ++ " and " ++ second
  | .undefinedLayout image pass =>
      "pass " ++ pass ++ " reads image " ++ image.text ++ " with undefined layout (no writer or import)"
  | .stalePass index generation =>
      "stale pass id " ++ toString index ++ " (generation " ++ toString generation ++ ")"
  | .notBuilt => "frame graph recorded before build"
  | .setup pass cause => "pass " ++ pass ++ " setup failed: " ++ cause.message

end FrameEngine.Graph
