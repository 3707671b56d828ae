import FrameEngine.Frame.Standard
import FrameEngine.Inspector.Options

namespace FrameEngine.Inspector

open FrameEngine.Asset FrameEngine.Frame FrameEngine.Graph FrameEngine.Jobs FrameEngine.Slots

structure Report where
  exitCode : Nat
  output : String
  errors : String

abbrev Causes := List String

def assetCauses (cause : AssetError) : Causes :=
  cause.message :: match cause with
    | .io behind => [behind.message]
    | _ => []

def slotCauses (cause : SlotError) : Causes :=
  cause.message :: match cause with
    | .jobs behind => [behind.message]
    | .asset behind => assetCauses behind
    | _ => []

def graphCauses (cause : GraphError) : Causes :=
  cause.message :: match cause with
    | .setup _ behind => slotCauses behind
    | _ => []

def indented (first further text : String) : String :=
  first ++ String.intercalate ("\n" ++ further) (text.splitOn "\n")

def column (n : Nat) : String :=
  let digits := toString n
  String.ofList (List.replicate (5 - digits.length) ' ') ++ digits

def causeLines : Causes → List String
  | [] => []
  | [cause] => ["", "Caused by:", indented "    " "    " cause]
  | causes => ["", "Caused by:"] ++
      causes.mapIdx fun n cause => indented (column n ++ ": ") "       " cause

def failed (task : String) (causes : Causes) : Report :=
  ⟨1, "", String.join ((("Error: " ++ task) :: causeLines causes).map (· ++ "\n"))⟩

def layoutName (layout : Layout) : String :=
  if layout = .general then "GENERAL"
  else if layout = .colorAttachment then "COLOR_ATTACHMENT_OPTIMAL"
  else if layout = .depthAttachment then "DEPTH_STENCIL_ATTACHMENT_OPTIMAL"
  else if layout = .shaderRead then "SHADER_READ_ONLY_OPTIMAL"
  else toString layout.raw

def stageNames : List (Stages × String) :=
  [(.fragmentShader, "FRAGMENT_SHADER"), (.lateFragmentTests, "LATE_FRAGMENT_TESTS"),
    (.colorOutput, "COLOR_ATTACHMENT_OUTPUT"), (.computeShader, "COMPUTE_SHADER"),
    (.allCommands, "ALL_COMMANDS")]

def stagesName (stages : Stages) : String :=
  String.intercalate " | " ((stageNames.filter fun (stage, _) => stages.bits &&& stage.bits ≠ 0).map (·.2))

def barrierLine (images : RenderImages) (barrier : ImageBarrier) : String :=
  "       " ++ images.name barrier.image ++ " " ++ layoutName barrier.oldLayout ++ " -> " ++
    layoutName barrier.newLayout ++ " (" ++ stagesName barrier.sourceStages ++ " -> " ++
    stagesName barrier.targetStages ++ ")"

def scheduleLines (g : FrameGraph) : List String :=
  "Pass order:" :: (g.schedule.mapIdx fun position (id, barriers) =>
    ("  " ++ toString position ++ ". " ++ ((g.graph.pass id).toOption.map (·.name)).getD "") ::
      barriers.map (barrierLine g.images)).flatten

def summaryLines (commands : List Command) (e : Engine) : List String :=
  let uploader := e.services.uploader
  ["", "Recorded " ++ toString commands.length ++ " commands",
    "Resident: " ++ toString e.textures.size ++ " textures, " ++ toString e.materials.size ++ " materials, " ++
      toString e.cubemaps.size ++ " cubemaps (" ++ toString uploader.live ++ " images, " ++
      toString uploader.bytes ++ " bytes uploaded)"]

def helpText : String :=
"Worlds Frame Inspector

Builds the standard frame graph headlessly and prints the pass order and barriers.

USAGE:
    cargo run -p worlds-frame-inspector -- [OPTIONS]

OPTIONS:
    --assets <DIR>          Asset root directory (default: memory only)
    --material <PATH>       Material document to draw (repeatable)
    --cubemap <PATH>        Environment cubemap document
    --workers <N>           Job system worker threads (default: cores - 1)
    --blur                  Add the bloom blur pass
    -h, --help              Print this help message

EXAMPLES:
    # Inspect the bare graph
    cargo run -p worlds-frame-inspector

    # Load a material and a skybox from ./assets
    cargo run -p worlds-frame-inspector -- --assets assets \\
        --material Materials/rock.json --cubemap Cubemaps/sky.json --blur

ENVIRONMENT VARIABLES:
    RUST_LOG                Set log level (e.g., info, debug, trace)
"

def scene (options : Options) : Scene := ⟨options.materials, options.cubemap, 1⟩

def inspectEngine (options : Options) (e : Engine) : Report :=
  let g := FrameGraph.standard { blur := options.blur } (scene options)
  match g.build e with
  | (.error cause, _) => failed "failed to build frame graph" (graphCauses cause)
  | (.ok (), g, e) => match g.record e with
      | (.error cause, _) => failed "failed to record frame" (graphCauses cause)
      | (.ok commands, _, e) =>
          ⟨0, String.join ((scheduleLines g ++ summaryLines commands e).map (· ++ "\n")), ""⟩

/-- Runs the inspector with the given arguments in a current directory. Without an option for it,
there are `usualWorkers` worker threads. -/
def inspect (usualWorkers : Nat) (files : FileTree) (current arguments : List String) : Report :=
  if arguments.any fun argument => argument = "-h" ∨ argument = "--help" then ⟨0, "", helpText⟩
  else
    let options := Options.ofArguments arguments
    let root := options.assets.map fun path => (⟨files, current, path⟩ : AssetRoot)
    match Engine.start (options.workers.getD usualWorkers) Pool.usualLists root with
    | .error cause => failed "failed to start engine services" [cause.message]
    | .ok e => inspectEngine options e

end FrameEngine.Inspector
