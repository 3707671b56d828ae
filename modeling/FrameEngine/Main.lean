import FrameEngine.Inspector.Report

namespace FrameEngine

open FrameEngine.Asset

def absolute (path : String) : List String := (Path.components path).filter (· ≠ "")

/-- Adds what is found at a path to a snapshot, down to the files. -/
partial def snapshot (path : String) (tree : FileTree) : IO FileTree := do
  let here := (← IO.currentDir) / path
  let place := absolute here.toString
  if ← here.isDir then
    let mut tree := tree.insert place .directory
    for entry in ← here.readDir do
      tree ← snapshot entry.path.toString tree
    return tree
  else if ← here.pathExists then
    try
      return tree.insert place (.file (← IO.FS.readBinFile here))
    catch _ =>
      return tree.insert place (.unreadable .denied)
  else return tree

end FrameEngine

open FrameEngine FrameEngine.Inspector in
def main (arguments : List String) : IO UInt32 := do
  let current := absolute (← IO.currentDir).toString
  let files ← match (Options.ofArguments arguments).assets with
    | some path => snapshot path (({} : Asset.FileTree).insert current .directory)
    | none => pure {}
  let report := inspect 1 files current arguments
  (← IO.getStdout).putStr report.output
  (← IO.getStderr).putStr report.errors
  return UInt32.ofNat report.exitCode
