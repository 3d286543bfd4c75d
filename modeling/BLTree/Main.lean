import BLTree.Command.Run

/-!
# The command-line program
-/

namespace BLTree.Command

/-- What is at a path; anything that cannot be read as a file counts as missing. -/
def readContent (path : String) : IO FileContent := do
  try
    return .bytes (← IO.FS.readBinFile path)
  catch
    | .inappropriateType .. => return .directory
    | _ => return .missing

def respond (arguments : List String) : IO Response := do
  match parse arguments with
  | .error stop => return stop.response
  | .ok request =>
    let env := ⟨← IO.getEnv "TERM", (← IO.getEnv "NO_COLOR").isSome⟩
    return request.run env (← readContent request.file)

end BLTree.Command

def main (arguments : List String) : IO UInt32 := do
  let response ← BLTree.Command.respond arguments
  IO.print response.output
  if let some report := response.report then IO.eprintln report
  return response.exit.toUInt32
