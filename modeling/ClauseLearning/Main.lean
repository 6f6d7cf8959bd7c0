import ClauseLearning.CommandLine.Program

/-! # The command

Reads the arguments and the input, runs the program and prints what it leaves behind.
-/

open ClauseLearning CommandLine

/-- The failure to read that an error of the system is. -/
def readFailure : IO.Error → ReadFailure
  | .noFileOrDirectory .. => .notFound
  | .permissionDenied .. => .permissionDenied
  | .inappropriateType _ code _ =>
    if code = 21 ∨ code + 21 = 0 then .isDirectory else .notDirectory
  | failure => .system failure.toString 5

def readInputFile (name : String) : IO (Except ReadFailure (List UInt8)) := do
  try
    return .ok (← IO.FS.readBinFile name).data.toList
  catch failure =>
    return .error (readFailure failure)

def readStandardInput : IO (List UInt8) := do
  return (← (← IO.getStdin).readBinToEnd).data.toList

/-- Prints what a run leaves behind and yields its exit code. -/
def report (outcome : Outcome) : IO UInt32 := do
  for line in outcome.log do
    IO.eprintln s!"[{line.render}]"
  for line in outcome.errors do
    IO.eprintln line
  for line in outcome.output do
    IO.println line
  return outcome.code.toUInt32

/-- The command: decides the formula in a file or on the standard input. -/
def main (args : List String) : IO UInt32 := do
  match parse args with
  | .error exit => report (.ofExit exit)
  | .ok options =>
    let input ← match options.file with
      | some name => readInputFile name
      | none => pure (.ok (← readStandardInput))
    match run options input with
    | .ok outcome => report outcome
    | .error fault => report (.ofFault fault)
