import ClauseLearning.CommandLine.Arguments
import ClauseLearning.Dimacs.Reader
import ClauseLearning.Observation.Log
import ClauseLearning.Search.Run

/-! # The program behind the command line

The program reads a formula, decides it and prints the verdict, with a model or the counters if asked
to. It is a function from the options and the input to what is printed and the exit code: zero if
there is a verdict, one if there is none.
-/

namespace ClauseLearning.CommandLine

/-- What a run of the program leaves behind. -/
structure Outcome where
  code : Nat
  output : List String := []
  /-- The lines for the standard error, apart from the log. -/
  errors : List String := []
  log : List LogLine := []
deriving Repr, Inhabited

def versionText : String := "sat-solver 0.1.0"

def Options.config (options : Options) : Config where
  propagation := if options.rescan then .rescan else .watchedLiterals
  branching :=
    { decayInterval := options.decayInterval.getD defaultDecayInterval
      initialPolarity := if options.truePreference then .positive else .occurrence
      savePhases := options.savePhases }

/-- The least level that the log keeps. -/
def Options.threshold (options : Options) : LogLevel :=
  match options.verbosity with
  | 0 => .warn
  | 1 => .info
  | 2 => .debug
  | _ => .trace

/-- The report of an error with its causes, the outermost text first. Several causes are numbered. -/
def errorReport (what : String) (causes : List String) : List String :=
  let listed := match causes with
    | [cause] => [s!"    {cause}"]
    | _ => causes.zipIdx.map fun (cause, number) => s!"    {number}: {cause}"
  [s!"Error: {what}", "", "Caused by:"] ++ listed

def Outcome.ofFault (fault : Fault) : Outcome := { code := 101, errors := [fault.message] }

/-- What a run leaves behind once reading the arguments has ended early. -/
def Outcome.ofExit : Exit → Outcome
  | .usage => { code := 2, errors := ["error: invalid arguments"] }
  | .version => { code := 0, output := [versionText] }
  | .help => { code := 0 }

/-- The line of the model found, if there is one and the options ask for it. -/
def modelLines (options : Options) (model : Option Model) : Checked (List String) :=
  match options.model, model with
  | true, some m => do return [← m.text]
  | _, _ => return []

def readFormula (input : Except ReadFailure (List UInt8)) :
    Checked (Except DimacsError Formula × List Dimacs.Warning) :=
  match input with
  | .ok bytes => Dimacs.readBytes bytes
  | .error failure => return (.error (.unreadable failure), [])

def decideFormula (options : Options) (f : Formula) (log : Log) : Checked Outcome := do
  let (outcome, s) ← (← Solver.new options.config f log).solve
  let lines := s.work.tracer.lines.toList
  match outcome with
  | .error e =>
    return { code := 1, errors := errorReport "solver hit an internal error" [e.message], log := lines }
  | .ok verdict =>
    let output := verdict.text :: (← modelLines options s.model)
    let errors := if options.stats then [s.work.stats.text] else []
    return { code := 0, output, errors, log := lines }

/-- Runs the program on the bytes of the input, or on the failure to read it. -/
def run (options : Options) (input : Except ReadFailure (List UInt8)) : Checked Outcome := do
  let (parsed, warnings) ← readFormula input
  let warningLines := warnings.map fun warning => (⟨.warn, warning.message⟩ : LogLine)
  let log : Log := { threshold := some options.threshold, lines := warningLines.toArray }
  match parsed with
  | .error e =>
    let source := options.file.getD "stdin"
    return { code := 1, errors := errorReport s!"failed to read {source}" e.causes, log := warningLines }
  | .ok f => decideFormula options f log

end ClauseLearning.CommandLine
