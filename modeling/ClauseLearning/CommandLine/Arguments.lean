import ClauseLearning.Text.Numeral

/-! # Command-line arguments

Arguments are read from left to right. A word that starts with two dashes is a long option, with its
value after an equals sign or in the next word; one that starts with a single dash is a run of short
options, the last of which may have the rest of the word, less an equals sign, as its value. A value
in a word of its own must not look like an option. Each option but the verbosity may be given once,
there are no other arguments, and the first fault met ends the reading.
-/

namespace ClauseLearning.CommandLine

/-- What the arguments ask for. -/
structure Options where
  /-- The file to read, or none for the standard input. -/
  file : Option String := none
  rescan : Bool := false
  truePreference : Bool := false
  savePhases : Bool := false
  decayInterval : Option Nat := none
  model : Bool := false
  stats : Bool := false
  verbosity : Nat := 0
deriving DecidableEq, Repr, Inhabited

/-- The interval between decays if none is asked for. -/
def Options.defaultDecayInterval : Nat := 3

/-- The ways in which reading the arguments can end early. -/
inductive Exit where
  | usage
  | version
  | help
deriving DecidableEq, Repr

inductive Flag where
  | rescan
  | truePreference
  | savePhases
  | model
  | stats
  | verbose
  | version
  | help
deriving DecidableEq, Repr

inductive Setting where
  | file
  | decayInterval
deriving DecidableEq, Repr

inductive OptionName where
  | flag (flag : Flag)
  | setting (setting : Setting)
deriving DecidableEq, Repr

namespace OptionName

def ofShort? : Char → Option OptionName
  | 'f' => some (.setting .file)
  | 'r' => some (.flag .rescan)
  | 't' => some (.flag .truePreference)
  | 's' => some (.flag .savePhases)
  | 'd' => some (.setting .decayInterval)
  | 'm' => some (.flag .model)
  | 'v' => some (.flag .verbose)
  | 'V' => some (.flag .version)
  | 'h' => some (.flag .help)
  | _ => none

def ofLong? : String → Option OptionName
  | "file" => some (.setting .file)
  | "rescan" => some (.flag .rescan)
  | "true-pref" => some (.flag .truePreference)
  | "save-phases" => some (.flag .savePhases)
  | "decay-interval" => some (.setting .decayInterval)
  | "model" => some (.flag .model)
  | "stats" => some (.flag .stats)
  | "verbose" => some (.flag .verbose)
  | "version" => some (.flag .version)
  | "help" => some (.flag .help)
  | _ => none

end OptionName

/-- Sets a switch that may be set once. -/
def switchOn (isOn : Bool) (options : Options) : Except Exit Options :=
  if isOn then .error .usage else .ok options

def Options.withFlag (options : Options) : Flag → Except Exit Options
  | .rescan => switchOn options.rescan { options with rescan := true }
  | .truePreference => switchOn options.truePreference { options with truePreference := true }
  | .savePhases => switchOn options.savePhases { options with savePhases := true }
  | .model => switchOn options.model { options with model := true }
  | .stats => switchOn options.stats { options with stats := true }
  | .verbose => .ok { options with verbosity := options.verbosity + 1 }
  | .version => .error .version
  | .help => .error .help

def Options.withSetting (options : Options) (setting : Setting) (value : List Char) :
    Except Exit Options :=
  match setting with
  | .file => switchOn options.file.isSome { options with file := some (String.ofList value) }
  | .decayInterval =>
    match Text.unsigned? value with
    | some interval =>
      switchOn options.decayInterval.isSome { options with decayInterval := some interval }
    | none => .error .usage

/-- What reading a word leads to. -/
inductive WordResult where
  | complete (options : Options)
  /-- The next word is the value of a setting. -/
  | awaiting (setting : Setting) (options : Options)
  | endOfOptions (options : Options)

def readShort : List Char → Options → Except Exit WordResult
  | [], options => return .complete options
  | letter :: rest, options =>
    match OptionName.ofShort? letter with
    | none => throw .usage
    | some (.flag flag) => do readShort rest (← options.withFlag flag)
    | some (.setting setting) =>
      match rest with
      | [] => return .awaiting setting options
      | '=' :: value => return .complete (← options.withSetting setting value)
      | value => return .complete (← options.withSetting setting value)

/-- Reads a long option, with the value after an equals sign if there is one. -/
def readLong (word : List Char) (options : Options) : Except Exit WordResult :=
  let name := word.takeWhile (· != '=')
  let attached := word.dropWhile (· != '=')
  match OptionName.ofLong? (String.ofList name), attached with
  | none, _ => throw .usage
  | some (.flag flag), [] => return .complete (← options.withFlag flag)
  | some (.flag _), _ :: _ => throw .usage
  | some (.setting setting), [] => return .awaiting setting options
  | some (.setting setting), _ :: value => return .complete (← options.withSetting setting value)

/-- Reads a word where an option is due. -/
def readWord (word : List Char) (options : Options) : Except Exit WordResult :=
  match word with
  | ['-', '-'] => return .endOfOptions options
  | '-' :: '-' :: name => readLong name options
  | '-' :: letter :: rest => readShort (letter :: rest) options
  | _ => throw .usage

/-- Whether a word looks like an option. A lone dash does not. -/
def looksLikeOption : List Char → Bool
  | '-' :: _ :: _ => true
  | _ => false

mutual

/-- Reads words where an option is due. -/
def readWords : List (List Char) → Options → Except Exit Options
  | [], options => return options
  | word :: rest, options => do
    match ← readWord word options with
    | .complete options => readWords rest options
    | .awaiting setting options => readValue setting rest options
    | .endOfOptions options => if rest.isEmpty then return options else throw .usage

/-- Reads words where the value of a setting is due. -/
def readValue (setting : Setting) : List (List Char) → Options → Except Exit Options
  | [], _ => throw .usage
  | word :: rest, options => do
    if looksLikeOption word then throw .usage else
    readWords rest (← options.withSetting setting word)

end

def parse (args : List String) : Except Exit Options := readWords (args.map String.toList) {}

end ClauseLearning.CommandLine
