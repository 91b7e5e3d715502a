import Intcode.Text.Decimal
import Intcode.Text.Fields

/-! The arguments of the command line.

Arguments are read from left to right, and the first one that decides the request or
breaks a rule ends the reading. A flag stands alone; an option takes exactly one value,
attached to it or as the next argument; everything after `--` names a file.
-/

namespace Intcode.CommandLine

structure Options where
  file : String
  /-- The texts of the input values, in the order given. -/
  inputs : List String
  interactive : Bool
  maxSteps : Nat
  sparse : Bool
  dumpMemory : Bool
  filter : Option String
  level : String
deriving DecidableEq, Repr

inductive Flag where
  | interactive
  | sparse
  | dumpMemory
deriving DecidableEq, Repr

inductive Key where
  | input
  | maxSteps
  | debugFilter
  | logLevel
deriving DecidableEq, Repr

inductive UsageError where
  | unexpected (argument : String)
  | repeated (name : String)
  | missingValue (name : String)
  | needlessValue (name value : String)
  | invalidCount (value : String)
  | missingFile
deriving DecidableEq, Repr

inductive Request where
  | run (options : Options)
  | version
  | help
  | refuse (error : UsageError)
deriving DecidableEq, Repr

namespace Flag

def name : Flag → String
  | .interactive => "--interactive"
  | .sparse => "--sparse"
  | .dumpMemory => "--dump-memory"

end Flag

namespace Key

def name : Key → String
  | .input => "--input"
  | .maxSteps => "--max-steps"
  | .debugFilter => "--debug-filter"
  | .logLevel => "--log-level"

end Key

def defaultMaxSteps : Nat := 100000000

def defaultLevel : String := "warn"

/-- The largest step budget: the largest number of 64 bits. -/
def largestMaxSteps : Nat := 0xFFFFFFFFFFFFFFFF

structure Draft where
  file : Option String
  inputs : List String
  interactive : Bool
  maxSteps : Option Nat
  sparse : Bool
  dumpMemory : Bool
  filter : Option String
  level : Option String

namespace Draft

def empty : Draft where
  file := none
  inputs := []
  interactive := false
  maxSteps := none
  sparse := false
  dumpMemory := false
  filter := none
  level := none

/-- Raises a flag, which must not be up. -/
def raise (draft : Draft) (flag : Flag) : Except UsageError Draft :=
  match flag with
  | .interactive =>
      if draft.interactive then .error (.repeated flag.name)
      else .ok { draft with interactive := true }
  | .sparse =>
      if draft.sparse then .error (.repeated flag.name) else .ok { draft with sparse := true }
  | .dumpMemory =>
      if draft.dumpMemory then .error (.repeated flag.name)
      else .ok { draft with dumpMemory := true }

/-- Gives an option a value. Only inputs can be given more than once. -/
def assign (draft : Draft) (key : Key) (value : String) : Except UsageError Draft :=
  match key with
  | .input => .ok { draft with inputs := draft.inputs ++ [value] }
  | .maxSteps =>
      if draft.maxSteps.isSome then .error (.repeated key.name)
      else
        match Decimal.readCount? value.toList with
        | some count =>
            if count ≤ largestMaxSteps then .ok { draft with maxSteps := some count }
            else .error (.invalidCount value)
        | none => .error (.invalidCount value)
  | .debugFilter =>
      if draft.filter.isSome then .error (.repeated key.name)
      else .ok { draft with filter := some value }
  | .logLevel =>
      if draft.level.isSome then .error (.repeated key.name)
      else .ok { draft with level := some value }

/-- Names the program file, which must not have a name. -/
def nameFile (draft : Draft) (file : String) : Except UsageError Draft :=
  if draft.file.isSome then .error (.unexpected file) else .ok { draft with file := some file }

/-- The request once all arguments have been read. -/
def finish (draft : Draft) : Request :=
  match draft.file with
  | none => .refuse .missingFile
  | some file => .run {
      file := file
      inputs := draft.inputs
      interactive := draft.interactive
      maxSteps := draft.maxSteps.getD defaultMaxSteps
      sparse := draft.sparse
      dumpMemory := draft.dumpMemory
      filter := draft.filter
      level := draft.level.getD defaultLevel }

end Draft

inductive Form where
  /-- The argument after which only files are named. -/
  | separator
  /-- A name after two dashes, perhaps with a value after an equals sign. -/
  | long (name : String) (value : Option String)
  | short (letter : Char) (rest : List Char)
  /-- Anything else, a lone dash among it. -/
  | plain
deriving DecidableEq, Repr

/-- The part of a text before the first equals sign, and the part after it. -/
def splitAtEquals (text : List Char) : List Char × Option (List Char) :=
  (text.takeWhile (· ≠ '='), (text.dropWhile (· ≠ '=')).tail?)

def Form.ofArgument (argument : String) : Form :=
  match argument.toList with
  | ['-', '-'] => .separator
  | '-' :: '-' :: text =>
      let (name, value) := splitAtEquals text
      .long (String.ofList name) (value.map String.ofList)
  | '-' :: letter :: rest => .short letter rest
  | _ => .plain

/-- One or more digits, then perhaps a point and digits, then perhaps an exponent of one
or more digits. -/
def isNumeral (text : List Char) : Bool :=
  let afterWhole := text.dropWhile Char.isDigit
  let afterFraction :=
    match afterWhole with
    | '.' :: rest => rest.dropWhile Char.isDigit
    | rest => rest
  let exponent :=
    match afterFraction with
    | [] => true
    | mark :: digits =>
        (mark = 'e' || mark = 'E') && !digits.isEmpty && digits.all Char.isDigit
  text.head?.any Char.isDigit && exponent

/-- Whether an argument that follows an option is its value. Inputs can be negative
numbers; no other value starts with a dash. -/
def Key.takes (key : Key) (argument : String) : Bool :=
  match Form.ofArgument argument with
  | .plain => true
  | .short letter rest => key = .input && isNumeral (letter :: rest)
  | _ => false

inductive Progress where
  /-- More arguments are read; `pending` is the option that waits for its value. -/
  | next (draft : Draft) (pending : Option Key)
  /-- The arguments left name files. -/
  | files (draft : Draft)
  | decided (request : Request)

namespace Draft

/-- Goes on with the next argument unless a rule was broken. -/
def goOn : Except UsageError Draft → Progress
  | .ok draft => .next draft none
  | .error error => .decided (.refuse error)

/-- Reads an option, with the value attached to it if there is one. -/
def readOption (draft : Draft) (key : Key) : Option String → Progress
  | some value => goOn (draft.assign key value)
  | none => .next draft (some key)

/-- Reads a flag, which takes no value. -/
def readFlag (draft : Draft) (flag : Flag) : Option String → Progress
  | some value => .decided (.refuse (.needlessValue flag.name value))
  | none => goOn (draft.raise flag)

def readLong (draft : Draft) (name : String) (value : Option String) : Progress :=
  match name, value with
  | "input", value => draft.readOption .input value
  | "max-steps", value => draft.readOption .maxSteps value
  | "debug-filter", value => draft.readOption .debugFilter value
  | "log-level", value => draft.readOption .logLevel value
  | "interactive", value => draft.readFlag .interactive value
  | "sparse", value => draft.readFlag .sparse value
  | "dump-memory", value => draft.readFlag .dumpMemory value
  | "version", none => .decided .version
  | "help", none => .decided .help
  | "version", some value => .decided (.refuse (.needlessValue "--version" value))
  | "help", some value => .decided (.refuse (.needlessValue "--help" value))
  | name, _ => .decided (.refuse (.unexpected ("--" ++ name)))

/-- Reads the characters after a single dash. The first one decides; what follows the
letter of an option is its value, after an equals sign or at once. -/
def readShort (draft : Draft) : Char → List Char → Progress
  | 'i', [] => draft.readOption .input none
  | 'i', '=' :: value => draft.readOption .input (some (String.ofList value))
  | 'i', value => draft.readOption .input (some (String.ofList value))
  | 'V', _ => .decided .version
  | 'h', _ => .decided .help
  | letter, _ => .decided (.refuse (.unexpected (String.ofList ['-', letter])))

def read (draft : Draft) (pending : Option Key) (argument : String) : Progress :=
  match pending with
  | some key =>
      if key.takes argument then goOn (draft.assign key argument)
      else .decided (.refuse (.missingValue key.name))
  | none =>
      match Form.ofArgument argument with
      | .separator => .files draft
      | .plain => goOn (draft.nameFile argument)
      | .long name value => draft.readLong name value
      | .short letter rest => draft.readShort letter rest

def readFiles (draft : Draft) : List String → Request
  | [] => draft.finish
  | argument :: rest =>
      match draft.nameFile argument with
      | .error error => .refuse error
      | .ok draft => draft.readFiles rest

def readAll (draft : Draft) (pending : Option Key) : List String → Request
  | [] =>
      match pending with
      | some key => .refuse (.missingValue key.name)
      | none => draft.finish
  | argument :: rest =>
      match draft.read pending argument with
      | .next draft pending => draft.readAll pending rest
      | .files draft => draft.readFiles rest
      | .decided request => request

end Draft

def Request.ofArguments (arguments : List String) : Request :=
  Draft.empty.readAll none arguments

/-- The text of all inputs: their values with commas between them. -/
def Options.inputText (options : Options) : String :=
  String.ofList (Text.join ',' (options.inputs.map String.toList))

def usage : String :=
  "Usage: intcode [OPTIONS] <PROGRAM_FILE>"

def UsageError.message : UsageError → String
  | .unexpected argument => "unexpected argument '" ++ argument ++ "' found"
  | .repeated name => "the argument '" ++ name ++ "' cannot be used multiple times"
  | .missingValue name => "a value is required for '" ++ name ++ "' but none was supplied"
  | .needlessValue name value =>
      "unexpected value '" ++ value ++ "' for '" ++ name ++ "' found; no more were expected"
  | .invalidCount value => "invalid value '" ++ value ++ "' for '--max-steps <MAX_STEPS>'"
  | .missingFile => "the following required arguments were not provided:\n  <PROGRAM_FILE>"

def version : String := "intcode 0.1.0"

def help : String :=
  "Runs an Intcode program\n\n" ++ usage ++ "\n\nArguments:\n" ++
  "  <PROGRAM_FILE>  Intcode program file (comma-separated integers)\n\nOptions:\n" ++
  "  -i, --input <INPUT>\n" ++
  "          Input values, comma-separated or given repeatedly, consumed in order\n" ++
  "      --interactive\n" ++
  "          Read further input values from stdin, one per line, once --input runs out\n" ++
  "      --max-steps <MAX_STEPS>\n" ++
  "          Maximum number of instructions to execute [default: 100000000]\n" ++
  "      --sparse\n" ++
  "          Store memory sparsely, for programs that address far-apart cells\n" ++
  "      --dump-memory\n" ++
  "          Print the final memory image after the program stops\n" ++
  "      --debug-filter <DEBUG_FILTER>\n" ++
  "          Debug filter to specify log topics (e.g., \"vm,instructions\")\n" ++
  "      --log-level <LOG_LEVEL>\n" ++
  "          Log level (off, error, warn, info, debug, trace) [default: warn]\n" ++
  "  -h, --help\n" ++
  "          Print help\n" ++
  "  -V, --version\n" ++
  "          Print version\n"

end Intcode.CommandLine
