import Intcode.CommandLine.Stream
import Std.Time

/-! The command: reads the program file and the standard input, and writes what the
session says. -/

namespace Intcode.CommandLine

/-- The code of an error of the operating system, which may be negated. -/
def errorCode? : IO.Error → Option UInt32
  | .alreadyExists _ code _ | .otherError code _ | .resourceBusy code _
  | .resourceVanished code _ | .unsupportedOperation code _ | .hardwareFault code _
  | .unsatisfiedConstraints code _ | .illegalOperation code _ | .protocolError code _
  | .timeExpired code _ | .interrupted _ code _ | .noFileOrDirectory _ code _
  | .invalidArgument _ code _ | .permissionDenied _ code _ | .resourceExhausted _ code _
  | .inappropriateType _ code _ | .noSuchThing _ code _ => some code
  | .unexpectedEof | .userError _ => none

def ReadError.ofSystem (error : IO.Error) : ReadError :=
  match (errorCode? error).map fun code => min code (0 - code) with
  | some 2 => .notFound
  | some 13 => .denied
  | some 20 => .notDirectory
  | some 21 => .directory
  | some 36 => .nameTooLong
  | _ => .other (toString error)

def readText (file : String) : IO (Except ReadError String) := do
  try
    return decodeText (← IO.FS.readBinFile file).data.toList
  catch error =>
    return .error (.ofSystem error)

/-- The bytes up to the next newline, or up to the end, if any are left. -/
partial def readLineBytes (stream : IO.FS.Stream) (bytes : Array UInt8) :
    IO (Option (Array UInt8)) := do
  let next ← stream.read 1
  match next.data.toList with
  | [] => return if bytes.isEmpty then none else some bytes
  | 10 :: _ => return some bytes
  | byte :: _ => readLineBytes stream (bytes.push byte)

def readLine (stream : IO.FS.Stream) : IO (Option (Except ReadError String)) := do
  try
    return (← readLineBytes stream #[]).map fun bytes => decodeText bytes.toList
  catch error =>
    return some (.error (.ofSystem error))

def padded (width n : Nat) : String :=
  let digits := Decimal.naturalDigits n
  String.ofList (List.replicate (width - digits.length) '0' ++ digits)

def timeOfDay : IO String := do
  let milliseconds := (← Std.Time.PlainTime.now).toMilliseconds.val.toNat
  let seconds := milliseconds / 1000
  return padded 2 (seconds / 3600) ++ ":" ++ padded 2 (seconds / 60 % 60) ++ ":" ++
    padded 2 (seconds % 60) ++ "." ++ padded 3 (milliseconds % 1000)

/-- Writes the records that are enabled to the standard error output. -/
def report (options : Options) (records : List Log.Record) : IO Unit := do
  for record in records do
    IO.eprint (options.logger.write (← timeOfDay) [record])

def fail (options : Options) (cause : Failure) : IO UInt32 := do
  report options [Notice.record (.failed cause)]
  return 1

/-- Plays a session with the lines of a stream, read as they are asked for. -/
partial def converse (stream : IO.FS.Stream) (session : Session) : IO UInt32 := do
  let round := session.turn
  let options := round.session.options
  report options round.records
  for value in round.values do
    IO.println (Decimal.render value)
  (← IO.getStdout).flush
  match round.demand with
  | .nothing =>
      for line in round.session.dump do
        IO.println line
      return 0
  | .surrender cause => fail options cause
  | .line =>
      match round.session.feed (← readLine stream) with
      | .error cause => fail options cause
      | .ok session => converse stream session
  | .round => converse stream round.session

def execute (options : Options) : IO UInt32 := do
  match Session.start options (← readText options.file) with
  | (records, result) =>
      report options records
      match result with
      | .error cause => fail options cause
      | .ok session => converse (← IO.getStdin) session

end Intcode.CommandLine

open Intcode.CommandLine in
def main (arguments : List String) : IO UInt32 := do
  match Request.ofArguments arguments with
  | .run options => execute options
  | .version =>
      IO.println version
      return 0
  | .help =>
      IO.print help
      return 0
  | .refuse error =>
      IO.eprintln ("error: " ++ error.message ++ "\n\n" ++ usage ++
        "\n\nFor more information, try '--help'.")
      return 2
