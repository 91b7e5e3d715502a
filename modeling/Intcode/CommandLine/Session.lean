import Intcode.CommandLine.Options
import Intcode.Machine.Run

/-! A run of a program from the command line.

A session alternates between running the machine, as far as its inputs and the step budget
allow, and asking for a line of further inputs. `Session.turn` plays one such round and
`Session.feed` adds the inputs of a line; `Session.play` puts them together for lines that
are known beforehand.
-/

namespace Intcode.CommandLine

/-- Why a text could not be read from a file or a stream. -/
inductive ReadError where
  | notFound
  | directory
  | notDirectory
  | denied
  | nameTooLong
  | notText
  | other (message : String)
deriving DecidableEq, Repr

def ReadError.message : ReadError → String
  | .notFound => "No such file or directory (os error 2)"
  | .directory => "Is a directory (os error 21)"
  | .notDirectory => "Not a directory (os error 20)"
  | .denied => "Permission denied (os error 13)"
  | .nameTooLong => "File name too long (os error 36)"
  | .notText => "stream did not contain valid UTF-8"
  | .other message => message

inductive Failure where
  | unreadableFile (file : String) (cause : ReadError)
  | malformed (error : Listing.Error)
  | faulted (fault : Fault)
  | unreadableLine (cause : ReadError)
  | inputClosed
  | inputExhausted (ip : Nat)
  | stepLimit (limit : Nat)
deriving DecidableEq, Repr

def Failure.message : Failure → String
  | .unreadableFile file cause => "Error reading file " ++ file ++ ": " ++ cause.message
  | .malformed error => error.message
  | .faulted fault => fault.message
  | .unreadableLine cause => cause.message
  | .inputClosed => "Program awaits input but stdin is closed"
  | .inputExhausted ip =>
      "Program awaits input at IP " ++ Decimal.renderNatural ip ++ " and no more was supplied"
  | .stepLimit limit => "Step limit of " ++ Decimal.renderNatural limit ++ " reached"

inductive Notice where
  | loading (file : String)
  | loaded (cells : Nat)
  | halted (steps : Nat)
  | limitReached (limit : Nat)
  | failed (failure : Failure)
deriving DecidableEq, Repr

namespace Notice

def level : Notice → Log.Level
  | .loading _ | .loaded _ | .halted _ => .info
  | .limitReached _ => .warn
  | .failed _ => .error

def message : Notice → String
  | .loading file => "Loading program from " ++ file
  | .loaded cells => "Loaded " ++ Decimal.renderNatural cells ++ " cells"
  | .halted steps => "Program halted after " ++ Decimal.renderNatural steps ++ " steps"
  | .limitReached limit => "Step limit of " ++ Decimal.renderNatural limit ++ " reached"
  | .failed failure => failure.message

def record (notice : Notice) : Log.Record :=
  ⟨notice.level, "intcode", some "intcode", notice.message⟩

end Notice

namespace Options

def kind (options : Options) : Store.Kind :=
  if options.sparse then .sparse else .dense

def logger (options : Options) : Log.Logger :=
  .create (.ofName options.level) options.filter

end Options

def machineId : Nat := 1

/-- A machine on its way, with the steps it may still make. -/
structure Session where
  options : Options
  machine : Machine
  remaining : Nat

inductive Demand where
  | nothing
  | surrender (failure : Failure)
  | line
  /-- Nothing stopped the machine, and the budget is not used up. -/
  | round
deriving DecidableEq, Repr

/-- One round of a session: the session after it, the values to be written, the records
for the log, and how to go on. -/
structure Round where
  session : Session
  values : List Int
  records : List Log.Record
  demand : Demand

namespace Session

/-- Loads a program and the inputs that were given with it. -/
def start (options : Options) (text : Except ReadError String) :
    List Log.Record × Except Failure Session :=
  let loading := Notice.record (.loading options.file)
  match text with
  | .error cause => ([loading], .error (.unreadableFile options.file cause))
  | .ok text =>
      match Listing.parse text with
      | .error error => ([loading], .error (.malformed error))
      | .ok program =>
          let machine := Machine.load options.kind machineId program
          let events := machine.loadLog.filter (Event.enabled options.logger)
          let records := [loading, Notice.record (.loaded program.length)] ++
            events.map (·.record machine.id)
          match Listing.parse options.inputText with
          | .error error => (records, .error (.malformed error))
          | .ok values => (records, .ok ⟨options, machine.extend values, options.maxSteps⟩)

/-- Runs the machine until it stops or the budget is used up. The outputs of a round that
ends with a fault stay in the machine. -/
def turn (session : Session) : Round :=
  let logger := session.options.logger
  let reply := session.machine.runFor (Event.enabled logger) session.remaining
  let records := reply.log.map (·.record reply.machine.id)
  match reply.answer with
  | .error fault =>
      ⟨{ session with machine := reply.machine }, [], records, .surrender (.faulted fault)⟩
  | .ok status =>
      let made := reply.machine.state.steps - session.machine.state.steps
      let remaining := session.remaining - made
      let (values, machine) := reply.machine.take
      let next : Session := ⟨session.options, machine, remaining⟩
      match status with
      | .halted =>
          ⟨next, values, records ++ [Notice.record (.halted machine.state.steps)], .nothing⟩
      | .awaitingInput =>
          if session.options.interactive then ⟨next, values, records, .line⟩
          else ⟨next, values, records, .surrender (.inputExhausted machine.state.ip)⟩
      | _ =>
          if remaining = 0 then
            ⟨next, values, records ++ [Notice.record (.limitReached session.options.maxSteps)],
              .surrender (.stepLimit session.options.maxSteps)⟩
          else ⟨next, values, records, .round⟩

/-- Adds the inputs of a line, if there is one left. -/
def feed (session : Session) : Option (Except ReadError String) → Except Failure Session
  | none => .error .inputClosed
  | some (.error cause) => .error (.unreadableLine cause)
  | some (.ok line) =>
      match Listing.parse line with
      | .error error => .error (.malformed error)
      | .ok values => .ok { session with machine := session.machine.extend values }

/-- The lines that show the memory after the program has ended: one listing of all cells,
or a line for each cell that is stored. -/
def dump (session : Session) : List String :=
  let entries := session.machine.state.memory.entries
  if session.options.dumpMemory then
    if session.options.sparse then
      entries.map fun (address, value) =>
        Decimal.renderNatural address ++ ": " ++ Decimal.render value
    else [Listing.render (entries.map (·.2))]
  else []

end Session

inductive Ending where
  | halted
  | failed (failure : Failure)
  /-- More rounds are needed. -/
  | unfinished
deriving DecidableEq, Repr

/-- What a session has written, line by line, and how it ended. -/
structure Transcript where
  values : List Int
  dump : List String
  records : List Log.Record
  ending : Ending
deriving DecidableEq, Repr

namespace Transcript

/-- A session that ended with a failure, which is reported last. -/
def failure (cause : Failure) : Transcript where
  values := []
  dump := []
  records := [Notice.record (.failed cause)]
  ending := .failed cause

/-- Puts what was written before in front of a transcript. -/
def after (transcript : Transcript) (values : List Int) (records : List Log.Record) :
    Transcript :=
  { transcript with
    values := values ++ transcript.values
    records := records ++ transcript.records }

def output (transcript : Transcript) : String :=
  String.join ((transcript.values.map Decimal.render ++ transcript.dump).map (· ++ "\n"))

def exitCode (transcript : Transcript) : Nat :=
  match transcript.ending with
  | .halted => 0
  | _ => 1

end Transcript

namespace Session

/-- Plays at most `rounds` rounds, with a line of input for each that asks for one. -/
def playFor : Nat → Session → List (Except ReadError String) → Transcript
  | 0, _, _ => ⟨[], [], [], .unfinished⟩
  | rounds + 1, session, lines =>
      let round := session.turn
      let later : Transcript :=
        match round.demand with
        | .nothing => ⟨[], round.session.dump, [], .halted⟩
        | .surrender cause => .failure cause
        | .line =>
            match round.session.feed lines.head? with
            | .error cause => .failure cause
            | .ok fed => fed.playFor rounds lines.tail
        | .round => round.session.playFor rounds lines
      later.after round.values round.records

/-- Plays a session to its end: every round but the last takes a line. -/
def play (session : Session) (lines : List (Except ReadError String)) : Transcript :=
  session.playFor (lines.length + 1) lines

end Session

/-- Runs a program from the text of its file and the lines of the standard input. -/
def run (options : Options) (text : Except ReadError String)
    (lines : List (Except ReadError String)) : Transcript :=
  match Session.start options text with
  | (records, .error cause) => (Transcript.failure cause).after [] records
  | (records, .ok session) => (session.play lines).after [] records

/-- The text on the standard error output, with every line at the given time. -/
def Transcript.errors (transcript : Transcript) (options : Options) (time : String) : String :=
  options.logger.write time transcript.records

end Intcode.CommandLine
