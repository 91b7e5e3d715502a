import Intcode.Machine.Run

/-! What can be asked of a machine from outside, as a value.

A history of a machine is a list of calls; `calls` gives the answers to all of them and
the machine at the end.
-/

namespace Intcode.Machine

inductive Call where
  | step
  | runFor (budget : Nat)
  /-- Runs until the machine stops, if it does within `fuel` steps. -/
  | run (fuel : Nat)
  | push (value : Int)
  | extend (values : List Int)
  | pop
  | take
  | reset
  | write (address : Nat) (value : Int)
deriving DecidableEq, Repr

inductive Answer where
  | done
  | outcome (result : Except Fault Outcome)
  | status (result : Except Fault Status)
  /-- The fuel of a run was used up. -/
  | unfinished
  | value (value : Option Int)
  | values (values : List Int)
  | written (result : Except Address.Error Unit)

/-- Answers a call, with the events that are watched. -/
def call (watched : Event → Bool) (machine : Machine) : Call → Reply Answer
  | .step =>
      let reply := machine.step
      ⟨.outcome reply.answer, reply.machine, reply.log.filter watched⟩
  | .runFor budget =>
      let reply := machine.runFor watched budget
      ⟨.status reply.answer, reply.machine, reply.log⟩
  | .run fuel =>
      let reply := machine.drive watched fuel #[]
      ⟨reply.answer.elim .unfinished .status, reply.machine, reply.log⟩
  | .push value => ⟨.done, machine.push value, []⟩
  | .extend values => ⟨.done, machine.extend values, []⟩
  | .pop =>
      let (value, machine) := machine.pop
      ⟨.value value, machine, []⟩
  | .take =>
      let (values, machine) := machine.take
      ⟨.values values, machine, []⟩
  | .reset => ⟨.done, machine.reset, [.reset].filter watched⟩
  | .write address value =>
      let (result, machine) := machine.write address value
      ⟨.written result, machine, []⟩

/-- Answers calls one after the other. -/
def calls (watched : Event → Bool) (machine : Machine) : List Call → Reply (List Answer)
  | [] => ⟨[], machine, []⟩
  | first :: rest =>
      let reply := machine.call watched first
      let later := reply.machine.calls watched rest
      ⟨reply.answer :: later.answer, later.machine, reply.log ++ later.log⟩

end Intcode.Machine
