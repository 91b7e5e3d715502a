import Intcode.Machine.Basic

/-! Runs of many steps.

A run goes on until the program halts, fails or lacks input, or until a budget of steps
is used up. The events of a run that are watched are kept, the others are dropped, so
that a long run that nobody watches needs no memory for them.
-/

namespace Intcode.Machine

/-- Steps until the machine stops, with the way it stopped, or until the budget is used
up, with no answer. The kept events are added to `kept`. -/
def drive (watched : Event → Bool) :
    Nat → Machine → Array Event → Reply (Option (Except Fault Status))
  | 0, machine, kept => ⟨none, machine, kept.toList⟩
  | budget + 1, machine, kept =>
      let ⟨answer, machine, log⟩ := machine.step
      let kept := kept ++ log.filter watched
      match answer with
      | .error fault => ⟨some (.error fault), machine, kept.toList⟩
      | .ok .halted => ⟨some (.ok .halted), machine, kept.toList⟩
      | .ok .awaitingInput => ⟨some (.ok .awaitingInput), machine, kept.toList⟩
      | .ok .executed => drive watched budget machine kept
      | .ok (.output _) => drive watched budget machine kept

/-- Runs for at most `budget` steps. If they are used up the answer is the status at that
moment. -/
def runFor (watched : Event → Bool) (budget : Nat) (machine : Machine) :
    Reply (Except Fault Status) :=
  let ⟨answer, machine, log⟩ := machine.drive watched budget #[]
  ⟨answer.getD (.ok machine.state.status), machine, log⟩

/-- Runs until the machine stops, if it does within `fuel` steps. -/
def run? (watched : Event → Bool) (fuel : Nat) (machine : Machine) :
    Option (Reply (Except Fault Status)) :=
  let ⟨answer, machine, log⟩ := machine.drive watched fuel #[]
  answer.map fun answer => ⟨answer, machine, log⟩

/-- The replies to single steps, up to the first after which a run would stop. -/
def trace : Nat → Machine → List (Reply (Except Fault Outcome))
  | 0, _ => []
  | limit + 1, machine =>
      let reply := machine.step
      match reply.answer with
      | .ok .executed | .ok (.output _) => reply :: trace limit reply.machine
      | _ => [reply]

end Intcode.Machine
