import Intcode.Machine.Call

/-! Machines side by side, whose outputs are piped into inputs. -/

namespace Intcode

structure Network where
  machines : Array Machine
deriving DecidableEq

namespace Network

/-- Answers a call to the machine at an index, if there is one. -/
def call? (network : Network) (index : Nat) (call : Machine.Call) :
    Option (Machine.Answer × Network) :=
  network.machines[index]?.map fun machine =>
    let reply := machine.call (fun _ => false) call
    (reply.answer, ⟨network.machines.setIfInBounds index reply.machine⟩)

/-- Moves all outputs of one machine to the inputs of another, or of itself, with the
values moved. -/
def pipe (network : Network) (producer consumer : Nat) : List Int × Network :=
  match network.machines[producer]? with
  | none => ([], network)
  | some machine =>
      let (values, machine) := machine.take
      (values, ⟨(network.machines.setIfInBounds producer machine).modify consumer
        (·.extend values)⟩)

end Network

end Intcode
