import Intcode.Proofs.Statuses

/-! What a reset starts from.

A machine keeps its number, its kind of memory and the cells that it was loaded with through
every call, whatever becomes of the memory itself. A reset is made from these three alone, so
nothing of the history is left after it.
-/

namespace Intcode.Machine

structure LoadedFrom (kind : Store.Kind) (id : Nat) (program : List Int) (machine : Machine) :
    Prop where
  sameId : machine.id = id
  sameKind : machine.kind = kind
  sameProgram : machine.program = program

variable {kind : Store.Kind} {id : Nat} {program : List Int} {machine : Machine}

/-- What a reset leaves alone is what a machine is loaded with. -/
theorem reset_eq_load (machine : Machine) :
    machine.reset = load machine.kind machine.id machine.program :=
  rfl

theorem LoadedFrom.reset (loaded : machine.LoadedFrom kind id program) :
    machine.reset = load kind id program := by
  rw [reset_eq_load, loaded.sameKind, loaded.sameId, loaded.sameProgram]

theorem LoadedFrom.step (loaded : machine.LoadedFrom kind id program) :
    machine.step.machine.LoadedFrom kind id program := by
  obtain ⟨sameId, sameKind, sameProgram⟩ := machine.kept_step
  exact ⟨sameId.trans loaded.sameId, sameKind.trans loaded.sameKind,
    sameProgram.trans loaded.sameProgram⟩

theorem LoadedFrom.write (loaded : machine.LoadedFrom kind id program) (address : Nat) (value : Int) :
    (machine.write address value).2.LoadedFrom kind id program := by
  unfold Machine.write
  split
  · exact ⟨loaded.sameId, loaded.sameKind, loaded.sameProgram⟩
  · exact loaded

theorem LoadedFrom.call (loaded : machine.LoadedFrom kind id program) (watched : Event → Bool)
    (call : Call) : (machine.call watched call).machine.LoadedFrom kind id program := by
  cases call with
  | step => exact loaded.step
  | runFor budget => exact drive_invariant (fun _ => LoadedFrom.step) watched budget #[] loaded
  | run fuel => exact drive_invariant (fun _ => LoadedFrom.step) watched fuel #[] loaded
  | push value | extend values | pop | take =>
      exact ⟨loaded.sameId, loaded.sameKind, loaded.sameProgram⟩
  | reset => exact ⟨loaded.sameId, loaded.sameKind, loaded.sameProgram⟩
  | write address value => exact loaded.write address value

theorem loadedFrom_calls (watched : Event → Bool) (kind : Store.Kind) (id : Nat)
    (program : List Int) (history : List Call) :
    ((load kind id program).calls watched history).machine.LoadedFrom kind id program :=
  calls_invariant (fun call _ _ loaded => loaded.call watched call) ⟨rfl, rfl, rfl⟩

/-- A reset gives the machine as it was loaded, after every history of calls, and whatever is
asked later is answered as if nothing had been asked before. -/
theorem reset_forgets_history (watched : Event → Bool) (kind : Store.Kind) (id : Nat)
    (program : List Int) (history : List Call) :
    ((load kind id program).calls watched (history ++ [.reset])).machine = load kind id program ∧
      ∀ later,
        ((load kind id program).calls watched (history ++ [.reset] ++ later)).answer =
            ((load kind id program).calls watched (history ++ [.reset])).answer ++
              ((load kind id program).calls watched later).answer ∧
          ((load kind id program).calls watched (history ++ [.reset] ++ later)).machine =
            ((load kind id program).calls watched later).machine := by
  have fresh : ((load kind id program).calls watched (history ++ [.reset])).machine =
      load kind id program :=
    (calls_append watched _ history [.reset]).2.trans
      (loadedFrom_calls watched kind id program history).reset
  refine ⟨fresh, ?_⟩
  intro later
  have whole := calls_append watched (load kind id program) (history ++ [.reset]) later
  rw [fresh] at whole
  exact whole

end Intcode.Machine
