import Intcode.Proofs.Decision
import Intcode.Proofs.Places
import Intcode.Proofs.Table

/-! Decisions follow the table.

Each part of a decision is the value that the table names, guarded by the checks that the
table lists for it: the decoded instruction, the cells of its operands, their modes, the
values and targets that they denote, and the action of each family. The checks add up in
the order in which the parts are taken, and `View.result_decision` is their sum.
-/

namespace Intcode

theorem Eval.result_bind_guarded {α β : Type} {first : Eval α} {next : α → Eval β}
    {first? second? : Option Fault} {value : α} {result : β}
    (found : first.result = guarded first? value)
    (continues : (next value).result = guarded second? result) :
    (first >>= next).result = guarded (first?.or second?) result := by
  rw [Eval.result_bind, found]
  cases first? with
  | some fault => rfl
  | none => exact continues

theorem Eval.result_bind_ok {α β : Type} {first : Eval α} {next : α → Eval β}
    {fault? : Option Fault} {value : α} {result : β} (found : first.result = guarded fault? value)
    (continues : (next value).result = .ok result) :
    (first >>= next).result = guarded fault? result := by
  rw [← fault?.or_none]
  exact Eval.result_bind_guarded found continues

theorem Eval.result_bind_report {α : Type} (event : Event) (next : Unit → Eval α) :
    (Eval.report event >>= next).result = (next ()).result :=
  Eval.result_bind _ next

theorem Opcode.number_mem (opcode : Opcode) :
    opcode.number ∈ [1, 2, 3, 4, 5, 6, 7, 8, 9, 99] := by
  cases opcode <;> decide

theorem Opcode.ofNumber?_ne_none {number : Int}
    (listed : number ∈ [1, 2, 3, 4, 5, 6, 7, 8, 9, 99]) : Opcode.ofNumber? number ≠ none := by
  simp only [List.mem_cons, List.not_mem_nil, or_false] at listed
  rcases listed with rfl | rfl | rfl | rfl | rfl | rfl | rfl | rfl | rfl | rfl <;> decide

theorem Mode.exists_digit {digit : Int} (nonneg : 0 ≤ digit) (small : digit ≤ 2) :
    ∃ mode : Mode, digit = mode.digit := by
  have cases : digit = 0 ∨ digit = 1 ∨ digit = 2 := by omega
  rcases cases with rfl | rfl | rfl
  · exact ⟨.indirect, rfl⟩
  · exact ⟨.immediate, rfl⟩
  · exact ⟨.relative, rfl⟩

theorem Mode.ofDigit?_of_large {digit : Int} (large : 2 < digit) : Mode.ofDigit? digit = none := by
  cases found : Mode.ofDigit? digit with
  | none => rfl
  | some mode =>
      rw [Mode.ofDigit?_eq_some_iff] at found
      cases mode <;> simp only [Mode.digit] at found <;> omega

theorem Address.resolve_eq (cell : Int) :
    Address.resolve cell = guarded (Address.fault? cell) cell.toNat := by
  unfold Address.resolve Address.ofCell Address.fault?
  by_cases negative : cell < 0
  · simp only [negative, if_true, guarded_some, Error.fault]
  · by_cases inRange : cell ≤ Address.last
    · simp only [negative, inRange, Int.not_lt.mpr inRange, if_true, if_false, guarded_none]
    · simp only [negative, inRange, Int.not_le.mp inRange, if_true, if_false, guarded_some,
        Error.fault]

namespace View

variable {view : View} {position : Nat}

theorem head_nonneg (known : view.opcodeFault? = none) : 0 ≤ view.head := by
  simp only [opcodeFault?] at known
  split at known
  · contradiction
  · omega

theorem number_mem (known : view.opcodeFault? = none) :
    view.number ∈ [1, 2, 3, 4, 5, 6, 7, 8, 9, 99] := by
  simp only [opcodeFault?] at known
  split at known
  · contradiction
  · rename_i bounds
    simp only [not_or, Decidable.not_not] at bounds
    exact bounds.2.2

theorem decode_head (view : View) :
    Instruction.decode view.head view.ip = guarded view.opcodeFault? view.instruction := by
  unfold Instruction.decode
  by_cases bounds : 0 ≤ view.head ∧ view.head ≤ Instruction.maxEncoding
  · have number : view.head.tmod 100 = view.number := Int.tmod_eq_emod_of_nonneg bounds.1
    rw [if_pos bounds, number]
    cases found : Opcode.ofNumber? view.number with
    | none =>
        have unlisted : view.number ∉ [1, 2, 3, 4, 5, 6, 7, 8, 9, 99] :=
          fun listed => Opcode.ofNumber?_ne_none listed found
        rw [opcodeFault?, if_pos (.inr (.inr unlisted)), guarded_some]
    | some opcode =>
        have listed : view.number ∈ [1, 2, 3, 4, 5, 6, 7, 8, 9, 99] := by
          rw [Opcode.ofNumber?_eq_some_iff.mp found]
          exact opcode.number_mem
        have known : view.opcodeFault? = none := by
          rw [opcodeFault?, if_neg]
          rintro (negative | large | unlisted)
          · omega
          · omega
          · exact unlisted listed
        rw [known, guarded_none, instruction, found, Option.getD_some]
  · have fault : view.opcodeFault? = some (.unknownOpcode view.head view.ip) := by
      rw [opcodeFault?, if_pos (by omega)]
    rw [if_neg bounds, fault, guarded_some]

theorem exists_opcode (known : view.opcodeFault? = none) :
    ∃ opcode : Opcode, view.number = opcode.number ∧ view.instruction.opcode = opcode := by
  cases found : Opcode.ofNumber? view.number with
  | none => exact absurd found (Opcode.ofNumber?_ne_none (number_mem known))
  | some opcode =>
      refine ⟨opcode, Opcode.ofNumber?_eq_some_iff.mp found, ?_⟩
      rw [instruction, found, Option.getD_some]

theorem operandCells_eq (view : View) (count : Nat) :
    view.operandCells count =
      guarded (if Address.last < view.ip + count then some .pointerOverflow else none)
        ((List.range' 1 count).map view.raw) := by
  have cells : (List.range' 1 count).map view.raw =
      (List.range count).map fun offset => view.memory (view.ip + (offset + 1)) := by
    rw [List.range'_eq_map_range, List.map_map]
    apply List.map_congr_left
    intro offset _
    simp only [Function.comp, raw, Nat.add_comm 1]
  unfold operandCells
  by_cases inRange : view.ip + count ≤ Address.last
  · rw [if_pos inRange, if_neg (by omega), guarded_none, cells]
  · rw [if_neg inRange, if_pos (by omega), guarded_some]

theorem arity_instruction (view : View) : view.instruction.arity = Table.arity view.number := by
  unfold Instruction.arity instruction Table.arity Opcode.ofNumber?
  split <;> simp_all [Opcode.arity]

theorem digit_bounds (view : View) (position : Nat) :
    0 ≤ view.digit position ∧ view.digit position < 10 := by
  unfold digit
  omega

theorem modeOf_head (nonneg : 0 ≤ view.head) (within : position ≤ 17) :
    Instruction.modeOf view.head position =
      guarded (view.modeFault? position) (view.mode position) := by
  have digit : modeDigit view.head position = view.digit position :=
    modeDigit_of_nonneg nonneg within
  unfold Instruction.modeOf modeFault? mode
  rw [digit]
  by_cases large : 2 < view.digit position
  · rw [Mode.ofDigit?_of_large large, if_pos large, guarded_some]
  · obtain ⟨mode, selected⟩ :=
      Mode.exists_digit (view.digit_bounds position).1 (Int.not_lt.mp large)
    rw [if_neg large, selected, Mode.ofDigit?_digit, guarded_none, Option.getD_some]

theorem digit_mode (valid : view.modeFault? position = none) :
    (view.mode position).digit = view.digit position := by
  simp only [modeFault?] at valid
  split at valid
  · contradiction
  · rename_i small
    obtain ⟨mode, selected⟩ :=
      Mode.exists_digit (view.digit_bounds position).1 (Int.not_lt.mp small)
    rw [View.mode, selected, Mode.ofDigit?_digit, Option.getD_some]

/-- Operands have their modes read one after the other, and the first digit that is none
ends that. -/
theorem ofCellsFrom_raw {instruction : Instruction} (encoded : instruction.encoding = view.head)
    (nonneg : 0 ≤ view.head) (count start : Nat) (within : start + count ≤ 18) :
    Operand.ofCellsFrom instruction start ((List.range' start count).map view.raw) =
      guarded ((List.range' start count).findSome? view.modeFault?)
        ((List.range' start count).map view.operand) := by
  induction count generalizing start with
  | zero => rfl
  | succ count ih =>
      have first : instruction.mode start = guarded (view.modeFault? start) (view.mode start) := by
        rw [Instruction.mode, encoded, modeOf_head nonneg (by omega)]
      have rest := ih (start + 1) (by omega)
      simp only [List.range'_succ, List.map_cons, Operand.ofCellsFrom, first, rest,
        List.findSome?_cons]
      cases view.modeFault? start with
      | some fault => rfl
      | none =>
          simp only [guarded_none]
          cases (List.range' (start + 1) count).findSome? view.modeFault? with
          | some fault => rfl
          | none => rfl

theorem value_operand (valid : view.modeFault? position = none) :
    (view.operand position).value view.memory view.base =
      guarded (view.readFault? position) (view.value position) := by
  have selected := digit_mode valid
  unfold Operand.value readFault? value effective
  rw [← selected]
  simp only [operand]
  cases view.mode position with
  | indirect => exact (congrArg _ (Address.resolve_eq _)).trans (map_guarded _ _ _)
  | immediate => rfl
  | relative => exact (congrArg _ (Address.resolve_eq _)).trans (map_guarded _ _ _)

theorem target_operand (valid : view.modeFault? position = none) :
    (view.operand position).target view.base =
      guarded (view.writeFault? position) (view.target position) := by
  have selected := digit_mode valid
  unfold Operand.target writeFault? target effective
  rw [← selected]
  simp only [operand]
  cases view.mode position with
  | indirect => exact Address.resolve_eq _
  | immediate => rfl
  | relative => exact Address.resolve_eq _

theorem result_readAt_of_getElem? {instruction : Instruction} {operands : List Operand}
    {index : Nat} {operand : Operand} (found : operands[index]? = some operand) :
    (view.readAt instruction operands index).result = operand.value view.memory view.base := by
  simp only [readAt, operandAt, found, read, Eval.result_bind, Eval.result_pure, Except.bind]
  cases operand.value view.memory view.base <;> rfl

theorem result_locateAt_of_getElem? {instruction : Instruction} {operands : List Operand}
    {index : Nat} {operand : Operand} (found : operands[index]? = some operand) :
    (view.locateAt instruction operands index).result = operand.target view.base := by
  simp only [locateAt, operandAt, found, Eval.result_bind, Eval.result_pure, Except.bind]
  rfl

theorem result_readAt {instruction : Instruction} {operands : List Operand} {index : Nat}
    (found : operands[index]? = some (view.operand position))
    (valid : view.modeFault? position = none) :
    (view.readAt instruction operands index).result =
      guarded (view.readFault? position) (view.value position) := by
  rw [result_readAt_of_getElem? found, value_operand valid]

theorem result_locateAt {instruction : Instruction} {operands : List Operand} {index : Nat}
    (found : operands[index]? = some (view.operand position))
    (valid : view.modeFault? position = none) :
    (view.locateAt instruction operands index).result =
      guarded (view.writeFault? position) (view.target position) := by
  rw [result_locateAt_of_getElem? found, target_operand valid]

section

variable {instruction : Instruction}

/-- Instructions with two values read both of them, in this order, before they go on. -/
theorem result_readBoth {operands : List Operand} {next : Int → Int → Eval Action}
    {rest? : Option Fault} {action : Action}
    (left : operands[0]? = some (view.operand 1)) (right : operands[1]? = some (view.operand 2))
    (validLeft : view.modeFault? 1 = none) (validRight : view.modeFault? 2 = none)
    (continues : (next (view.value 1) (view.value 2)).result = guarded rest? action) :
    (do
      let first ← view.readAt instruction operands 0
      let second ← view.readAt instruction operands 1
      next first second).result =
      guarded ((view.readFault? 1).or ((view.readFault? 2).or rest?)) action := by
  apply Eval.result_bind_guarded (result_readAt left validLeft)
  exact Eval.result_bind_guarded (result_readAt right validRight) continues

theorem result_evaluateArithmetic {result : Int}
    (combined : instruction.opcode.combine? (view.value 1) (view.value 2) = some result)
    (valid : ∀ position ∈ [1, 2, 3], view.modeFault? position = none) :
    (Family.evaluateArithmetic view instruction ([1, 2, 3].map view.operand)).result =
      guarded ((view.readFault? 1).or ((view.readFault? 2).or (view.writeFault? 3)))
        (.store (view.target 3) result) := by
  apply result_readBoth rfl rfl (valid 1 (by simp)) (valid 2 (by simp))
  simp only [combined]
  exact Eval.result_bind_ok (result_locateAt rfl (valid 3 (by simp))) rfl

theorem result_evaluateComparison {holds : Bool}
    (compared : instruction.opcode.compare? (view.value 1) (view.value 2) = some holds)
    (valid : ∀ position ∈ [1, 2, 3], view.modeFault? position = none) :
    (Family.evaluateComparison view instruction ([1, 2, 3].map view.operand)).result =
      guarded ((view.readFault? 1).or ((view.readFault? 2).or (view.writeFault? 3)))
        (.store (view.target 3) (if holds then 1 else 0)) := by
  apply result_readBoth rfl rfl (valid 1 (by simp)) (valid 2 (by simp))
  simp only [compared]
  exact Eval.result_bind_ok (result_locateAt rfl (valid 3 (by simp))) rfl

/-- The target of a jump is read in any case, and has to be an address only if the jump is
taken. -/
theorem result_evaluateControl (jump : instruction.opcode.isJump = true)
    (valid : ∀ position ∈ [1, 2], view.modeFault? position = none) :
    (Family.evaluateControl view instruction ([1, 2].map view.operand)).result =
      if instruction.opcode.jumps (view.value 1) then
        guarded ((view.readFault? 1).or ((view.readFault? 2).or (Address.fault? (view.value 2))))
          (.jump (view.value 2).toNat)
      else guarded ((view.readFault? 1).or (view.readFault? 2)) .pass := by
  unfold Family.evaluateControl
  split
  · rename_i halt
    rw [halt] at jump
    contradiction
  · rw [if_pos jump]
    by_cases taken : instruction.opcode.jumps (view.value 1) = true
    · rw [if_pos taken]
      apply result_readBoth rfl rfl (valid 1 (by simp)) (valid 2 (by simp))
      rw [Eval.result_bind_report, if_pos taken]
      exact Eval.result_bind_ok (Address.resolve_eq (view.value 2)) rfl
    · rw [if_neg taken, ← (view.readFault? 2).or_none]
      apply result_readBoth rfl rfl (valid 1 (by simp)) (valid 2 (by simp))
      rw [Eval.result_bind_report, if_neg taken]
      rfl

theorem result_evaluateInput (input : instruction.opcode = .input)
    (valid : view.modeFault? 1 = none) :
    (Family.evaluateChannel view instruction [view.operand 1]).result =
      guarded (view.writeFault? 1)
        (match view.pending with
          | none => .suspend
          | some value => .receive (view.target 1) value) := by
  simp only [Family.evaluateChannel, input]
  apply Eval.result_bind_ok (result_locateAt rfl valid)
  cases view.pending <;> rfl

theorem result_evaluateOutput (output : instruction.opcode = .output)
    (valid : view.modeFault? 1 = none) :
    (Family.evaluateChannel view instruction [view.operand 1]).result =
      guarded (view.readFault? 1) (.emit (view.value 1)) := by
  simp only [Family.evaluateChannel, output]
  exact Eval.result_bind_ok (result_readAt rfl valid) rfl

theorem result_evaluateRegister (adjust : instruction.opcode = .adjustBase)
    (valid : view.modeFault? 1 = none) :
    (Family.evaluateRegister view instruction [view.operand 1]).result =
      guarded (view.readFault? 1) (.rebase (view.value 1)) := by
  simp only [Family.evaluateRegister, adjust]
  exact Eval.result_bind_ok (result_readAt rfl valid) rfl

end

/-- An instruction that is known and whose modes are valid evaluates as the table says. -/
theorem result_evaluate (known : view.opcodeFault? = none)
    (valid : ∀ position ∈ List.range' 1 (Table.arity view.number), view.modeFault? position = none) :
    (view.instruction.opcode.family.evaluate view view.instruction
        ((List.range' 1 (Table.arity view.number)).map view.operand)).result =
      guarded (firstFault? ((Table.reads view.number).map view.readFault? ++ [view.placeFault?]))
        view.action := by
  obtain ⟨opcode, number, selected⟩ := exists_opcode known
  rw [number] at valid ⊢
  simp only [selected, action, placeFault?, jumps, number]
  cases opcode with
  | add | multiply =>
      refine (result_evaluateArithmetic (by rw [selected]; rfl) valid).trans ?_
      simp [Opcode.number, Table.reads, Table.place?]
  | lessThan | equals =>
      refine (result_evaluateComparison (by rw [selected]; rfl) valid).trans ?_
      simp [Opcode.number, Table.reads, Table.place?]
  | jumpIfTrue | jumpIfFalse =>
      refine (result_evaluateControl (by rw [selected]; rfl) valid).trans ?_
      rw [selected]
      by_cases taken : view.value 1 = 0
      · simp [Opcode.number, Opcode.jumps, Table.reads, Table.place?, taken]
      · simp [Opcode.number, Opcode.jumps, Table.reads, Table.place?, taken]
  | input =>
      refine (result_evaluateInput selected (valid 1 (by simp [Opcode.number, Table.arity]))).trans ?_
      cases view.pending <;> simp [Opcode.number, Table.reads, Table.place?]
  | output =>
      refine (result_evaluateOutput selected (valid 1 (by simp [Opcode.number, Table.arity]))).trans ?_
      simp [Opcode.number, Table.reads, Table.place?]
  | adjustBase =>
      refine (result_evaluateRegister selected (valid 1 (by simp [Opcode.number, Table.arity]))).trans ?_
      simp [Opcode.number, Table.reads, Table.place?]
  | halt =>
      simp only [Family.evaluate, Opcode.family, Family.evaluateControl, selected]
      rfl

theorem clear_checks (clear : firstFault? view.checks = none) :
    view.opcodeFault? = none ∧ view.fetchFault? = none ∧
      (∀ position ∈ List.range' 1 (Table.arity view.number), view.modeFault? position = none) ∧
      (∀ position ∈ Table.reads view.number, view.readFault? position = none) ∧
      view.placeFault? = none := by
  simp only [checks, firstFault?_append, firstFault?_cons, firstFault?_nil, firstFault?_map,
    Option.or_eq_none_iff, List.findSome?_eq_none_iff] at clear
  obtain ⟨⟨⟨⟨known, fetched, -⟩, modes⟩, reads⟩, place, -⟩ := clear
  exact ⟨known, fetched, modes, reads, place⟩

theorem fetch_eq (view : View) :
    view.fetch =
      guarded (view.opcodeFault?.or view.fetchFault?)
        (view.instruction, (List.range' 1 (Table.arity view.number)).map view.raw) := by
  have decoded := view.decode_head
  have cells := view.operandCells_eq (Table.arity view.number)
  rw [← fetchFault?] at cells
  unfold fetch
  rw [← head, decoded]
  cases view.opcodeFault? with
  | some fault => rfl
  | none =>
      simp only [guarded_none, view.arity_instruction, cells, Option.none_or]
      cases view.fetchFault? with
      | some fault => rfl
      | none => rfl

/-- A decision fails with the first fault that applies, and otherwise is the one of the
table. -/
theorem result_decision (view : View) :
    view.decision.result = guarded (firstFault? view.checks) (view.instruction, view.action) := by
  have fetched := view.fetch_eq
  simp only [checks, firstFault?_append, firstFault?_cons, firstFault?_nil, Option.or_none]
  cases unfetched : view.opcodeFault?.or view.fetchFault? with
  | some fault =>
      rw [unfetched] at fetched
      rw [decision_of_not_fetched fetched]
      rfl
  | none =>
      rw [unfetched] at fetched
      obtain ⟨known, -⟩ := Option.or_eq_none_iff.mp unfetched
      have encoded : view.instruction.encoding = view.head := rfl
      have read := ofCellsFrom_raw encoded (head_nonneg known) (Table.arity view.number) 1
        (by unfold Table.arity; split <;> omega)
      rw [decision_of_fetched fetched, Operand.ofCells, read, firstFault?_map]
      cases invalid : (List.range' 1 (Table.arity view.number)).findSome? view.modeFault? with
      | some fault => rfl
      | none =>
          have valid := List.findSome?_eq_none_iff.mp invalid
          simp only [guarded_none, result_evaluate known valid, map_guarded, Option.none_or,
            firstFault?_append, firstFault?_cons, firstFault?_nil, Option.or_none]

end View

namespace Machine

variable {machine : Machine}

theorem step_of_fault {fault : Fault} (going : machine.final? = none)
    (found : firstFault? machine.view.checks = some fault) :
    machine.step = machine.fail machine.view.decision.log fault := by
  have decided := machine.view.result_decision
  rw [found, guarded_some] at decided
  simp only [step_eq, going, cycle_eq, decided]

theorem step_of_action (going : machine.final? = none)
    (clear : firstFault? machine.view.checks = none) :
    machine.step =
      machine.running.enact machine.view.decision.log (1 + Table.arity machine.view.number)
        machine.view.action := by
  have decided := machine.view.result_decision
  rw [clear, guarded_none] at decided
  simp only [step_eq, going, cycle_eq, decided, Instruction.width, View.arity_instruction]

end Machine

end Intcode
