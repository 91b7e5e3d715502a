import Intcode.Proofs.Layouts
import Intcode.Proofs.Slicing

/-! # Runs of whole programs

A program that stores only among its own cells can be followed on paper: a `Snapshot` has the cells
as a list, and `Snapshot.next` is computed from it by the instruction table.  A machine of either
kind goes from snapshot to snapshot, so that a program is run by listing the snapshots up to its
halt.  Two programs are run in this way, one for every list of values and one for every input.
-/

namespace Intcode

theorem Store.accepts_ofCells (kind : Kind) {cells : List Int} {address : Nat}
    (inside : address < cells.length) : (ofCells kind cells).accepts address = true := by
  cases kind with
  | dense => simp [ofCells, accepts, Dense.accepts, Dense.ofCells, inside]
  | sparse => rfl

theorem Store.put_ofCells (kind : Kind) {cells : List Int} {address : Nat}
    (inside : address < cells.length) (value : Int) :
    (ofCells kind cells).put address value = ofCells kind (cells.set address value) := by
  cases kind with
  | dense =>
      have unpadded : address + 1 - cells.length = 0 := by omega
      simp [ofCells, put, Dense.put, Dense.ofCells, Array.rightpad, unpadded]
  | sparse =>
      refine congrArg Store.sparse (Sparse.ext_read fun other => ?_)
      rw [Sparse.read_put, Sparse.read_ofCells, Sparse.read_ofCells, List.getElem?_set]
      by_cases same : address = other
      · subst same
        simp [inside]
      · simp [same, Ne.symm same]

namespace View

variable {view : View}

theorem literal_output (head : view.head = 104) (within : view.ip + 1 ≤ Address.last) :
    view.number = 4 ∧ view.action = .emit (view.raw 1) ∧ firstFault? view.checks = none := by
  have number : view.number = 4 := by rw [View.number, head]; rfl
  have digit : view.digit 1 = 1 := by rw [View.digit, head]; rfl
  have fetched : view.fetchFault? = none := by
    rw [fetchFault?, number]
    exact if_neg (Nat.not_lt.mpr within)
  refine ⟨number, ?_, ?_⟩
  · simp only [action, number, value, digit, if_true]
  · simp [checks, opcodeFault?, fetched, modeFault?, readFault?, placeFault?, jumps, head, number,
      digit, Table.arity, Table.reads, Table.place?, Instruction.maxEncoding]

theorem halt (head : view.head = 99) (within : view.ip ≤ Address.last) :
    view.number = 99 ∧ view.action = .stop ∧ firstFault? view.checks = none := by
  have number : view.number = 99 := by rw [View.number, head]; rfl
  have fetched : view.fetchFault? = none := by
    rw [fetchFault?, number]
    exact if_neg (Nat.not_lt.mpr within)
  refine ⟨number, ?_, ?_⟩
  · simp only [action, number]
  · simp [checks, opcodeFault?, fetched, placeFault?, jumps, head, number, Table.arity, Table.reads,
      Table.place?, Instruction.maxEncoding]

end View

/-- What a machine goes by, with its memory as a list of cells. -/
structure Snapshot where
  cells : List Int
  base : Base
  ip : Nat
  steps : Nat
  input : List Int
  output : List Int

def Action.storedIn : Action → List Int → List Int
  | .store address value, cells | .receive address value, cells => cells.set address value
  | _, cells => cells

namespace Snapshot

def view (shot : Snapshot) : View where
  memory address := shot.cells[address]?.getD 0
  base := shot.base
  ip := shot.ip
  pending := shot.input.head?

def width (shot : Snapshot) : Nat :=
  1 + Table.arity shot.view.number

/-- The snapshot after the next instruction. -/
def next (shot : Snapshot) : Snapshot where
  cells := shot.view.action.storedIn shot.cells
  base := shot.view.action.rebased shot.base
  ip := shot.view.action.moved shot.width shot.ip
  steps := shot.view.action.counted shot.steps
  input := shot.view.action.consumed shot.input
  output := (shot.view.action.emitted shot.output.toArray).toList

/-- The next instruction is in order, stores among the cells, and ends before the last address. -/
def isClear (shot : Snapshot) : Bool :=
  (firstFault? shot.view.checks).isNone &&
    shot.view.action.address?.all (· < shot.cells.length) &&
    shot.ip + shot.width ≤ Address.last

theorem next_of_emit {shot : Snapshot} {value : Int} (emits : shot.view.action = .emit value) :
    shot.next =
      { shot with
        ip := shot.ip + shot.width
        steps := shot.steps + 1
        output := shot.output ++ [value] } := by
  simp only [next, emits, Action.emitted, Array.toList_push]
  rfl

theorem next_of_stop {shot : Snapshot} (stops : shot.view.action = .stop) :
    shot.next = { shot with steps := shot.steps + 1 } := by
  rw [next, stops]
  rfl

/-- The instructions from here on are in order, and a number of them leads to a halt. -/
inductive HaltsIn : Snapshot → Nat → Snapshot → Prop where
  | stop {shot finish : Snapshot} (clear : shot.isClear = true)
      (halts : shot.view.action.entered .running = .halted) (reached : shot.next = finish) :
      HaltsIn shot 1 finish
  | step {shot finish : Snapshot} {count : Nat} (next : Snapshot) (clear : shot.isClear = true)
      (goes : shot.view.action.entered .running = .running) (reached : shot.next = next)
      (rest : HaltsIn next count finish) : HaltsIn shot (count + 1) finish

end Snapshot

namespace Machine

/-- A machine with a memory of some kind is as the snapshot says. -/
structure Shows (machine : Machine) (kind : Store.Kind) (shot : Snapshot) : Prop where
  memory : machine.state.memory = .ofCells kind shot.cells
  base : machine.state.base = shot.base
  ip : machine.state.ip = shot.ip
  steps : machine.state.steps = shot.steps
  input : machine.input = shot.input
  output : machine.output.toList = shot.output

variable {machine : Machine} {kind : Store.Kind} {shot finish : Snapshot}

theorem Shows.view (shows : machine.Shows kind shot) : machine.view = shot.view := by
  have memory : machine.state.memory.read = fun address => shot.cells[address]?.getD 0 := by
    funext address
    rw [shows.memory, Store.read_ofCells]
  simp only [Machine.view, State.view, Snapshot.view, memory, shows.base, shows.ip, shows.input]

theorem Shows.stored (shows : machine.Shows kind shot) (action : Action)
    (inside : action.address?.all (· < shot.cells.length) = true) :
    action.stored machine.state.memory = .ofCells kind (action.storedIn shot.cells) := by
  rw [shows.memory]
  cases action with
  | store address value | receive address value =>
      exact Store.put_ofCells kind (by simpa [Action.address?] using inside) value
  | _ => rfl

theorem Shows.refusal? (shows : machine.Shows kind shot) {action : Action}
    (inside : action.address?.all (· < shot.cells.length) = true) :
    machine.running.refusal? action = none := by
  cases stores : action.address? with
  | none => simp [Machine.refusal?, stores]
  | some address =>
      rw [stores] at inside
      apply refusal?_of_accepted _ stores
      have accepted := Store.accepts_ofCells kind (of_decide_eq_true inside)
      rw [← shows.memory] at accepted
      exact accepted

/-- A machine does what its snapshot says. -/
theorem Shows.step (shows : machine.Shows kind shot) (going : machine.final? = none)
    (clear : shot.isClear = true) :
    machine.step.answer = .ok shot.view.action.outcome ∧
      machine.step.machine.Shows kind shot.next := by
  simp only [Snapshot.isClear, Bool.and_eq_true, Option.isNone_iff_eq_none,
    decide_eq_true_eq] at clear
  obtain ⟨⟨decided, inside⟩, within⟩ := clear
  have accepted := shows.refusal? inside
  have inRange : machine.running.overrun? shot.width shot.view.action = none := by
    have ip : machine.running.state.ip = shot.ip := shows.ip
    rw [overrun?, ip, if_neg (by omega)]
  have stepped := step_of_action going (shows.view ▸ decided)
  rw [shows.view, ← Snapshot.width] at stepped
  rw [stepped, answer_enact, accepted, inRange, machine_enact _ _ _ accepted inRange]
  refine ⟨rfl, ?_⟩
  exact {
    memory := shows.stored shot.view.action inside
    base := congrArg shot.view.action.rebased shows.base
    ip := congrArg (shot.view.action.moved shot.width) shows.ip
    steps := congrArg shot.view.action.counted shows.steps
    input := congrArg shot.view.action.consumed shows.input
    output := by
      have output : machine.output = shot.output.toArray := by
        rw [← shows.output, Array.toArray_toList]
      exact congrArg (fun before => (shot.view.action.emitted before).toList) output }

theorem outcome_of_entered {action : Action} :
    (action.entered .running = .halted → action.outcome = .halted) ∧
      (action.entered .running = .running →
        action.outcome = .executed ∨ ∃ value, action.outcome = .output value) := by
  cases action <;> simp [Action.entered, Action.outcome]

/-- A machine halts when its snapshots do, in any run that is long enough. -/
theorem Shows.drive {count : Nat} (shows : machine.Shows kind shot) (going : machine.final? = none)
    (halts : shot.HaltsIn count finish) (watched : Event → Bool) (more : Nat) (kept : Array Event) :
    (machine.drive watched (count + more) kept).answer = some (.ok .halted) ∧
      (machine.drive watched (count + more) kept).machine.Shows kind finish := by
  induction halts generalizing machine kept with
  | stop clear halts next =>
      obtain ⟨answer, reached⟩ := shows.step going clear
      rw [next] at reached
      rw [outcome_of_entered.1 halts] at answer
      have stops : machine.step.stop? = some (.ok .halted) := by rw [Reply.stop?, answer]
      rw [Nat.add_comm, drive_of_stop watched stops]
      exact ⟨rfl, reached⟩
  | @step shot finish count later clear goes next rest ih =>
      obtain ⟨answer, reached⟩ := shows.step going clear
      rw [next] at reached
      have continues : machine.step.stop? = none := by
        rcases outcome_of_entered.2 goes with executed | ⟨value, output⟩
        · rw [Reply.stop?, answer, executed]
        · rw [Reply.stop?, answer, output]
      rw [Nat.add_right_comm, drive_of_goes watched continues]
      exact ih reached (going_step going continues) _

theorem Shows.run? {count : Nat} (shows : machine.Shows kind shot) (going : machine.final? = none)
    (halts : shot.HaltsIn count finish) (watched : Event → Bool) (more : Nat) :
    ∃ reply, machine.run? watched (count + more) = some reply ∧ reply.answer = .ok .halted ∧
      reply.machine.Shows kind finish := by
  obtain ⟨answer, reached⟩ := shows.drive going halts watched more #[]
  refine ⟨⟨.ok .halted, _, (machine.drive watched (count + more) #[]).log⟩, ?_, rfl, reached⟩
  rw [run?_eq_some_iff, ← answer]

theorem shows_load (kind : Store.Kind) (id : Nat) (program input : List Int) :
    ((load kind id program).extend input).Shows kind ⟨program, .origin, 0, 0, input, []⟩ :=
  ⟨rfl, rfl, rfl, rfl, rfl, rfl⟩

end Machine

namespace Programs

/-! ## Values put out one after the other -/

/-- Puts out the values and halts. -/
def echo (values : List Int) : List Int :=
  values.flatMap (fun value => [104, value]) ++ [99]

def echoText (values : List Int) : String :=
  String.join (values.map fun value => "104," ++ Decimal.render value ++ ",") ++ "99"

theorem echo_cons (value : Int) (rest : List Int) :
    echo (value :: rest) = 104 :: value :: echo rest := rfl

theorem echo_ne_nil (values : List Int) : echo values ≠ [] := by
  simp [echo]

theorem echoText_eq (values : List Int) : echoText values = Listing.render (echo values) := by
  induction values with
  | nil => rfl
  | cons value rest ih =>
      have code : Decimal.digits 104 = ['1', '0', '4'] := rfl
      have joined : echoText (value :: rest) =
          "104," ++ Decimal.render value ++ "," ++ echoText rest := by
        simp [echoText, String.append_assoc]
      obtain ⟨first, later, listed⟩ := List.exists_cons_of_ne_nil (echo_ne_nil rest)
      rw [joined, ih, echo_cons, listed, ← String.toList_inj]
      simp [Listing.render, Text.join_cons_cons, Decimal.render, code]

theorem getElem?_echo (before rest : List Int) (offset : Nat) :
    (echo (before ++ rest))[2 * before.length + offset]? = (echo rest)[offset]? := by
  induction before with
  | nil => simp
  | cons value before ih =>
      have place : 2 * (value :: before).length + offset = 2 * before.length + offset + 2 := by
        rw [List.length_cons]
        omega
      rw [List.cons_append, echo_cons, place]
      exact ih

/-- The values before are put out, and the program goes on after them. -/
def echoing (values before : List Int) : Snapshot :=
  ⟨echo values, .origin, 2 * before.length, before.length, [], before⟩

theorem memory_echoing (before rest : List Int) (offset : Nat) :
    (echoing (before ++ rest) before).view.memory (2 * before.length + offset) =
      (echo rest)[offset]?.getD 0 :=
  congrArg (Option.getD · 0) (getElem?_echo before rest offset)

theorem echoing_emits {before rest : List Int} {value : Int}
    (fits : 2 * (before ++ value :: rest).length ≤ Address.last) :
    let shot := echoing (before ++ value :: rest) before
    shot.isClear = true ∧ shot.view.action = .emit value ∧
      shot.next = echoing (before ++ value :: rest) (before ++ [value]) := by
  intro shot
  have head : shot.view.head = 104 := memory_echoing before (value :: rest) 0
  have raw : shot.view.raw 1 = value := memory_echoing before (value :: rest) 1
  have within : shot.ip + 2 ≤ Address.last := by
    have ip : shot.ip = 2 * before.length := rfl
    rw [List.length_append, List.length_cons] at fits
    omega
  obtain ⟨number, action, decided⟩ := View.literal_output head (Nat.le_of_succ_le within)
  rw [raw] at action
  have width : shot.width = 2 := by rw [Snapshot.width, number]; rfl
  refine ⟨?_, action, ?_⟩
  · rw [Snapshot.isClear, decided, action, width, decide_eq_true within]
    rfl
  · rw [Snapshot.next_of_emit action, width]
    simp [echoing, shot, Nat.mul_add]

theorem echoing_stops {values : List Int} (fits : 2 * values.length ≤ Address.last) :
    (echoing values values).isClear = true ∧ (echoing values values).view.action = .stop := by
  have head : (echoing values values).view.head = 99 := by
    have last := memory_echoing values [] 0
    rw [List.append_nil] at last
    exact last
  have within : (echoing values values).ip + 1 ≤ Address.last := by
    have ip : (echoing values values).ip = 2 * values.length := rfl
    rw [Address.last] at fits ⊢
    omega
  obtain ⟨number, action, decided⟩ := View.halt head (Nat.le_of_succ_le within)
  have width : (echoing values values).width = 1 := by rw [Snapshot.width, number]; rfl
  refine ⟨?_, action⟩
  rw [Snapshot.isClear, decided, action, width, decide_eq_true within]
  rfl

theorem haltsIn_echoing {values before rest : List Int} (parts : before ++ rest = values)
    (fits : 2 * values.length ≤ Address.last) :
    (echoing values before).HaltsIn (rest.length + 1)
      { echoing values values with steps := values.length + 1 } := by
  induction rest generalizing before with
  | nil =>
      rw [List.append_nil] at parts
      subst parts
      obtain ⟨clear, action⟩ := echoing_stops fits
      exact .stop clear (by rw [action]; rfl) (Snapshot.next_of_stop action)
  | cons value rest ih =>
      have further : before ++ [value] ++ rest = values := by simpa using parts
      have later := ih further
      subst parts
      obtain ⟨clear, action, next⟩ := echoing_emits fits
      exact .step _ clear (by rw [action]; rfl) next later

/-- A run has put out the values, and has changed nothing in the memory. -/
structure Echoed (values : List Int) (start : Machine) (reply : Machine.Reply (Except Fault Status)) :
    Prop where
  halted : reply.answer = .ok .halted
  output : reply.machine.take.1 = values
  steps : reply.machine.state.steps = values.length + 1
  ip : reply.machine.state.ip = 2 * values.length
  memory : reply.machine.state.memory = start.state.memory

/-- The text that lists values to be put out is read, and the program puts them out and halts. -/
theorem echo_program_runs {values : List Int} (fits : 2 * values.length ≤ Address.last) :
    ∃ program, Listing.parse (echoText values) = .ok program ∧
      ∀ kind id watched more, ∃ reply,
        (Machine.load kind id program).run? watched (values.length + 1 + more) = some reply ∧
          Echoed values (Machine.load kind id program) reply := by
  refine ⟨echo values, by rw [echoText_eq, Listing.parse_render], ?_⟩
  intro kind id watched more
  have halts := haltsIn_echoing (List.nil_append values) fits
  obtain ⟨reply, returned, halted, shows⟩ :=
    (Machine.shows_load kind id (echo values) []).run? rfl halts watched more
  exact ⟨reply, returned, halted, shows.output, shows.steps, shows.ip, shows.memory⟩

theorem echo_program_runs_large :
    let values : List Int := [1125899906842624, -3, 0]
    ∃ program, Listing.parse "104,1125899906842624,104,-3,104,0,99" = .ok program ∧
      ∃ reply, (Machine.load .sparse 1 program).run? (fun _ => true) 4 = some reply ∧
        Echoed values (Machine.load .sparse 1 program) reply := by
  intro values
  have fits : 2 * values.length ≤ Address.last := by decide
  have text : echoText values = "104,1125899906842624,104,-3,104,0,99" := by decide +kernel
  obtain ⟨program, parsed, runs⟩ := echo_program_runs fits
  obtain ⟨reply, returned, echoed⟩ := runs .sparse 1 (fun _ => true) 0
  rw [text] at parsed
  exact ⟨program, parsed, reply, returned, echoed⟩

/-! ## An input compared with eight -/

def comparisonText : String :=
  "3,21,1008,21,8,20,1005,20,22,107,8,21,20,1006,20,31,1106,0,36,98,0,0,1002,21,125,20,4,20," ++
    "1105,1,46,104,999,1105,1,46,1101,1000,1,20,4,20,1105,1,46,98,99"

/-- The cells of the program, with what it has stored as its result and as its input. -/
def comparison (result input : Int) : List Int :=
  [3, 21, 1008, 21, 8, 20, 1005, 20, 22, 107, 8, 21, 20, 1006, 20, 31, 1106, 0, 36, 98, result, input,
    1002, 21, 125, 20, 4, 20, 1105, 1, 46, 104, 999, 1105, 1, 46, 1101, 1000, 1, 20, 4, 20, 1105, 1,
    46, 98, 99]

theorem parse_comparisonText : Listing.parse comparisonText = .ok (comparison 0 0) := by
  have canonical : comparisonText = Listing.render (comparison 0 0) := by decide +kernel
  rw [canonical, Listing.parse_render]

/-- The program at an address, after a number of steps, with its input stored. -/
def comparing (ip steps : Nat) (result input : Int) (output : List Int) : Snapshot :=
  ⟨comparison result input, .origin, ip, steps, [], output⟩

/-- All ways through the program end at the same place. -/
theorem haltsIn_end (steps : Nat) (result input : Int) (output : List Int) :
    (comparing 46 steps result input output).HaltsIn 1
      (comparing 46 (steps + 1) result input output) :=
  .stop (by rfl) rfl rfl

theorem next_comparing_nine (n : Int) :
    (comparing 9 3 0 n []).next = comparing 13 4 (if 8 < n then 1 else 0) n [] := rfl

theorem haltsIn_below {n : Int} (below : n < 8) :
    (comparing 6 2 0 n []).HaltsIn 6 (comparing 46 8 0 n [999]) := by
  have found : (comparing 9 3 0 n []).next = comparing 13 4 0 n [] := by
    rw [next_comparing_nine, if_neg (by omega)]
  -- One instruction a line: the address after it, the steps so far, what was stored, the outputs.
  exact .step (comparing 9 3 0 n []) (by rfl) rfl rfl <|
    .step (comparing 13 4 0 n []) (by rfl) rfl found <|
    .step (comparing 31 5 0 n []) (by rfl) rfl rfl <|
    .step (comparing 33 6 0 n [999]) (by rfl) rfl rfl <|
    .step (comparing 46 7 0 n [999]) (by rfl) rfl rfl <|
    haltsIn_end 7 0 n [999]

theorem haltsIn_above {n : Int} (above : 8 < n) :
    (comparing 6 2 0 n []).HaltsIn 8 (comparing 46 10 1001 n [1001]) := by
  have found : (comparing 9 3 0 n []).next = comparing 13 4 1 n [] := by
    rw [next_comparing_nine, if_pos above]
  exact .step (comparing 9 3 0 n []) (by rfl) rfl rfl <|
    .step (comparing 13 4 1 n []) (by rfl) rfl found <|
    .step (comparing 16 5 1 n []) (by rfl) rfl rfl <|
    .step (comparing 36 6 1 n []) (by rfl) rfl rfl <|
    .step (comparing 40 7 1001 n []) (by rfl) rfl rfl <|
    .step (comparing 42 8 1001 n [1001]) (by rfl) rfl rfl <|
    .step (comparing 46 9 1001 n [1001]) (by rfl) rfl rfl <|
    haltsIn_end 9 1001 n [1001]

theorem haltsIn_eight : (comparing 6 2 1 8 []).HaltsIn 5 (comparing 46 7 1000 8 [1000]) :=
  .step (comparing 22 3 1 8 []) rfl rfl rfl <|
    .step (comparing 26 4 1000 8 []) rfl rfl rfl <|
    .step (comparing 28 5 1000 8 [1000]) rfl rfl rfl <|
    .step (comparing 46 6 1000 8 [1000]) rfl rfl rfl <|
    haltsIn_end 6 1000 8 [1000]

/-- The number that tells how an input compares with eight. -/
def verdict (input : Int) : Int :=
  if input < 8 then 999 else if input = 8 then 1000 else 1001

theorem haltsIn_comparison (n : Int) :
    ∃ count finish, count ≤ 10 ∧
      (⟨comparison 0 0, .origin, 0, 0, [n], []⟩ : Snapshot).HaltsIn count finish ∧
      finish.output = [verdict n] := by
  have opening : ∀ {count finish},
      (comparing 6 2 (if n = 8 then 1 else 0) n []).HaltsIn count finish →
      (⟨comparison 0 0, .origin, 0, 0, [n], []⟩ : Snapshot).HaltsIn (count + 2) finish :=
    fun rest => .step (comparing 2 1 0 n []) (by rfl) rfl rfl <| .step _ (by rfl) rfl rfl rest
  rcases Int.lt_trichotomy n 8 with below | rfl | above
  · rw [if_neg (by omega)] at opening
    refine ⟨8, _, by decide, opening (haltsIn_below below), ?_⟩
    rw [verdict, if_pos below]
    rfl
  · exact ⟨7, _, by decide, opening haltsIn_eight, rfl⟩
  · rw [if_neg (by omega)] at opening
    refine ⟨10, _, by decide, opening (haltsIn_above above), ?_⟩
    rw [verdict, if_neg (by omega), if_neg (by omega)]
    rfl

/-- The text is read as a program that takes any integer, tells how it compares with eight, and
halts. -/
theorem comparison_program_decides :
    ∃ program, Listing.parse comparisonText = .ok program ∧
      ∀ kind id n watched more, ∃ reply,
        ((Machine.load kind id program).push n).run? watched (10 + more) = some reply ∧
          reply.answer = .ok .halted ∧ reply.machine.take.1 = [verdict n] := by
  refine ⟨comparison 0 0, parse_comparisonText, ?_⟩
  intro kind id n watched more
  obtain ⟨count, finish, within, halts, output⟩ := haltsIn_comparison n
  obtain ⟨reply, returned, halted, shows⟩ :=
    (Machine.shows_load kind id (comparison 0 0) [n]).run? rfl halts watched (10 - count + more)
  rw [show count + (10 - count + more) = 10 + more by omega] at returned
  exact ⟨reply, returned, halted, shows.output.trans output⟩

end Programs

end Intcode
