import Intcode.Proofs.Acceptance

/-! Memories after a history of writes.

Writes are attempted one after the other, and some may be refused. Whether one is accepted
depends on the kind of the memory and on the cells that it was loaded with, never on the
writes before it. The cells hold what the last accepted write to them has left; that a zero
is stored by an array and removed by a sparse memory shows only in their lengths.
-/

namespace Intcode.Store

/-- A value for the cell at an address. -/
structure Write where
  address : Nat
  value : Int
deriving DecidableEq, Repr

/-- The answer to a write, and the memory after it. -/
structure Attempt where
  answer : Except Address.Error Unit
  memory : Store

/-- The answers to writes that were attempted in order, and the memory after them all. -/
structure History where
  answers : List (Write × Except Address.Error Unit)
  memory : Store

def attempt (memory : Store) (write : Write) : Attempt :=
  match memory.write write.address write.value with
  | .ok after => ⟨.ok (), after⟩
  | .error error => ⟨.error error, memory⟩

def attempts (memory : Store) : List Write → History
  | [] => ⟨[], memory⟩
  | write :: writes =>
      let first := memory.attempt write
      let later := first.memory.attempts writes
      ⟨(write, first.answer) :: later.answers, later.memory⟩

/-- The writes that were carried out, in order. -/
def History.accepted (history : History) : List Write :=
  history.answers.filterMap fun
    | (write, .ok ()) => some write
    | (_, .error _) => none

theorem History.accepted_cons (write : Write) (later : History) :
    accepted ⟨(write, .ok ()) :: later.answers, later.memory⟩ = write :: later.accepted := rfl

/-- The value that the last of the writes to an address brings. -/
def lastValue? (writes : List Write) (address : Nat) : Option Int :=
  (writes.reverse.find? (·.address = address)).map Write.value

/-- One more than the highest address that is written to; zero if there is none. -/
def reach (writes : List Write) : Nat :=
  (writes.map (·.address + 1)).max?.getD 0

/-- The length is one more than the highest address that is not zero, but at most the last
address; zero if there is none. -/
def Spans (cells : Nat → Int) (length : Nat) : Prop :=
  (∀ address, cells address = 0) ∧ length = 0 ∨
    ∃ highest, cells highest ≠ 0 ∧ (∀ address, highest < address → cells address = 0) ∧
      length = min (highest + 1) Address.last

theorem lastValue?_cons (write : Write) (writes : List Write) (address : Nat) :
    lastValue? (write :: writes) address =
      (lastValue? writes address).or (if write.address = address then some write.value else none) := by
  by_cases same : write.address = address <;>
    simp [lastValue?, List.find?_append, same]

theorem reach_cons (write : Write) (writes : List Write) :
    reach (write :: writes) = max (write.address + 1) (reach writes) := by
  simp only [reach, List.map_cons, List.max?_cons]
  cases (writes.map (·.address + 1)).max? with
  | none => simp
  | some highest => simp

theorem reach_le {writes : List Write} {bound : Nat}
    (within : ∀ write ∈ writes, write.address < bound) : reach writes ≤ bound := by
  induction writes with
  | nil => exact Nat.zero_le bound
  | cons write writes ih =>
      rw [List.forall_mem_cons] at within
      have rest := ih within.2
      rw [reach_cons]
      omega

variable {memory : Store} {write : Write}

theorem attempt_of_accepts (accepted : memory.accepts write.address = true) :
    memory.attempt write = ⟨.ok (), memory.put write.address write.value⟩ := by
  rw [attempt, write_of_accepts accepted]

theorem attempt_of_refuses (refused : memory.accepts write.address = false) :
    memory.attempt write = ⟨.error (.overflow write.address), memory⟩ := by
  rw [attempt, Store.write, if_neg (by simp [refused])]

theorem answer_attempt (memory : Store) (write : Write) :
    (memory.attempt write).answer =
      if memory.accepts write.address then .ok () else .error (.overflow write.address) := by
  cases accepted : memory.accepts write.address with
  | true => rw [attempt_of_accepts accepted, if_pos rfl]
  | false => rw [attempt_of_refuses accepted, if_neg Bool.false_ne_true]

theorem memory_attempt (memory : Store) (write : Write) :
    (memory.attempt write).memory =
      if memory.accepts write.address then memory.put write.address write.value else memory := by
  cases accepted : memory.accepts write.address with
  | true => rw [attempt_of_accepts accepted, if_pos rfl]
  | false => rw [attempt_of_refuses accepted, if_neg Bool.false_ne_true]

theorem attempts_of_accepts (accepted : memory.accepts write.address = true) (writes : List Write) :
    let later := (memory.put write.address write.value).attempts writes
    memory.attempts (write :: writes) = ⟨(write, .ok ()) :: later.answers, later.memory⟩ := by
  rw [attempts, attempt_of_accepts accepted]

theorem attempts_of_refuses (refused : memory.accepts write.address = false)
    (writes : List Write) :
    let later := memory.attempts writes
    memory.attempts (write :: writes) =
      ⟨(write, .error (.overflow write.address)) :: later.answers, later.memory⟩ := by
  rw [attempts, attempt_of_refuses refused]

theorem accepts_iff (dense : memory.kind = .dense) {address : Nat} :
    memory.accepts address = true ↔ address < max memory.length Dense.limit := by
  rw [← Bool.not_eq_false, refuses_iff dense]
  omega

theorem accepts_put {address : Nat} (accepted : memory.accepts address = true) (value : Int)
    (other : Nat) : (memory.put address value).accepts other = memory.accepts other := by
  cases kind : memory.kind with
  | sparse =>
      rw [accepts_of_sparse kind, accepts_of_sparse (by rw [kind_put, kind])]
  | dense =>
      rw [accepts_iff kind] at accepted
      rw [Bool.eq_iff_iff, accepts_iff kind, accepts_iff (by rw [kind_put, kind]),
        length_put_of_dense kind]
      omega

theorem kind_attempt (memory : Store) (write : Write) :
    (memory.attempt write).memory.kind = memory.kind := by
  rw [memory_attempt]
  split
  · rw [kind_put]
  · rfl

/-- Whether an address is accepted does not depend on earlier writes. -/
theorem accepts_attempt (memory : Store) (write : Write) (address : Nat) :
    (memory.attempt write).memory.accepts address = memory.accepts address := by
  rw [memory_attempt]
  split
  · rw [accepts_put ‹_›]
  · rfl

theorem kind_attempts (memory : Store) (writes : List Write) :
    (memory.attempts writes).memory.kind = memory.kind := by
  induction writes generalizing memory with
  | nil => rfl
  | cons write writes ih => exact (ih _).trans (memory.kind_attempt write)

theorem accepts_attempts (memory : Store) (writes : List Write) (address : Nat) :
    (memory.attempts writes).memory.accepts address = memory.accepts address := by
  induction writes generalizing memory with
  | nil => rfl
  | cons write writes ih => exact (ih _).trans (memory.accepts_attempt write address)

theorem answers_attempts (memory : Store) (writes : List Write) :
    (memory.attempts writes).answers = writes.map fun write =>
      (write, if memory.accepts write.address then .ok () else .error (.overflow write.address)) := by
  induction writes generalizing memory with
  | nil => rfl
  | cons write writes ih =>
      simp only [attempts, ih, answer_attempt, accepts_attempt, List.map_cons]

theorem accepted_attempts (memory : Store) (writes : List Write) :
    (memory.attempts writes).accepted = writes.filter fun write => memory.accepts write.address := by
  rw [History.accepted, answers_attempts, List.filterMap_map, ← List.filterMap_eq_filter]
  congr 1
  funext write
  cases accepted : memory.accepts write.address <;> simp [Option.guard, accepted]

theorem read_attempts (memory : Store) (writes : List Write) (address : Nat) :
    (memory.attempts writes).memory.read address =
      (lastValue? (memory.attempts writes).accepted address).getD (memory.read address) := by
  induction writes generalizing memory with
  | nil => rfl
  | cons write writes ih =>
      cases accepted : memory.accepts write.address with
      | false =>
          rw [attempts_of_refuses accepted]
          exact ih memory
      | true =>
          rw [attempts_of_accepts accepted]
          refine (ih _).trans ?_
          rw [History.accepted_cons, lastValue?_cons, read_put]
          grind

theorem length_attempts (dense : memory.kind = .dense) (writes : List Write) :
    (memory.attempts writes).memory.length =
      max memory.length (reach (memory.attempts writes).accepted) := by
  induction writes generalizing memory with
  | nil => simp [attempts, History.accepted, reach]
  | cons write writes ih =>
      cases accepted : memory.accepts write.address with
      | false =>
          rw [attempts_of_refuses accepted]
          exact ih dense
      | true =>
          rw [attempts_of_accepts accepted]
          refine (ih ((kind_put ..).trans dense)).trans ?_
          rw [History.accepted_cons, reach_cons, length_put_of_dense dense]
          omega

theorem Sparse.mem_cells (memory : Sparse) (address : Nat) :
    address ∈ memory.cells ↔ memory.read address ≠ 0 := by
  rw [Std.ExtTreeMap.mem_iff_isSome_getElem?, getElem?_cells]
  split <;> simp [*]

theorem Sparse.spans_length (memory : Sparse) : Spans memory.read memory.length := by
  rw [length]
  cases found : memory.cells.maxKey? with
  | none =>
      rw [Std.ExtTreeMap.maxKey?_eq_none_iff] at found
      exact .inl ⟨fun address => by simp [read, found], rfl⟩
  | some highest =>
      obtain ⟨member, above⟩ := Std.ExtTreeMap.maxKey?_eq_some_iff_mem_and_forall.mp found
      refine .inr ⟨highest, (memory.mem_cells highest).mp member, ?_, rfl⟩
      intro address beyond
      by_cases stored : address ∈ memory.cells
      · have bound := above address stored
        rw [Nat.isLE_compare] at bound
        omega
      · rwa [mem_cells, Decidable.not_not] at stored

theorem spans_length_of_sparse (sparse : memory.kind = .sparse) :
    Spans memory.read memory.length := by
  cases memory with
  | dense cells => contradiction
  | sparse cells => exact cells.spans_length

theorem kind_loaded (kind : Kind) (cells : List Int) (writes : List Write) :
    ((ofCells kind cells).attempts writes).memory.kind = kind := by
  rw [kind_attempts, kind_ofCells]

theorem accepts_loaded (cells : List Int) (writes : List Write) (address : Nat) :
    ((ofCells .dense cells).attempts writes).memory.accepts address = true ↔
      address < max cells.length Dense.limit := by
  rw [accepts_attempts, accepts_iff (kind_ofCells .dense cells), length_ofCells_dense]

/-- Memories of both kinds are maps that are zero where nothing was stored. An array accepts
the addresses below its limit or the end of its first cells, and ends after the highest
address that was written to; a sparse memory accepts all addresses, and ends after the
highest one that is not zero. -/
theorem history_determines_memory (cells : List Int) (writes : List Write) :
    let history (kind : Kind) := (ofCells kind cells).attempts writes
    (∀ kind address, (history kind).memory.read address =
        (lastValue? (history kind).accepted address).getD (cells[address]?.getD 0)) ∧
      ((history .dense).answers = writes.map (fun write =>
          (write, if write.address < max cells.length Dense.limit then .ok ()
            else .error (.overflow write.address))) ∧
        (∀ write, write.address < max cells.length Dense.limit →
          ∃ after, (history .dense).memory.attempt write = ⟨.ok (), after⟩ ∧
            write.address < after.length ∧ (history .dense).memory.length ≤ after.length) ∧
        (∀ write, max cells.length Dense.limit ≤ write.address →
          (history .dense).memory.attempt write =
            ⟨.error (.overflow write.address), (history .dense).memory⟩) ∧
        (history .dense).memory.length = max cells.length (reach (history .dense).accepted)) ∧
      (history .sparse).answers = writes.map (·, .ok ()) ∧
      (∀ write, ((history .sparse).memory.attempt write).answer = .ok ()) ∧
      Spans (history .sparse).memory.read (history .sparse).memory.length := by
  intro history
  have dense : (history .dense).memory.kind = .dense := kind_loaded .dense cells writes
  have sparse : (history .sparse).memory.kind = .sparse := kind_loaded .sparse cells writes
  refine ⟨?_, ⟨?_, ?_, ?_, ?_⟩, ?_, ?_, spans_length_of_sparse sparse⟩
  · intro kind address
    rw [read_attempts, read_ofCells]
  · simp only [history, answers_attempts, accepts_iff (kind_ofCells ..), length_ofCells_dense]
  · intro write within
    have accepted := (accepts_loaded cells writes write.address).mpr within
    refine ⟨_, attempt_of_accepts accepted, ?_⟩
    rw [length_put_of_dense dense]
    omega
  · intro write beyond
    refine attempt_of_refuses ?_
    rw [← Bool.not_eq_true, accepts_loaded]
    omega
  · rw [length_attempts (kind_ofCells ..), length_ofCells_dense]
  · simp only [history, answers_attempts, accepts_of_sparse (kind_ofCells ..), if_true]
  · intro write
    rw [attempt_of_accepts (accepts_of_sparse sparse _)]

/-- The two addresses at the limit of an array, after a zero and a refused write. -/
theorem history_determines_memory_at_limit :
    let memory := ((ofCells .dense [4]).attempts [⟨0, 0⟩, ⟨0x1000000, 7⟩]).memory
    (∃ after, memory.attempt ⟨0xFFFFFF, 7⟩ = ⟨.ok (), after⟩ ∧ 0xFFFFFF < after.length ∧
        memory.length ≤ after.length) ∧
      memory.attempt ⟨0x1000000, 7⟩ = ⟨.error (.overflow 0x1000000), memory⟩ := by
  obtain ⟨-, ⟨-, within, beyond, -⟩, -⟩ :=
    history_determines_memory [4] [⟨0, 0⟩, ⟨0x1000000, 7⟩]
  exact ⟨within ⟨0xFFFFFF, 7⟩ (by decide), beyond ⟨0x1000000, 7⟩ (by decide)⟩

end Intcode.Store
