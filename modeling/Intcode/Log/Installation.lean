import Intcode.Log.Logger

/-! The logger in use.

Records reach a logger through a facade, which a library of its own provides: it holds the
logger in use and the least grave level that can be written. `Facade` lists what is asked
of it and `Facade.Documented` what it promises. A program may offer several loggers, of
which it makes only the first; `Installation` is what has come of the offers.
-/

namespace Intcode.Log

inductive Facade.Error where
  | alreadySet
deriving DecidableEq, Repr

def Facade.Error.message : Facade.Error → String
  | .alreadySet => "attempted to set a logger after the logging system was already initialized"

/-- What is asked of a facade whose contents are of type `σ`. -/
structure Facade (σ : Type) where
  setLogger : σ → Logger → Except Facade.Error Unit × σ
  setThreshold : σ → Threshold → σ
  /-- The logger in use, if one has been set. -/
  logger : σ → Option Logger
  threshold : σ → Threshold

namespace Facade

variable {σ : Type}

/-- The promises of a facade. The first logger that is set is taken into use; setting another
one is an error, and the first stays in use. The threshold can be set at any time, and neither
setting concerns the other. -/
structure Documented (facade : Facade σ) : Prop where
  accepts : ∀ contents logger, facade.logger contents = none →
    (facade.setLogger contents logger).1 = .ok () ∧
      facade.logger (facade.setLogger contents logger).2 = some logger
  refuses : ∀ contents used logger, facade.logger contents = some used →
    (facade.setLogger contents logger).1 = .error .alreadySet ∧
      facade.logger (facade.setLogger contents logger).2 = some used
  keepsThreshold : ∀ contents logger,
    facade.threshold (facade.setLogger contents logger).2 = facade.threshold contents
  setsThreshold : ∀ contents threshold,
    facade.threshold (facade.setThreshold contents threshold) = threshold
  keepsLogger : ∀ contents threshold,
    facade.logger (facade.setThreshold contents threshold) = facade.logger contents

/-- A facade that holds its logger and its threshold in variables. -/
structure Slots where
  logger : Option Logger
  threshold : Threshold
deriving DecidableEq, Repr

def Slots.empty : Slots := ⟨none, .off⟩

def slots : Facade Slots where
  setLogger contents logger :=
    match contents.logger with
    | none => (.ok (), { contents with logger := some logger })
    | some _ => (.error .alreadySet, contents)
  setThreshold contents threshold := { contents with threshold := threshold }
  logger := Slots.logger
  threshold := Slots.threshold

theorem slots_documented : slots.Documented where
  accepts contents logger unset := by
    change contents.logger = none at unset
    simp only [slots, unset, and_self]
  refuses contents used logger set := by
    change contents.logger = some used at set
    simp only [slots, set, and_self]
  keepsThreshold contents logger := by
    cases set : contents.logger <;> simp only [slots, set]
  setsThreshold _ _ := rfl
  keepsLogger _ _ := rfl

end Facade

/-- What has come of the offers of loggers. -/
structure Installation (σ : Type) where
  /-- The logger that was made for the first offer; no other is made after it. -/
  made : Option Logger
  contents : σ

namespace Installation

variable {σ : Type}

/-- Offers a logger. The one that was made first is the one that is set; the threshold of
the offer counts only if the facade takes that logger. -/
def install (installation : Installation σ) (facade : Facade σ) (offered : Logger) :
    Except Facade.Error Unit × Installation σ :=
  let made := installation.made.getD offered
  match facade.setLogger installation.contents made with
  | (.ok (), contents) => (.ok (), ⟨some made, facade.setThreshold contents offered.threshold⟩)
  | (.error error, contents) => (.error error, ⟨some made, contents⟩)

/-- Offers loggers one after the other, with the answer to each. -/
def installAll (installation : Installation σ) (facade : Facade σ) :
    List Logger → List (Except Facade.Error Unit) × Installation σ
  | [] => ([], installation)
  | offered :: later =>
      let (answer, installed) := installation.install facade offered
      let (answers, final) := installed.installAll facade later
      (answer :: answers, final)

def enabled (installation : Installation σ) (facade : Facade σ) (level : Level)
    (target : String) : Bool :=
  match facade.logger installation.contents with
  | none => false
  | some logger => logger.enabled level target

def write (installation : Installation σ) (facade : Facade σ) (time : String)
    (records : List Record) : String :=
  match facade.logger installation.contents with
  | none => ""
  | some logger => logger.write time records

end Installation

end Intcode.Log
