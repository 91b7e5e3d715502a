import Intcode.Text.Blank
import Intcode.Text.Decimal
import Intcode.Text.Fields

/-! Lists of cells as text: decimal integers with commas between them.

A listing may have blanks around every literal and at both ends, and one comma after
the last literal; a blank text is the empty list. `parse` reads a listing and `render`
writes the canonical one, without blanks and without a comma at the end.
-/

namespace Intcode.Listing

open Intcode.Text

/-- Why a field of a listing is not a cell. -/
inductive Cause where
  | empty
  | malformed (literal : String)
deriving DecidableEq, Repr

/-- The first field, counted from zero, that is not a cell. -/
structure Error where
  index : Nat
  cause : Cause
deriving DecidableEq, Repr

def Cause.message : Cause → String
  | .empty => "Empty cell"
  | .malformed literal => "Invalid integer literal '" ++ literal ++ "'"

def Error.message (error : Error) : String :=
  "Cell " ++ Decimal.renderNatural error.index ++ ": " ++ error.cause.message

/-- The text without the comma it ends with, if it ends with one. -/
def dropFinalComma (text : List Char) : List Char :=
  if text.getLast? = some ',' then text.dropLast else text

/-- The fields of a listing, without the blanks around them. -/
def fields (text : List Char) : List (List Char) :=
  if trim text = [] then []
  else (split ',' (dropFinalComma (trim text))).map trim

/-- The cell that a field without blanks around it denotes. -/
def readField (field : List Char) : Except Cause Int :=
  match Decimal.readInteger? field with
  | some cell => .ok cell
  | none => if field = [] then .error .empty else .error (.malformed (String.ofList field))

/-- The cell that the field at an index denotes. -/
def readNumbered : List Char × Nat → Except Error Int
  | (field, index) =>
      match readField field with
      | .ok cell => .ok cell
      | .error cause => .error ⟨index, cause⟩

/-- The cells of a listing, or the first field that is none. -/
def parse (text : String) : Except Error (List Int) :=
  (fields text.toList).zipIdx.mapM readNumbered

def render (cells : List Int) : String :=
  String.ofList (join ',' (cells.map Decimal.digits))

end Intcode.Listing
