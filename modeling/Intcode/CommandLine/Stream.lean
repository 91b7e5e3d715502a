import Intcode.CommandLine.Session
import Intcode.Text.Fields

/-! Bytes of files and streams as text. -/

namespace Intcode.CommandLine

/-- The text that bytes hold in UTF-8. -/
def decodeText (bytes : List UInt8) : Except ReadError String :=
  match String.fromUTF8? ⟨bytes.toArray⟩ with
  | some text => .ok text
  | none => .error .notText

/-- The lines of a stream, each without the newline that ends it. What follows the last
newline is a line if it is not empty. -/
def byteLines (bytes : List UInt8) : List (List UInt8) :=
  let fields := Text.split 10 bytes
  if fields.getLast? = some [] then fields.dropLast else fields

/-- The lines of a stream as text. -/
def decodeLines (bytes : List UInt8) : List (Except ReadError String) :=
  (byteLines bytes).map decodeText

end Intcode.CommandLine
