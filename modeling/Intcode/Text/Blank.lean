/-! Blank characters, and texts without blanks at their ends.

A text is a list of characters here, so that the readers built on it recurse on
the text itself.
-/

namespace Intcode.Text

/-- The characters with the White_Space property of Unicode. -/
def isBlank (c : Char) : Bool :=
  let code := c.toNat
  (9 ≤ code && code ≤ 13) || code == 0x20 || code == 0x85 || code == 0xA0 ||
    code == 0x1680 || (0x2000 ≤ code && code ≤ 0x200A) || code == 0x2028 ||
    code == 0x2029 || code == 0x202F || code == 0x205F || code == 0x3000

def trimLeft (text : List Char) : List Char :=
  text.dropWhile isBlank

def trimRight (text : List Char) : List Char :=
  (text.reverse.dropWhile isBlank).reverse

def trim (text : List Char) : List Char :=
  trimRight (trimLeft text)

@[simp] theorem trim_nil : trim [] = [] := rfl

theorem trimLeft_append {blanks text : List Char} (blank : ∀ c ∈ blanks, isBlank c) :
    trimLeft (blanks ++ text) = trimLeft text := by
  induction blanks with
  | nil => rfl
  | cons c rest ih =>
      have first : isBlank c = true := blank c (by simp)
      simp only [trimLeft, List.cons_append, List.dropWhile_cons, first, if_true]
      exact ih fun c member => blank c (by simp [member])

theorem trimRight_append {text blanks : List Char} (blank : ∀ c ∈ blanks, isBlank c) :
    trimRight (text ++ blanks) = trimRight text := by
  have reversed : trimLeft (blanks.reverse ++ text.reverse) = trimLeft text.reverse :=
    trimLeft_append fun c member => blank c (List.mem_reverse.mp member)
  simp only [trimRight, List.reverse_append]
  exact congrArg List.reverse reversed

end Intcode.Text
