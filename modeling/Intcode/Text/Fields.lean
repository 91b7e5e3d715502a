/-! Texts made of fields with one separator between neighbours.

`split` never gives an empty list, and an empty text is one empty field. `join_split`
says that cutting a text loses nothing.
-/

namespace Intcode.Text

variable {α : Type} [DecidableEq α]

/-- Puts a character in front of the first field, or an empty field in front of all if the
character is the separator. -/
def splitCons (separator c : α) (fields : List (List α)) : List (List α) :=
  if c = separator then [] :: fields
  else
    match fields with
    | [] => [[c]]
    | field :: fields => (c :: field) :: fields

/-- The fields of a text, in order, cut at every separator. -/
def split (separator : α) (text : List α) : List (List α) :=
  text.foldr (splitCons separator) [[]]

/-- The fields in order, with one separator between neighbours. -/
def join {α : Type} (separator : α) (fields : List (List α)) : List α :=
  [separator].intercalate fields

@[simp] theorem split_nil (separator : α) : split separator [] = [[]] := rfl

theorem split_cons (separator c : α) (text : List α) :
    split separator (c :: text) = splitCons separator c (split separator text) := rfl

@[simp] theorem join_nil {α : Type} (separator : α) : join separator [] = [] := rfl

@[simp] theorem join_singleton {α : Type} (separator : α) (field : List α) :
    join separator [field] = field := by
  simp [join, List.intercalate]

theorem join_cons_cons {α : Type} (separator : α) (field next : List α) (fields : List (List α)) :
    join separator (field :: next :: fields) =
      field ++ separator :: join separator (next :: fields) := by
  simp [join, List.intercalate]

theorem split_ne_nil (separator : α) (text : List α) : split separator text ≠ [] := by
  cases text with
  | nil => simp
  | cons c rest =>
      rw [split_cons]
      unfold splitCons
      split
      · simp
      · split <;> simp

/-- Cutting a text and joining its fields gives the text back. -/
theorem join_split (separator : α) (text : List α) :
    join separator (split separator text) = text := by
  induction text with
  | nil => simp
  | cons c rest ih =>
      obtain ⟨field, fields, cut⟩ := List.exists_cons_of_ne_nil (split_ne_nil separator rest)
      rw [cut] at ih
      rw [split_cons, cut]
      unfold splitCons
      split
      · rename_i same
        rw [join_cons_cons, ih, same, List.nil_append]
      · cases fields with
        | nil => simpa using ih
        | cons next fields =>
            rw [join_cons_cons] at ih
            rw [join_cons_cons, List.cons_append, ih]

end Intcode.Text
