/-!
# Cutting texts

Keys and stored values are built from fields joined by a separator.  `cut`
takes off the first field; `leads` tells whether one text starts another.
Both work on the characters of a text.
-/

namespace BatchRelay

namespace Pieces

/-- The text before the first separator, and the text after it if there is a
separator at all. -/
def cut (separator : Char) : List Char → List Char × Option (List Char)
  | [] => ([], none)
  | head :: tail =>
      if head = separator then
        ([], some tail)
      else
        let (field, remainder) := cut separator tail
        (head :: field, remainder)

/-- Whether `text` starts with `leading`. -/
def leads (leading text : String) : Bool :=
  leading.toList.isPrefixOf text.toList

/-- Whether `part` occurs somewhere in `text`. -/
def occurs (part : List Char) : List Char → Bool
  | [] => part.isEmpty
  | head :: tail => part.isPrefixOf (head :: tail) || occurs part tail

theorem cut_of_not_mem {separator : Char} {field : List Char}
    (absent : separator ∉ field) (remainder : List Char) :
    cut separator (field ++ separator :: remainder) = (field, some remainder) := by
  induction field with
  | nil => simp [cut]
  | cons head tail induction =>
      simp only [List.mem_cons, not_or] at absent
      simp [cut, Ne.symm absent.1, induction absent.2]

end Pieces

end BatchRelay
