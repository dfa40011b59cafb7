/-!
Texts made of fields with a separator between them.
-/

namespace Famicom.Text

/-- The fields of a text; there is always one more than there are separators. -/
def fields (sep : Char) : List Char → List (List Char)
  | [] => [[]]
  | c :: s =>
    if c = sep then [] :: fields sep s
    else
      match fields sep s with
      | [] => [[c]]
      | f :: fs => (c :: f) :: fs

/-- The text before the first separator and the text after it. -/
def cut (sep : Char) : List Char → Option (List Char × List Char)
  | [] => none
  | c :: s =>
    if c = sep then some ([], s)
    else (cut sep s).map fun (before, after) => (c :: before, after)

theorem fields_ne_nil (sep : Char) (s : List Char) : fields sep s ≠ [] := by
  induction s with
  | nil => simp [fields]
  | cons c s ih =>
    unfold fields
    split
    · simp
    · split <;> simp

end Famicom.Text
