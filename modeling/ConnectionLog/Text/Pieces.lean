/-!
Texts made of pieces with separators between them. Splitting at a character and
joining with it undo each other.
-/
namespace ConnectionLog.Pieces

def joined (sep : List Char) : List (List Char) → List Char
  | [] => []
  | [piece] => piece
  | piece :: rest => piece ++ sep ++ joined sep rest

/-- The pieces between the occurrences of a character; always at least one. -/
def splitOn (sep : Char) : List Char → List (List Char)
  | [] => [[]]
  | c :: cs =>
    if c = sep then [] :: splitOn sep cs
    else
      match splitOn sep cs with
      | [] => [[c]]
      | piece :: rest => (c :: piece) :: rest

/-- What stands before the first occurrence of a character, and what follows it if
it occurs. -/
def cut (sep : Char) (cs : List Char) : List Char × Option (List Char) :=
  (cs.takeWhile (· ≠ sep),
    match cs.dropWhile (· ≠ sep) with
    | _ :: rest => some rest
    | [] => none)

def afterLast (sep : Char → Bool) (cs : List Char) : List Char :=
  (cs.reverse.takeWhile fun c => !sep c).reverse

theorem splitOn_ne_nil (sep : Char) (cs : List Char) : splitOn sep cs ≠ [] := by
  cases cs with
  | nil => simp [splitOn]
  | cons c cs =>
    rw [splitOn]
    split
    · simp
    · split <;> simp

theorem joined_splitOn (sep : Char) (cs : List Char) : joined [sep] (splitOn sep cs) = cs := by
  induction cs with
  | nil => rfl
  | cons c cs ih =>
    rw [splitOn]
    cases h : splitOn sep cs with
    | nil => exact absurd h (splitOn_ne_nil sep cs)
    | cons piece rest =>
      rw [h] at ih
      cases rest <;> split <;> simp_all [joined]

end ConnectionLog.Pieces
