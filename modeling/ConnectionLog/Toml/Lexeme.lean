import ConnectionLog.Numeral

/-!
The smallest parts of a TOML text: blanks, comments, ends of lines, keys and
strings. A reader takes characters off the front of a text and returns what they
mean and the rest of the text.
-/
namespace ConnectionLog.Toml

abbrev Reader (α : Type) := List Char → Option (α × List Char)

def isBlank (c : Char) : Bool := c = ' ' || c = '\t'

def isControl (c : Char) : Bool := (c.toNat < 32 && c ≠ '\t') || c.toNat = 127

def skipBlanks (cs : List Char) : List Char := cs.dropWhile isBlank

def newline? : List Char → Option (List Char)
  | '\n' :: rest => some rest
  | '\r' :: '\n' :: rest => some rest
  | _ => none

def skipNewline (cs : List Char) : List Char := (newline? cs).getD cs

def skipComment : List Char → List Char
  | '#' :: rest => rest.dropWhile (!isControl ·)
  | cs => cs

def endLine? (cs : List Char) : Option (List Char) :=
  match skipComment (skipBlanks cs) with
  | [] => some []
  | cs => newline? cs

/-- Skips blanks, comments and ends of lines. Within a comment every character
but the control characters is skipped. -/
def skipLines (inComment : Bool) : List Char → List Char
  | [] => []
  | '\n' :: rest => skipLines false rest
  | '\r' :: '\n' :: rest => skipLines false rest
  | c :: rest =>
    if inComment then (if isControl c then c :: rest else skipLines true rest)
    else if c = '#' then skipLines true rest
    else if isBlank c then skipLines false rest
    else c :: rest

/-! Strings. -/

def charOfHex? (digits : List Char) : Option Char :=
  match Numeral.value? 16 digits with
  | some n => if n.isValidChar then some (Char.ofNat n) else none
  | none => none

def escaped? : Char → Option Char
  | 'b' => some '\x08'
  | 't' => some '\t'
  | 'n' => some '\n'
  | 'f' => some '\x0c'
  | 'r' => some '\r'
  | '"' => some '"'
  | '\\' => some '\\'
  | _ => none

/-- The character an escape stands for, after the backslash, and the rest, which
is shorter than the text. -/
def readEscape : (cs : List Char) → Option (Char × { rest : List Char // rest.length < cs.length })
  | 'u' :: a :: b :: c :: d :: rest =>
    (charOfHex? [a, b, c, d]).map (·, ⟨rest, by simp only [List.length_cons]; omega⟩)
  | 'U' :: a :: b :: c :: d :: e :: f :: g :: h :: rest =>
    (charOfHex? [a, b, c, d, e, f, g, h]).map
      (·, ⟨rest, by simp only [List.length_cons]; omega⟩)
  | c :: rest => (escaped? c).map (·, ⟨rest, by simp⟩)
  | [] => none

def prepend (c : Char) : Option (List Char × List Char) → Option (List Char × List Char)
  | some (cs, rest) => some (c :: cs, rest)
  | none => none

def readBasic (cs : List Char) : Option (List Char × List Char) :=
  match cs with
  | [] => none
  | '"' :: rest => some ([], rest)
  | '\\' :: rest =>
    match readEscape rest with
    | some (c, ⟨rest, _⟩) => prepend c (readBasic rest)
    | none => none
  | c :: rest => if isControl c then none else prepend c (readBasic rest)
termination_by cs.length
decreasing_by
  all_goals simp only [List.length_cons]
  all_goals omega

def readLiteral : Reader (List Char)
  | [] => none
  | '\'' :: rest => some ([], rest)
  | c :: rest => if isControl c then none else prepend c (readLiteral rest)

/-- After three quotes up to two more belong to the string they close. -/
def closing (quote : Char) : List Char → List Char × List Char
  | a :: b :: rest =>
    if a = quote then (if b = quote then ([a, b], rest) else ([a], b :: rest))
    else ([], a :: b :: rest)
  | [a] => if a = quote then ([a], []) else ([], [a])
  | [] => ([], [])

/-- What of a string in several lines is read after a backslash that ends a
line: blanks up to the end of the line, then blanks and empty lines. -/
inductive Margin where
  | none
  | lineEnd
  | lines
deriving DecidableEq

def readBasicLines (margin : Margin) (cs : List Char) : Option (List Char × List Char) :=
  match cs with
  | [] => none
  | '\n' :: rest =>
    if margin = .none then prepend '\n' (readBasicLines .none rest)
    else readBasicLines .lines rest
  | '\r' :: '\n' :: rest =>
    if margin = .none then prepend '\n' (readBasicLines .none rest)
    else readBasicLines .lines rest
  | '"' :: '"' :: '"' :: rest =>
    if margin = .lineEnd then none else some (closing '"' rest)
  | c :: rest =>
    if margin ≠ .none ∧ isBlank c then readBasicLines margin rest
    else if margin = .lineEnd then none
    else if c = '\\' then
      match readEscape rest with
      | some (e, ⟨rest, _⟩) => prepend e (readBasicLines .none rest)
      | none => readBasicLines .lineEnd rest
    else if isControl c then none
    else prepend c (readBasicLines .none rest)
termination_by cs.length
decreasing_by
  all_goals simp only [List.length_cons]
  all_goals omega

def readLiteralLines : Reader (List Char)
  | [] => none
  | '\n' :: rest => prepend '\n' (readLiteralLines rest)
  | '\r' :: '\n' :: rest => prepend '\n' (readLiteralLines rest)
  | '\'' :: '\'' :: '\'' :: rest => some (closing '\'' rest)
  | c :: rest => if isControl c then none else prepend c (readLiteralLines rest)

/-- A string of any of the four kinds. A line end right after three opening
quotes is not part of the string. -/
def readString : Reader (List Char)
  | '"' :: '"' :: '"' :: rest => readBasicLines .none (skipNewline rest)
  | '"' :: rest => readBasic rest
  | '\'' :: '\'' :: '\'' :: rest => readLiteralLines (skipNewline rest)
  | '\'' :: rest => readLiteral rest
  | _ => none

/-! Keys. -/

def isBare (c : Char) : Bool := c.isAlphanum || c = '-' || c = '_'

def readKey : Reader String
  | '"' :: rest => (readBasic rest).map fun (cs, rest) => (String.ofList cs, rest)
  | '\'' :: rest => (readLiteral rest).map fun (cs, rest) => (String.ofList cs, rest)
  | cs =>
    match cs.takeWhile isBare with
    | [] => none
    | key => some (String.ofList key, cs.dropWhile isBare)

/-- A key of at most `parts` parts with dots between them, split into the path
and the last part. -/
def readDotted (parts : Nat) (cs : List Char) : Option ((List String × String) × List Char) :=
  match parts with
  | 0 => none
  | parts + 1 =>
    match readKey (skipBlanks cs) with
    | none => none
    | some (key, cs) =>
      match skipBlanks cs with
      | '.' :: cs => (readDotted parts cs).map fun ((path, last), cs) => ((key :: path, last), cs)
      | cs => some (([], key), cs)

end ConnectionLog.Toml
