import ConnectionLog.Proofs.Toml.Values

/-!
The statements of a text, line by line. A line with a header or an entry is read as that
statement, whatever lines come after it, and texts of whole lines can be put one after
the other.
-/
namespace ConnectionLog.Toml

def writeDotted (path : List String) (key : String) : List Char :=
  path.flatMap (fun part => writeKey part ++ ['.']) ++ writeKey key

/-! Keys. -/

def BeginsKey (c : Char) : Prop := isBare c = true ∨ c = '"' ∨ c = '\''

theorem BeginsKey.ne {c d : Char} (h : BeginsKey c) (hd : isBare d = false) (hdouble : d ≠ '"')
    (hsingle : d ≠ '\'') : c ≠ d := by
  rintro rfl
  rcases h with hbare | rfl | rfl
  · rw [hd] at hbare
    exact nomatch hbare
  · exact hdouble rfl
  · exact hsingle rfl

theorem BeginsKey.not_blank {c : Char} (h : BeginsKey c) : isBlank c = false := by
  have hspace : c ≠ ' ' := h.ne rfl (by decide) (by decide)
  have htab : c ≠ '\t' := h.ne rfl (by decide) (by decide)
  simp [isBlank, hspace, htab]

theorem head_writeKey (key : String) : ∃ c cs, writeKey key = c :: cs ∧ BeginsKey c := by
  unfold writeKey writeKeyChars
  simp only
  split_ifs with hbare
  · simp only [Bool.and_eq_true, decide_eq_true_eq] at hbare
    cases hkey : key.toList with
    | nil => exact absurd hkey hbare.1
    | cons c cs =>
      rw [hkey] at hbare
      exact ⟨c, cs, rfl, Or.inl (List.all_eq_true.mp hbare.2 c List.mem_cons_self)⟩
  · exact ⟨'"', _, rfl, Or.inr (Or.inl rfl)⟩
  · exact ⟨'\'', _, rfl, Or.inr (Or.inr rfl)⟩
  · exact ⟨'"', _, rfl, Or.inr (Or.inl rfl)⟩

theorem head_writeDotted (path : List String) (key : String) :
    ∃ c cs, writeDotted path key = c :: cs ∧ BeginsKey c := by
  cases path with
  | nil => exact head_writeKey key
  | cons part path =>
    obtain ⟨c, cs, hpart, hc⟩ := head_writeKey part
    rw [writeDotted, List.flatMap_cons, hpart]
    exact ⟨c, _, rfl, hc⟩

theorem skipBlanks_writeKey (key : String) (rest : List Char) :
    skipBlanks (writeKey key ++ rest) = writeKey key ++ rest := by
  obtain ⟨c, cs, hkey, hc⟩ := head_writeKey key
  rw [hkey]
  exact skipBlanks_cons c (cs ++ rest) hc.not_blank

/-- The induction is on the keys that the dotted key leads through; each takes up one of
the parts that a key may have. -/
theorem readDotted_writeDotted (path : List String) (key : String) (rest : List Char) (parts : Nat)
    (hparts : path.length < parts) (hrest : ∀ c ∈ rest.head?, isBare c = false)
    (hdot : (skipBlanks rest).head? ≠ some '.') :
    readDotted parts (writeDotted path key ++ rest) = some ((path, key), skipBlanks rest) := by
  induction path generalizing parts with
  | nil =>
    cases parts with
    | zero => exact absurd hparts (Nat.not_lt_zero _)
    | succ parts =>
      change readDotted (parts + 1) (writeKey key ++ rest) = _
      rw [readDotted, skipBlanks_writeKey, readKey_writeKey key rest hrest]
      simp only
      split
      · next heq => exact absurd (congrArg List.head? heq) hdot
      · rfl
  | cons part path ih =>
    cases parts with
    | zero => exact absurd hparts (Nat.not_lt_zero _)
    | succ parts =>
      have htext : writeDotted (part :: path) key ++ rest =
          writeKey part ++ '.' :: (writeDotted path key ++ rest) := by
        simp only [writeDotted, List.flatMap_cons, List.append_assoc, List.cons_append,
          List.nil_append]
      have hpart := readKey_writeKey part ('.' :: (writeDotted path key ++ rest))
        (by simp [isBare])
      have hpath := ih parts (Nat.lt_of_succ_lt_succ hparts)
      rw [htext, readDotted, skipBlanks_writeKey, hpart]
      simp only
      rw [skipBlanks_cons '.' _ rfl]
      simp only [hpath, Option.map_some]

/-! Lines. -/

section

variable (path : List String) (key : String) (hpath : path.length < deepest)

include hpath

theorem readHeader_writeDotted (rest : List Char) :
    readHeader (writeDotted path key ++ ']' :: '\n' :: rest) = some (.header path key, rest) := by
  have hkey := readDotted_writeDotted path key (']' :: '\n' :: rest) deepest hpath
    (by simp [isBare]) nofun
  rw [skipBlanks_cons ']' _ rfl] at hkey
  rw [readHeader, hkey]
  rfl

theorem readEntry_writeDotted (text rest : List Char) (value : Value) (h : Shows text value) :
    readEntry (writeDotted path key ++ " = ".toList ++ text ++ '\n' :: rest) =
      some (.entry path key value, rest) := by
  have hkey := readDotted_writeDotted path key (" = ".toList ++ (text ++ '\n' :: rest)) deepest
    hpath (by simp [isBare]) nofun
  change _ = some (_, '=' :: ' ' :: (text ++ '\n' :: rest)) at hkey
  have hvalue : readValue deepest (skipBlanks (' ' :: (text ++ '\n' :: rest))) =
      some (value, '\n' :: rest) := h rest
  rw [readEntry, readAssignment, List.append_assoc, List.append_assoc, hkey]
  simp only [hvalue, Option.map_some]
  rfl

end

/-- A line that begins with neither a comment nor its end holds something. -/
theorem endLine?_cons (c : Char) (cs : List Char) (hblank : isBlank c = false) (hcomment : c ≠ '#')
    (hfeed : c ≠ '\n') (hreturn : c ≠ '\r') : endLine? (c :: cs) = none := by
  rw [endLine?, skipBlanks_cons c cs hblank, skipComment]
  · simp only
    rw [newline?]
    · exact fun _ heq => hfeed (List.cons.inj heq).1
    · exact fun _ heq => hreturn (List.cons.inj heq).1
  · exact fun _ heq => hcomment (List.cons.inj heq).1

/-- A header that is written is read as one line. -/
theorem readLine_header (path : List String) (key : String) (rest : List Char)
    (hpath : path.length < deepest) :
    readLine ('[' :: writeDotted path key ++ [']', '\n'] ++ rest) =
      some (some (.header path key), rest) := by
  have hread := readHeader_writeDotted path key hpath rest
  obtain ⟨c, cs, hkey, hc⟩ := head_writeDotted path key
  have hbracket : c ≠ '[' := hc.ne rfl nofun nofun
  have htext : '[' :: writeDotted path key ++ [']', '\n'] ++ rest =
      '[' :: c :: (cs ++ ']' :: '\n' :: rest) := by
    simp [hkey]
  rw [hkey, List.cons_append] at hread
  rw [htext, readLine, endLine?_cons '[' _ rfl (by decide) (by decide) (by decide)]
  · simp only
    rw [hread]
    rfl
  · exact fun _ heq => hbracket (List.cons.inj heq).1

/-- An entry that is written is read as one line. -/
theorem readLine_entry (path : List String) (key : String) (text rest : List Char) (value : Value)
    (hpath : path.length < deepest) (h : Shows text value) :
    readLine (writeDotted path key ++ " = ".toList ++ text ++ ['\n'] ++ rest) =
      some (some (.entry path key value), rest) := by
  have hread := readEntry_writeDotted path key hpath text rest value h
  obtain ⟨c, cs, hkey, hc⟩ := head_writeDotted path key
  have hbracket : c ≠ '[' := hc.ne rfl nofun nofun
  have hend : ∀ more, endLine? (c :: more) = none := fun more =>
    endLine?_cons c more hc.not_blank (hc.ne rfl nofun nofun) (hc.ne rfl nofun nofun)
      (hc.ne rfl nofun nofun)
  have htext : writeDotted path key ++ " = ".toList ++ text ++ ['\n'] ++ rest =
      c :: (cs ++ " = ".toList ++ text ++ '\n' :: rest) := by
    simp [hkey]
  rw [hkey] at hread
  simp only [List.cons_append] at hread
  rw [htext, readLine, hend]
  · simp only
    rw [hread]
    rfl
  · exact fun _ heq => hbracket (List.cons.inj heq).1
  · exact fun _ heq => hbracket (List.cons.inj heq).1

/-! Texts of whole lines. -/

/-- The statements of a text, wherever there is room enough for its lines. -/
def Reads (cs : List Char) (statements : List Statement) : Prop :=
  ∀ room, cs.length < room → readStatements room cs = some statements

theorem reads_nil : Reads [] [] := by
  intro room hroom
  cases room with
  | zero => exact absurd hroom (Nat.not_lt_zero _)
  | succ room => rfl

/-- A text that holds certain statements, whatever lines come after it. -/
def Spells (text : List Char) (statements : List Statement) : Prop :=
  ∀ rest later, Reads rest later → Reads (text ++ rest) (statements ++ later)

theorem spells_nil : Spells [] [] := fun _ _ hrest => hrest

/-- Texts follow each other as their statements do. -/
theorem Spells.append {first second : List Char} {before after : List Statement}
    (hfirst : Spells first before) (hsecond : Spells second after) :
    Spells (first ++ second) (before ++ after) := by
  intro rest later hrest
  rw [List.append_assoc, List.append_assoc]
  exact hfirst _ _ (hsecond rest later hrest)

theorem spells_flatMap {α : Type} (items : List α) (text : α → List Char)
    (statement : α → Statement) (h : ∀ item, Spells (text item) [statement item]) :
    Spells (items.flatMap text) (items.map statement) := by
  induction items with
  | nil => exact spells_nil
  | cons item items ih => exact (h item).append ih

/-- A line takes up at least one place, which is what reading its statement costs. -/
theorem spells_line (line : List Char) (statement : Option Statement) (hne : line ≠ [])
    (hblank : ∀ c ∈ line.head?, isBlank c = false)
    (h : ∀ rest, readLine (line ++ rest) = some (statement, rest)) :
    Spells line statement.toList := by
  intro rest later hrest room hroom
  have hline := h rest
  cases line with
  | nil => exact absurd rfl hne
  | cons c cs =>
    cases room with
    | zero => exact absurd hroom (Nat.not_lt_zero _)
    | succ room =>
      have hmore : rest.length < room := by
        rw [List.length_append, List.length_cons] at hroom
        omega
      rw [List.cons_append] at hline ⊢
      rw [readStatements, skipBlanks_cons c _ (hblank c rfl)]
      simp only [hline, hrest room hmore, Option.map_some]

theorem spells_blank : Spells ['\n'] [] :=
  spells_line ['\n'] none nofun (by simp [isBlank]) fun _ => rfl

theorem spells_header (path : List String) (key : String) (hpath : path.length < deepest) :
    Spells ('[' :: writeDotted path key ++ [']', '\n']) [.header path key] :=
  spells_line _ (some (.header path key)) nofun (by simp [isBlank])
    fun rest => readLine_header path key rest hpath

theorem spells_entry (path : List String) (key : String) (text : List Char) (value : Value)
    (hpath : path.length < deepest) (h : Shows text value) :
    Spells (writeDotted path key ++ " = ".toList ++ text ++ ['\n']) [.entry path key value] := by
  apply spells_line _ (some (.entry path key value))
  · simp
  · obtain ⟨c, cs, hkey, hc⟩ := head_writeDotted path key
    rw [hkey]
    intro d hd
    rw [← Option.some.inj hd]
    exact hc.not_blank
  · exact fun rest => readLine_entry path key text rest value hpath h

/-- Lines of which the first starts with a bracket are the statements of a document. -/
theorem statements?_of_spells (cs : List Char) (statements : List Statement)
    (h : Spells ('[' :: cs) statements) :
    statements? (String.ofList ('[' :: cs)) = some statements := by
  have hreads := h [] [] reads_nil
  rw [List.append_nil, List.append_nil] at hreads
  rw [statements?, String.toList_ofList]
  exact hreads _ (Nat.lt_succ_self _)

end ConnectionLog.Toml
