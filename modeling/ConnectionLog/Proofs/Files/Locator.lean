import ConnectionLog.Files.Opening

/-!
Where a locator leads. Neither its name nor whether it is kept in a file depends on
the access that is granted, and the place of its file depends on the tree only
through the directory that paths start from.
-/
namespace ConnectionLog.Locator

def place (l : Locator) (home : Place) : Place :=
  (Pieces.splitOn '/' l.name.toList).foldl Place.step
    (if (Path.ofText l.name).rooted then [] else home)

theorem resolve?_eq (t : FileTree) (parts : List (List Char)) (start found : Place)
    (h : t.resolve? start parts = some found) : found = parts.foldl Place.step start := by
  induction parts generalizing start with
  | nil =>
    rw [FileTree.resolve?] at h
    split at h
    · exact (Option.some.inj h).symm
    · exact nomatch h
  | cons part rest ih =>
    rw [FileTree.resolve?] at h
    rw [List.foldl_cons]
    split at h
    · exact ih (start.step part) h
    · split at h
      · exact ih (start.step part) h
      · exact nomatch h

/-- A parameter says which access is asked for, or nothing about it. -/
theorem accessAfter_cons (p : Parameter) (rest : List Parameter) :
    (∃ asked, ∀ granted access, accessAfter granted (p :: rest) = .ok access →
      accessAfter asked rest = .ok access) ∨
    (∀ granted access, accessAfter granted (p :: rest) = .ok access →
      accessAfter granted rest = .ok access) := by
  by_cases hmode : p.name = "mode"
  · refine Or.inl ⟨(Access.ofText? p.value).getD .reading, ?_⟩
    intro granted access h
    simp only [accessAfter, hmode] at h
    cases hasked : Access.ofText? p.value with
    | none =>
      rw [hasked] at h
      exact nomatch h
    | some asked =>
      simp only [hasked] at h
      split at h
      · exact h
      · exact nomatch h
  · refine Or.inr ?_
    intro granted access h
    rw [accessAfter] at h
    split at h
    · contradiction
    · split at h
      · exact h
      · exact nomatch h
    · exact h

/-- What is left of two rights is the same, or each as it was granted. -/
theorem accessAfter_cases (ps : List Parameter) (granted granted' access access' : Access)
    (h : accessAfter granted ps = .ok access) (h' : accessAfter granted' ps = .ok access') :
    access = access' ∨ access = granted ∧ access' = granted' := by
  induction ps generalizing granted granted' with
  | nil =>
    rw [accessAfter, Except.ok.injEq] at h h'
    exact Or.inr ⟨h.symm, h'.symm⟩
  | cons p rest ih =>
    rcases accessAfter_cons p rest with ⟨asked, hasked⟩ | hsame
    · have heq := (hasked granted access h).symm.trans (hasked granted' access' h')
      exact Or.inl (Except.ok.inj heq)
    · exact ih granted granted' (hsame granted access h) (hsame granted' access' h')

theorem ofParts_same (granted granted' : Access) (name query : List Char) (l l' : Locator)
    (hgranted : granted ≠ .memory) (hgranted' : granted' ≠ .memory)
    (h : ofParts granted name query = .ok l) (h' : ofParts granted' name query = .ok l') :
    l.name = l'.name ∧ l.kept = l'.kept := by
  rw [ofParts] at h h'
  cases haccess : accessAfter granted (parameters query) with
  | error fault =>
    rw [haccess] at h
    exact nomatch h
  | ok access =>
    cases haccess' : accessAfter granted' (parameters query) with
    | error fault =>
      rw [haccess'] at h'
      exact nomatch h'
    | ok access' =>
      have hmemory : access = .memory ↔ access' = .memory := by
        rcases accessAfter_cases _ granted granted' access access' haccess haccess' with
          rfl | ⟨rfl, rfl⟩
        · exact Iff.rfl
        · simp [hgranted, hgranted']
      rw [haccess] at h
      rw [haccess'] at h'
      simp only [bind, Except.bind] at h h'
      split at h
      · exact nomatch h
      · rename_i sharing hsharing
        simp only [hsharing] at h'
        cases h
        cases h'
        exact ⟨rfl, by simp [hmemory]⟩

/-- The access that is granted does not change where a path leads. -/
theorem ofPath_same (granted granted' : Access) (path : String) (l l' : Locator)
    (hgranted : granted ≠ .memory) (hgranted' : granted' ≠ .memory)
    (h : ofPath granted path = .ok l) (h' : ofPath granted' path = .ok l') :
    l.name = l'.name ∧ l.kept = l'.kept := by
  rw [ofPath] at h h'
  split at h
  · rename_i hscheme
    simp only [hscheme] at h'
    cases h
    cases h'
    exact ⟨rfl, rfl⟩
  · rename_i rest hscheme
    simp only [hscheme] at h'
    cases hmachine : withoutMachine rest with
    | error fault =>
      rw [hmachine] at h
      exact nomatch h
    | ok rest =>
      rw [hmachine] at h h'
      exact ofParts_same granted granted' _ _ l l' hgranted hgranted' h h'

end ConnectionLog.Locator
