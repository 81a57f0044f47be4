import ConnectionLog.Proofs.Files.Work

/-!
The directories of a tree. Putting a file somewhere or removing one leaves them all, and the
directories on the way to a path, once made, are found when they are to be made again. The
name of a database leads to its place through no others.
-/
namespace ConnectionLog

namespace FileTree

structure KeepsDirectories (t t' : FileTree) : Prop where
  home : t'.home = t.home
  directory : ∀ place, t.node? place = some .directory → t'.node? place = some .directory

structure SameDirectories (t t' : FileTree) : Prop where
  home : t'.home = t.home
  directory : ∀ place, t'.node? place = some .directory ↔ t.node? place = some .directory

theorem KeepsDirectories.refl (t : FileTree) : KeepsDirectories t t := ⟨rfl, fun _ h => h⟩

theorem KeepsDirectories.trans {t t₁ t₂ : FileTree} (h₁ : KeepsDirectories t t₁)
    (h₂ : KeepsDirectories t₁ t₂) : KeepsDirectories t t₂ :=
  ⟨h₂.home.trans h₁.home, fun place h => h₂.directory place (h₁.directory place h)⟩

theorem KeepsDirectories.start_eq {t t' : FileTree} (h : KeepsDirectories t t') (path : String) :
    t'.start path = t.start path := by
  rw [start, start, h.home]

theorem SameDirectories.refl (t : FileTree) : SameDirectories t t := ⟨rfl, fun _ => Iff.rfl⟩

theorem SameDirectories.trans {t t₁ t₂ : FileTree} (h₁ : SameDirectories t t₁)
    (h₂ : SameDirectories t₁ t₂) : SameDirectories t t₂ :=
  ⟨h₂.home.trans h₁.home, fun place => (h₂.directory place).trans (h₁.directory place)⟩

theorem SameDirectories.keeps {t t' : FileTree} (h : SameDirectories t t') :
    KeepsDirectories t t' := ⟨h.home, fun place => (h.directory place).mpr⟩

theorem sameDirectories_put (t : FileTree) (place : Place) (contents : Contents)
    (h : t.node? place ≠ some .directory) : SameDirectories t (t.put place (.file contents)) := by
  refine ⟨rfl, fun other => ?_⟩
  by_cases hother : other = place
  · subst hother
    rw [node?_put_self t other _ h]
    simp [h]
  · rw [node?_put_other t other place _ hother]

theorem isDirectory_iff (t : FileTree) (place : Place) :
    t.isDirectory place = true ↔ t.node? place = some .directory := by
  unfold isDirectory
  split
  · next hdir => simp only [hdir]
  · next hfile => simpa using hfile

theorem sameDirectories_removeFile (t : FileTree) (place : Place) :
    SameDirectories t (t.removeFile place) := by
  unfold removeFile
  split
  · exact SameDirectories.refl t
  · next hfile =>
    rw [isDirectory_iff] at hfile
    refine ⟨rfl, fun other => ?_⟩
    by_cases hother : other = place
    · subst hother
      have hout : ¬ other.isPrefixOf t.home = true := fun hin => hfile (if_pos hin)
      have hgone : (t.nodes.filter (·.1 ≠ other)).lookup other = none := by
        rw [List.lookup_eq_none_iff]
        intro node hnode
        have hne : node.1 ≠ other := by simpa using List.of_mem_filter hnode
        exact bne_iff_ne.mpr hne.symm
      simp only [node?, remove, if_neg hout, hgone, reduceCtorEq, false_iff]
      rwa [node?, if_neg hout] at hfile
    · rw [node?_remove_other t other place hother]

theorem sameDirectories_leave (t : FileTree) (place : Place) (writes : Bool) :
    SameDirectories t (t.leave place writes) := by
  unfold leave
  split
  · exact (sameDirectories_removeFile t _).trans (sameDirectories_removeFile _ _)
  · have hfirst : SameDirectories t
        (if (t.node? place.changes).isSome then t
          else t.put place.changes (.file (.bytes []))) := by
      split
      · exact SameDirectories.refl t
      · next hnone => exact sameDirectories_put t _ _ fun hdir => hnone (by rw [hdir]; rfl)
    dsimp only
    generalize (if (t.node? place.changes).isSome then t
      else t.put place.changes (.file (.bytes []))) = between at hfirst ⊢
    split
    · exact hfirst
    · next hshare =>
      refine hfirst.trans (sameDirectories_put between _ _ ?_)
      rwa [cannotShare, isDirectory_iff] at hshare

theorem ne_directory_of_file {node? : Option FileNode} {contents : Contents}
    (h : node? = some (.file contents)) : node? ≠ some .directory := by
  simp [h]

theorem SameDirectories.ne_iff {t t' : FileTree} (h : SameDirectories t t') (place : Place) :
    t'.node? place ≠ some .directory ↔ t.node? place ≠ some .directory :=
  not_congr (h.directory place)

theorem Gives.and {ε α : Type} (work : FileWork ε α) (t : FileTree)
    (post post' : α → FileTree → Prop) (h : Gives work t post) (h' : Gives work t post') :
    Gives work t fun a t' => post a t' ∧ post' a t' :=
  fun a t' hrun => ⟨h a t' hrun, h' a t' hrun⟩

theorem filled?_eq_directory_iff (t : FileTree) (place : Place) :
    t.filled? place = some .directory ↔ t.node? place = some .directory := by
  unfold filled?
  split
  · next hfile =>
    rw [hfile]
    split <;> simp
  · rfl

/-! Directories that were made are found when they are to be made again. -/

/-- The parts of a path may be names, and lead through directories. -/
def IsMade (t : FileTree) : Place → List (List Char) → Prop
  | _, [] => True
  | place, part :: rest =>
    Place.fits (String.ofList part) = true ∧ t.node? (place.step part) = some .directory ∧
      t.IsMade (place.step part) rest

/-- What was made is not lost while directories are kept. -/
theorem IsMade.mono {t t' : FileTree} {place : Place} {parts : List (List Char)}
    (h : t.IsMade place parts) (hkept : KeepsDirectories t t') : t'.IsMade place parts := by
  induction parts generalizing place with
  | nil => trivial
  | cons part rest ih =>
    obtain ⟨hfits, hdir, hrest⟩ := h
    exact ⟨hfits, hkept.directory _ hdir, ih hrest⟩

/-- Wherever the first parts lead, there is a directory. -/
theorem IsMade.node?_foldl {t : FileTree} (place : Place) (parts more : List (List Char))
    (hplace : t.node? place = some .directory) (h : t.IsMade place (parts ++ more)) :
    t.node? (parts.foldl Place.step place) = some .directory := by
  induction parts generalizing place with
  | nil => exact hplace
  | cons part rest ih =>
    obtain ⟨-, hdir, hrest⟩ := h
    exact ih _ hdir hrest

/-- Directories are there after they were made. -/
theorem makeAlong_made (parts : List (List Char)) (made : Bool) (start : Place) (t : FileTree) :
    Gives (makeAlong made start parts) t fun _ t' =>
      KeepsDirectories t t' ∧ t'.IsMade start parts := by
  induction parts generalizing made start t with
  | nil => exact (gives_pure _ _ _).mpr ⟨KeepsDirectories.refl t, trivial⟩
  | cons part rest ih =>
    rw [makeAlong]
    dsimp only
    split
    · next hfits =>
      rw [gives_bind, gives_get]
      cases hnode : t.node? (start.step part) with
      | some node =>
        cases node with
        | directory =>
          refine Gives.imp _ _ _ _ (ih made (start.step part) t) ?_
          rintro _ t' ⟨hkept, hrest⟩
          exact ⟨hkept, hfits, hkept.directory _ hnode, hrest⟩
        | file contents => exact (gives_throw _ _ _).mpr trivial
      | none =>
        have hne : t.node? (start.step part) ≠ some .directory := by
          rw [hnode]
          exact (Option.some_ne_none _).symm
        have hput : KeepsDirectories t (t.put (start.step part) .directory) := by
          refine ⟨rfl, fun other hother => ?_⟩
          have hother' : other ≠ start.step part := by
            rintro rfl
            exact hne hother
          rwa [node?_put_other t other _ _ hother']
        rw [gives_bind, gives_modify]
        refine Gives.imp _ _ _ _ (ih true (start.step part) _) ?_
        rintro _ t' ⟨hkept, hrest⟩
        refine ⟨hput.trans hkept, hfits, hkept.directory _ ?_, hrest⟩
        exact node?_put_self t _ _ hne
    · rw [gives_bind, gives_throw]
      trivial

theorem run_bind {ε α β : Type} (work : FileWork ε α) (next : α → FileWork ε β)
    (t t' : FileTree) (a : α) (h : work t = .ok a t') : (work >>= next) t = next a t' := by
  change EStateM.bind work next t = _
  rw [EStateM.bind, h]

/-- Where the directories are there already nothing is changed. -/
theorem makeAlong_of_made (parts : List (List Char)) (made : Bool) (start : Place)
    (t : FileTree) (h : t.IsMade start parts) : makeAlong made start parts t = .ok ⟨⟩ t := by
  induction parts generalizing start with
  | nil => rfl
  | cons part rest ih =>
    obtain ⟨hfits, hdir, hrest⟩ := h
    rw [makeAlong]
    simp only [hfits, if_true]
    rw [run_bind get _ t t t rfl]
    simp only [hdir]
    exact ih _ hrest

/-- Directories on the way to a path are made once. -/
theorem makeDirectories_made (path : String) (t : FileTree) :
    Gives (makeDirectories path) t fun _ t₁ =>
      t₁.IsMade (t₁.start path) (Path.ofText path).directory ∧
        ∀ t', KeepsDirectories t₁ t' → makeDirectories path t' = .ok ⟨⟩ t' := by
  rw [makeDirectories]
  dsimp only
  split
  · rw [gives_bind, gives_throw]
    trivial
  · split
    · rw [gives_bind, gives_get]
      refine Gives.imp _ _ _ _ (makeAlong_made _ false _ t) ?_
      rintro _ t₁ ⟨hkept, hafter⟩
      rw [← hkept.start_eq path] at hafter
      refine ⟨hafter, fun t' hkept' => ?_⟩
      rw [run_bind get _ t' t' t' rfl, hkept'.start_eq path]
      exact makeAlong_of_made _ _ _ _ (hafter.mono hkept')
    · rw [gives_bind, gives_throw]
      trivial

/-! A name leads to its place through the directories that are made for it. -/

theorem step_of_not_isStep (place : Place) (part : List Char) (h : Path.isStep part = false) :
    place.step part = place := by
  simp [Place.step, h]

/-- Parts that lead nowhere can be left out. -/
theorem foldl_step_filter (parts : List (List Char)) (place : Place) :
    (parts.filter Path.isStep).foldl Place.step place = parts.foldl Place.step place := by
  induction parts generalizing place with
  | nil => rfl
  | cons part rest ih =>
    cases hstep : Path.isStep part with
    | true =>
      rw [List.filter_cons_of_pos hstep]
      exact ih _
    | false =>
      rw [List.filter_cons_of_neg (by simp [hstep]), List.foldl_cons,
        step_of_not_isStep place part hstep]
      exact ih place

/-- What comes before a part that leads somewhere leads through the directory. -/
theorem directory_eq_append (cs part : List Char) (before after : List (List Char))
    (hsplit : Pieces.splitOn '/' cs = before ++ part :: after)
    (hstep : Path.isStep part = true) :
    ∃ way more, (Path.ofChars cs).directory = way ++ more ∧
      ∀ place, way.foldl Place.step place = before.foldl Place.step place := by
  cases before with
  | nil => exact ⟨[], _, rfl, fun _ => rfl⟩
  | cons first before =>
    have hparts : (Path.ofChars cs).parts = ((if first = [] then [] else [first]) ++
        before.filter Path.isStep) ++ part :: after.filter Path.isStep := by
      rw [Path.ofChars, hsplit]
      simp only [List.cons_append, List.filter_append, List.filter_cons_of_pos hstep,
        List.append_assoc]
    refine ⟨(if first = [] then [] else [first]) ++ before.filter Path.isStep,
      (part :: after.filter Path.isStep).dropLast, ?_, fun place => ?_⟩
    · rw [Path.directory, hparts, List.dropLast_append_of_ne_nil (List.cons_ne_nil _ _)]
    · rw [List.foldl_append, foldl_step_filter, List.foldl_cons]
      split
      · next hempty =>
        rw [hempty]
        rfl
      · rfl

/-- Two trees lead alike through directories that both have. -/
theorem resolve?_congr (t t' : FileTree) (parts : List (List Char)) (place : Place)
    (h : ∀ before part after, parts = before ++ part :: after → Path.isStep part = true →
      t.node? (before.foldl Place.step place) = some .directory ∧
        t'.node? (before.foldl Place.step place) = some .directory) :
    t.resolve? place parts = t'.resolve? place parts := by
  induction parts generalizing place with
  | nil => rfl
  | cons part rest ih =>
    have hrest := ih (place.step part) fun before part' after hsplit =>
      h (part :: before) part' after (by rw [hsplit]; rfl)
    rw [resolve?, resolve?, hrest]
    by_cases hup : (place.step part).length ≤ place.length
    · simp only [hup, if_true]
    · have hstep : Path.isStep part = true := by
        by_contra hstep
        rw [step_of_not_isStep place part (by simpa using hstep)] at hup
        exact hup (Nat.le_refl _)
      obtain ⟨hdir, hdir'⟩ := h [] part rest rfl hstep
      have hmay : t.mayHold place (String.ofList part) = t'.mayHold place (String.ofList part) := by
        simp only [List.foldl_nil] at hdir hdir'
        rw [mayHold, mayHold, hdir, hdir']
      simp only [hup, if_false, hmay]

theorem node?_start (t : FileTree) (path : String) :
    t.node? (t.start path) = some .directory := by
  unfold start
  split
  · exact if_pos rfl
  · exact if_pos (List.isPrefixOf_iff_prefix.mpr List.prefix_rfl)

/-- Once the directories on its way are made, a path goes on leading to the same place. -/
theorem resolve?_of_made (t t' : FileTree) (path : String)
    (hmade : t.IsMade (t.start path) (Path.ofText path).directory)
    (hkept : KeepsDirectories t t') :
    t'.resolve? (t'.start path) (Pieces.splitOn '/' path.toList) =
      t.resolve? (t.start path) (Pieces.splitOn '/' path.toList) := by
  rw [hkept.start_eq path]
  refine (resolve?_congr t t' _ _ ?_).symm
  intro before part after hsplit hstep
  obtain ⟨way, more, hdirectory, hway⟩ := directory_eq_append _ part before after hsplit hstep
  rw [Path.ofText, hdirectory] at hmade
  have hdir := hmade.node?_foldl _ way more (node?_start t path)
  rw [hway] at hdir
  exact ⟨hdir, hkept.directory _ hdir⟩

end FileTree

end ConnectionLog
