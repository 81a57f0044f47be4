import ConnectionLog.Proofs.Files.Directories
import ConnectionLog.Proofs.Files.Gapless

/-!
A log that was opened by the name of its file and could be written to can be put back and
opened again by that name. The directories that lead there have been made, and no
directory is in the way of what a writer keeps beside the file. A locator need not lead
through the directories that are made for it, so nothing is said about those.
-/
namespace ConnectionLog

namespace FileTree

/-! What a writer must have found who could open a file. -/

theorem settleJournal_directories (t : FileTree) (place : Place) (isBlank : Bool) :
    Gives (settleJournal place isBlank true : FileWork DatabaseFault Unit) t fun _ t' =>
      SameDirectories t t' ∧ (isBlank = false → t.node? place.journal ≠ some .directory) := by
  have hremoved := sameDirectories_removeFile t place.journal
  rw [settleJournal, gives_bind, gives_get]
  split
  · next hnone =>
    refine (gives_pure _ _ _).mpr ⟨SameDirectories.refl t, fun _ hdir => ?_⟩
    rw [(filled?_eq_directory_iff t _).mpr hdir] at hnone
    contradiction
  · next node hnode =>
    cases isBlank with
    | true => exact (gives_modify _ _ _).mpr ⟨hremoved, fun hfilled => absurd hfilled (by decide)⟩
    | false =>
      cases node with
      | directory => exact (gives_throw _ _ _).mpr trivial
      | file contents =>
        have hfile : t.node? place.journal ≠ some .directory := by
          rw [ne_eq, ← filled?_eq_directory_iff]
          exact ne_directory_of_file hnode
        rw [if_neg Bool.false_ne_true]
        dsimp only
        split
        · exact (gives_pure _ _ _).mpr ⟨SameDirectories.refl t, fun _ => hfile⟩
        · exact (gives_modify _ _ _).mpr ⟨hremoved, fun _ => hfile⟩

theorem settleChanges_directories (t : FileTree) (place : Place) (isBlank : Bool) :
    Gives (settleChanges place isBlank true true) t fun _ t' =>
      SameDirectories t t' ∧ t.node? place.changes ≠ some .directory := by
  rw [settleChanges, gives_bind, gives_get]
  split
  · next hnone =>
    refine (gives_pure _ _ _).mpr ⟨SameDirectories.refl t, fun hdir => ?_⟩
    rw [(filled?_eq_directory_iff t _).mpr hdir] at hnone
    contradiction
  · exact (gives_throw _ _ _).mpr trivial
  · next contents hnode =>
    have hfile : t.node? place.changes ≠ some .directory := by
      rw [ne_eq, ← filled?_eq_directory_iff]
      exact ne_directory_of_file hnode
    cases isBlank with
    | true => exact (gives_modify _ _ _).mpr ⟨sameDirectories_removeFile t _, hfile⟩
    | false => exact (gives_modify _ _ _).mpr ⟨sameDirectories_leave t place true, hfile⟩

/-- A writer met a file only where no directory took the place of what lies beside it. -/
theorem meet_directories (t : FileTree) (place : Place) (contents : Contents) :
    Gives (meet place contents true true) t fun _ t' =>
      SameDirectories t t' ∧ t.node? place.changes ≠ some .directory ∧
        (contents.isBlank = false → t.node? place.journal ≠ some .directory) := by
  rw [meet, gives_bind]
  refine Gives.imp _ _ _ _ (settleJournal_directories t place contents.isBlank) ?_
  rintro _ t₁ ⟨hsame₁, hjournal⟩
  rw [gives_bind]
  refine Gives.imp _ _ _ _ (settleChanges_directories t₁ place contents.isBlank) ?_
  rintro _ t₂ ⟨hsame₂, hchanges⟩
  have hsame := hsame₁.trans hsame₂
  rw [hsame₁.ne_iff] at hchanges
  cases contents.found with
  | error fault => exact (gives_throw _ _ _).mpr trivial
  | ok db =>
    dsimp only
    split
    · rw [if_pos rfl, gives_bind, gives_modify, gives_pure]
      exact ⟨hsame.trans (sameDirectories_leave t₂ place true), hchanges, hjournal⟩
    · rw [gives_pure]
      exact ⟨hsame, hchanges, hjournal⟩

theorem openFile_directories (t : FileTree) (path : String) (place : Place) (access : Access) :
    Gives (openFile path place access) t fun _ t' => SameDirectories t t' := by
  rw [openFile, gives_bind, gives_get]
  cases hnode : t.node? place with
  | some node =>
    cases node with
    | directory => exact (gives_throw _ _ _).mpr trivial
    | file contents => exact (gives_pure _ _ _).mpr (SameDirectories.refl t)
  | none =>
    dsimp only
    split
    · rw [gives_bind, gives_set, gives_pure]
      exact sameDirectories_put t place _ (by
        rw [hnode]
        exact (Option.some_ne_none _).symm)
    · rw [gives_bind, gives_throw]
      trivial

end FileTree

namespace OpenLog

open FileTree

theorem prepare_directories (t : FileTree) (place : Place) (contents : Contents)
    (db : Database) (hfile : t.node? place = some (.file contents)) :
    Gives (prepare place .beside contents db) t fun _ t' =>
      SameDirectories t t' ∧
        (contents.isAhead = false → t.node? place.journal ≠ some .directory) := by
  rw [prepare]
  simp only [if_true]
  cases hready : contents.isAhead with
  | true =>
    simp only [if_true]
    exact (gives_modify _ _ _).mpr
      ⟨sameDirectories_leave t place true, fun hahead => absurd hahead (by decide)⟩
  | false =>
    rw [if_neg Bool.false_ne_true, gives_bind, gives_get]
    split
    · rw [gives_bind, gives_throw]
      trivial
    · next hjournal =>
      rw [Bool.or_eq_true, not_or, isDirectory_iff] at hjournal
      have hremoved := sameDirectories_removeFile t place.journal
      have hkept := keeps_removeFile_beside t place "-journal" (by decide)
      have hput := sameDirectories_put (t.removeFile place.journal) place (.database db true)
        (ne_directory_of_file (hkept.file contents hfile))
      rw [gives_bind, gives_modify, gives_modify]
      exact ⟨(hremoved.trans hput).trans (sameDirectories_leave _ place true),
        fun _ => hjournal.2⟩

theorem setUp_directories (t : FileTree) (place : Place) (contents : Contents)
    (db : Database) (hfile : t.node? place = some (.file contents)) :
    Gives (setUp place .beside contents db) t fun log t' =>
      SameDirectories t t' ∧
        (contents.isAhead = false → t.node? place.journal ≠ some .directory) ∧
        (log.readOnly = false → t.node? place.shared ≠ some .directory) ∧
        log = ⟨some place, log.readOnly, .beside, .ok db.completed⟩ ∧
        t'.node? place = some (.file (.database db.completed true)) := by
  rw [setUp, gives_bind]
  refine Gives.imp _ _ _ _ (Gives.and _ _ _ _ (prepare_directories t place contents db hfile)
    (prepare_gives t place .beside contents db hfile)) ?_
  rintro _ t₁ ⟨⟨hsame, hjournal⟩, -, contents', hthere⟩
  have hne := ne_directory_of_file hthere
  rw [gives_bind, gives_get]
  dsimp only
  split
  · rw [gives_bind, gives_throw]
    trivial
  · rw [gives_bind, gives_modify, gives_pure]
    refine ⟨hsame.trans (sameDirectories_put t₁ place _ hne), hjournal, ?_, rfl,
      node?_put_self t₁ place _ hne⟩
    intro hopen
    simp only [decide_true, Bool.true_and, cannotShare] at hopen
    rw [← hsame.ne_iff, ne_eq, ← isDirectory_iff, hopen]
    exact Bool.false_ne_true

structure Ready (place : Place) (t : FileTree) : Prop where
  journal : t.node? place.journal ≠ some .directory
  changes : t.node? place.changes ≠ some .directory
  shared : t.node? place.shared ≠ some .directory

theorem Ready.of_same {place : Place} {t t' : FileTree} (h : Ready place t)
    (hsame : SameDirectories t t') : Ready place t' :=
  ⟨(hsame.ne_iff _).mpr h.journal, (hsame.ne_iff _).mpr h.changes,
    (hsame.ne_iff _).mpr h.shared⟩

/-- A log that was opened has nothing in the way of opening it again. -/
theorem openFound_ready (t : FileTree) (l : Locator) (place : Place) (contents : Contents)
    (hsharing : l.sharing = .beside) (haccess : l.access = .creating)
    (hfile : t.node? place = some (.file contents)) :
    Gives (openFound l place contents) t fun log t' =>
      SameDirectories t t' ∧ log.place = some place ∧ log.sharing = .beside ∧
        (log.readOnly = false → Ready place t') ∧
        ∃ db, t'.node? place = some (.file (.database db true)) := by
  have hblank : contents.isAhead = true → contents.isBlank = false := by
    intro hahead
    cases contents with
    | database db ahead => rfl
    | bytes content => cases hahead
  rw [openFound, hsharing, haccess]
  simp only [reduceCtorEq, if_false, decide_true, ne_eq, not_false_eq_true, if_true]
  rw [gives_bind]
  refine Gives.imp _ _ _ _ (Gives.and _ _ _ _ (meet_directories t place contents)
    (meet_gives t place contents _ _)) ?_
  rintro db t₁ ⟨⟨hsame, hchanges, hjournal⟩, -, hkept⟩
  refine Gives.imp _ _ _ _ (setUp_directories t₁ place contents db (hkept.file _ hfile)) ?_
  rintro log t' ⟨hsame', hjournal', hshared, hlog, hthere⟩
  have hall := hsame.trans hsame'
  refine ⟨hall, by rw [hlog], by rw [hlog], ?_, _, hthere⟩
  intro hwritable
  refine Ready.of_same ⟨?_, hchanges, ?_⟩ hall
  · cases hahead : contents.isAhead with
    | true => exact hjournal (hblank hahead)
    | false => exact (hsame.ne_iff _).mp (hjournal' hahead)
  · exact (hsame.ne_iff _).mp (hshared hwritable)

/-! Then opening the file again does not fail. -/

theorem settleJournal_ok (t : FileTree) (place : Place)
    (h : t.node? place.journal ≠ some .directory) :
    ∃ t', settleJournal place false true t = .ok ⟨⟩ t' := by
  rw [settleJournal, run_bind get _ t t t rfl]
  cases hnode : t.filled? place.journal with
  | none => exact ⟨_, rfl⟩
  | some node =>
    cases node with
    | directory => exact absurd ((filled?_eq_directory_iff t _).mp hnode) h
    | file contents =>
      simp only [Bool.false_eq_true, if_false]
      split <;> exact ⟨_, rfl⟩

theorem settleChanges_ok (t : FileTree) (place : Place)
    (h : t.node? place.changes ≠ some .directory) :
    ∃ t', settleChanges place false true true t = .ok ⟨⟩ t' := by
  rw [settleChanges, run_bind get _ t t t rfl]
  cases hnode : t.filled? place.changes with
  | none => exact ⟨_, rfl⟩
  | some node =>
    cases node with
    | directory => exact absurd ((filled?_eq_directory_iff t _).mp hnode) h
    | file contents => exact ⟨_, rfl⟩

/-- Where nothing is in the way a shared database is met. -/
theorem meet_ok (t : FileTree) (place : Place) (db : Database) (h : Ready place t) :
    ∃ t', meet place (.database db true) true true t = .ok db t' := by
  obtain ⟨t₁, hjournal⟩ := settleJournal_ok t place h.journal
  have hsame := (settleJournal_directories t place false ⟨⟩ t₁ hjournal).1
  obtain ⟨t₂, hchanges⟩ := settleChanges_ok t₁ place (h.of_same hsame).changes
  rw [meet]
  change ∃ t', (settleJournal place false true >>= _) t = _
  rw [run_bind _ _ _ _ _ hjournal]
  change ∃ t', (settleChanges place false true true >>= _) t₁ = _
  rw [run_bind _ _ _ _ _ hchanges]
  exact ⟨_, rfl⟩

theorem setUp_ok (t : FileTree) (place : Place) (db : Database) (h : Ready place t)
    (hcomplete : db.isComplete = true) :
    ∃ t', setUp place .beside (.database db true) db t =
      .ok ⟨some place, false, .beside, .ok db⟩ t' := by
  have hprepared : prepare place .beside (.database db true) db t =
      .ok ⟨⟩ (t.leave place true) := rfl
  have hshut : (t.leave place true).cannotShare place = false := by
    have hshared := (h.of_same (sameDirectories_leave t place true)).shared
    rw [cannotShare, ← Bool.not_eq_true, isDirectory_iff]
    exact hshared
  rw [setUp, run_bind _ _ _ _ _ hprepared, run_bind get _ _ _ _ rfl]
  simp only [decide_true, Bool.true_and, hshut, Bool.false_and, Bool.false_eq_true, if_false,
    completed_of_isComplete db hcomplete]
  exact ⟨_, rfl⟩

/-- Where nothing is in the way a shared database is opened as it was left. -/
theorem openFound_ok (t : FileTree) (l : Locator) (place : Place) (db : Database)
    (hsharing : l.sharing = .beside) (haccess : l.access = .creating) (h : Ready place t)
    (hcomplete : db.isComplete = true) :
    ∃ t', openFound l place (.database db true) t =
      .ok ⟨some place, false, .beside, .ok db⟩ t' := by
  obtain ⟨t₁, hmeet⟩ := meet_ok t place db h
  have hsame := (meet_directories t place _ db t₁ hmeet).1
  rw [openFound, hsharing, haccess]
  simp only [reduceCtorEq, if_false, decide_true, ne_eq, not_false_eq_true, if_true]
  rw [run_bind _ _ _ _ _ hmeet]
  exact setUp_ok t₁ place db (h.of_same hsame) hcomplete

/-! A path that is no locator names its file. -/

def named (path : String) : Locator :=
  ⟨path, .creating, .beside, path ≠ Locator.nowhere && path ≠ ""⟩

/-- Only the place depends on the files. -/
theorem locate_named (t : FileTree) (path : String)
    (hplain : Locator.afterScheme? path.toList = none) :
    locate .creating path t =
      if path.toList.contains '\x00' then
        .error (.zeroInPath (Path.textSize (path.toList.takeWhile (· ≠ '\x00')))) t
      else if (named path).kept then
        match t.resolve? (t.start path) (Pieces.splitOn '/' path.toList) with
        | none => .error (.cannotOpen (some path)) t
        | some place => .ok (named path, some place) t
      else .ok (named path, none) t := by
  have hpath : Locator.ofPath .creating path = .ok (named path) := by
    rw [Locator.ofPath, hplain]
    rfl
  rw [locate]
  dsimp only
  split
  · rfl
  · rw [hpath]
    cases hkept : (named path).kept with
    | false =>
      simp only [hkept, Bool.not_false, if_true, Bool.false_eq_true, if_false]
      rfl
    | true =>
      simp only [hkept, Bool.not_true, Bool.false_eq_true, if_false, if_true]
      rw [run_bind get _ t t t rfl]
      change (match t.resolve? (t.start path) (Pieces.splitOn '/' path.toList) with
        | none => throw (.cannotOpen (some path))
        | some place => pure (named path, some place) : FileWork DatabaseFault _) t = _
      cases t.resolve? (t.start path) (Pieces.splitOn '/' path.toList) <;> rfl

theorem locate_named_again (t : FileTree) (path : String)
    (hplain : Locator.afterScheme? path.toList = none)
    (hmade : t.IsMade (t.start path) (Path.ofText path).directory) :
    Gives (locate .creating path) t fun found t₁ =>
      t₁ = t ∧ found.1 = named path ∧
        ∀ t', KeepsDirectories t t' → locate .creating path t' = .ok found t' := by
  intro found t₁ hrun
  have hagain (t' : FileTree) (hkept : KeepsDirectories t t') :=
    resolve?_of_made t t' path hmade hkept
  rw [locate_named t path hplain] at hrun
  split at hrun
  · cases hrun
  · next hzero =>
    split at hrun
    · next hkept =>
      split at hrun
      · cases hrun
      · next place hplace =>
        cases hrun
        refine ⟨rfl, rfl, fun t' hkept' => ?_⟩
        rw [locate_named t' path hplain, if_neg hzero, if_pos hkept, hagain t' hkept', hplace]
    · next hkept =>
      cases hrun
      refine ⟨rfl, rfl, fun t' _ => ?_⟩
      rw [locate_named t' path hplain, if_neg hzero, if_neg hkept]

/-- What is left when a file was opened by its name: the way to the file can be gone again. -/
structure OpenedByName (path : String) (place : Place) (log : OpenLog) (t : FileTree) :
    Prop where
  sharing : log.sharing = .beside
  ready : log.readOnly = false → Ready place t
  file : ∃ db, t.node? place = some (.file (.database db true))
  made : ∀ t', KeepsDirectories t t' → makeDirectories path t' = .ok ⟨⟩ t'
  located : ∀ t', KeepsDirectories t t' →
    locate .creating path t' = .ok (named path, some place) t'

/-- A log that was opened by its name can be opened by it again. -/
theorem forWriting_byName (t : FileTree) (path : String)
    (hplain : Locator.afterScheme? path.toList = none) :
    Gives (forWriting path) t fun log t' =>
      ∀ place, log.place = some place → OpenedByName path place log t' := by
  rw [forWriting, gives_bind, gives_adaptExcept]
  refine Gives.imp _ _ _ _ (makeDirectories_made path t) ?_
  rintro _ t₁ ⟨hmade, hagain⟩
  rw [gives_adaptExcept, openToWrite, gives_bind]
  refine Gives.imp _ _ _ _ (locate_named_again t₁ path hplain hmade) ?_
  rintro ⟨l, place?⟩ t₂ ⟨rfl, hl, hlocated⟩
  dsimp only at hl hlocated
  subst hl
  cases place? with
  | none =>
    dsimp only
    split
    · rw [gives_bind, gives_throw]
      trivial
    · rw [gives_pure]
      intro place hplace
      cases hplace
  | some place =>
    dsimp only
    rw [gives_bind]
    refine Gives.imp _ _ _ _ (Gives.and _ _ _ _ (openFile_directories t₂ path place _)
      (openFile_gives t₂ path place _)) ?_
    rintro contents t₃ ⟨hsame, hfile, -⟩
    refine Gives.imp _ _ _ _ (openFound_ready t₃ (named path) place contents rfl rfl hfile) ?_
    rintro log t' ⟨hsame', hplace, hsharing, hready, hthere⟩ place' hplace'
    rw [hplace, Option.some.injEq] at hplace'
    subst hplace'
    have hkept := (hsame.trans hsame').keeps
    exact ⟨hsharing, hready, hthere, fun t'' hkept' => hagain t'' (hkept.trans hkept'),
      fun t'' hkept' => hlocated t'' (hkept.trans hkept')⟩

theorem run_adaptExcept {ε ε' α : Type} (f : ε → ε') (work : FileWork ε α) (t t' : FileTree)
    (a : α) (h : work t = .ok a t') : EStateM.adaptExcept f work t = .ok a t' := by
  rw [EStateM.adaptExcept, h]

/-- While the directories stay, opening a log again gives what its file holds by then. -/
theorem OpenedByName.opens {path : String} {place : Place} {log : OpenLog} {t t' : FileTree}
    (h : OpenedByName path place log t) (hwritable : log.readOnly = false) (db : Database)
    (hcomplete : db.isComplete = true) (hsame : SameDirectories t t')
    (hfile : t'.node? place = some (.file (.database db true))) :
    ∃ t'', forWriting path t' = .ok ⟨some place, false, .beside, .ok db⟩ t'' := by
  obtain ⟨t'', hopen⟩ := openFound_ok t' (named path) place db rfl rfl
    ((h.ready hwritable).of_same hsame) hcomplete
  have hthere : openFile path place .creating t' = .ok (.database db true) t' := by
    rw [openFile, run_bind get _ t' t' t' rfl]
    simp only [hfile]
    rfl
  have hwork : openToWrite path t' = .ok ⟨some place, false, .beside, .ok db⟩ t'' := by
    rw [openToWrite, run_bind _ _ _ _ _ (h.located t' hsame.keeps)]
    change (openFile path place .creating >>= _) t' = _
    rw [run_bind _ _ _ _ _ hthere]
    exact hopen
  refine ⟨t'', ?_⟩
  rw [forWriting, run_bind _ _ _ _ _ (run_adaptExcept _ _ _ _ _ (h.made t' hsame.keeps))]
  exact run_adaptExcept _ _ _ _ _ hwork

theorem call_same (log log' : OpenLog) (asked : Call) (answer : Answer)
    (h : log.call asked = .ok (answer, log')) :
    log'.place = log.place ∧ log'.readOnly = log.readOnly ∧ log'.sharing = log.sharing := by
  rw [call] at h
  cases hheld : log.held with
  | error fault =>
    rw [hheld] at h
    cases h
  | ok db =>
    rw [hheld] at h
    simp only [bind, Except.bind] at h
    cases hcall : db.call log.readOnly asked with
    | error fault =>
      rw [hcall] at h
      cases h
    | ok result =>
      rw [hcall] at h
      cases h
      exact ⟨rfl, rfl, rfl⟩

theorem firstUse_readOnly (t : FileTree) (log : OpenLog) :
    (log.firstUse t).1.readOnly = log.readOnly := by
  unfold firstUse
  split
  · rfl
  · rfl
  · split
    · split <;> rfl
    · rfl

/-- What is opened only to be read may not be written to. -/
theorem reopenToRead_readOnly (path : String) (log : OpenLog) (t : FileTree) :
    Gives (reopenToRead path log) t fun log' _ => log'.readOnly = true := by
  rw [reopenToRead, gives_bind, gives_modify, gives_bind, forReading, gives_adaptExcept]
  have hread : Gives (openToRead path) (log.close t) fun log' _ => log'.readOnly = true := by
    rw [openToRead, gives_bind]
    rintro ⟨l, place?⟩ t₁ -
    cases place? with
    | none => exact (gives_pure _ _ _).mpr rfl
    | some place =>
      dsimp only
      rw [gives_bind]
      intro contents t₂ _
      exact (gives_pure _ _ _).mpr rfl
  refine Gives.imp _ _ _ _ hread ?_
  intro log₁ t₁ hreadOnly
  rw [gives_modifyGet, firstUse_readOnly]
  exact hreadOnly

/-- A log can be opened again by its name, whatever it goes through. -/
theorem reached_byName (path : String) (hplain : Locator.afterScheme? path.toList = none)
    (log : OpenLog) (t : FileTree) (given : List Int) (h : Reached path log t given)
    (hwritable : log.readOnly = false) (place : Place) (hplace : log.place = some place) :
    OpenedByName path place log t := by
  induction h with
  | opened log t t' db hopen _ _ => exact forWriting_byName t path hplain log t' hopen place hplace
  | wrote log log' t given w outcome hreached hcall ih =>
    obtain ⟨hkept, hsame, hsharing⟩ := call_same log log' _ _ hcall
    rw [hsame] at hwritable
    rw [hkept] at hplace
    obtain ⟨hbeside, hready, hfile, hmade, hlocated⟩ := ih hwritable hplace
    exact ⟨hsharing.trans hbeside, fun _ => hready hwritable, hfile, hmade, hlocated⟩
  | reopened log log' t t' given hreached hkept hreopen ih =>
    rw [reopen_eq] at hreopen
    exact forWriting_byName _ path hplain log' t' hreopen place hplace
  | reopenedToRead log log' t t' given db hreached hkept hreopen hheld ih =>
    have hshut : log'.readOnly = true := reopenToRead_readOnly path log t log' t' hreopen
    rw [hwritable] at hshut
    contradiction

/-- A log that may be written to is put back and opened again as it was. -/
theorem forWriting_close (path : String) (hplain : Locator.afterScheme? path.toList = none)
    (log : OpenLog) (t : FileTree) (given : List Int) (h : Reached path log t given)
    (hwritable : log.readOnly = false) (hkept : log.place ≠ none) :
    ∃ t', forWriting path (log.close t) = .ok log t' := by
  obtain ⟨place, hplace⟩ := Option.ne_none_iff_exists'.mp hkept
  obtain ⟨db, hholding, -⟩ := reached_remembers path log t given h
  have hopened := reached_byName path hplain log t given h hwritable place hplace
  obtain ⟨before, hfile⟩ := hopened.file
  have hne := ne_directory_of_file hfile
  have hclosed : log.close t = t.put place (.file (.database db true)) := by
    rw [close, hplace, hholding.held]
    simp only [hwritable, hfile]
  have hlog : log = ⟨some place, false, .beside, .ok db⟩ := by
    rw [← hplace, ← hwritable, ← hopened.sharing, ← hholding.held]
  obtain ⟨t', hopen⟩ := hopened.opens hwritable db hholding.complete
    (sameDirectories_put t place _ hne) (node?_put_self t place _ hne)
  refine ⟨t', ?_⟩
  rw [hclosed, hopen, ← hlog]

end OpenLog

end ConnectionLog
