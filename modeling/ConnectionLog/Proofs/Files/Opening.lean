import ConnectionLog.Proofs.Files.Locator
import ConnectionLog.Proofs.Files.Work

/-!
What a log holds once it is open, and what its file holds then. Whatever was opened
to be written is complete, and the same database is in its file; a path leads to the
same file each time, so a log that is put back and opened again is the one that was
put back.
-/
namespace ConnectionLog.FileTree

theorem locate_gives (t : FileTree) (granted : Access) (path : String) :
    Gives (locate granted path) t fun found t' =>
      t' = t ∧ Locator.ofPath granted path = .ok found.1 ∧
        found.2 = if found.1.kept then some (found.1.place t.home) else none := by
  rw [locate]
  dsimp only
  split
  · rw [gives_bind, gives_throw]
    trivial
  · cases hpath : Locator.ofPath granted path with
    | error fault => exact (gives_throw _ _ _).mpr trivial
    | ok l =>
      dsimp only
      cases hkept : l.kept with
      | false => exact (gives_pure _ _ _).mpr ⟨rfl, rfl, by simp [hkept]⟩
      | true =>
        rw [Bool.not_true, if_neg Bool.false_ne_true, gives_bind, gives_get]
        split
        · exact (gives_throw _ _ _).mpr trivial
        · rename_i place hplace
          have hfound : place = l.place t.home := Locator.resolve?_eq t _ _ place hplace
          exact (gives_pure _ _ _).mpr ⟨rfl, rfl, by simp [hkept, hfound]⟩

end ConnectionLog.FileTree

namespace ConnectionLog.OpenLog

open FileTree

theorem completed_of_isComplete (db : Database) (h : db.isComplete = true) :
    db.completed = db := by
  obtain ⟨log, hasApps, hasEntries, aside⟩ := db
  rw [Database.isComplete, Bool.and_eq_true] at h
  obtain ⟨happs, hentries⟩ := h
  simp only at happs hentries
  subst happs
  subst hentries
  rfl

/-- Only a database has every table. -/
theorem eq_database_of_found (contents : Contents) (db : Database)
    (hfound : contents.found = .ok db) (hcomplete : db.isComplete = true) :
    ∃ ahead, contents = .database db ahead := by
  cases contents with
  | database db' ahead =>
    cases hfound
    exact ⟨ahead, rfl⟩
  | bytes content =>
    have hbare : Database.bare = db := by
      rcases content with _ | ⟨b, _ | ⟨b', rest⟩⟩
      · exact Except.ok.inj hfound
      · exact Except.ok.inj hfound
      · exact nomatch hfound
    subst hbare
    exact absurd hcomplete (by decide)

def Opened (place : Place) (db : Database) (t : FileTree) (log : OpenLog) (t' : FileTree) :
    Prop :=
  t'.home = t.home ∧ log.place = some place ∧ log.held = .ok db.completed ∧
    ∃ ahead, t'.node? place = some (.file (.database db.completed ahead))

theorem asFound_gives (t t₁ : FileTree) (place : Place) (sharing : Sharing)
    (contents : Contents) (db : Database) (hfound : contents.found = .ok db)
    (hfile : t₁.node? place = some (.file contents)) (hhome : t₁.home = t.home) :
    Gives (asFound place sharing contents db) t₁ (Opened place db t) := by
  rw [asFound]
  dsimp only
  split
  · rename_i h
    rw [Bool.and_eq_true] at h
    have hcomplete := completed_of_isComplete db h.1
    obtain ⟨ahead, rfl⟩ := eq_database_of_found contents db hfound h.1
    rw [gives_pure]
    exact ⟨hhome, rfl, by rw [hcomplete], ahead, by rw [hcomplete, hfile]⟩
  · rw [gives_bind, gives_throw]
    trivial

/-- Preparing leaves a file at its place. -/
theorem prepare_gives (t : FileTree) (place : Place) (sharing : Sharing)
    (contents : Contents) (db : Database) (hfile : t.node? place = some (.file contents)) :
    Gives (prepare place sharing contents db) t fun _ t' =>
      t'.home = t.home ∧ ∃ contents', t'.node? place = some (.file contents') := by
  have hleft : ∀ t' contents', t'.home = t.home →
      t'.node? place = some (.file contents') →
      Gives (if sharing = .beside then modify (·.leave place true) else pure ⟨⟩ :
        FileWork DatabaseFault PUnit) t' fun _ t'' =>
          t''.home = t.home ∧ ∃ contents'', t''.node? place = some (.file contents'') := by
    intro t' contents' hhome hthere
    split
    · have hkept := keeps_leave t' place true
      exact (gives_modify _ _ _).mpr
        ⟨hkept.home.trans hhome, contents', hkept.file contents' hthere⟩
    · exact (gives_pure _ _ _).mpr ⟨hhome, contents', hthere⟩
  rw [prepare]
  dsimp only
  generalize (if sharing = .beside then contents.isAhead else db.isComplete) = isReady
  cases isReady with
  | true => exact hleft t contents rfl hfile
  | false =>
    rw [if_neg Bool.false_ne_true, gives_bind, gives_get]
    split
    · rw [gives_bind, gives_throw]
      trivial
    · rw [gives_bind, gives_modify]
      have hkept := keeps_removeFile_beside t place "-journal" (by decide)
      have hne : (t.removeFile place.journal).node? place ≠ some .directory := by
        rw [Place.journal, hkept.file contents hfile]
        exact nofun
      exact hleft _ _ hkept.home (node?_put_self _ place _ hne)

/-- A log that is set up is what was found, completed. -/
theorem setUp_gives (t t₁ : FileTree) (place : Place) (sharing : Sharing)
    (contents : Contents) (db : Database) (hfile : t₁.node? place = some (.file contents))
    (hhome : t₁.home = t.home) :
    Gives (setUp place sharing contents db) t₁ (Opened place db t) := by
  rw [setUp, gives_bind]
  refine Gives.imp _ _ _ _ (prepare_gives t₁ place sharing contents db hfile) ?_
  rintro _ t₂ ⟨hhome₂, contents', hthere⟩
  rw [gives_bind, gives_get]
  dsimp only
  split
  · rw [gives_bind, gives_throw]
    trivial
  · rw [gives_bind, gives_modify, gives_pure]
    have hne : t₂.node? place ≠ some .directory := by
      rw [hthere]
      exact nofun
    exact ⟨hhome₂.trans hhome, rfl, rfl, _, node?_put_self t₂ place _ hne⟩

/-- A log that is opened is what its file holds, completed. -/
theorem openFound_gives (t : FileTree) (l : Locator) (place : Place) (contents : Contents)
    (hfile : t.node? place = some (.file contents)) :
    Gives (openFound l place contents) t fun log t' =>
      ∃ db, contents.found = .ok db ∧ Opened place db t log t' := by
  rw [openFound]
  split
  · cases hfound : contents.found with
    | error fault => exact (gives_throw _ _ _).mpr trivial
    | ok db =>
      refine Gives.imp _ _ _ _
        (asFound_gives t t place l.sharing contents db hfound hfile rfl) ?_
      intro log t' hopened
      exact ⟨db, rfl, hopened⟩
  · dsimp only
    rw [gives_bind]
    refine Gives.imp _ _ _ _ (meet_gives t place contents _ _) ?_
    rintro db t₁ ⟨hfound, hkept⟩
    have hfile₁ := hkept.file contents hfile
    split
    · refine Gives.imp _ _ _ _
        (setUp_gives t t₁ place l.sharing contents db hfile₁ hkept.home) ?_
      intro log t' hopened
      exact ⟨db, hfound, hopened⟩
    · refine Gives.imp _ _ _ _
        (asFound_gives t t₁ place l.sharing contents db hfound hfile₁ hkept.home) ?_
      intro log t' hopened
      exact ⟨db, hfound, hopened⟩

def Leads (path : String) (home place : Place) : Prop :=
  ∃ l, Locator.ofPath .creating path = .ok l ∧ l.kept = true ∧ place = l.place home

/-- A path leads to one place at most. -/
theorem leads_unique (path : String) (home place place' : Place) (h : Leads path home place)
    (h' : Leads path home place') : place = place' := by
  obtain ⟨l, hpath, -, rfl⟩ := h
  obtain ⟨l', hpath', -, rfl⟩ := h'
  rw [Except.ok.inj (hpath.symm.trans hpath')]

/-- A log that is opened to be written is new and kept nowhere, or it is what the file
holds that its path leads to. -/
def OpenedAt (path : String) (t : FileTree) (log : OpenLog) (t' : FileTree) : Prop :=
  ((∀ home place, ¬ Leads path home place) ∧ log.place = none ∧
    log.held = .ok Database.empty) ∨
  ∃ place db contents, Leads path t.home place ∧ contents.found = .ok db ∧
    Opened place db t log t' ∧
    ∀ before, t.node? place = some (.file before) → before = contents

theorem openToWrite_gives (t : FileTree) (path : String) :
    Gives (openToWrite path) t (OpenedAt path t) := by
  rw [openToWrite, gives_bind]
  refine Gives.imp _ _ _ _ (locate_gives t .creating path) ?_
  rintro ⟨l, place?⟩ t₁ ⟨rfl, hpath, hplace⟩
  dsimp only at hpath hplace
  cases hkept : l.kept with
  | false =>
    rw [hkept, if_neg Bool.false_ne_true] at hplace
    subst hplace
    dsimp only
    split
    · rw [gives_bind, gives_throw]
      trivial
    · rw [gives_pure]
      refine Or.inl ⟨?_, rfl, rfl⟩
      rintro home place ⟨l', hpath', hkept', -⟩
      rw [hpath, Except.ok.injEq] at hpath'
      rw [← hpath', hkept] at hkept'
      exact nomatch hkept'
  | true =>
    rw [hkept, if_pos rfl] at hplace
    subst hplace
    dsimp only
    rw [gives_bind]
    refine Gives.imp _ _ _ _ (openFile_gives t₁ path (l.place t₁.home) l.access) ?_
    rintro contents t₂ ⟨hfile, hkeeps⟩
    refine Gives.imp _ _ _ _ (openFound_gives t₂ l (l.place t₁.home) contents hfile) ?_
    rintro log t' ⟨db, hfound, hhome, hopened⟩
    refine Or.inr ⟨l.place t₁.home, db, contents, ⟨l, hpath, hkept, rfl⟩, hfound,
      ⟨hhome.trans hkeeps.home, hopened⟩, ?_⟩
    intro before hbefore
    have hthere := hkeeps.file before hbefore
    rw [hfile, Option.some.injEq, FileNode.file.injEq] at hthere
    exact hthere.symm

/-- A log that is opened to be written is new, or what its file holds. -/
theorem forWriting_gives (t : FileTree) (path : String) :
    Gives (forWriting path) t (OpenedAt path t) := by
  rw [forWriting, gives_bind, gives_adaptExcept]
  intro _ t₁ hmade
  have hkeeps : ∀ place, Keeps place t t₁ := fun place =>
    makeDirectories_keeps place path t ⟨⟩ t₁ hmade
  rw [gives_adaptExcept]
  refine Gives.imp _ _ _ _ (openToWrite_gives t₁ path) ?_
  intro log t' hopened
  rcases hopened with hnowhere | ⟨place, db, contents, hleads, hfound, hopened, hbefore⟩
  · exact Or.inl hnowhere
  · have hhome := (hkeeps place).home
    rw [hhome] at hleads
    refine Or.inr ⟨place, db, contents, hleads, hfound,
      ⟨hopened.1.trans hhome, hopened.2⟩, ?_⟩
    intro before hfile
    exact hbefore before ((hkeeps place).file before hfile)

/-- A log that is opened to be read is what its file holds, and that is left as it is. -/
theorem openToRead_gives (t : FileTree) (path : String) (place : Place) (contents : Contents)
    (hleads : Leads path t.home place) (hfile : t.node? place = some (.file contents)) :
    Gives (openToRead path) t fun log t' =>
      log.place = some place ∧ log.readOnly = true ∧ log.held = contents.found ∧
        Keeps place t t' := by
  rw [openToRead, gives_bind]
  refine Gives.imp _ _ _ _ (locate_gives t .reading path) ?_
  rintro ⟨l, place?⟩ t₁ ⟨rfl, hpath, hplace⟩
  dsimp only at hpath hplace
  obtain ⟨l', hpath', hkept', rfl⟩ := hleads
  obtain ⟨hname, hkept⟩ :=
    Locator.ofPath_same .reading .creating path l l' nofun nofun hpath hpath'
  have hsame : l.place t₁.home = l'.place t₁.home := by
    rw [Locator.place, Locator.place, hname]
  rw [hkept, hkept', if_pos rfl, hsame] at hplace
  subst hplace
  dsimp only
  rw [gives_bind]
  refine Gives.imp _ _ _ _ (openFile_gives t₁ path (l'.place t₁.home) l.access) ?_
  rintro contents' t₂ ⟨hthere, hkeeps⟩
  rw [gives_pure]
  have hcontents := hkeeps.file contents hfile
  rw [hthere, Option.some.injEq, FileNode.file.injEq] at hcontents
  rw [hcontents]
  exact ⟨rfl, rfl, rfl, hkeeps⟩

theorem firstUse_of_unchanging (t : FileTree) (log : OpenLog) (h : log.sharing = .unchanging) :
    log.firstUse t = (log, t) := by
  rw [firstUse, h]
  cases log.place <;> rfl

theorem firstUse_of_file (t : FileTree) (log : OpenLog) (place : Place) (contents : Contents)
    (hsharing : log.sharing ≠ .unchanging) (hplace : log.place = some place)
    (hfile : t.node? place = some (.file contents)) :
    log.firstUse t =
      match meet place contents false (log.sharing = .beside) t with
      | .ok db t => ({ log with held := .ok db }, t)
      | .error fault t => ({ log with held := .error fault }, t) := by
  rw [firstUse, hplace]
  cases hs : log.sharing with
  | unchanging => exact absurd hs hsharing
  | beside => cases hmeet : meet place contents false true t <;> simp [hfile, hmeet]
  | alone => cases hmeet : meet place contents false false t <;> simp [hfile, hmeet]

/-- The first use of a log finds what its file holds, if it finds anything. -/
theorem firstUse_held (t : FileTree) (log : OpenLog) (place : Place) (contents : Contents)
    (db : Database) (hplace : log.place = some place)
    (hfile : t.node? place = some (.file contents)) (hheld : log.held = contents.found)
    (h : (log.firstUse t).1.held = .ok db) :
    contents.found = .ok db ∧ (log.firstUse t).1.place = some place ∧
      Keeps place t (log.firstUse t).2 := by
  by_cases hsharing : log.sharing = .unchanging
  · rw [firstUse_of_unchanging t log hsharing] at h ⊢
    exact ⟨hheld.symm.trans h, hplace, Keeps.refl place t⟩
  · rw [firstUse_of_file t log place contents hsharing hplace hfile] at h ⊢
    cases hmeet : meet place contents false (log.sharing = .beside) t with
    | ok db' t' =>
      rw [hmeet] at h
      obtain ⟨hfound, hkeeps⟩ := meet_gives t place contents _ _ db' t' hmeet
      cases h
      exact ⟨hfound, hplace, hkeeps⟩
    | error fault t' =>
      rw [hmeet] at h
      exact nomatch h

end ConnectionLog.OpenLog
