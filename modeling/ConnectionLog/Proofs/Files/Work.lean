import ConnectionLog.Files.Opening
import ConnectionLog.Proofs.Files.Tree

/-!
What holds after work on files that did not fail, put together from what holds after
its parts: settling what others have left beside a database, finding the place of
one and making its file all leave a file that was there as it was.
-/
namespace ConnectionLog.FileTree

variable {ε α β : Type}

/-- What the answer of work and the tree after it are like, if it does not fail. -/
def Gives (work : FileWork ε α) (t : FileTree) (post : α → FileTree → Prop) : Prop :=
  ∀ answer t', work t = .ok answer t' → post answer t'

theorem gives_pure (a : α) (t : FileTree) (post : α → FileTree → Prop) :
    Gives (pure a : FileWork ε α) t post ↔ post a t := by
  constructor
  · intro h
    exact h a t rfl
  · intro h answer t' hrun
    cases hrun
    exact h

theorem gives_throw (e : ε) (t : FileTree) (post : α → FileTree → Prop) :
    Gives (throw e : FileWork ε α) t post ↔ True := by
  refine ⟨fun _ => trivial, ?_⟩
  intro _ answer t' hrun
  exact nomatch hrun

/-- The rule for two pieces of work, one after the other. -/
theorem gives_bind (work : FileWork ε α) (next : α → FileWork ε β) (t : FileTree)
    (post : β → FileTree → Prop) :
    Gives (work >>= next) t post ↔ Gives work t fun a t₁ => Gives (next a) t₁ post := by
  constructor
  · intro h a t₁ hwork b t₂ hnext
    apply h b t₂
    change EStateM.bind work next t = _
    rw [EStateM.bind, hwork]
    exact hnext
  · intro h b t₂ hrun
    change EStateM.bind work next t = _ at hrun
    rw [EStateM.bind] at hrun
    cases hwork : work t with
    | ok a t₁ =>
      rw [hwork] at hrun
      exact h a t₁ hwork b t₂ hrun
    | error e t₁ =>
      rw [hwork] at hrun
      exact nomatch hrun

theorem gives_get (t : FileTree) (post : FileTree → FileTree → Prop) :
    Gives (get : FileWork ε FileTree) t post ↔ post t t := gives_pure t t post

theorem gives_set (t t₁ : FileTree) (post : PUnit → FileTree → Prop) :
    Gives (set t₁ : FileWork ε PUnit) t post ↔ post ⟨⟩ t₁ := by
  constructor
  · intro h
    exact h ⟨⟩ t₁ rfl
  · intro h answer t' hrun
    cases hrun
    exact h

theorem gives_modify (f : FileTree → FileTree) (t : FileTree)
    (post : PUnit → FileTree → Prop) :
    Gives (modify f : FileWork ε PUnit) t post ↔ post ⟨⟩ (f t) := by
  constructor
  · intro h
    exact h ⟨⟩ (f t) rfl
  · intro h answer t' hrun
    cases hrun
    exact h

theorem gives_modifyGet (f : FileTree → α × FileTree) (t : FileTree)
    (post : α → FileTree → Prop) :
    Gives (modifyGet f : FileWork ε α) t post ↔ post (f t).1 (f t).2 := by
  constructor
  · intro h
    exact h (f t).1 (f t).2 rfl
  · intro h answer t' hrun
    cases hrun
    exact h

theorem Gives.imp (work : FileWork ε α) (t : FileTree) (post post' : α → FileTree → Prop)
    (h : Gives work t post) (himp : ∀ a t', post a t' → post' a t') : Gives work t post' :=
  fun a t' hrun => himp a t' (h a t' hrun)

theorem gives_adaptExcept {ε' : Type} (f : ε → ε') (work : FileWork ε α) (t : FileTree)
    (post : α → FileTree → Prop) :
    Gives (EStateM.adaptExcept f work) t post ↔ Gives work t post := by
  constructor
  · intro h a t' hrun
    apply h a t'
    rw [EStateM.adaptExcept, hrun]
  · intro h a t' hrun
    rw [EStateM.adaptExcept] at hrun
    cases hwork : work t with
    | ok b t₁ =>
      rw [hwork] at hrun
      cases hrun
      exact h a t' hwork
    | error e t₁ =>
      rw [hwork] at hrun
      exact nomatch hrun

theorem settleJournal_keeps (t : FileTree) (place : Place) (isBlank writes : Bool) :
    Gives (settleJournal place isBlank writes) t fun _ t' => Keeps place t t' := by
  have hremoved : Keeps place t (t.removeFile place.journal) :=
    keeps_removeFile_beside t place "-journal" (by decide)
  have hsame : Keeps place t t := Keeps.refl place t
  rw [settleJournal, gives_bind, gives_get]
  split
  · exact (gives_pure _ _ _).mpr hsame
  · rename_i node hnode
    cases isBlank with
    | true =>
      cases writes with
      | true => exact (gives_modify _ _ _).mpr hremoved
      | false => exact (gives_pure _ _ _).mpr hsame
    | false =>
      cases node with
      | directory => exact (gives_throw _ _ _).mpr trivial
      | file contents =>
        rw [if_neg Bool.false_ne_true]
        dsimp only
        split
        · exact (gives_pure _ _ _).mpr hsame
        · cases writes with
          | true => exact (gives_modify _ _ _).mpr hremoved
          | false => exact (gives_throw _ _ _).mpr trivial

theorem settleChanges_keeps (t : FileTree) (place : Place) (isBlank writes shares : Bool) :
    Gives (settleChanges place isBlank writes shares) t fun _ t' => Keeps place t t' := by
  have hremoved : Keeps place t (t.removeFile place.changes) :=
    keeps_removeFile_beside t place "-wal" (by decide)
  rw [settleChanges, gives_bind, gives_get]
  split
  · exact (gives_pure _ _ _).mpr (Keeps.refl place t)
  · exact (gives_throw _ _ _).mpr trivial
  · cases isBlank with
    | true => exact (gives_modify _ _ _).mpr hremoved
    | false =>
      cases shares with
      | true => exact (gives_modify _ _ _).mpr (keeps_leave t place writes)
      | false => exact (gives_throw _ _ _).mpr trivial

/-- What a user finds in a file is what the file holds. -/
theorem meet_gives (t : FileTree) (place : Place) (contents : Contents) (writes shares : Bool) :
    Gives (meet place contents writes shares) t fun db t' =>
      contents.found = .ok db ∧ Keeps place t t' := by
  rw [meet, gives_bind]
  refine Gives.imp _ _ _ _ (settleJournal_keeps t place contents.isBlank writes) ?_
  intro _ t₁ hjournal
  rw [gives_bind]
  refine Gives.imp _ _ _ _ (settleChanges_keeps t₁ place contents.isBlank writes shares) ?_
  intro _ t₂ hchanges
  have hkept : Keeps place t t₂ := Keeps.trans place t t₁ t₂ hjournal hchanges
  cases contents.found with
  | error fault => exact (gives_throw _ _ _).mpr trivial
  | ok db =>
    dsimp only
    split
    · cases shares with
      | true =>
        rw [if_pos rfl, gives_bind, gives_modify, gives_pure]
        exact ⟨rfl, Keeps.trans place t t₂ _ hkept (keeps_leave t₂ place writes)⟩
      | false =>
        rw [if_neg Bool.false_ne_true, gives_bind, gives_throw]
        trivial
    · rw [gives_pure]
      exact ⟨rfl, hkept⟩

theorem makeAlong_keeps (place : Place) (parts : List (List Char)) (made : Bool)
    (start : Place) (t : FileTree) :
    Gives (makeAlong made start parts) t fun _ t' => Keeps place t t' := by
  induction parts generalizing made start t with
  | nil => exact (gives_pure _ _ _).mpr (Keeps.refl place t)
  | cons part rest ih =>
    rw [makeAlong]
    dsimp only
    split
    · rw [gives_bind, gives_get]
      cases hnode : t.node? (start.step part) with
      | some node =>
        cases node with
        | directory => exact ih made (start.step part) t
        | file contents => exact (gives_throw _ _ _).mpr trivial
      | none =>
        rw [gives_bind, gives_modify]
        refine Gives.imp _ _ _ _ (ih true (start.step part) _) ?_
        intro _ t' hkept
        exact Keeps.trans place t _ t' (keeps_put_missing t place _ _ hnode) hkept
    · rw [gives_bind, gives_throw]
      trivial

/-- Making directories touches no file. -/
theorem makeDirectories_keeps (place : Place) (path : String) (t : FileTree) :
    Gives (makeDirectories path) t fun _ t' => Keeps place t t' := by
  rw [makeDirectories]
  dsimp only
  split
  · rw [gives_bind, gives_throw]
    trivial
  · split
    · rw [gives_bind, gives_get]
      exact makeAlong_keeps place _ false _ t
    · rw [gives_bind, gives_throw]
      trivial

/-- The file whose contents are given is there afterwards. -/
theorem openFile_gives (t : FileTree) (path : String) (place : Place) (access : Access) :
    Gives (openFile path place access) t fun contents t' =>
      t'.node? place = some (.file contents) ∧ Keeps place t t' := by
  rw [openFile, gives_bind, gives_get]
  cases hnode : t.node? place with
  | some node =>
    cases node with
    | directory => exact (gives_throw _ _ _).mpr trivial
    | file contents => exact (gives_pure _ _ _).mpr ⟨hnode, Keeps.refl place t⟩
  | none =>
    dsimp only
    split
    · rw [gives_bind, gives_set, gives_pure]
      refine ⟨node?_put_self t place _ ?_, keeps_put_missing t place place _ hnode⟩
      rw [hnode]
      exact nofun
    · rw [gives_bind, gives_throw]
      trivial

end ConnectionLog.FileTree
