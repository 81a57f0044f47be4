import ConnectionLog.Files.Beside
import Mathlib.Data.List.Basic

/-!
What is at a place after something was put or removed at one. A file is at none of
the places where directories lead home from, nor at any of those beside it, so that
what is done there leaves it as it is.
-/
namespace ConnectionLog.FileTree

theorem lookup_filter_ne (nodes : List (Place × FileNode)) (place other : Place)
    (h : place ≠ other) : (nodes.filter (·.1 ≠ other)).lookup place = nodes.lookup place := by
  induction nodes with
  | nil => rfl
  | cons entry rest ih =>
    obtain ⟨at_, node⟩ := entry
    by_cases hat : at_ = other
    · have hne : (place == at_) = false := by
        rw [hat]
        exact beq_eq_false_iff_ne.mpr h
      rw [List.filter_cons_of_neg (by simpa using hat), List.lookup_cons, hne, ih]
    · rw [List.filter_cons_of_pos (by simpa using hat), List.lookup_cons, List.lookup_cons, ih]

@[simp] theorem home_put (t : FileTree) (place : Place) (node : FileNode) :
    (t.put place node).home = t.home := rfl

@[simp] theorem home_removeFile (t : FileTree) (place : Place) :
    (t.removeFile place).home = t.home := by
  unfold removeFile
  split <;> rfl

theorem node?_remove_other (t : FileTree) (place other : Place) (h : place ≠ other) :
    (t.remove other).node? place = t.node? place := by
  simp only [node?, remove, lookup_filter_ne t.nodes place other h]

theorem node?_put_other (t : FileTree) (place other : Place) (node : FileNode)
    (h : place ≠ other) : (t.put other node).node? place = t.node? place := by
  have hne : (place == other) = false := beq_eq_false_iff_ne.mpr h
  simp only [node?, put, remove, List.lookup_cons, hne, lookup_filter_ne t.nodes place other h]

theorem node?_put_self (t : FileTree) (place : Place) (node : FileNode)
    (h : t.node? place ≠ some .directory) : (t.put place node).node? place = some node := by
  have hout : ¬ place.isPrefixOf t.home = true := by
    intro hin
    exact h (by rw [node?, if_pos hin])
  have hself : (place == place) = true := beq_self_eq_true place
  simp only [node?, put, if_neg hout, List.lookup_cons, hself]

theorem node?_removeFile_other (t : FileTree) (place other : Place) (h : place ≠ other) :
    (t.removeFile other).node? place = t.node? place := by
  unfold removeFile
  split
  · rfl
  · exact node?_remove_other t place other h

/-- The root is a directory. -/
theorem ne_nil_of_file (t : FileTree) (place : Place) (contents : Contents)
    (h : t.node? place = some (.file contents)) : place ≠ [] := by
  rintro rfl
  rw [node?, if_pos (by rfl)] at h
  exact nomatch h

theorem ne_beside (place : Place) (ending : String) (h : place ≠ []) (hending : ending ≠ "") :
    place ≠ place.beside ending := by
  intro heq
  obtain ⟨name, hlast⟩ : ∃ name, place.getLast? = some name :=
    ⟨place.getLast h, List.getLast?_eq_some_getLast h⟩
  have hbeside : (place.beside ending).getLast? = some (name ++ ending) := by
    rw [Place.beside, hlast]
    simp
  rw [← heq, hlast, Option.some.injEq] at hbeside
  have hlen := congrArg String.length hbeside
  rw [String.length_append] at hlen
  have hzero : ending.length = 0 := by omega
  exact hending (String.length_eq_zero_iff.mp hzero)

/-- A later tree has the same home and still the file that was at a place, if one
was. -/
structure Keeps (place : Place) (t t' : FileTree) : Prop where
  home : t'.home = t.home
  file : ∀ contents, t.node? place = some (.file contents) →
    t'.node? place = some (.file contents)

theorem Keeps.refl (place : Place) (t : FileTree) : Keeps place t t := ⟨rfl, fun _ h => h⟩

theorem Keeps.trans (place : Place) (t t₁ t₂ : FileTree) (h₁ : Keeps place t t₁)
    (h₂ : Keeps place t₁ t₂) : Keeps place t t₂ :=
  ⟨h₂.home.trans h₁.home, fun contents h => h₂.file contents (h₁.file contents h)⟩

theorem keeps_removeFile_beside (t : FileTree) (place : Place) (ending : String)
    (hending : ending ≠ "") : Keeps place t (t.removeFile (place.beside ending)) := by
  refine ⟨home_removeFile t (place.beside ending), ?_⟩
  intro contents h
  have hne := ne_beside place ending (ne_nil_of_file t place contents h) hending
  rw [node?_removeFile_other t place (place.beside ending) hne, h]

theorem keeps_put_beside (t : FileTree) (place : Place) (ending : String) (node : FileNode)
    (hending : ending ≠ "") : Keeps place t (t.put (place.beside ending) node) := by
  refine ⟨home_put t (place.beside ending) node, ?_⟩
  intro contents h
  have hne := ne_beside place ending (ne_nil_of_file t place contents h) hending
  rw [node?_put_other t place (place.beside ending) node hne, h]

theorem keeps_put_missing (t : FileTree) (place other : Place) (node : FileNode)
    (h : t.node? other = none) : Keeps place t (t.put other node) := by
  refine ⟨home_put t other node, ?_⟩
  intro contents hfile
  have hne : place ≠ other := by
    rintro rfl
    rw [h] at hfile
    exact nomatch hfile
  rw [node?_put_other t place other node hne, hfile]

/-- What is left beside a database does not touch its file. -/
theorem keeps_leave (t : FileTree) (place : Place) (writes : Bool) :
    Keeps place t (t.leave place writes) := by
  have hchanges : "-wal" ≠ "" := by decide
  have hshared : "-shm" ≠ "" := by decide
  unfold leave
  split
  · exact Keeps.trans place t _ _ (keeps_removeFile_beside t place "-wal" hchanges)
      (keeps_removeFile_beside _ place "-shm" hshared)
  · have hfirst : Keeps place t
        (if (t.node? place.changes).isSome then t
          else t.put place.changes (.file (.bytes []))) := by
      split
      · exact Keeps.refl place t
      · exact keeps_put_beside t place "-wal" _ hchanges
    dsimp only
    generalize (if (t.node? place.changes).isSome then t
      else t.put place.changes (.file (.bytes []))) = between at hfirst ⊢
    split
    · exact hfirst
    · exact Keeps.trans place t _ _ hfirst (keeps_put_beside _ place "-shm" _ hshared)

end ConnectionLog.FileTree
