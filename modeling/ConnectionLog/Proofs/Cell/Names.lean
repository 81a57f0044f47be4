import ConnectionLog.Cell.AppName
import Mathlib.Data.List.Forall2
import Mathlib.Data.List.TakeWhile

/-!
The name of an application is read from the last piece of its path alone. A path is split
twice, first at separators of either kind and then as a slash path, and the second split
leaves a piece of the first as it is.
-/
namespace ConnectionLog

namespace Pieces

def EndsIn (sep : Char → Bool) (cs : List Char) : Prop :=
  ∃ front c, cs = front ++ [c] ∧ sep c = true

theorem afterLast_eq (sep : Char → Bool) (before piece : List Char)
    (hpiece : ∀ c ∈ piece, sep c = false) (hbefore : before = [] ∨ EndsIn sep before) :
    afterLast sep (before ++ piece) = piece := by
  have hrest : ∀ c ∈ piece.reverse, (!sep c) = true := by
    intro c hc
    rw [hpiece c (List.mem_reverse.mp hc), Bool.not_false]
  have hstop : before.reverse.takeWhile (fun c => !sep c) = [] := by
    rcases hbefore with rfl | ⟨front, c, rfl, hsep⟩
    · rfl
    · rw [List.reverse_append]
      exact List.takeWhile_cons_of_neg (by simp [hsep])
  rw [afterLast, List.reverse_append, List.takeWhile_append_of_pos hrest, hstop,
    List.append_nil, List.reverse_reverse]

theorem eq_false_of_mem_afterLast (sep : Char → Bool) (cs : List Char) (c : Char)
    (h : c ∈ afterLast sep cs) : sep c = false := by
  simpa using List.mem_takeWhile_imp (List.mem_reverse.mp h)

/-- What stands before the last piece is nothing or ends in a separator. -/
theorem exists_append_afterLast (sep : Char → Bool) (cs : List Char) :
    ∃ before, cs = before ++ afterLast sep cs ∧ (before = [] ∨ EndsIn sep before) := by
  refine ⟨(cs.reverse.dropWhile fun c => !sep c).reverse, ?_, ?_⟩
  · rw [afterLast, ← List.reverse_append, List.takeWhile_append_dropWhile, List.reverse_reverse]
  · have hhead := List.head?_dropWhile_not (fun c => !sep c) cs.reverse
    cases hrest : cs.reverse.dropWhile fun c => !sep c with
    | nil => exact .inl rfl
    | cons c front =>
      rw [hrest] at hhead
      exact .inr ⟨front.reverse, c, List.reverse_cons, by simpa using hhead⟩

theorem splitOn_of_notMem (sep : Char) (cs : List Char) (h : sep ∉ cs) :
    splitOn sep cs = [cs] := by
  induction cs with
  | nil => rfl
  | cons c cs ih =>
    have hc : c ≠ sep := fun heq => h (heq ▸ List.mem_cons_self)
    rw [splitOn, if_neg hc, ih fun hmem => h (List.mem_cons_of_mem c hmem)]

end Pieces

/-- The parts of a path are never empty. -/
theorem Path.ne_nil_of_mem_ofChars (cs part : List Char) (h : part ∈ (ofChars cs).parts) :
    part ≠ [] := by
  unfold ofChars at h
  simp only at h
  split at h
  · exact absurd h List.not_mem_nil
  · rcases List.mem_append.mp h with hfirst | hrest
    · split at hfirst
      · exact absurd hfirst List.not_mem_nil
      · rw [List.mem_singleton.mp hfirst]
        assumption
    · have hstep := List.of_mem_filter hrest
      simp only [isStep, Bool.and_eq_true, decide_eq_true_eq] at hstep
      exact hstep.1

namespace AppName

structure IsLastPiece (path piece : List Char) : Prop where
  inseparable : ∀ c ∈ piece, isSeparator c = false
  split : ∃ before, path = before ++ piece ∧ (before = [] ∨ Pieces.EndsIn isSeparator before)

inductive IsName : List Char → List Char → Prop where
  | parent : IsName ['.', '.'] ['.', '.']
  | whole (piece : List Char) (h : '.' ∉ piece.tail) : IsName piece piece
  | cut (front ext : List Char) (hfront : front ≠ []) (hext : '.' ∉ ext)
      (h : front ++ '.' :: ext ≠ ['.', '.']) : IsName (front ++ '.' :: ext) front

def Respelled (path path' : List Char) : Prop :=
  List.Forall₂ (fun c c' => c = c' ∨ isSeparator c = true ∧ isSeparator c' = true) path path'

theorem isLastPiece_afterLast (path : List Char) :
    IsLastPiece path (Pieces.afterLast isSeparator path) where
  inseparable := Pieces.eq_false_of_mem_afterLast isSeparator path
  split := Pieces.exists_append_afterLast isSeparator path

/-- A path has no other last piece. -/
theorem IsLastPiece.eq_afterLast {path piece : List Char} (h : IsLastPiece path piece) :
    piece = Pieces.afterLast isSeparator path := by
  obtain ⟨before, rfl, hbefore⟩ := h.split
  exact (Pieces.afterLast_eq isSeparator before piece h.inseparable hbefore).symm

/-- Only a path that ends in a separator, and the empty one, have an empty last piece. -/
theorem IsLastPiece.eq_lastPiece {path piece : List Char} (h : IsLastPiece path piece)
    (hends : ¬ Pieces.EndsIn isSeparator path) : lastPiece path = piece := by
  unfold lastPiece
  split
  · next hempty =>
    obtain ⟨before, hpath, hbefore⟩ := h.split
    rw [← h.eq_afterLast] at hempty
    subst hempty
    rw [List.append_nil] at hpath
    rcases hbefore with hnil | hbefore
    · rw [hpath, hnil]
    · exact absurd (hpath ▸ hbefore) hends
  · exact h.eq_afterLast.symm

theorem lastPiece_of_inseparable (piece : List Char) (h : ∀ c ∈ piece, isSeparator c = false) :
    lastPiece piece = piece := by
  refine IsLastPiece.eq_lastPiece ⟨h, [], rfl, .inl rfl⟩ ?_
  rintro ⟨front, c, rfl, hsep⟩
  rw [h c (List.mem_append_right front List.mem_cons_self)] at hsep
  contradiction

/-- A name loses its extension, unless nothing would be left. -/
theorem stem_append (front ext : List Char) (hext : '.' ∉ ext) :
    stem (front ++ '.' :: ext) = if front = [] then '.' :: ext else front := by
  have hrest : ∀ c ∈ ext.reverse, decide (c ≠ '.') = true := by
    intro c hc
    exact decide_eq_true fun hdot => hext (hdot ▸ List.mem_reverse.mp hc)
  have hdrop : (front ++ '.' :: ext).reverse.dropWhile (· ≠ '.') = '.' :: front.reverse := by
    rw [List.reverse_append, List.reverse_cons, List.append_assoc,
      List.dropWhile_append_of_pos hrest]
    exact List.dropWhile_cons_of_neg (by decide)
  simp only [stem, hdrop, List.reverse_eq_nil_iff, List.reverse_reverse]
  split
  · next hfront => rw [hfront, List.nil_append]
  · rfl

theorem stem_of_notMem (name : List Char) (h : '.' ∉ name) : stem name = name := by
  have hall : ∀ c ∈ name.reverse, decide (c ≠ '.') = true := by
    intro c hc
    exact decide_eq_true fun hdot => h (hdot ▸ List.mem_reverse.mp hc)
  rw [stem, List.dropWhile_eq_nil_iff.mpr hall]

/-- A name is split at its last dot. -/
theorem exists_last_dot (name : List Char) (h : '.' ∈ name) :
    ∃ front ext, name = front ++ '.' :: ext ∧ '.' ∉ ext := by
  obtain ⟨before, hname, hbefore⟩ := Pieces.exists_append_afterLast (· = '.') name
  have hext : '.' ∉ Pieces.afterLast (· = '.') name := fun hmem =>
    absurd (Pieces.eq_false_of_mem_afterLast (· = '.') name '.' hmem) (by decide)
  rcases List.eq_nil_or_concat before with rfl | ⟨front, c, rfl⟩
  · rw [List.nil_append] at hname
    exact absurd (hname ▸ h) hext
  · have hdot : c = '.' := by
      rcases hbefore with hnil | ⟨front', c', hconcat, hc'⟩
      · exact absurd hnil (by simp)
      · rw [List.concat_eq_append] at hconcat
        obtain rfl := List.singleton_inj.mp (List.append_inj' hconcat rfl).2
        simpa using hc'
    refine ⟨front, _, ?_, hext⟩
    rw [hdot] at hname
    rwa [List.concat_eq_append, List.append_assoc, List.singleton_append] at hname

theorem stem_ne_nil (name : List Char) (h : name ≠ []) : stem name ≠ [] := by
  by_cases hdot : '.' ∈ name
  · obtain ⟨front, ext, rfl, hext⟩ := exists_last_dot name hdot
    rw [stem_append front ext hext]
    split
    · exact List.cons_ne_nil _ _
    · assumption
  · rwa [stem_of_notMem name hdot]

/-- A path that is not empty has a name that is not. -/
theorem chars_ne_nil (path : List Char) (h : path ≠ []) : chars path ≠ [] := by
  have hpiece : lastPiece path ≠ [] := by
    unfold lastPiece
    split
    · exact h
    · assumption
  unfold chars
  split
  · next part hname =>
    refine stem_ne_nil part (Path.ne_nil_of_mem_ofChars (lastPiece path) part ?_)
    unfold Path.name? at hname
    split at hname
    · next hlast =>
      split at hname
      · contradiction
      · exact List.mem_of_getLast? (Option.some.inj hname ▸ hlast)
    · contradiction
  · exact hpiece

/-- A piece is a path of one part. -/
theorem chars_of_inseparable (piece : List Char) (h : ∀ c ∈ piece, isSeparator c = false) :
    chars piece = if piece = ['.', '.'] then piece else stem piece := by
  have hslash : '/' ∉ piece := fun hmem => absurd (h '/' hmem) (by decide)
  rw [chars, lastPiece_of_inseparable piece h, Path.ofChars,
    Pieces.splitOn_of_notMem '/' piece hslash]
  by_cases hempty : piece = []
  · subst hempty
    rfl
  · simp only [Path.name?, hempty, if_false, List.filter_nil, List.append_nil,
      List.getLast?_singleton]
    by_cases hdot : piece = ['.']
    · subst hdot
      rfl
    · by_cases hparent : piece = ['.', '.']
      · subst hparent
        rfl
      · simp only [hdot, hparent, or_self, if_false]

/-- The name of a piece is the one that is shown. -/
theorem isName_iff (piece name : List Char) (h : ∀ c ∈ piece, isSeparator c = false) :
    IsName piece name ↔ chars piece = name := by
  rw [chars_of_inseparable piece h]
  constructor
  · intro hname
    cases hname with
    | parent => rfl
    | whole _ hwhole =>
      cases piece with
      | nil => rfl
      | cons c cs =>
        have hproper : c :: cs ≠ ['.', '.'] := by
          rintro ⟨⟩
          exact hwhole List.mem_cons_self
        rw [if_neg hproper]
        by_cases hc : c = '.'
        · rw [hc]
          exact stem_append [] cs hwhole
        · refine stem_of_notMem _ ?_
          rw [List.mem_cons, not_or]
          exact ⟨fun heq => hc heq.symm, hwhole⟩
    | cut _ ext hfront hext hparent =>
      rw [if_neg hparent, stem_append _ ext hext, if_neg hfront]
  · rintro rfl
    split
    · next hparent => exact hparent ▸ .parent
    · next hparent =>
      by_cases hdot : '.' ∈ piece
      · obtain ⟨front, ext, rfl, hext⟩ := exists_last_dot piece hdot
        rw [stem_append front ext hext]
        split
        · next hfront =>
          subst hfront
          exact .whole _ hext
        · next hfront => exact .cut front ext hfront hext hparent
      · rw [stem_of_notMem piece hdot]
        exact .whole piece fun hmem => hdot (List.mem_of_mem_tail hmem)

/-- A text without separators is spelled in one way only. -/
theorem Respelled.eq_of_inseparable {cs cs' : List Char} (h : Respelled cs cs')
    (hcs : ∀ c ∈ cs, isSeparator c = false) : cs' = cs := by
  induction h with
  | nil => rfl
  | cons hc _ ih =>
    rw [List.forall_mem_cons] at hcs
    rw [ih hcs.2]
    rcases hc with rfl | ⟨hsep, -⟩
    · rfl
    · rw [hcs.1] at hsep
      contradiction

theorem Respelled.symm {cs cs' : List Char} (h : Respelled cs cs') : Respelled cs' cs := by
  refine List.Forall₂.flip (List.Forall₂.imp (fun c c' hc => ?_) h)
  exact hc.imp Eq.symm And.symm

theorem Respelled.endsIn {cs cs' : List Char} (h : Respelled cs cs')
    (hends : Pieces.EndsIn isSeparator cs) : Pieces.EndsIn isSeparator cs' := by
  obtain ⟨front, c, rfl, hsep⟩ := hends
  have hback := List.forall₂_drop front.length h
  rw [List.drop_left, List.forall₂_cons_left_iff] at hback
  obtain ⟨c', rest, hc, hrest, hdrop⟩ := hback
  rw [List.forall₂_nil_left_iff.mp hrest] at hdrop
  refine ⟨cs'.take front.length, c', ?_, ?_⟩
  · rw [← hdrop, List.take_append_drop]
  · exact hc.elim (fun heq => heq ▸ hsep) And.right

/-- Other separators leave the last piece as it is. -/
theorem Respelled.isLastPiece {path path' piece : List Char} (h : Respelled path path')
    (hpiece : IsLastPiece path piece) : IsLastPiece path' piece := by
  obtain ⟨hinseparable, before, rfl, hbefore⟩ := hpiece
  have hfront := List.forall₂_take before.length h
  have hback := List.forall₂_drop before.length h
  rw [List.take_left] at hfront
  rw [List.drop_left] at hback
  refine ⟨hinseparable, path'.take before.length, ?_, ?_⟩
  · rw [← Respelled.eq_of_inseparable hback hinseparable, List.take_append_drop]
  · rcases hbefore with rfl | hbefore
    · exact .inl List.take_zero
    · exact .inr (Respelled.endsIn hfront hbefore)

/-- A path has one last piece. Unless that is empty behind a separator, the path has the name
of the piece alone, whatever stands before it and whichever separators are used. -/
structure NamedByLastPiece (path : String) : Prop where
  shown : path ≠ "" → ofPath path ≠ ""
  unique : ∃! piece, IsLastPiece path.toList piece
  piece : ¬ Pieces.EndsIn isSeparator path.toList → ∀ piece, IsLastPiece path.toList piece →
    ofPath path = ofPath (String.ofList piece) ∧
      ∀ name, ofPath path = String.ofList name ↔ IsName piece name
  respelled : ¬ Pieces.EndsIn isSeparator path.toList → ∀ path' : String,
    Respelled path.toList path'.toList → ofPath path' = ofPath path

/-- What stands before the last piece does not matter. -/
theorem chars_of_isLastPiece {path piece : List Char} (h : IsLastPiece path piece)
    (hends : ¬ Pieces.EndsIn isSeparator path) : chars path = chars piece := by
  rw [chars, chars, h.eq_lastPiece hends, lastPiece_of_inseparable piece h.inseparable]

/-- Every path is named by its last piece. -/
theorem ofPath_named (path : String) : NamedByLastPiece path where
  shown := by
    intro hpath hname
    have hempty := congrArg String.toList hname
    rw [ofPath, String.toList_ofList] at hempty
    exact chars_ne_nil path.toList (fun hnil => hpath (String.toList_injective hnil)) hempty
  unique := ⟨_, isLastPiece_afterLast path.toList, fun _ hpiece => hpiece.eq_afterLast⟩
  piece := by
    intro hends piece hpiece
    have hchars := chars_of_isLastPiece hpiece hends
    refine ⟨?_, fun name => ?_⟩
    · rw [ofPath, ofPath, String.toList_ofList, hchars]
    · rw [ofPath, String.ofList_inj, hchars, isName_iff piece name hpiece.inseparable]
  respelled := by
    intro hends path' hspelled
    have hpiece := isLastPiece_afterLast path.toList
    have hends' : ¬ Pieces.EndsIn isSeparator path'.toList := fun h =>
      hends (hspelled.symm.endsIn h)
    rw [ofPath, ofPath, chars_of_isLastPiece hpiece hends,
      chars_of_isLastPiece (hspelled.isLastPiece hpiece) hends']

/-- Behind a separator at the end, the name of a directory is taken. -/
example :
    ofPath "C:\\Tools/nc.tar.exe" = "nc.tar" ∧ ofPath "C:/Tools\\nc.tar.exe" = "nc.tar" ∧
      ofPath "/home/.profile" = ".profile" ∧ ofPath "/usr/.." = ".." ∧
      ofPath "/usr/bin/" = "bin" ∧ ofPath "C:\\Tools\\" = "C:\\Tools\\" := by
  decide +kernel

end AppName

end ConnectionLog
