import ConnectionLog.Toml.Document
import Mathlib.Data.List.Nodup

/-!
Documents in which every table is opened by its header and then filled, so that what is
under way is always the last entry of the table around it. Such a document builds the
table that its statements list, provided that no key comes twice in one table.
-/
namespace ConnectionLog.Toml

namespace Entries

def keys (entries : Entries) : List String := entries.map Prod.fst

def statements (entries : Entries) : List Statement :=
  entries.map fun e => .entry [] e.1 e.2

theorem lookup_eq_none (entries : Entries) (key : String) (h : key ∉ entries.keys) :
    entries.lookup key = none := by
  rw [List.lookup_eq_none_iff]
  intro e he
  have hne : key ≠ e.1 := by
    rintro rfl
    exact h (List.mem_map_of_mem he)
  exact bne_iff_ne.mpr hne

theorem lookup_last (before : Entries) (key : String) (value : Value) (h : key ∉ before.keys) :
    (before ++ [(key, value)]).lookup key = some value := by
  rw [List.lookup_append, lookup_eq_none before key h, Option.none_or]
  exact List.lookup_cons_self

theorem replace_last (before : Entries) (key : String) (old value : Value)
    (h : key ∉ before.keys) :
    Entries.replace (before ++ [(key, old)]) key value = before ++ [(key, value)] := by
  have hbefore : before.map (fun e => if e.1 = key then (key, value) else e) = before := by
    conv_rhs => rw [← List.map_id before]
    apply List.map_congr_left
    intro e he
    apply if_neg
    rintro rfl
    exact h (List.mem_map_of_mem he)
  unfold replace
  rw [List.map_append, hbefore, List.map_singleton, if_pos rfl]

theorem add?_fresh (entries : Entries) (key : String) (value : Value) (h : key ∉ entries.keys) :
    entries.add? key value = some (entries ++ [(key, value)]) := by
  unfold add?
  rw [lookup_eq_none entries key h]
  rfl

theorem openTable?_fresh (entries : Entries) (key : String) (h : key ∉ entries.keys) :
    openTable? key entries = some (entries ++ [(key, .table .header [])]) := by
  unfold openTable?
  rw [lookup_eq_none entries key h]

end Entries

/-! Places in a document. -/

/-- A table that is the last entry of the one around it: what stands before it there, and
its key. -/
structure Level where
  before : Entries
  key : String
  fresh : key ∉ before.keys

def nest : List Level → Entries → Entries
  | [], inner => inner
  | level :: levels, inner => level.before ++ [(level.key, .table .header (nest levels inner))]

theorem nest_concat (levels : List Level) (level : Level) (inner : Entries) :
    nest (levels ++ [level]) inner =
      nest levels (level.before ++ [(level.key, .table .header inner)]) := by
  induction levels with
  | nil => rfl
  | cons outer levels ih => rw [List.cons_append, nest, nest, ih]

/-- What is done along the keys of the levels is done to the innermost table. -/
theorem alter_nest (change : Entries → Option Entries) (levels : List Level) (form : Form)
    (inner : Entries) :
    (nest levels inner).alter false (fun _ inner => change inner) (levels.map Level.key) form =
      (change inner).map (nest levels) := by
  induction levels generalizing form with
  | nil =>
    change change inner = (change inner).map id
    rw [Option.map_id, id]
  | cons level levels ih =>
    rw [List.map_cons, nest, Entries.alter, Entries.lookup_last _ _ _ level.fresh]
    simp only
    rw [if_neg (by simp), ih, Option.map_map]
    congr 1
    funext changed
    exact Entries.replace_last _ _ _ _ level.fresh

namespace Document

def within (levels : List Level) (inner : Entries) : Document :=
  ⟨nest levels inner, levels.map Level.key⟩

/-- An entry goes into the innermost table. -/
theorem add?_entry (levels : List Level) (inner : Entries) (key : String) (value : Value) :
    (within levels inner).add? (.entry [] key value) =
      (inner.add? key value).map (within levels) := by
  have halter := alter_nest (fun inner => inner.addDotted? [] key value) levels .header inner
  unfold within add?
  simp only
  rw [halter, Option.map_map]
  rfl

/-- A header opens one more table within the innermost. -/
theorem add?_header (levels : List Level) (inner : Entries) (current : List String) (key : String)
    (hfresh : key ∉ inner.keys) :
    (⟨nest levels inner, current⟩ : Document).add? (.header (levels.map Level.key) key) =
      some (within (levels ++ [⟨inner, key, hfresh⟩]) []) := by
  have halter := alter_nest (fun inner => inner.openTable? key) levels .header inner
  unfold within add?
  simp only
  rw [halter, Entries.openTable?_fresh inner key hfresh, nest_concat, List.map_append]
  rfl

/-- Entries are added to the table under way, as long as their keys are new to it. -/
theorem foldlM_statements (levels : List Level) (inner entries : Entries)
    (h : (inner.keys ++ entries.keys).Nodup) :
    entries.statements.foldlM add? (within levels inner) =
      some (within levels (inner ++ entries)) := by
  induction entries generalizing inner with
  | nil =>
    rw [List.append_nil]
    rfl
  | cons e entries ih =>
    have hkeys : Entries.keys (inner ++ [(e.1, e.2)]) ++ Entries.keys entries =
        inner.keys ++ Entries.keys (e :: entries) := by
      simp [Entries.keys]
    have hfresh : e.1 ∉ inner.keys := by
      intro hmem
      exact List.disjoint_of_nodup_append h hmem List.mem_cons_self
    have hrest := ih (inner ++ [(e.1, e.2)]) (hkeys ▸ h)
    change ((within levels inner).add? (.entry [] e.1 e.2)).bind
      ((Entries.statements entries).foldlM add?) = _
    rw [add?_entry, Entries.add?_fresh inner e.1 e.2 hfresh, Option.map_some, Option.bind_some,
      hrest, List.append_assoc]
    rfl

/-- A header and the entries under it become a table at the end of the one around it. -/
theorem foldlM_section (levels : List Level) (inner : Entries) (current : List String)
    (key : String) (entries : Entries) (hfresh : key ∉ inner.keys) (h : entries.keys.Nodup) :
    (.header (levels.map Level.key) key :: entries.statements).foldlM add?
        ⟨nest levels inner, current⟩ =
      some (within (levels ++ [⟨inner, key, hfresh⟩]) entries) := by
  rw [List.foldlM_cons, add?_header levels inner current key hfresh]
  exact foldlM_statements _ [] entries h

end Document

end ConnectionLog.Toml
