/-!
Names of hosts by the text of their address. A table keeps its entries in the
order of their addresses, so that two tables with the same entries are equal.
-/
namespace ConnectionLog

def insertEntry (address name : String) : List (String × String) → List (String × String)
  | [] => [(address, name)]
  | e :: rest =>
    if address < e.1 then (address, name) :: e :: rest
    else if address = e.1 then (address, name) :: rest
    else e :: insertEntry address name rest

theorem mem_insertEntry {address name : String} {entries : List (String × String)}
    {e : String × String} (h : e ∈ insertEntry address name entries) :
    e = (address, name) ∨ e ∈ entries := by
  induction entries with
  | nil => simpa [insertEntry] using h
  | cons x rest ih =>
    rw [insertEntry] at h
    split at h
    · simpa using h
    · split at h
      · rcases List.mem_cons.mp h with h | h
        · exact .inl h
        · exact .inr (List.mem_cons_of_mem _ h)
      · rcases List.mem_cons.mp h with h | h
        · exact .inr (h ▸ List.mem_cons_self)
        · exact (ih h).imp id (List.mem_cons_of_mem _)

theorem pairwise_insertEntry (address name : String) {entries : List (String × String)}
    (h : entries.Pairwise (·.1 < ·.1)) :
    (insertEntry address name entries).Pairwise (·.1 < ·.1) := by
  induction entries with
  | nil => simp [insertEntry]
  | cons x rest ih =>
    obtain ⟨hx, hrest⟩ := List.pairwise_cons.mp h
    rw [insertEntry]
    split
    · rename_i hlt
      refine List.pairwise_cons.mpr ⟨fun e he => ?_, h⟩
      rcases List.mem_cons.mp he with rfl | he
      · exact hlt
      · exact String.lt_trans hlt (hx e he)
    · split
      · rename_i heq
        exact List.pairwise_cons.mpr ⟨fun e he => heq ▸ hx e he, hrest⟩
      · rename_i hnlt hne
        refine List.pairwise_cons.mpr ⟨fun e he => ?_, ih hrest⟩
        rcases mem_insertEntry he with rfl | he
        · exact Std.lt_of_le_of_ne (Std.not_lt.mp hnlt) (Ne.symm hne)
        · exact hx e he

structure HostNames where
  entries : List (String × String)
  sorted : entries.Pairwise (·.1 < ·.1)
deriving DecidableEq

namespace HostNames

def empty : HostNames := ⟨[], .nil⟩

def insert (hosts : HostNames) (address name : String) : HostNames :=
  ⟨insertEntry address name hosts.entries, pairwise_insertEntry address name hosts.sorted⟩

/-- Of several entries for one address the last one counts. -/
def ofList (entries : List (String × String)) : HostNames :=
  entries.foldl (fun hosts e => hosts.insert e.1 e.2) empty

def size (hosts : HostNames) : Nat := hosts.entries.length

def isEmpty (hosts : HostNames) : Bool := hosts.entries.isEmpty

/-- The name to show for an address; an empty name is as good as none. -/
def name? (hosts : HostNames) (address : String) : Option String :=
  match hosts.entries.lookup address with
  | some name => if name = "" then none else some name
  | none => none

end HostNames

end ConnectionLog
