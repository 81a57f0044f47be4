import ConnectionLog.Command.Run
import ConnectionLog.Proofs.Files.Fresh
import ConnectionLog.Proofs.Files.Registry
import ConnectionLog.Proofs.Files.Reuse
import Mathlib.Data.List.Forall2

/-!
Seeding a log. Its applications are registered first, unless they are there, and then one
connection after the other is appended, so that a log of consecutive identifiers goes on
with as many more. The numbers of a made-up connection are remainders and small sums of
its index, which fit where they are stored whatever the index is.
-/
namespace ConnectionLog

namespace Seed

/-! The connection of an index in numbers of fixed width, where a number that does not fit
and an index that is out of bounds give none. -/

def below? (bound n : Nat) : Option Nat := if n < bound then some n else none

def signed? (i : Int) : Option Int := if minId ≤ i ∧ i ≤ maxId then some i else none

def ofOctets (a b c d : Nat) : UInt32 := UInt32.ofNat (((a * 256 + b) * 256 + c) * 256 + d)

def checkedEndpoints? (v6 : Bool) (index : Nat) : Option Endpoints :=
  if v6 then do
    let rest ← below? 65536 (index % 65535)
    let suffix ← below? 65536 (rest + 1)
    return .v6 (ofGroups [0xFE80, 0, 0, 0, 0, 0, 0, 1])
      (ofGroups [0x2001, 0xDB8, 0, 0, 0, 0, 0, UInt16.ofNat suffix])
  else
    return .v4 (ofOctets 192 168 1 10) (ofOctets 203 0 (index / 256 % 256) (index % 256))

def checked? (appIds : List Int) (now : Int) (v6 : Bool) (index : Nat) :
    Option NewConnection := do
  let endpoints ← checkedEndpoints? v6 index
  let position ← below? (maxCount + 1) index
  let appId ← appIds[position % appIds.length]?
  let time ← signed? (now + index)
  let pid ← below? 4294967296 (1000 + index % 500)
  let code ← signed? (index % 11 + 1 : Nat)
  let rest ← below? 65536 (index % 20000)
  let nearPort ← below? 65536 (40000 + rest)
  let farPort ← [443, 80, 53, 22][position % 4]?
  return {
    appId, time, endpoints, farPort
    pid := UInt32.ofNat pid
    reason := Reason.ofCode code
    blocked := index % 3 = 0
    inherited := index % 5 = 0
    inbound := index % 4 = 0
    protocol := if index % 2 = 0 then 6 else 17
    nearPort := UInt16.ofNat nearPort }

theorem below?_of_lt (bound n : Nat) (h : n < bound) : below? bound n = some n := if_pos h

theorem signed?_of_mem (i : Int) (hlow : minId ≤ i) (hhigh : i ≤ maxId) : signed? i = some i :=
  if_pos ⟨hlow, hhigh⟩

/-- No part of an address is too large for its width. -/
theorem checkedEndpoints?_eq (v6 : Bool) (index : Nat) :
    checkedEndpoints? v6 index = some (endpoints v6 index) := by
  cases v6 with
  | true =>
    have hrest : index % 65535 < 65536 := by omega
    have hsuffix : index % 65535 + 1 < 65536 := by omega
    simp only [checkedEndpoints?, if_true, below?_of_lt _ _ hrest, below?_of_lt _ _ hsuffix,
      Option.bind_eq_bind, Option.bind_some]
    rfl
  | false =>
    have hoctets : ((203 * 256 + 0) * 256 + index / 256 % 256) * 256 + index % 256 =
        0xCB000000 + index % 65536 := by omega
    simp only [checkedEndpoints?, Bool.false_eq_true, if_false, ofOctets, hoctets]
    rfl

theorem farPort_eq (index : Nat) : ([443, 80, 53, 22] : List UInt16)[index % 4]? =
    some (farPort index) := by
  have hlt : index % 4 < 4 := by omega
  unfold farPort
  generalize index % 4 = r at hlt
  match r with
  | 0 | 1 | 2 | 3 => rfl

/-- Whatever the index of 32 bits, no number is too large. -/
theorem checked?_eq (appIds : List Int) (now : Int) (v6 : Bool) (index : Nat)
    (happs : appIds.length = apps.length) (hindex : index < 4294967296)
    (hlow : minId ≤ now + index) (hhigh : now + index ≤ maxId) :
    checked? appIds now v6 index = some (connection appIds now v6 index) := by
  have hposition : index < maxCount + 1 := by
    simp only [maxCount]
    omega
  have happ : appIds[index % appIds.length]? = some (appIds.getD (index % 4) 0) := by
    have hlt : index % 4 < appIds.length := by
      rw [happs]
      exact Nat.mod_lt _ (by decide)
    rw [show appIds.length = 4 from happs, List.getD_eq_getElem?_getD,
      List.getElem?_eq_getElem hlt, Option.getD_some]
  have hpid : 1000 + index % 500 < 4294967296 := by omega
  have hcode := signed?_of_mem (index % 11 + 1 : Nat) (by simp only [minId]; omega)
    (by simp only [maxId]; omega)
  have hrest : index % 20000 < 65536 := by omega
  have hport : 40000 + index % 20000 < 65536 := by omega
  simp only [checked?, checkedEndpoints?_eq, below?_of_lt _ _ hposition, happ,
    signed?_of_mem _ hlow hhigh, below?_of_lt _ _ hpid, hcode, below?_of_lt _ _ hrest,
    below?_of_lt _ _ hport, farPort_eq, Option.bind_eq_bind, Option.bind_some]
  rfl

end Seed

namespace Log

def registeredIds (log : Log) : List String → List Int
  | [] => []
  | path :: rest => (log.register path).1 :: (log.register path).2.registeredIds rest

/-- Every path is there afterwards, under its identifier. -/
theorem registeredIds_mem (log : Log) (paths : List String) :
    List.Forall₂ (fun id path => (⟨id, .text path⟩ : App) ∈
      (log.afterAll (paths.map .register)).apps) (log.registeredIds paths) paths := by
  induction paths generalizing log with
  | nil => exact .nil
  | cons path rest ih =>
    refine .cons ?_ (ih (log.register path).2)
    refine (afterAll_apps_suffix (log.register path).2 (rest.map .register) ?_).subset
      (register_app_mem log path)
    intro w hw
    obtain ⟨_, -, rfl⟩ := List.mem_map.mp hw
    exact nofun

/-- Registering touches no connection, and adds applications of the paths only. -/
theorem afterAll_registers (log : Log) (paths : List String) :
    (log.afterAll (paths.map .register)).entries = log.entries ∧
      (log.afterAll (paths.map .register)).lastId = log.lastId ∧
      ∃ new, (log.afterAll (paths.map .register)).apps = new ++ log.apps ∧
        ∀ app ∈ new, ∃ path ∈ paths, app.path = .text path := by
  induction paths generalizing log with
  | nil => exact ⟨rfl, rfl, [], rfl, nofun⟩
  | cons path rest ih =>
    obtain ⟨hentries, hlast, new, happs, hnew⟩ := ih (log.register path).2
    refine ⟨hentries.trans (register_entries log path), hlast.trans (register_lastId log path), ?_⟩
    have hrest : ∀ app ∈ new, ∃ path' ∈ path :: rest, app.path = .text path' := by
      intro app happ
      obtain ⟨path', hmem, hpath⟩ := hnew app happ
      exact ⟨path', List.mem_cons_of_mem path hmem, hpath⟩
    rcases register_apps log path with hsame | hadded
    · exact ⟨new, happs.trans (by rw [hsame]), hrest⟩
    · refine ⟨new ++ [⟨log.nextAppId, .text path⟩], ?_, ?_⟩
      · rw [List.append_assoc]
        exact happs.trans (by rw [hadded]; rfl)
      · intro app happ
        rcases List.mem_append.mp happ with happ | happ
        · exact hrest app happ
        · rw [List.mem_singleton.mp happ]
          exact ⟨path, List.mem_cons_self, rfl⟩

/-- An append that has room adds its entry under the next identifier. -/
theorem after_append (log : Log) (c : NewConnection) (h : (log.lastId : Int) + 1 ≤ maxId) :
    log.after (.append c) =
      ⟨log.apps, c.entry ((log.lastId : Int) + 1) :: log.entries, log.lastId + 1⟩ := by
  rw [after, write_append, if_neg (Int.not_lt.mpr h)]

/-- As long as there are identifiers left, every connection is put in front of those that
are there, under the next one. -/
theorem afterAll_appends (log : Log) (c : Nat → NewConnection) (count : Nat)
    (hleft : (log.lastId : Int) + count ≤ maxId) :
    log.afterAll ((List.range count).map fun i => .append (c i)) =
      ⟨log.apps,
        ((List.range count).map fun i => (c i).entry ((log.lastId : Int) + 1 + i)).reverse ++
          log.entries, log.lastId + count⟩ := by
  induction count with
  | zero => rfl
  | succ count ih =>
    have hid : ((log.lastId + count : Nat) : Int) + 1 = log.lastId + 1 + count := by omega
    rw [List.range_succ, List.map_append, List.map_singleton, afterAll_append_singleton,
      ih (by omega), after_append _ _ (by simp only; omega), hid, List.map_append,
      List.map_singleton, List.reverse_append, List.reverse_singleton]
    rfl

theorem afterAll_authored (log : Log) (writes : List Write) (h : log.Authored) :
    (log.afterAll writes).Authored :=
  afterAll_induct Authored log writes h fun w _ log outcome log' h =>
    write_authored log log' w outcome h

/-- A record that is found is found in every later log that only has more in front. -/
theorem fetch_of_suffix (log later : Log) (hunbroken : later.Unbroken)
    (hauthored : later.Authored) (hentries : log.entries <:+ later.entries)
    (happs : log.apps <:+ later.apps) (id : Int) (record : Record)
    (h : log.fetch id = .ok (some record)) : later.fetch id = .ok (some record) := by
  unfold fetch at h
  cases he : log.entry? id with
  | none =>
    rw [he] at h
    cases h
  | some e =>
    obtain ⟨hmem, rfl⟩ := mem_of_entry? log id e he
    have hlater := entry?_of_mem later hunbroken e (hentries.subset hmem)
    cases hpath : log.pathOf? e with
    | none =>
      simp only [he, hpath] at h
      cases h
    | some path =>
      have hkept : later.pathOf? e = some path := by
        unfold pathOf? at hpath ⊢
        split at hpath
        · next appId _ =>
          obtain ⟨app, hfind, rfl⟩ := Option.map_eq_some_iff.mp hpath
          have happ := happs.subset (List.mem_of_find?_eq_some hfind)
          have hid : app.id = appId := by simpa using List.find?_some hfind
          rw [← hid, find?_app later hauthored app happ, Option.map_some]
        · contradiction
      simp only [he, hpath] at h
      simp only [fetch, hlater, hkept]
      exact h

/-- What a log becomes when made-up connections are appended to it, by applications that
are registered before. A connection without an application may come to have one by that. -/
structure Seeded (now : Int) (count : Nat) (v6 : Bool) (appIds : List Int)
    (log later : Log) : Prop where
  apps : ∃ new, later.apps = new ++ log.apps ∧
    ∀ app ∈ new, ∃ path ∈ Seed.apps, app.path = .text path
  entries : ∃ new, later.entries = new ++ log.entries ∧
    new.map (·.id) = (Span.idsFrom ((log.lastId : Int) + 1) count).reverse
  kept : ∀ id record, log.fetch id = .ok (some record) → later.fetch id = .ok (some record)
  registered : List.Forall₂ (fun id path => (⟨id, .text path⟩ : App) ∈ later.apps)
    appIds Seed.apps
  rows : ∀ index < count, ∃ record path,
    later.fetch ((log.lastId : Int) + 1 + index) = .ok (some record) ∧
      Seed.apps[index % 4]? = some path ∧
      record.decode = (Seed.connection appIds now v6 index).connection
        ((log.lastId : Int) + 1 + index) path
  /-- The connection of every index of 32 bits is made without a number that is too large. -/
  exact : ∀ index : Nat, index < 4294967296 → minId ≤ now + index → now + index ≤ maxId →
    Seed.checked? appIds now v6 index = some (Seed.connection appIds now v6 index)

/-- A made-up connection that is there is read as the row of its index. -/
theorem fetch_seeded (later : Log) (hunbroken : later.Unbroken) (hauthored : later.Authored)
    (now : Int) (v6 : Bool) (appIds : List Int)
    (hregistered : List.Forall₂ (fun id path => (⟨id, .text path⟩ : App) ∈ later.apps)
      appIds Seed.apps) (index : Nat) (id : Int)
    (hmem : (Seed.connection appIds now v6 index).entry id ∈ later.entries) :
    ∃ record path, later.fetch id = .ok (some record) ∧ Seed.apps[index % 4]? = some path ∧
      record.decode = (Seed.connection appIds now v6 index).connection id path := by
  have hpath : index % 4 < Seed.apps.length := Nat.mod_lt index (by decide)
  have hid : index % 4 < appIds.length := by
    rw [hregistered.length_eq]
    exact hpath
  have happ := hregistered.get hid hpath
  have hcarried : (Seed.connection appIds now v6 index).appId = appIds[index % 4] := by
    simp only [Seed.connection, List.getD_eq_getElem?_getD, List.getElem?_eq_getElem hid,
      Option.getD_some]
  have hkeeps : later.Keeps (Seed.connection appIds now v6 index) id Seed.apps[index % 4] := by
    refine ⟨?_, entry?_of_mem later hunbroken _ hmem, ?_⟩
    · exact hunbroken.descends.id_le later.lastId later.entries _ hmem
    · rw [hcarried]
      exact find?_app later hauthored _ happ
  refine ⟨_, _, fetch_of_keeps later _ id _ hkeeps, List.getElem?_eq_getElem hpath, ?_⟩
  exact NewConnection.decode_record _ id _ (index % 11 + 1 : Nat) rfl

/-- Registering the applications and appending makes a log a seeded one. -/
theorem afterAll_seeded (log : Log) (hunbroken : log.Unbroken) (hauthored : log.Authored)
    (now : Int) (count : Nat) (v6 : Bool) (hleft : (log.lastId : Int) + count ≤ maxId) :
    Seeded now count v6 (log.registeredIds Seed.apps) log
      ((log.afterAll (Seed.apps.map .register)).afterAll ((List.range count).map fun i =>
        .append (Seed.connection (log.registeredIds Seed.apps) now v6 i))) := by
  have hregistered := registeredIds_mem log Seed.apps
  obtain ⟨hentries, hlast, new, happs, hnew⟩ := afterAll_registers log Seed.apps
  have hunbroken' := afterAll_unbroken _ ((List.range count).map fun i => .append
    (Seed.connection (log.registeredIds Seed.apps) now v6 i))
    (afterAll_unbroken log (Seed.apps.map .register) hunbroken)
  have hauthored' := afterAll_authored _ ((List.range count).map fun i => .append
    (Seed.connection (log.registeredIds Seed.apps) now v6 i))
    (afterAll_authored log (Seed.apps.map .register) hauthored)
  have hlater := afterAll_appends (log.afterAll (Seed.apps.map .register))
    (Seed.connection (log.registeredIds Seed.apps) now v6) count (by rw [hlast]; exact hleft)
  rw [hentries, hlast] at hlater
  generalize log.registeredIds Seed.apps = appIds at *
  rw [hlater] at hunbroken' hauthored' ⊢
  have hids : (((List.range count).map fun i : Nat => (Seed.connection appIds now v6 i).entry
      ((log.lastId : Int) + 1 + i)).reverse.map (·.id)) =
      (Span.idsFrom ((log.lastId : Int) + 1) count).reverse := by
    rw [List.map_reverse, List.map_map]
    rfl
  refine ⟨⟨new, happs, hnew⟩, ⟨_, rfl, hids⟩, ?_, hregistered, ?_, ?_⟩
  · exact fetch_of_suffix log _ hunbroken' hauthored' ⟨_, rfl⟩ ⟨new, happs.symm⟩
  · intro index hindex
    refine fetch_seeded _ hunbroken' hauthored' now v6 appIds hregistered index _ ?_
    refine List.mem_append_left _ (List.mem_reverse.mpr (List.mem_map.mpr ⟨index, ?_, rfl⟩))
    exact List.mem_range.mpr hindex
  · intro index hindex hlow hhigh
    exact Seed.checked?_eq appIds now v6 index hregistered.length_eq hindex hlow hhigh

end Log

namespace OpenLog

theorem after_place (log : OpenLog) (db : Database) (w : Log.Write) (hheld : log.held = .ok db)
    (h : db.isComplete = true) (hwritable : log.readOnly = false) :
    (log.after w).place = log.place := by
  rw [after, call_write log db w hheld h hwritable]
  cases db.log.write w <;> rfl

/-- What is written to a log that may be written to is what it holds for its file. -/
theorem afterAll_holding (path : String) (log : OpenLog) (t : FileTree) (db : Database)
    (writes : List Log.Write) (h : Holding path log t db) (hwritable : log.readOnly = false) :
    Holding path (log.afterAll writes) t { db with log := db.log.afterAll writes } ∧
      (log.afterAll writes).readOnly = false ∧ (log.afterAll writes).place = log.place := by
  induction writes generalizing log db with
  | nil => exact ⟨h, hwritable, rfl⟩
  | cons w rest ih =>
    have hplace := after_place log db w h.held h.complete hwritable
    obtain ⟨hheld, hwritable'⟩ := after_held log db w h.held h.complete hwritable
    have hholding : Holding path (log.after w) t { db with log := db.log.after w } := by
      refine ⟨hheld, h.complete, ?_, ?_⟩
      · rw [hplace]
        exact h.leads
      · rw [hplace]
        intro place hkept
        obtain ⟨db', ahead, hfile, -⟩ := h.file place hkept
        exact ⟨db', ahead, hfile, fun hshut => absurd (hshut.symm.trans hwritable') nofun⟩
    obtain ⟨hlast, hshut, hkept⟩ := ih (log.after w) _ hholding hwritable'
    exact ⟨hlast, hshut, hkept.trans hplace⟩

theorem callId_eq (log : OpenLog) (db : Database) (w : Log.Write) (id : Int) (log₁ : Log)
    (hheld : log.held = .ok db) (h : db.isComplete = true) (hwritable : log.readOnly = false)
    (hwrite : db.log.write w = .ok (.id id, log₁)) :
    Seed.callId log w = (log.after w, .ok id) := by
  rw [Seed.callId, after, call_write log db w hheld h hwritable, hwrite]
  rfl

/-- Registering answers with the identifiers of the applications. -/
theorem register_eq (log : OpenLog) (db : Database) (paths : List String)
    (hheld : log.held = .ok db) (h : db.isComplete = true) (hwritable : log.readOnly = false) :
    Seed.register log paths =
      (log.afterAll (paths.map .register), .ok (db.log.registeredIds paths)) := by
  induction paths generalizing log db with
  | nil => rfl
  | cons path rest ih =>
    obtain ⟨hheld', hwritable'⟩ := after_held log db (.register path) hheld h hwritable
    rw [Seed.register, callId_eq log db (.register path) _ _ hheld h hwritable rfl]
    simp only
    rw [ih (log.after (.register path)) _ hheld' h hwritable']
    rfl

/-- With identifiers left for all of them, the answer is the one of the last connection. -/
theorem append_eq (log : OpenLog) (db : Database) (c : Nat → NewConnection)
    (last : Option Int) (indices : List Nat) (hheld : log.held = .ok db)
    (h : db.isComplete = true) (hwritable : log.readOnly = false)
    (hleft : (db.log.lastId : Int) + indices.length ≤ maxId) :
    Seed.append c log last indices =
      (log.afterAll (indices.map fun i => .append (c i)),
        .ok (if indices = [] then last else some (db.log.lastId + indices.length))) := by
  induction indices generalizing log db last with
  | nil => rfl
  | cons index rest ih =>
    rw [List.length_cons] at hleft
    have hfull : ¬ maxId < (db.log.lastId : Int) + 1 := by omega
    have hwrite := Log.write_append db.log (c index)
    rw [if_neg hfull] at hwrite
    have hafter := Log.after_append db.log (c index) (by omega)
    obtain ⟨hheld', hwritable'⟩ := after_held log db (.append (c index)) hheld h hwritable
    have hrest := ih (log.after (.append (c index))) _ (some ((db.log.lastId : Int) + 1)) hheld' h
      hwritable' (by rw [hafter]; simp only; omega)
    have hanswer : (if rest = [] then some ((db.log.lastId : Int) + 1)
        else some (((db.log.lastId + 1 : Nat) : Int) + rest.length)) =
        some ((db.log.lastId : Int) + (rest.length + 1 : Nat)) := by
      split
      · next hnil =>
        rw [hnil]
        rfl
      · rw [Option.some.injEq]
        omega
    rw [Seed.append, callId_eq log db (.append (c index)) _ _ hheld h hwritable hwrite]
    simp only
    rw [hrest, hafter, hanswer, if_neg (List.cons_ne_nil index rest)]
    rfl

end OpenLog

namespace Command

def seedText (count : Nat) (last : Int) : String :=
  if count = 0 then "appended 0 connections"
  else
    "appended " ++ Numeral.natText count ++ " connections, last id " ++ Numeral.intText last

def seedWrites (log : Log) (now : Int) (count : Nat) (v6 : Bool) : List Log.Write :=
  Seed.apps.map .register ++ (List.range count).map fun i =>
    .append (Seed.connection (log.registeredIds Seed.apps) now v6 i)

/-- What seeding prints, and the writes it comes to. -/
theorem reportSeed_eq (log : OpenLog) (db : Database) (now : Int) (count : Nat) (v6 : Bool)
    (hheld : log.held = .ok db) (h : db.isComplete = true) (hwritable : log.readOnly = false)
    (hleft : (db.log.lastId : Int) + count ≤ maxId) :
    reportSeed log now count v6 =
      (.line (seedText count (db.log.lastId + count)),
        log.afterAll (seedWrites db.log now count v6)) := by
  obtain ⟨hheld', hwritable'⟩ :=
    OpenLog.afterAll_held log db (Seed.apps.map .register) hheld h hwritable
  have hlast := (Log.afterAll_registers db.log Seed.apps).2.1
  have hrange : ((List.range count).length : Int) = count := by rw [List.length_range]
  have hafter : log.afterAll (seedWrites db.log now count v6) =
      (log.afterAll (Seed.apps.map .register)).afterAll ((List.range count).map fun i =>
        .append (Seed.connection (db.log.registeredIds Seed.apps) now v6 i)) := List.foldl_append
  rw [reportSeed, OpenLog.register_eq log db Seed.apps hheld h hwritable]
  simp only
  rw [OpenLog.append_eq _ _ _ _ _ hheld' h hwritable' (by simp only [hlast, hrange]; exact hleft)]
  simp only [hlast, hrange, List.range_eq_nil, hafter, seedText]
  by_cases hzero : count = 0
  · simp only [hzero, if_true]
  · simp only [hzero, if_false]

/-- The log that a reached one holds has nothing but what was registered and appended, and
remembers the largest identifier that was given out. -/
theorem holding_of_reached (path : String) (log : OpenLog) (t : FileTree) (given : List Int)
    (last : Int) (h : OpenLog.Reached path log t given) (hlast : (0 :: given).max? = some last) :
    ∃ db, OpenLog.Holding path log t db ∧ db.log.Unbroken ∧ db.log.Authored ∧
      (db.log.lastId : Int) = last := by
  obtain ⟨db, hholding, hremembers, hauthored⟩ := OpenLog.reached_induct
    (fun log given => log.Remembers given ∧ log.Authored)
    ⟨Log.empty_remembers, Log.empty_authored⟩
    (fun log log' w outcome given h hw =>
      ⟨Log.write_remembers log log' w outcome given h.1 hw,
        Log.write_authored log log' w outcome h.2 hw⟩) path log t given h
  refine ⟨db, hholding, hremembers.unbroken, hauthored, ?_⟩
  obtain ⟨hmem, hle⟩ := List.max?_eq_some_iff.mp hlast
  have hpos : 0 ≤ last := hle 0 List.mem_cons_self
  apply Int.le_antisymm
  · by_cases hzero : db.log.lastId = 0
    · rw [hzero]
      exact hpos
    · exact hle _ (List.mem_cons_of_mem 0 (hremembers.last_mem hzero))
  · rcases List.mem_cons.mp hmem with rfl | hmem
    · exact Int.natCast_nonneg _
    · exact hremembers.le_last last hmem

/-- What seeding a log comes to whose largest identifier so far was `last`. -/
structure Seeds (path : String) (log : OpenLog) (t : FileTree) (last now : Int) (count : Nat)
    (v6 : Bool) (db db' : Database) (appIds : List Int) (later : OpenLog) : Prop where
  held : log.held = .ok db
  last_eq : (db.log.lastId : Int) = last
  report : reportSeed log now count v6 = (.line (seedText count (last + count)), later)
  /-- What was made up is what the log holds for its file. -/
  holding : OpenLog.Holding path later t db'
  seeded : db.log.Seeded now count v6 appIds db'.log

/-- A reached log with enough identifiers left can be seeded. -/
theorem seeds_of_reached (path : String) (log : OpenLog) (t : FileTree) (given : List Int)
    (last now : Int) (count : Nat) (v6 : Bool) (db : Database)
    (hreached : OpenLog.Reached path log t given) (hwritable : log.readOnly = false)
    (hlast : (0 :: given).max? = some last) (hleft : last + count ≤ maxId)
    (hheld : log.held = .ok db) :
    Seeds path log t last now count v6 db
      { db with log := db.log.afterAll (seedWrites db.log now count v6) }
      (db.log.registeredIds Seed.apps) (log.afterAll (seedWrites db.log now count v6)) := by
  obtain ⟨db', hholding, hunbroken, hauthored, rfl⟩ :=
    holding_of_reached path log t given last hreached hlast
  obtain rfl : db = db' := Except.ok.inj (hheld.symm.trans hholding.held)
  have hafter := OpenLog.afterAll_holding path log t db (seedWrites db.log now count v6) hholding
    hwritable
  have hseeded := Log.afterAll_seeded db.log hunbroken hauthored now count v6 hleft
  have hsplit : db.log.afterAll (seedWrites db.log now count v6) =
      (db.log.afterAll (Seed.apps.map .register)).afterAll ((List.range count).map fun i =>
        .append (Seed.connection (db.log.registeredIds Seed.apps) now v6 i)) := List.foldl_append
  rw [← hsplit] at hseeded
  exact ⟨hheld, rfl, reportSeed_eq log db now count v6 hheld hholding.complete hwritable hleft,
    hafter.1, hseeded⟩

/-- The command prints its report on the log that was opened, and puts the log back. -/
theorem run_of_open (files t : FileTree) (now : Int) (i : Invocation) (s : Settings)
    (log later : OpenLog) (count : Nat) (v6 : Bool) (report : Report)
    (hsettings : settings files i = .ok s) (hcommand : i.command = .seed count v6)
    (hopen : openForWriting s files = .ok log t)
    (hreport : reportSeed log now count v6 = (report, later)) :
    run files now i = (report, later.close t) := by
  simp only [run, hsettings, hcommand, writes, if_true, hopen, runOn, hreport]

/-- Seeding a log that may be written to succeeds as long as there are identifiers left. If
the log is put back into a file with a plain name, then it is opened from there. -/
theorem run_seed (path : String) (log : OpenLog) (t : FileTree) (given : List Int)
    (last now : Int) (count : Nat) (v6 : Bool) (hreached : OpenLog.Reached path log t given)
    (hwritable : log.readOnly = false) (hlast : (0 :: given).max? = some last)
    (hleft : last + count ≤ maxId) :
    ∃ db db' appIds later, Seeds path log t last now count v6 db db' appIds later ∧
      (∀ files i s, settings files i = .ok s → i.command = .seed count v6 →
        openForWriting s files = .ok log t →
        run files now i = (.line (seedText count (last + count)), later.close t)) ∧
      (log.place ≠ none → Locator.afterScheme? path.toList = none →
        ∀ i s, settings (log.close t) i = .ok s → i.command = .seed count v6 →
          s.store.path = path → s.store.readOnly = false →
          ∃ t', Seeds path log t' last now count v6 db db' appIds later ∧
            run (log.close t) now i =
              (.line (seedText count (last + count)), later.close t')) := by
  obtain ⟨db, hholding, -⟩ := holding_of_reached path log t given last hreached hlast
  have hseeds := seeds_of_reached path log t given last now count v6 db hreached hwritable hlast
    hleft hholding.held
  refine ⟨db, _, _, _, hseeds, ?_, ?_⟩
  · intro files i s hsettings hcommand hopen
    exact run_of_open files t now i s log _ count v6 _ hsettings hcommand hopen hseeds.report
  · intro hkept hplain i s hsettings hcommand hpath hreadOnly
    obtain ⟨t', hopen⟩ := OpenLog.forWriting_close path hplain log t given hreached hwritable hkept
    have hagain := seeds_of_reached path log t' given last now count v6 db
      (OpenLog.Reached.reopened log log t t' given hreached hkept hopen) hwritable hlast hleft
      hholding.held
    refine ⟨t', hagain, ?_⟩
    have hopening : openForWriting s (log.close t) = .ok log t' := by
      rw [openForWriting, hreadOnly, hpath, if_neg Bool.false_ne_true]
      exact OpenLog.run_adaptExcept _ _ _ _ _ hopen
    exact run_of_open _ t' now i s log _ count v6 _ hsettings hcommand hopening hagain.report

/-- A log in a file that was written to and pruned, seeded after that. -/
theorem run_seed_pruned :
    ∃ log t t', OpenLog.Reached "log" log t [2, 1] ∧
      run (log.close t) 1000 ⟨"connlog.toml", some "log", none, .seed 3 true⟩ =
        (.line "appended 3 connections, last id 5", t') := by
  let first := Seed.connection [1] 0 false 0
  let second := Seed.connection [1] 0 true 1
  let files : FileTree := ⟨["w"], [(["w", "log"], .file (.database (Database.ofLog .empty) true))]⟩
  let kept (log : Log) : OpenLog :=
    ⟨some ["w", "log"], false, .beside, .ok (Database.ofLog log)⟩
  let pruned : Log := ⟨[⟨1, .text "/usr/sbin/sshd"⟩], [second.entry 2], 2⟩
  have hmade : FileTree.makeDirectories "log" files = .ok ⟨⟩ files := rfl
  have hlocated : FileTree.locate .creating "log" files =
      .ok (⟨"log", .creating, .beside, true⟩, some ["w", "log"]) files := rfl
  have hwriting : OpenLog.forWriting "log" files = .ok (kept .empty) files := by
    simp only [OpenLog.forWriting, OpenLog.openToWrite, bind, EStateM.bind, EStateM.adaptExcept,
      hmade, hlocated]
    rfl
  have hopened : OpenLog.Reached "log" (kept .empty) files [] :=
    OpenLog.Reached.opened _ _ _ _ hwriting rfl rfl
  have happ := OpenLog.Reached.wrote _ _ _ _ (.register "/usr/sbin/sshd") _ hopened rfl
  have hfirst := OpenLog.Reached.wrote _ _ _ _ (.append first) _ happ rfl
  have hsecond := OpenLog.Reached.wrote _ _ _ _ (.append second) _ hfirst rfl
  have hpruned : OpenLog.Reached "log" (kept pruned) files [2, 1] :=
    OpenLog.Reached.wrote _ _ _ _ (.prune 2) _ hsecond rfl
  obtain ⟨db, db', appIds, later, -, -, hagain⟩ :=
    run_seed "log" (kept pruned) files [2, 1] 2 1000 3 true hpruned rfl (by decide) (by decide)
  obtain ⟨t', -, hrun⟩ := hagain (Option.some_ne_none _) (by decide)
    ⟨"connlog.toml", some "log", none, .seed 3 true⟩ (Settings.default.withStore (some "log"))
    rfl rfl rfl rfl
  have htext : seedText 3 (2 + (3 : Nat)) = "appended 3 connections, last id 5" := by
    decide +kernel
  rw [htext] at hrun
  exact ⟨kept pruned, files, _, hpruned, hrun⟩

end Command

end ConnectionLog
