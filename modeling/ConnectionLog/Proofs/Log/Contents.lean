import ConnectionLog.Proofs.Log.Interval

/-!
What is found in a log that only its writer wrote to. Each connection is read back as
the record it was made from, with the path of its application, as long as it and its
application are there. So while neither bound moves, no write changes any record. And
whatever a log holds, no record is found but under its own identifier.
-/
namespace ConnectionLog

def NewConnection.record (c : NewConnection) (id : Int) (path : String) : Record where
  id := id
  appId := c.appId
  time := c.time
  pid := c.pid.toNat
  reason := c.reason.code
  blocked := c.blocked
  inherited := c.inherited
  inbound := c.inbound
  protocol := c.protocol.toNat
  nearPort := c.nearPort.toNat
  farPort := c.farPort.toNat
  isV6 := c.endpoints.isV6
  near4 := match c.endpoints with
    | .v4 near _ => near.toNat
    | .v6 .. => 0
  far4 := match c.endpoints with
    | .v4 _ far => far.toNat
    | .v6 .. => 0
  near6 := match c.endpoints with
    | .v4 .. => []
    | .v6 near _ => near.octets
  far6 := match c.endpoints with
    | .v4 .. => []
    | .v6 _ far => far.octets
  path := path

theorem Datum.asFlag_ofBool (field : Field) (b : Bool) :
    (Datum.ofBool b).asFlag field = .ok b := by
  cases b <;> rfl

/-- What was stored is read back. -/
theorem NewConnection.read_entry (c : NewConnection) (id : Int) (path : String) :
    (c.entry id).read (.text path) = .ok (c.record id path) := by
  simp only [Entry.read, NewConnection.entry, Datum.asFlag_ofBool]
  cases hends : c.endpoints with
  | v4 near far =>
    simp only [NewConnection.record, hends]
    rfl
  | v6 near far =>
    simp only [NewConnection.record, hends]
    rfl

/-- What holds of the results of all that may come next holds of the result of both. -/
theorem of_bind_eq_ok {ε α β : Type} (P : β → Prop) (x : Except ε α) (next : α → Except ε β)
    (hnext : ∀ a b, next a = .ok b → P b) : ∀ b, x >>= next = .ok b → P b := by
  intro b h
  cases x with
  | error e => cases h
  | ok a => exact hnext a b h

/-- Whatever is read from its columns, an entry keeps its identifier. -/
theorem Entry.read_id (e : Entry) (path : Datum) :
    ∀ record, e.read path = .ok record → record.id = e.id := by
  unfold read
  iterate 15 refine of_bind_eq_ok _ _ _ fun _ => ?_
  intro record h
  cases h
  rfl

namespace Log

/-- A log whose connections were all appended, by applications that are there. -/
structure Joined (log : Log) : Prop where
  texts : ∀ app ∈ log.apps, ∃ path, app.path = .text path
  apps : ∀ e ∈ log.entries, ∃ c : NewConnection, e = c.entry e.id ∧
    ∃ app ∈ log.apps, app.id = c.appId

/-- The next identifier of an application is a new one. -/
theorem lt_nextAppId (log : Log) (app : App) (h : app ∈ log.apps) : app.id < log.nextAppId := by
  have hmem : app.id ∈ log.apps.map (·.id) := List.mem_map_of_mem h
  rw [nextAppId]
  cases hmax : (log.apps.map (·.id)).max? with
  | none =>
    rw [List.max?_eq_none_iff.mp hmax] at hmem
    exact nomatch hmem
  | some last =>
    have hle := (List.max?_eq_some_iff.mp hmax).2 app.id hmem
    simp only
    omega

theorem register_apps (log : Log) (path : String) :
    (log.register path).2.apps = log.apps ∨
      (log.register path).2.apps = ⟨log.nextAppId, .text path⟩ :: log.apps := by
  unfold register
  cases log.appOf? path with
  | some app => exact Or.inl rfl
  | none => exact Or.inr rfl

/-- The application that was asked for is there afterwards. -/
theorem register_mem (log : Log) (path : String) :
    ∃ app ∈ (log.register path).2.apps, app.id = (log.register path).1 := by
  unfold register
  cases happ : log.appOf? path with
  | some app => exact ⟨app, List.mem_of_find?_eq_some happ, rfl⟩
  | none => exact ⟨_, List.mem_cons_self, rfl⟩

/-- Registering another application changes no path that was found. -/
theorem pathOf?_register (log : Log) (path : String) (e : Entry) (c : NewConnection)
    (he : e = c.entry e.id) (happ : ∃ app ∈ log.apps, app.id = c.appId) :
    (log.register path).2.pathOf? e = log.pathOf? e := by
  have hid : e.appId = .integer c.appId := by
    rw [he]
    rfl
  obtain ⟨app, hmem, heq⟩ := happ
  rcases register_apps log path with hsame | hnew
  · simp only [pathOf?, hid, hsame]
  · have hlt := lt_nextAppId log app hmem
    have hne : ¬ log.nextAppId = c.appId := by omega
    simp only [pathOf?, hid, hnew]
    rw [List.find?_cons_of_neg (by simpa using hne)]

theorem entry?_register (log : Log) (path : String) (id : Int) :
    Log.entry? (log.register path).2 id = log.entry? id := by
  unfold entry?
  rw [register_entries]

theorem mem_of_entry? (log : Log) (id : Int) (e : Entry) (h : log.entry? id = some e) :
    e ∈ log.entries ∧ e.id = id :=
  ⟨List.mem_of_find?_eq_some h, by simpa using List.find?_some h⟩

/-- A record that is found is the one that was asked for. -/
theorem fetch_id (log : Log) (id : Int) (record : Record)
    (h : log.fetch id = .ok (some record)) : record.id = id := by
  rw [fetch] at h
  cases he : log.entry? id with
  | none =>
    rw [he] at h
    cases h
  | some e =>
    obtain ⟨-, hid⟩ := mem_of_entry? log id e he
    rw [he] at h
    cases hpath : log.pathOf? e with
    | none =>
      simp only [hpath] at h
      cases h
    | some path =>
      simp only [hpath] at h
      cases hread : e.read path with
      | error fault =>
        rw [hread] at h
        cases h
      | ok found =>
        rw [hread] at h
        cases h
        rw [← hid]
        exact e.read_id path record hread

theorem pathOf?_of_mem (log : Log) (h : log.Joined) (e : Entry) (he : e ∈ log.entries) :
    ∃ path, log.pathOf? e = some (.text path) := by
  obtain ⟨c, hentry, app, hmem, heq⟩ := h.apps e he
  have hid : e.appId = .integer c.appId := by
    rw [hentry]
    rfl
  simp only [pathOf?, hid]
  cases hfind : log.apps.find? (·.id = c.appId) with
  | none =>
    have hnone := List.find?_eq_none.mp hfind app hmem
    simp only [heq, decide_true, not_true_eq_false] at hnone
  | some found =>
    obtain ⟨path, hpath⟩ := h.texts found (List.mem_of_find?_eq_some hfind)
    exact ⟨path, by rw [Option.map_some, hpath]⟩

/-- The record of a connection that is there. -/
theorem fetch_of_entry? (log : Log) (h : log.Joined) (id : Int) (e : Entry)
    (he : log.entry? id = some e) :
    ∃ c path, e = NewConnection.entry c id ∧ log.pathOf? e = some (.text path) ∧
      log.fetch id = .ok (some (c.record id path)) := by
  obtain ⟨hmem, hid⟩ := mem_of_entry? log id e he
  obtain ⟨c, hentry, -⟩ := h.apps e hmem
  obtain ⟨path, hpath⟩ := pathOf?_of_mem log h e hmem
  rw [hid] at hentry
  refine ⟨c, path, hentry, hpath, ?_⟩
  rw [fetch, he]
  simp only [hpath]
  rw [hentry, NewConnection.read_entry]
  rfl

/-- Registering changes no record. -/
theorem fetch_register (log : Log) (h : log.Joined) (path : String) :
    (log.register path).2.fetch = log.fetch := by
  funext id
  rw [fetch, fetch, entry?_register]
  cases he : log.entry? id with
  | none => rfl
  | some e =>
    obtain ⟨hmem, -⟩ := mem_of_entry? log id e he
    obtain ⟨c, hentry, happ⟩ := h.apps e hmem
    simp only [pathOf?_register log path e c hentry happ]

/-- A write that moves neither bound of a log that holds something changes no record. -/
theorem write_fetch (log log' : Log) (w : Write) (outcome : Outcome) (h : log.Joined)
    (hw : log.write w = .ok (outcome, log')) (hne : log.entries ≠ [])
    (hlow : log'.low = log.low) (hlast : log'.lastId = log.lastId) : log'.fetch = log.fetch := by
  have hlen : 0 < log.entries.length := List.length_pos_of_ne_nil hne
  rcases write_cases log log' w outcome hw with
    ⟨path, -, -, rfl⟩ | ⟨c, -, -, -, rfl⟩ | ⟨before, -, -, rfl⟩ | ⟨-, -, rfl⟩
  · exact fetch_register log h path
  · simp only at hlast
    omega
  · simp only [low] at hlow
    have hall : log.entries.filter (fun e => before ≤ e.id) = log.entries :=
      List.filter_eq_self.mpr (List.length_filter_eq_length_iff.mp (by omega))
    rw [hall]
  · simp only [low, List.length_nil] at hlow
    omega

def Allows (log : Log) : Write → Prop
  | .append c => ∃ app ∈ log.apps, app.id = c.appId
  | _ => True

theorem empty_joined : empty.Joined := ⟨List.forall_mem_nil _, List.forall_mem_nil _⟩

/-- Writes that are allowed leave no connection without its application. -/
theorem write_joined (log log' : Log) (w : Write) (outcome : Outcome) (h : log.Joined)
    (hallows : log.Allows w) (hw : log.write w = .ok (outcome, log')) : log'.Joined := by
  rcases write_cases log log' w outcome hw with
    ⟨path, rfl, -, rfl⟩ | ⟨c, rfl, -, -, rfl⟩ | ⟨before, rfl, -, rfl⟩ | ⟨rfl, -, rfl⟩
  · refine ⟨?_, ?_⟩
    · intro app happ
      rcases register_apps log path with hsame | hnew
      · rw [hsame] at happ
        exact h.texts app happ
      · rw [hnew] at happ
        rcases List.mem_cons.mp happ with rfl | happ
        · exact ⟨path, rfl⟩
        · exact h.texts app happ
    · intro e he
      rw [register_entries] at he
      obtain ⟨c, hentry, app, hmem, hid⟩ := h.apps e he
      refine ⟨c, hentry, app, ?_, hid⟩
      rcases register_apps log path with hsame | hnew
      · rw [hsame]
        exact hmem
      · rw [hnew]
        exact List.mem_cons_of_mem _ hmem
  · refine ⟨h.texts, ?_⟩
    intro e he
    rcases List.mem_cons.mp he with rfl | he
    · exact ⟨c, rfl, hallows⟩
    · exact h.apps e he
  · exact ⟨h.texts, fun e he => h.apps e (List.mem_of_mem_filter he)⟩
  · exact ⟨List.forall_mem_nil _, List.forall_mem_nil _⟩

end Log

end ConnectionLog
