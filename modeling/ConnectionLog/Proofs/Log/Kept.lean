import ConnectionLog.Proofs.Log.Later

/-!
An appended connection is read back as it was given, with the path that its application
was registered for. That stays so until it is pruned or the log is cleared, since no other
write touches its entry or takes its application away.
-/
namespace ConnectionLog

theorem ofInt_toNat_uint8 (n : UInt8) : UInt8.ofInt (n.toNat : Int) = n := by
  have hlt := n.toNat_lt
  rw [UInt8.ofInt, Int.emod_eq_of_lt (by omega) (by omega), Int.toNat_natCast, UInt8.ofNat_toNat]

theorem ofInt_toNat_uint16 (n : UInt16) : UInt16.ofInt (n.toNat : Int) = n := by
  have hlt := n.toNat_lt
  rw [UInt16.ofInt, Int.emod_eq_of_lt (by omega) (by omega), Int.toNat_natCast,
    UInt16.ofNat_toNat]

theorem ofInt_toNat_uint32 (n : UInt32) : UInt32.ofInt (n.toNat : Int) = n := by
  have hlt := n.toNat_lt
  rw [UInt32.ofInt, Int.emod_eq_of_lt (by omega) (by omega), Int.toNat_natCast,
    UInt32.ofNat_toNat]

theorem Ipv6.ofBytes_octets (a : Ipv6) : Ipv6.ofBytes a.octets = a := by
  obtain ⟨octets, hlen⟩ := a
  simp only [ofBytes, Ipv6.mk.injEq]
  exact List.take_left' hlen

def NewConnection.connection (c : NewConnection) (id : Int) (path : String) : Connection where
  id := id
  appId := c.appId
  time := c.time
  pid := c.pid
  reason := c.reason
  blocked := c.blocked
  inherited := c.inherited
  inbound := c.inbound
  protocol := c.protocol
  nearPort := c.nearPort
  farPort := c.farPort
  endpoints := c.endpoints
  path := path

/-- Addresses of either family survive their columns. -/
theorem NewConnection.endpoints_record (c : NewConnection) (id : Int) (path : String) :
    (c.record id path).endpoints = c.endpoints := by
  cases hends : c.endpoints with
  | v4 near far =>
    simp only [Record.endpoints, record, hends, Endpoints.isV6, Bool.false_eq_true, if_false,
      ofInt_toNat_uint32]
  | v6 near far =>
    simp only [Record.endpoints, record, hends, Endpoints.isV6, if_true, Ipv6.ofBytes_octets]

/-- Nothing of a connection is lost, unless its reason is a code that means another one. -/
theorem NewConnection.decode_record (c : NewConnection) (id : Int) (path : String) (code : Int)
    (hreason : c.reason = Reason.ofCode code) :
    (c.record id path).decode = c.connection id path := by
  have hcode : Reason.ofCode c.reason.code = c.reason := by
    rw [hreason, Reason.code_ofCode]
  rw [Record.decode, endpoints_record]
  simp only [record, connection, hcode, ofInt_toNat_uint8, ofInt_toNat_uint16,
    ofInt_toNat_uint32]

namespace Log

structure Authored (log : Log) : Prop where
  texts : ∀ app ∈ log.apps, ∃ path, app.path = .text path
  distinct : ∀ app ∈ log.apps, ∀ app' ∈ log.apps, app.id = app'.id → app = app'
  entries : ∀ e ∈ log.entries, ∃ c : NewConnection, e = c.entry e.id

theorem empty_authored : empty.Authored :=
  ⟨List.forall_mem_nil _, List.forall_mem_nil _, List.forall_mem_nil _⟩

theorem register_authored (log : Log) (path : String) (h : log.Authored) :
    (log.register path).2.Authored := by
  have hentries := h.entries
  rw [← register_entries log path] at hentries
  rcases register_apps log path with hsame | hnew
  · exact ⟨by rw [hsame]; exact h.texts, by rw [hsame]; exact h.distinct, hentries⟩
  · refine ⟨?_, ?_, hentries⟩
    · intro app happ
      rw [hnew] at happ
      rcases List.mem_cons.mp happ with rfl | happ
      · exact ⟨path, rfl⟩
      · exact h.texts app happ
    · intro app happ app' happ' hid
      rw [hnew] at happ happ'
      rcases List.mem_cons.mp happ with rfl | happ <;>
        rcases List.mem_cons.mp happ' with rfl | happ'
      · rfl
      · exact absurd hid (Int.ne_of_gt (lt_nextAppId log app' happ'))
      · exact absurd hid (Int.ne_of_lt (lt_nextAppId log app happ))
      · exact h.distinct app happ app' happ' hid

theorem write_authored (log log' : Log) (w : Write) (outcome : Outcome) (h : log.Authored)
    (hw : log.write w = .ok (outcome, log')) : log'.Authored := by
  rcases write_cases log log' w outcome hw with
    ⟨path, -, -, rfl⟩ | ⟨c, -, -, -, rfl⟩ | ⟨before, -, -, rfl⟩ | ⟨-, -, rfl⟩
  · exact register_authored log path h
  · refine ⟨h.texts, h.distinct, ?_⟩
    intro e he
    rcases List.mem_cons.mp he with rfl | he
    · exact ⟨c, rfl⟩
    · exact h.entries e he
  · exact ⟨h.texts, h.distinct, fun e he => h.entries e (List.mem_of_mem_filter he)⟩
  · exact ⟨List.forall_mem_nil _, List.forall_mem_nil _, List.forall_mem_nil _⟩

theorem run_authored (writes : List Write) : (run writes).Authored :=
  afterAll_induct Authored empty writes empty_authored fun w _ log outcome log' h =>
    write_authored log log' w outcome h

theorem find?_app (log : Log) (h : log.Authored) (app : App) (happ : app ∈ log.apps) :
    log.apps.find? (·.id = app.id) = some app := by
  cases hfind : log.apps.find? (·.id = app.id) with
  | none =>
    have hnone := List.find?_eq_none.mp hfind app happ
    simp only [decide_true, not_true_eq_false] at hnone
  | some found =>
    have hid : found.id = app.id := by simpa using List.find?_some hfind
    rw [h.distinct found (List.mem_of_find?_eq_some hfind) app happ hid]

theorem pathOf?_text (log : Log) (h : log.Authored) (e : Entry) (d : Datum)
    (hd : log.pathOf? e = some d) : ∃ path, d = .text path := by
  unfold pathOf? at hd
  split at hd
  · obtain ⟨app, hfind, rfl⟩ := Option.map_eq_some_iff.mp hd
    exact h.texts app (List.mem_of_find?_eq_some hfind)
  · exact nomatch hd

/-- No read of such a log fails. -/
theorem fetch_of_authored (log : Log) (h : log.Authored) (id : Int) :
    ∃ record, log.fetch id = .ok record := by
  rw [fetch]
  cases he : log.entry? id with
  | none => exact ⟨none, rfl⟩
  | some e =>
    obtain ⟨hmem, -⟩ := mem_of_entry? log id e he
    obtain ⟨c, hc⟩ := h.entries e hmem
    cases hpath : log.pathOf? e with
    | none => exact ⟨none, by simp only [hpath]⟩
    | some d =>
      obtain ⟨path, rfl⟩ := pathOf?_text log h e d hpath
      have hread := c.read_entry e.id path
      rw [← hc] at hread
      exact ⟨some (c.record e.id path), by simp only [hpath, hread, Except.map]⟩

/-- The writes that leave the connection of an identifier alone. -/
def Write.Spares (id : Int) : Write → Prop
  | .prune before => before ≤ id
  | .clear => False
  | _ => True

structure Keeps (log : Log) (c : NewConnection) (id : Int) (path : String) : Prop where
  given : id ≤ log.lastId
  entry : log.entry? id = some (c.entry id)
  app : log.apps.find? (·.id = c.appId) = some ⟨c.appId, .text path⟩

/-- A connection that was appended is kept. -/
theorem append_keeps (log log' : Log) (c : NewConnection) (id : Int) (path : String)
    (h : log.Authored) (happ : ⟨c.appId, .text path⟩ ∈ log.apps)
    (hw : log.write (.append c) = .ok (.id id, log')) : log'.Keeps c id path := by
  rcases write_cases log log' (.append c) (.id id) hw with
    ⟨path, hother, -, -⟩ | ⟨c', hc, -, hid, rfl⟩ | ⟨before, hother, -, -⟩ | ⟨hother, -, -⟩
  · exact nomatch hother
  · cases hc
    cases hid
    exact ⟨Int.le_refl _, List.find?_cons_of_pos (decide_eq_true rfl),
      find?_app log h ⟨c.appId, .text path⟩ happ⟩
  · exact nomatch hother
  · exact nomatch hother

/-- A connection stays through every write that spares it. -/
theorem write_keeps (log log' : Log) (w : Write) (outcome : Outcome) (c : NewConnection)
    (id : Int) (path : String) (h : log.Keeps c id path) (hspares : w.Spares id)
    (hw : log.write w = .ok (outcome, log')) : log'.Keeps c id path := by
  rcases write_cases log log' w outcome hw with
    ⟨other, -, -, rfl⟩ | ⟨c', -, -, -, rfl⟩ | ⟨before, rfl, -, rfl⟩ | ⟨rfl, -, -⟩
  · refine ⟨by rw [register_lastId]; exact h.given, by rw [entry?_register]; exact h.entry, ?_⟩
    rcases register_apps log other with hsame | hnew
    · rw [hsame]
      exact h.app
    · have hlt := lt_nextAppId log _ (List.mem_of_find?_eq_some h.app)
      rw [hnew, List.find?_cons_of_neg (by simpa using Int.ne_of_gt hlt)]
      exact h.app
  · have hgiven := h.given
    have hne : (c'.entry ((log.lastId : Int) + 1)).id ≠ id := by
      change (log.lastId : Int) + 1 ≠ id
      omega
    refine ⟨by simp only; omega, ?_, h.app⟩
    unfold entry?
    rw [List.find?_cons_of_neg (by simpa using hne)]
    exact h.entry
  · refine ⟨h.given, ?_, h.app⟩
    have hkept : before ≤ id := hspares
    rw [← h.entry]
    unfold entry?
    rw [List.find?_filter]
    congr 1
    funext e
    simp only [decide_eq_true_eq, decide_eq_decide]
    exact ⟨fun he => he.2, fun he => ⟨he ▸ hkept, he⟩⟩
  · exact hspares.elim

theorem afterAll_keeps (log : Log) (writes : List Write) (c : NewConnection) (id : Int)
    (path : String) (h : log.Keeps c id path) (hspared : ∀ w ∈ writes, w.Spares id) :
    (log.afterAll writes).Keeps c id path :=
  afterAll_induct (fun log => log.Keeps c id path) log writes h
    fun w hw log outcome log' h => write_keeps log log' w outcome c id path h (hspared w hw)

/-- What is kept is fetched as it was stored. -/
theorem fetch_of_keeps (log : Log) (c : NewConnection) (id : Int) (path : String)
    (h : log.Keeps c id path) : log.fetch id = .ok (some (c.record id path)) := by
  have hpath : log.pathOf? (c.entry id) = some (.text path) := by
    simp only [pathOf?, NewConnection.entry, h.app, Option.map_some]
  simp only [fetch, h.entry, hpath, NewConnection.read_entry, Except.map]

end Log

end ConnectionLog
