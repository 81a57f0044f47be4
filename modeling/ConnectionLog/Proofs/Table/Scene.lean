import ConnectionLog.Command.Seed
import ConnectionLog.Proofs.Log.Contents
import ConnectionLog.Proofs.Table.Actions

/-!
A table and all that happens around it: what a viewer does with it, names of hosts that
come in and go from outside, and changes of what is stored. A turn that fails leaves
nothing behind, so a run goes on as if it had not been taken. And where the records that
are stored stay as they are, a cell shows its record under the names and the setting of
the moment, whatever was read before.
-/
namespace ConnectionLog

variable {ε : Type}

namespace Table

inductive Reply where
  | done
  | plan (plan : Plan)
  | row (value : Row)
  | text (text : Option String)
  | events (events : List Event)

inductive Fault (ε : Type) where
  | bounds (cause : UpdateError ε)
  | read (cause : ReadError ε)

def reply (t : Table) (source : Source ε) : Action → Except (Fault ε) Reply
  | .update => ((t.update source).map fun result => Reply.plan result.1).mapError .bounds
  | .refresh => .ok .done
  | .setResolve _ => .ok .done
  | .read row => ((t.read source row).answer.map .row).mapError .read
  | .readCell row column role =>
    ((t.readCell source row column role).answer.map .text).mapError .read
  | .takeEvents => .ok (.events t.takeEvents.1)

/-- An action that fails leaves the table as it is. -/
theorem act_of_reply_error (t : Table) (source : Source ε) (a : Action) (fault : Fault ε)
    (h : t.reply source a = .error fault) : t.act source a = t := by
  cases a with
  | update =>
    rw [reply] at h
    rw [act]
    cases hupdate : t.update source with
    | ok result =>
      rw [hupdate] at h
      cases h
    | error e => rfl
  | read row =>
    rw [reply] at h
    cases hanswer : (t.read source row).answer with
    | ok value =>
      rw [hanswer] at h
      cases h
    | error e =>
      have hwindow := t.window.read_error source row e hanswer
      rw [act, after, read, hwindow]
  | readCell row column role =>
    rw [reply, readCell] at h
    cases hanswer : (t.read source row).answer with
    | ok value =>
      rw [hanswer] at h
      cases h
    | error e =>
      have hwindow := t.window.read_error source row e hanswer
      rw [act, after, readCell, read, hwindow]
  | refresh => cases h
  | setResolve resolve => cases h
  | takeEvents => cases h

/-- A cell shows the connection that a fetch would give now, and nothing of what was read
before. -/
theorem readCell_of_current (t : Table) (source : Source ε) (row : Nat) (column : Column)
    (role : Role) (h : t.window.Current source) :
    (t.readCell source row column role).answer =
      (Window.plainRead t.span source row).map fun value =>
        value.bind fun c => c.cellText? t.view column role := by
  rw [readCell, read, Window.read_of_current t.window source row h]
  rfl

end Table

structure Scene (ε : Type) where
  table : Table
  source : Source ε

namespace Scene

inductive Turn (ε : Type) where
  | act (a : Table.Action)
  | name (address name : String)
  | forgetNames
  | store (source : Source ε)

def step (s : Scene ε) : Turn ε → Scene ε
  | .act a => { s with table := s.table.act s.source a }
  | .name address name => { s with table := s.table.setHost address name }
  | .forgetNames => { s with table := { s.table with hosts := HostNames.empty } }
  | .store source => { s with source }

/-- Only the actions of the viewer can fail. -/
def reply (s : Scene ε) : Turn ε → Except (Table.Fault ε) Table.Reply
  | .act a => s.table.reply s.source a
  | _ => .ok .done

def run (s : Scene ε) (turns : List (Turn ε)) : Scene ε := turns.foldl step s

def trace (s : Scene ε) : List (Turn ε) → List (Turn ε × Except (Table.Fault ε) Table.Reply)
  | [] => []
  | turn :: rest => (turn, s.reply turn) :: (s.step turn).trace rest

def succeeded (s : Scene ε) (turns : List (Turn ε)) : List (Turn ε) :=
  ((s.trace turns).filter (·.2.isOk)).map (·.1)

/-- A turn that fails changes nothing. -/
theorem step_of_reply_error (s : Scene ε) (turn : Turn ε) (fault : Table.Fault ε)
    (h : s.reply turn = .error fault) : s.step turn = s := by
  cases turn with
  | act a =>
    have htable := s.table.act_of_reply_error s.source a fault h
    rw [step, htable]
  | name address name => cases h
  | forgetNames => cases h
  | store source => cases h

theorem succeeded_cons_of_ok (s : Scene ε) (turn : Turn ε) (rest : List (Turn ε))
    (reply : Table.Reply) (h : s.reply turn = .ok reply) :
    s.succeeded (turn :: rest) = turn :: (s.step turn).succeeded rest := by
  rw [succeeded, trace, List.filter_cons_of_pos (by rw [h]; rfl), List.map_cons]
  rfl

theorem succeeded_cons_of_error (s : Scene ε) (turn : Turn ε) (rest : List (Turn ε))
    (fault : Table.Fault ε) (h : s.reply turn = .error fault) :
    s.succeeded (turn :: rest) = s.succeeded rest := by
  rw [succeeded, trace, List.filter_cons_of_neg (by rw [h]; exact Bool.false_ne_true),
    s.step_of_reply_error turn fault h]
  rfl

/-- The turns that did not fail are answered as before if they are all there is. -/
theorem answers_succeeded (s : Scene ε) (turns : List (Turn ε)) :
    s.trace (s.succeeded turns) = (s.trace turns).filter (·.2.isOk) := by
  induction turns generalizing s with
  | nil => rfl
  | cons turn rest ih =>
    cases h : s.reply turn with
    | ok reply =>
      rw [s.succeeded_cons_of_ok turn rest reply h, trace, trace, ih,
        List.filter_cons_of_pos (by rw [h]; rfl)]
    | error fault =>
      rw [s.succeeded_cons_of_error turn rest fault h, ih, trace,
        List.filter_cons_of_neg (by rw [h]; exact Bool.false_ne_true),
        s.step_of_reply_error turn fault h]

/-- The turns that failed made no difference. -/
theorem run_succeeded (s : Scene ε) (turns : List (Turn ε)) :
    s.run (s.succeeded turns) = s.run turns := by
  induction turns generalizing s with
  | nil => rfl
  | cons turn rest ih =>
    cases h : s.reply turn with
    | ok reply =>
      rw [s.succeeded_cons_of_ok turn rest reply h]
      exact ih (s.step turn)
    | error fault =>
      rw [s.succeeded_cons_of_error turn rest fault h, ih]
      change s.run rest = (s.step turn).run rest
      rw [s.step_of_reply_error turn fault h]

/-- Without the turns that failed a run gives the same answers and comes to the same end.
For nothing is changed by a turn that fails. -/
theorem trace_succeeded (s : Scene ε) (turns : List (Turn ε)) :
    s.trace (s.succeeded turns) = (s.trace turns).filter (·.2.isOk) ∧
      s.run (s.succeeded turns) = s.run turns ∧
      ∀ turn fault, (s.run turns).reply turn = .error fault →
        (s.run turns).step turn = s.run turns := by
  refine ⟨s.answers_succeeded turns, s.run_succeeded turns, ?_⟩
  intro turn fault h
  exact step_of_reply_error (s.run turns) turn fault h

def broken : Source Unit := ⟨.error (), fun _ => .error ()⟩

def halfBroken : Scene Unit :=
  ⟨Table.new (HostNames.empty.insert "10.0.0.1" "printer") false,
    ⟨.ok ⟨1, 2⟩, fun id => if id = 1 then .ok none else .error ()⟩⟩

def faultyTurns : List (Turn Unit) :=
  [.act .update, .act (.read 0), .act (.read 1), .store broken, .act .update]

/-- The row that was read stays cached, and its reset is announced once. -/
theorem trace_succeeded_faults :
    halfBroken.succeeded faultyTurns = [.act .update, .act (.read 0), .store broken] ∧
      halfBroken.run (halfBroken.succeeded faultyTurns) = halfBroken.run faultyTurns ∧
      (halfBroken.run faultyTurns).table.window.cache.entry = some ⟨0, 1, none⟩ ∧
      (halfBroken.run faultyTurns).table.pending = [.reset] ∧
      (halfBroken.run faultyTurns).step (.act (.read 1)) = halfBroken.run faultyTurns := by
  obtain ⟨-, hrun, hfault⟩ := trace_succeeded halfBroken faultyTurns
  have hread : (halfBroken.run faultyTurns).reply (.act (.read 1)) =
      .error (.read (.fetchFailed 2 ())) := rfl
  exact ⟨rfl, hrun, rfl, rfl, hfault _ _ hread⟩

/-- A turn that leaves the records that are stored as they are. -/
def Turn.Steady (fetch : Int → Except ε (Option Record)) : Turn ε → Prop
  | .store source => source.fetch = fetch
  | _ => True

theorem step_current (s : Scene ε) (turn : Turn ε) (hturn : turn.Steady s.source.fetch)
    (h : s.table.window.Current s.source) :
    (s.step turn).source.fetch = s.source.fetch ∧
      (s.step turn).table.window.Current (s.step turn).source := by
  cases turn with
  | act a =>
    refine ⟨rfl, ?_⟩
    change (s.table.act s.source a).window.Current s.source
    rw [Table.act_window]
    exact Window.run_current _ s.source _ (Table.moves_steady s.table s.source a) h
  | name address name => exact ⟨rfl, h⟩
  | forgetNames => exact ⟨rfl, h⟩
  | store source => exact ⟨hturn, h.congr _ s.source source hturn⟩

/-- What is cached stays what a fetch would give. -/
theorem run_current (s : Scene ε) (turns : List (Turn ε))
    (hturns : ∀ turn ∈ turns, turn.Steady s.source.fetch)
    (h : s.table.window.Current s.source) :
    (s.run turns).source.fetch = s.source.fetch ∧
      (s.run turns).table.window.Current (s.run turns).source := by
  induction turns generalizing s with
  | nil => exact ⟨rfl, h⟩
  | cons turn rest ih =>
    obtain ⟨hfetch, hcurrent⟩ := s.step_current turn (hturns turn List.mem_cons_self) h
    rw [← hfetch]
    refine ih (s.step turn) (fun turn' hturn' => ?_) hcurrent
    rw [hfetch]
    exact hturns turn' (List.mem_cons_of_mem turn hturn')

/-- After a run that leaves the records as they are, a cell of a row that the table has shows
the record of its identifier under the setting and the names of hosts that there are by then,
and is blank without a record. What was read before makes no difference. -/
theorem readCell_run (hosts : HostNames) (resolve : Bool) (source : Source ε)
    (turns : List (Turn ε)) (hturns : ∀ turn ∈ turns, turn.Steady source.fetch) (row : Nat)
    (column : Column) (role : Role) :
    let s := run ⟨Table.new hosts resolve, source⟩ turns
    (row < s.table.rows ∧ (row : Int) ≤ maxId ∧ s.table.span.first + row ≤ maxId →
      s.reply (.act (.readCell row column role)) =
        match source.fetch (s.table.span.first + row) with
        | .ok (some record) =>
          .ok (.text (record.decode.cellText? ⟨s.table.resolve, s.table.hosts⟩ column role))
        | .ok none => .ok (.text none)
        | .error cause => .error (.read (.fetchFailed (s.table.span.first + row) cause))) ∧
    (¬ (row < s.table.rows ∧ (row : Int) ≤ maxId ∧ s.table.span.first + row ≤ maxId) →
      s.reply (.act (.readCell row column role)) =
        .error (.read (.outOfRange row s.table.rows))) := by
  intro s
  have hnew : (Table.new hosts resolve).window.Current source := by
    intro e he
    exact nomatch he
  obtain ⟨hfetch, hcurrent⟩ := run_current ⟨Table.new hosts resolve, source⟩ turns hturns hnew
  have hreply : s.reply (.act (.readCell row column role)) =
      (((Window.plainRead s.table.span s.source row).map fun value =>
        value.bind fun c => c.cellText? s.table.view column role).map
          Table.Reply.text).mapError .read := by
    rw [reply, Table.reply, Table.readCell_of_current _ _ _ _ _ hcurrent]
  refine ⟨?_, ?_⟩
  · rintro ⟨hrow, hmax, hid⟩
    have hsome := (Span.id?_eq_some_iff s.table.span row _).mpr ⟨hrow, hmax, hid, rfl⟩
    rw [hreply, Window.plainRead, hsome]
    simp only
    rw [Window.load_congr source s.source _ hfetch, Window.load_eq]
    rcases source.fetch (s.table.span.first + row) with cause | _ | record <;> rfl
  · intro hout
    have hnone : s.table.span.id? row = none := by
      rw [Option.eq_none_iff_forall_ne_some]
      intro id hsome
      obtain ⟨hrow, hmax, hid, -⟩ := (Span.id?_eq_some_iff s.table.span row id).mp hsome
      exact hout ⟨hrow, hmax, hid⟩
    rw [hreply, Window.plainRead, hnone]
    rfl

/-- A cell is read and its host gets a name afterwards. The row is cached all the time. -/
theorem readCell_run_named :
    let record := (Seed.connection [1] 0 false 0).record 1 "/usr/bin/curl"
    let source : Source Unit := ⟨.ok ⟨1, 1⟩, fun _ => .ok (some record)⟩
    let turns : List (Turn Unit) :=
      [.act .update, .act (.readCell 0 .farEnd .display), .name "203.0.0.0" "example.com"]
    let s := run ⟨Table.new HostNames.empty true, source⟩ turns
    s.table.window.cache.entry = some ⟨0, 1, some record.decode⟩ ∧
      s.reply (.act (.readCell 0 .farEnd .display)) = .ok (.text (some "example.com:443")) ∧
      s.reply (.act (.readCell 1 .farEnd .display)) = .error (.read (.outOfRange 1 1)) := by
  intro record source turns s
  have hturns : ∀ turn ∈ turns, turn.Steady source.fetch := by
    simp [turns, Turn.Steady]
  obtain ⟨hshown, -⟩ := readCell_run HostNames.empty true source turns hturns 0 .farEnd .display
  obtain ⟨-, hout⟩ := readCell_run HostNames.empty true source turns hturns 1 .farEnd .display
  have htext : record.decode.cellText? ⟨s.table.resolve, s.table.hosts⟩ .farEnd .display =
      some "example.com:443" := by decide +kernel
  refine ⟨rfl, ?_, hout (by decide)⟩
  rw [hshown (by decide)]
  simp only [source]
  rw [htext]

end Scene

end ConnectionLog
