import ConnectionLog.Log.Repair
import ConnectionLog.Proofs.Text.Encoding

/-!
What makes the read of a connection fail. Columns may hold values of any kind; a record is
read exactly if each holds one of the kind it is meant for, and otherwise the fault is that
of the first column, in the order of reading, that does not. Without the connection or its
application there is nothing to read, whatever the columns hold.
-/
namespace ConnectionLog

namespace Field

def readingOrder : List Field :=
  [near4, far4, near6, far6, id, appId, time, pid, reason, blocked, inherited, inbound, protocol,
    nearPort, farPort, path]

def Accepts : Field → Datum → Prop
  | near4, d | far4, d => d = .null ∨ ∃ value, d = .integer value
  | near6, d | far6, d => d = .null ∨ ∃ bytes, d = .blob bytes
  | path, d => ∃ text, d = .text text ∨ d = .malformed (Utf8.bytesOf text)
  | _, d => ∃ value, d = .integer value

def refusal (f : Field) (d : Datum) : DatabaseFault :=
  match f, d with
  | path, .malformed bytes =>
    match Utf8.decode bytes with
    | .error fault => .malformedText path fault
    | .ok _ => .wrongKind path d.kindName
  | f, d => .wrongKind f d.kindName

end Field

def DatabaseFault.field? : DatabaseFault → Option Field
  | .wrongKind field _ | .malformedText field _ => some field
  | _ => none

theorem Field.field?_refusal (f : Field) (d : Datum) : (f.refusal d).field? = some f := by
  fun_cases f.refusal d <;> rfl

structure Entry.Shows (e : Entry) (path : Datum) (r : Record) : Prop where
  id : r.id = e.id
  appId : e.appId = .integer r.appId
  time : e.time = .integer r.time
  pid : e.pid = .integer r.pid
  reason : e.reason = .integer r.reason
  blocked : ∃ n, e.blocked = .integer n ∧ (r.blocked = true ↔ n ≠ 0)
  inherited : ∃ n, e.inherited = .integer n ∧ (r.inherited = true ↔ n ≠ 0)
  inbound : ∃ n, e.inbound = .integer n ∧ (r.inbound = true ↔ n ≠ 0)
  protocol : e.protocol = .integer r.protocol
  nearPort : e.nearPort = .integer r.nearPort
  farPort : e.farPort = .integer r.farPort
  isV6 : r.isV6 = true ↔ e.near4 = .null
  near4 : e.near4 = .integer r.near4 ∨ e.near4 = .null ∧ r.near4 = 0
  far4 : e.far4 = .integer r.far4 ∨ e.far4 = .null ∧ r.far4 = 0
  near6 : e.near6 = .blob r.near6 ∨ e.near6 = .null ∧ r.near6 = []
  far6 : e.far6 = .blob r.far6 ∨ e.far6 = .null ∧ r.far6 = []
  path : path = .text r.path ∨ path = .malformed (Utf8.bytesOf r.path)

/-- The result of reading columns in order: all of them are accepted, or the fault is that
of the first that is not. -/
inductive Reads {α : Type} (value : Field → Datum) (P : α → Prop) :
    List Field → Except DatabaseFault α → Prop where
  | done (a : α) (h : P a) : Reads value P [] (.ok a)
  | refused (f : Field) (rest : List Field) (h : ¬ f.Accepts (value f)) :
      Reads value P (f :: rest) (.error (f.refusal (value f)))
  | accepted (f : Field) (rest : List Field) (result : Except DatabaseFault α)
      (h : f.Accepts (value f)) (hrest : Reads value P rest result) :
      Reads value P (f :: rest) result

namespace Reads

variable {α : Type} (value : Field → Datum) (P : α → Prop) (order : List Field)
  (result : Except DatabaseFault α)

/-- Reading fails exactly if some column is refused. -/
theorem error_iff (h : Reads value P order result) :
    (∃ fault, result = .error fault) ↔ ∃ f ∈ order, ¬ f.Accepts (value f) := by
  induction h with
  | done a h => simp only [reduceCtorEq, List.not_mem_nil, false_and, exists_false]
  | refused f rest h => exact iff_of_true ⟨_, rfl⟩ ⟨f, List.mem_cons_self, h⟩
  | accepted f rest result h hrest ih =>
    simp only [ih, List.mem_cons, exists_eq_or_imp, h, not_true_eq_false, false_or]

/-- The fault is that of the first column that is refused. -/
theorem eq_refusal (h : Reads value P order result) (before after : List Field) (f : Field)
    (horder : order = before ++ f :: after) (hbefore : ∀ g ∈ before, g.Accepts (value g))
    (hf : ¬ f.Accepts (value f)) : result = .error (f.refusal (value f)) := by
  induction h generalizing before with
  | done a h => simp at horder
  | refused g rest h =>
    cases before with
    | nil =>
      cases horder
      rfl
    | cons first before =>
      cases horder
      exact absurd (hbefore g List.mem_cons_self) h
  | accepted g rest result h hrest ih =>
    cases before with
    | nil =>
      cases horder
      exact absurd h hf
    | cons first before =>
      cases horder
      exact ih before rfl fun g hg => hbefore g (List.mem_cons_of_mem _ hg)

/-- Columns that are all accepted are read. -/
theorem exists_of_accepts (h : Reads value P order result)
    (hall : ∀ f ∈ order, f.Accepts (value f)) : ∃ a, result = .ok a ∧ P a := by
  induction h with
  | done a h => exact ⟨a, rfl, h⟩
  | refused f rest h => exact absurd (hall f List.mem_cons_self) h
  | accepted f rest result h hrest ih =>
    exact ih fun g hg => hall g (List.mem_cons_of_mem _ hg)

theorem of_ok (h : Reads value P order result) (a : α) (ha : result = .ok a) : P a := by
  induction h with
  | done b h =>
    cases ha
    exact h
  | refused f rest h => cases ha
  | accepted f rest result h hrest ih => exact ih ha

theorem map {β : Type} (Q : β → Prop) (f : α → β) (hf : ∀ a, P a → Q (f a))
    (h : Reads value P order result) : Reads value Q order (result.map f) := by
  induction h with
  | done a h => exact .done (f a) (hf a h)
  | refused g rest h => exact .refused g rest h
  | accepted g rest result h hrest ih => exact .accepted g rest _ h ih

end Reads

def Field.Gives {α : Type} (f : Field) (d : Datum) (Q : α → Prop)
    (x : Except DatabaseFault α) : Prop :=
  (f.Accepts d ∧ ∃ a, x = .ok a ∧ Q a) ∨ (¬ f.Accepts d ∧ x = .error (f.refusal d))

/-- One column is read, and then the others. -/
theorem Field.Gives.bind {α β : Type} {value : Field → Datum} {P : β → Prop} {f : Field}
    {rest : List Field} {Q : α → Prop} {x : Except DatabaseFault α}
    {next : α → Except DatabaseFault β} (h : f.Gives (value f) Q x)
    (hnext : ∀ a, Q a → Reads value P rest (next a)) :
    Reads value P (f :: rest) (x >>= next) := by
  rcases h with ⟨haccepts, a, rfl, ha⟩ | ⟨hrefuses, rfl⟩
  · exact .accepted f rest (next a) haccepts (hnext a ha)
  · exact .refused f rest hrefuses

theorem Field.refusal_of_ne_path (f : Field) (d : Datum) (hf : f ≠ .path) :
    f.refusal d = .wrongKind f d.kindName := by
  cases f <;> first | rfl | exact absurd rfl hf

namespace Datum

variable (f : Field) (d : Datum)

theorem asInteger_gives (hf : f.Accepts d = ∃ n, d = .integer n) (hpath : f ≠ .path) :
    f.Gives d (fun n => d = .integer n) (d.asInteger f) := by
  rw [Field.Gives, hf, f.refusal_of_ne_path d hpath]
  cases d with
  | integer n => exact .inl ⟨⟨n, rfl⟩, n, rfl, rfl⟩
  | _ => exact .inr ⟨by simp, rfl⟩

theorem asFlag_gives (hf : f.Accepts d = ∃ n, d = .integer n) (hpath : f ≠ .path) :
    f.Gives d (fun b => ∃ n, d = .integer n ∧ (b = true ↔ n ≠ 0)) (d.asFlag f) := by
  rcases asInteger_gives f d hf hpath with ⟨haccepts, n, hread, hn⟩ | ⟨hrefuses, hread⟩
  · refine .inl ⟨haccepts, decide (n ≠ 0), ?_, n, hn, decide_eq_true_iff⟩
    rw [asFlag, hread]
    rfl
  · refine .inr ⟨hrefuses, ?_⟩
    rw [asFlag, hread]
    rfl

/-- What is read from a column that may be empty, with what stands for nothing. -/
def IsHeld {α : Type} (d : Datum) (form : α → Datum) (nothing : α) (read : Option α) : Prop :=
  (read.isNone = true ↔ d = .null) ∧
    (d = form (read.getD nothing) ∨ d = .null ∧ read.getD nothing = nothing)

theorem asInteger?_gives (hf : f.Accepts d = (d = .null ∨ ∃ n, d = .integer n))
    (hpath : f ≠ .path) :
    f.Gives d (fun n => IsHeld d .integer 0 n) (d.asInteger? f) := by
  rw [Field.Gives, hf, f.refusal_of_ne_path d hpath]
  cases d with
  | null => exact .inl ⟨.inl rfl, none, rfl, by simp [IsHeld]⟩
  | integer n => exact .inl ⟨.inr ⟨n, rfl⟩, some n, rfl, by simp [IsHeld]⟩
  | _ => exact .inr ⟨by simp, rfl⟩

theorem asBytes?_gives (hf : f.Accepts d = (d = .null ∨ ∃ bytes, d = .blob bytes))
    (hpath : f ≠ .path) :
    f.Gives d (fun bytes => IsHeld d .blob [] bytes) (d.asBytes? f) := by
  rw [Field.Gives, hf, f.refusal_of_ne_path d hpath]
  cases d with
  | null => exact .inl ⟨.inl rfl, none, rfl, by simp [IsHeld]⟩
  | blob bytes => exact .inl ⟨.inr ⟨bytes, rfl⟩, some bytes, rfl, by simp [IsHeld]⟩
  | _ => exact .inr ⟨by simp, rfl⟩

theorem asText_gives :
    Field.Gives .path d (fun text => d = .text text ∨ d = .malformed (Utf8.bytesOf text))
      (d.asText .path) := by
  unfold Field.Gives
  cases d with
  | text text => exact .inl ⟨⟨text, .inl rfl⟩, text, rfl, .inl rfl⟩
  | malformed bytes =>
    cases hdecode : Utf8.decode bytes with
    | ok text =>
      have hbytes := (Utf8.decode_eq_ok_iff bytes text).mp hdecode
      refine .inl ⟨⟨text, .inr (congrArg malformed hbytes)⟩, text, ?_, ?_⟩
      · simp only [asText, hdecode]
      · exact .inr (congrArg malformed hbytes)
    | error fault =>
      refine .inr ⟨?_, by simp only [asText, Field.refusal, hdecode]⟩
      rintro ⟨text, htext | hbytes⟩
      · cases htext
      · rw [malformed.injEq, ← Utf8.decode_eq_ok_iff, hdecode] at hbytes
        cases hbytes
  | _ => exact .inr ⟨by simp [Field.Accepts], rfl⟩

end Datum

/-- The columns are read in order, and the record shows what they hold. -/
theorem Entry.read_reads (e : Entry) (path : Datum) :
    Reads (e.value path) (e.Shows path) Field.readingOrder (e.read path) := by
  unfold read Field.readingOrder
  refine Field.Gives.bind (e.near4.asInteger?_gives .near4 rfl nofun) fun near4 hnear4 => ?_
  refine Field.Gives.bind (e.far4.asInteger?_gives .far4 rfl nofun) fun far4 hfar4 => ?_
  refine Field.Gives.bind (e.near6.asBytes?_gives .near6 rfl nofun) fun near6 hnear6 => ?_
  refine Field.Gives.bind (e.far6.asBytes?_gives .far6 rfl nofun) fun far6 hfar6 => ?_
  -- The identifier is part of the entry, so its column is never refused.
  refine .accepted .id _ _ ⟨e.id, rfl⟩ ?_
  refine Field.Gives.bind (e.appId.asInteger_gives .appId rfl nofun) fun appId happId => ?_
  refine Field.Gives.bind (e.time.asInteger_gives .time rfl nofun) fun time htime => ?_
  refine Field.Gives.bind (e.pid.asInteger_gives .pid rfl nofun) fun pid hpid => ?_
  refine Field.Gives.bind (e.reason.asInteger_gives .reason rfl nofun) fun reason hreason => ?_
  refine Field.Gives.bind (e.blocked.asFlag_gives .blocked rfl nofun) fun blocked hblocked => ?_
  refine Field.Gives.bind (e.inherited.asFlag_gives .inherited rfl nofun)
    fun inherited hinherited => ?_
  refine Field.Gives.bind (e.inbound.asFlag_gives .inbound rfl nofun) fun inbound hinbound => ?_
  refine Field.Gives.bind (e.protocol.asInteger_gives .protocol rfl nofun)
    fun protocol hprotocol => ?_
  refine Field.Gives.bind (e.nearPort.asInteger_gives .nearPort rfl nofun)
    fun nearPort hnearPort => ?_
  refine Field.Gives.bind (e.farPort.asInteger_gives .farPort rfl nofun)
    fun farPort hfarPort => ?_
  refine Field.Gives.bind path.asText_gives fun text htext => ?_
  exact .done _ ⟨rfl, happId, htime, hpid, hreason, hblocked, hinherited, hinbound, hprotocol,
    hnearPort, hfarPort, hnear4.1, hnear4.2, hfar4.2, hnear6.2, hfar6.2, htext⟩

theorem Field.mem_readingOrder (f : Field) : f ∈ readingOrder := by
  cases f <;> decide

namespace Log

theorem pathOf?_eq_none_iff (log : Log) (e : Entry) :
    log.pathOf? e = none ↔ ∀ app ∈ log.apps, e.appId ≠ .integer app.id := by
  unfold pathOf?
  split
  · rename_i id hid
    simp only [Option.map_eq_none_iff, List.find?_eq_none, decide_eq_true_eq, hid, ne_eq,
      Datum.integer.injEq, eq_comm (a := id)]
  · rename_i hother
    exact iff_of_true rfl fun app _ happ => hother app.id happ

/-- Fetching reads the columns of an entry whose application is there. -/
theorem fetch_reads (log : Log) (id : Int) (e : Entry) (path : Datum)
    (he : log.entry? id = some e) (hpath : log.pathOf? e = some path) :
    Reads (e.value path) (fun found => ∃ record, found = some record ∧ e.Shows path record)
      Field.readingOrder (log.fetch id) := by
  have hfetch : log.fetch id = (e.read path).map some := by simp only [fetch, he, hpath]
  rw [hfetch]
  exact (e.read_reads path).map _ _ _ _ _ some fun record hshows => ⟨record, rfl, hshows⟩

/-- There is no record exactly if the connection or its application is missing. -/
theorem fetch_eq_none_iff (log : Log) (id : Int) :
    log.fetch id = .ok none ↔
      ∀ e, log.entry? id = some e → ∀ app ∈ log.apps, e.appId ≠ .integer app.id := by
  simp only [← pathOf?_eq_none_iff]
  constructor
  · intro hnone e he
    cases hpath : log.pathOf? e with
    | none => rfl
    | some path =>
      obtain ⟨record, hfound, -⟩ := (log.fetch_reads id e path he hpath).of_ok _ _ _ _ none hnone
      cases hfound
  · intro h
    rw [fetch]
    cases he : log.entry? id with
    | none => rfl
    | some e => simp only [h e he]

/-- There is no record without the connection or its application, whatever the columns hold.
With both, the read fails exactly if some column holds what it is not meant for, and the
fault is that of the first such column in the order of reading; otherwise the record shows
what the columns hold. -/
theorem fetch_columns (log : Log) (id : Int) :
    (log.fetch id = .ok none ↔
      ∀ e, log.entry? id = some e → ∀ app ∈ log.apps, e.appId ≠ .integer app.id) ∧
    (∀ e path, log.entry? id = some e → log.pathOf? e = some path →
      ((∃ fault, log.fetch id = .error fault) ↔ ∃ f : Field, ¬ f.Accepts (e.value path f)) ∧
      (∀ before f after, Field.readingOrder = before ++ f :: after →
        (∀ g ∈ before, g.Accepts (e.value path g)) → ¬ f.Accepts (e.value path f) →
        ∃ fault, log.fetch id = .error fault ∧ fault.field? = some f ∧
          fault = f.refusal (e.value path f)) ∧
      ((∀ f : Field, f.Accepts (e.value path f)) →
        ∃ record, log.fetch id = .ok (some record) ∧ e.Shows path record)) ∧
    Field.readingOrder.map Field.position =
      [11, 12, 13, 14, 0, 1, 2, 3, 4, 5, 6, 7, 8, 9, 10, 15] := by
  refine ⟨log.fetch_eq_none_iff id, fun e path he hpath => ?_, rfl⟩
  have hreads := log.fetch_reads id e path he hpath
  refine ⟨?_, ?_, ?_⟩
  · rw [hreads.error_iff]
    exact ⟨fun ⟨f, _, hf⟩ => ⟨f, hf⟩, fun ⟨f, hf⟩ => ⟨f, f.mem_readingOrder, hf⟩⟩
  · intro before f after horder hbefore hf
    rw [hreads.eq_refusal _ _ _ _ before after f horder hbefore hf]
    exact ⟨_, rfl, f.field?_refusal _, rfl⟩
  · intro hall
    obtain ⟨found, hfetch, record, rfl, hshows⟩ :=
      hreads.exists_of_accepts _ _ _ _ fun f _ => hall f
    exact ⟨record, hfetch, hshows⟩

/-- A far address that is no integer is what is wrong, although the path is malformed and a
column that stands before it holds a text. -/
theorem fetch_columns_farAddress :
    let columns : Columns := [(.time, .text "now"), (.near4, .null), (.far4, .real)]
    let log : Log := ⟨[⟨1, .malformed [0xFF]⟩], [columns.entry 7], 7⟩
    ∃ fault, log.fetch 7 = .error fault ∧ fault.field? = some .far4 := by
  intro columns log
  obtain ⟨-, hread, -⟩ := fetch_columns log 7
  obtain ⟨-, hfirst, -⟩ := hread (columns.entry 7) (.malformed [0xFF]) rfl rfl
  have hbefore : ∀ g ∈ [Field.near4],
      g.Accepts ((columns.entry 7).value (.malformed [0xFF]) g) := by
    intro g hg
    rw [List.mem_singleton.mp hg]
    exact Or.inl rfl
  have hfar : ¬ Field.far4.Accepts .real := by
    rintro (h | ⟨n, h⟩) <;> cases h
  obtain ⟨fault, hfault, hfield, -⟩ := hfirst [.near4] .far4 _ rfl hbefore hfar
  exact ⟨fault, hfault, hfield⟩

end Log

end ConnectionLog
