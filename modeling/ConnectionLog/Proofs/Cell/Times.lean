import ConnectionLog.Cell.Column
import ConnectionLog.Proofs.Calendar.Texts

/-!
What the time cell tells of a connection. It has a text exactly while the calendar reaches to
its time, and that text is the date and the time of day, from which the seconds can be counted
again. So no two times share a text.
-/
namespace ConnectionLog.Connection

open Calendar (Moment)

/-- The time column has a text in both roles, whatever else is shown. -/
theorem cellText?_time (c : Connection) (v : View) (role : Role) :
    c.cellText? v .time role = c.moment?.map (·.text) := by
  cases role <;> rfl

/-- What is shown is the moment of the connection's seconds, and is read back as that. -/
theorem cellText?_time_eq_some (c : Connection) (v : View) (role : Role) (text : String)
    (h : c.cellText? v .time role = some text) :
    ∃ m : Moment, text = m.text ∧ m.IsValid ∧ m.seconds = c.time ∧
      Moment.ofText? text = some m := by
  rw [cellText?_time] at h
  obtain ⟨m, hm, rfl⟩ := Option.map_eq_some_iff.mp h
  obtain ⟨hvalid, hseconds⟩ := Moment.ofSeconds?_spec c.time m hm
  exact ⟨m, rfl, hvalid, hseconds, m.ofText?_text hvalid⟩

/-- The time cell has a text exactly for the times that the calendar reaches to. It is read
back as a valid moment that counts as many seconds, so it tells times apart, and while years
have four figures it is sorted like them. -/
theorem cellText?_time_determines (c : Connection) (v : View) (role : Role) :
    ((∃ text, c.cellText? v .time role = some text) ↔ ∃ m, c.moment? = some m) ∧
    ((∃ m, c.moment? = some m) ↔ -8334601228800 ≤ c.time ∧ c.time ≤ 8210266876799) ∧
    ∀ text, c.cellText? v .time role = some text →
      (∃ m, Moment.ofText? text = some m ∧ m.IsValid ∧ m.seconds = c.time) ∧
      ∀ (c' : Connection) (v' : View) (role' : Role) (text' : String),
        c'.cellText? v' .time role' = some text' →
        (text = text' ↔ c.time = c'.time) ∧
        ∀ m m', Moment.ofText? text = some m → Moment.ofText? text' = some m' →
          m.date.IsPlain → m'.date.IsPlain → (text < text' ↔ c.time < c'.time) := by
  refine ⟨?_, Moment.ofSeconds?_isSome_iff c.time, ?_⟩
  · simp only [cellText?_time, Option.map_eq_some_iff]
    exact ⟨fun ⟨_, m, hm, _⟩ => ⟨m, hm⟩, fun ⟨m, hm⟩ => ⟨_, m, hm, rfl⟩⟩
  · intro text htext
    obtain ⟨m, rfl, hvalid, hseconds, hread⟩ := c.cellText?_time_eq_some v role text htext
    refine ⟨⟨m, hread, hvalid, hseconds⟩, ?_⟩
    intro c' v' role' text' htext'
    obtain ⟨m', rfl, hvalid', hseconds', hread'⟩ :=
      c'.cellText?_time_eq_some v' role' text' htext'
    rw [← hseconds, ← hseconds']
    refine ⟨⟨fun hsame => ?_, fun hsame => ?_⟩, ?_⟩
    · rw [hsame, hread'] at hread
      rw [Option.some.inj hread]
    · rw [m.seconds_inj m' hvalid hvalid' hsame]
    · intro m₁ m₁' hm₁ hm₁' hplain hplain'
      rw [hread] at hm₁
      rw [hread'] at hm₁'
      cases hm₁
      cases hm₁'
      exact m.text_lt_iff m' hvalid hvalid' hplain hplain'

/-- The last second before a leap day and its first one. -/
theorem cellText?_time_determines_leapDay :
    let c (time : Int) : Connection :=
      ⟨1, 1, time, 1000, .rule, false, false, true, 6, 40000, 443, .v4 1 2, "/usr/bin/a"⟩
    let v : View := ⟨false, HostNames.empty⟩
    (c 951782399).cellText? v .time .display = some "2000-02-28 23:59:59" ∧
      (c 951782400).cellText? v .time .display = some "2000-02-29 00:00:00" ∧
      ∃ m, Moment.ofText? "2000-02-29 00:00:00" = some m ∧ m.seconds = 951782400 := by
  intro c v
  have hbefore : (c 951782399).cellText? v .time .display = some "2000-02-28 23:59:59" := by
    decide +kernel
  have hleap : (c 951782400).cellText? v .time .display = some "2000-02-29 00:00:00" := by
    decide +kernel
  obtain ⟨-, -, hread⟩ := cellText?_time_determines (c 951782400) v .display
  obtain ⟨⟨m, hm, -, hseconds⟩, -⟩ := hread _ hleap
  exact ⟨hbefore, hleap, m, hm, hseconds⟩

end ConnectionLog.Connection
