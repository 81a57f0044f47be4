import ConnectionLog.Proofs.Log.Contents

/-!
Runs of writes that keep to the rule of the log: a connection is appended for an
application by the identifier that registering it gave, unless the log was cleared
in between. In a log that comes of such a run every connection has its application.
-/
namespace ConnectionLog.Log

/-- An identifier that registering an application gave in the course of a run, with
no clearing since. -/
def Registered (writes : List Write) (id : Int) : Prop :=
  ∃ before path rest, writes = before ++ .register path :: rest ∧
    ((run before).register path).1 = id ∧ ∀ w ∈ rest, w ≠ .clear

def Lawful (writes : List Write) : Prop :=
  ∀ before c rest, writes = before ++ .append c :: rest → Registered before c.appId

theorem mem_apps_after (log : Log) (w : Write) (app : App) (h : app ∈ log.apps)
    (hw : w ≠ .clear) : app ∈ (log.after w).apps := by
  refine after_induct (fun log' => app ∈ log'.apps) log w h ?_
  intro outcome log' hwrite
  rcases write_cases log log' w outcome hwrite with
    ⟨path, -, -, rfl⟩ | ⟨c, -, -, -, rfl⟩ | ⟨before, -, -, rfl⟩ | ⟨rfl, -, -⟩
  · rcases register_apps log path with hsame | hnew
    · rw [hsame]
      exact h
    · rw [hnew]
      exact List.mem_cons_of_mem _ h
  · exact h
  · exact h
  · exact absurd rfl hw

/-- An application that was registered is there. -/
theorem registered_mem (writes : List Write) (id : Int) (h : Registered writes id) :
    ∃ app ∈ (run writes).apps, app.id = id := by
  obtain ⟨before, path, rest, rfl, hid, hrest⟩ := h
  induction rest using List.reverseRecOn with
  | nil =>
    rw [run_append_singleton]
    obtain ⟨app, hmem, happ⟩ := register_mem (run before) path
    exact ⟨app, hmem, happ.trans hid⟩
  | append_singleton rest w ih =>
    have hkept : ∀ w' ∈ rest, w' ≠ .clear := fun w' hw' =>
      hrest w' (List.mem_append_left [w] hw')
    obtain ⟨app, hmem, happ⟩ := ih hkept
    have hw : w ≠ .clear := hrest w (by simp)
    rw [← List.cons_append, ← List.append_assoc, run_append_singleton]
    exact ⟨app, mem_apps_after _ w app hmem hw, happ⟩

theorem Lawful.of_append (writes more : List Write) (h : Lawful (writes ++ more)) :
    Lawful writes := by
  rintro before c rest rfl
  exact h before c (rest ++ more) (by simp)

/-- A lawful run goes on with any write but an append for an unknown application. -/
theorem lawful_append_singleton (writes : List Write) (w : Write) (h : Lawful writes)
    (hw : ∀ c, w = .append c → Registered writes c.appId) : Lawful (writes ++ [w]) := by
  intro before c rest hsplit
  rcases List.eq_nil_or_concat rest with rfl | ⟨rest', last, rfl⟩
  · obtain ⟨rfl, hlast⟩ := List.append_inj' hsplit rfl
    exact hw c (List.singleton_inj.mp hlast)
  · rw [List.concat_eq_append, ← List.cons_append, ← List.append_assoc] at hsplit
    obtain ⟨rfl, -⟩ := List.append_inj' hsplit rfl
    exact h before c rest' rfl

theorem lawful_allows (writes : List Write) (w : Write) (h : Lawful (writes ++ [w])) :
    (run writes).Allows w := by
  cases w with
  | append c => exact registered_mem writes c.appId (h writes c [] rfl)
  | register path => trivial
  | prune before => trivial
  | clear => trivial

/-- After a lawful run every connection has its application. -/
theorem run_joined (writes : List Write) (h : Lawful writes) : (run writes).Joined := by
  induction writes using List.reverseRecOn with
  | nil => exact empty_joined
  | append_singleton writes w ih =>
    have hjoined := ih (h.of_append writes [w])
    rw [run_append_singleton]
    exact after_induct Joined _ w hjoined fun outcome log' =>
      write_joined _ log' w outcome hjoined (lawful_allows writes w h)

end ConnectionLog.Log
