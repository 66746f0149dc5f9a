import Polyglot.Proofs.Overwriting

/-!
# The folder where a command works

A formatter that cannot handle a path upwards is run in the folder of its file. From there the command goes back to the
folder where it began, unless the formatter could not be run.
-/
namespace Polyglot.Formatting

open Effect Shell

variable {w : Workspace} (l : Language) (formatter : List String) (ignore : Bool) (file : String)

theorem meets_enter (path : String) :
    Meets (· = w) (enter path) (fun _ v => v.start = w.start) fun v => v.here = w.here := by
  refine (Meets.mono (meets_locate path) (fun _ _ h => h.1) fun _ h => by rw [h]).bind fun m => .get_bind ?_
  rintro v rfl
  refine .ite (fun _ _ _ => rfl) fun _ => .throw ?_
  rintro _ rfl
  rfl

theorem report_ok (f : Fault) (w : Workspace) : ∃ v, report ignore file f w = .ok ignore v ∧ v.here = w.here := by
  cases ignore <;> exact ⟨_, rfl, rfl⟩

theorem formatAndReturn_ok (v : Workspace) : ∃ ok u, formatAndReturn l formatter ignore file v = .ok ok u ∧
    u.here = if returned (runOn l formatter file v) then v.start else v.here := by
  have hsteady := steady_runOn l formatter file v v .rfl
  cases hrun : runOn l formatter file v with
  | ok ok u =>
    rw [hrun] at hsteady
    let home := { u with here := u.start }
    exact ⟨ok, home, (bind_ok (a := .error ok) (t := home) (catch_ok (by exact bind_ok hrun))).trans rfl, hsteady.start⟩
  | error f u =>
    rw [hrun] at hsteady
    obtain ⟨x, hx, hhere⟩ := report_ok ignore file f u
    exact ⟨ignore, x, (bind_ok ((catch_error (bind_error hrun)).trans (bind_ok hx))).trans rfl, hhere.trans hsteady.here⟩

/-- However a formatter ends, formatting returns. It leaves the command where it was unless it takes it into the folder of the
file: then the command is back where it began or, if the formatter could not be run, still in that folder. -/
theorem format_stays_iff (w : Workspace) : ∃ ok v, format l formatter ignore file w = .ok ok v ∧
    (v.here = w.here ↔ ∀ u, entersFolder l file = true → enter (Path.parent file) w = .ok () u →
      (if returned (runOn l formatter (Path.name file) u) then w.start else u.here) = w.here) := by
  cases h : entersFolder l file with
  | false =>
    have hsteady := steady_runOn l formatter file w w .rfl
    rw [format, if_neg (by simp [h])]
    cases hrun : runOn l formatter file w with
    | ok ok v =>
      rw [hrun] at hsteady
      exact ⟨ok, v, catch_ok hrun, by simp [hsteady.here]⟩
    | error f v =>
      rw [hrun] at hsteady
      obtain ⟨x, hx, hhere⟩ := report_ok ignore file f v
      exact ⟨ignore, x, (catch_error hrun).trans hx, by simp [hhere, hsteady.here]⟩
  | true =>
    have hentered := meets_enter (w := w) (Path.parent file) w rfl
    rw [format, if_pos h]
    generalize Path.parent file = folder at *
    generalize Path.name file = name
    cases henter : enter folder w with
    | error f v =>
      rw [henter] at hentered
      obtain ⟨x, hx, hhere⟩ := report_ok ignore file f v
      exact ⟨ignore, x, (bind_ok ((catch_error (bind_error henter)).trans (bind_ok hx))).trans rfl, by
        simp [hhere.trans hentered]⟩
    | ok _ v =>
      rw [henter] at hentered
      obtain ⟨ok, u, hu, hhere⟩ := formatAndReturn_ok l formatter ignore name v
      exact ⟨ok, u, (bind_ok (a := .ok ()) (t := v) (catch_ok (by exact bind_ok henter))).trans hu, by
        simp [hhere, show v.start = w.start from hentered]⟩

/-- A formatter that is not there leaves the command in the folder of the first file, where the second one is not found. -/
theorem second_file_lost :
    let files := [(["a", "x.py"], "x = 1\n"), (["a", "y.py"], "y = 1\n")]
    let room := after (Command.run ["--kotlin", "--outdir", "../out", "x.py", "y.py"] [] []
      { files, folders := [["a"]], here := ["a"], start := ["a"] })
    (room.here, room.file? ["out", "y.kt"]) = (["out"], none) := by
  decide +kernel

end Polyglot.Formatting
