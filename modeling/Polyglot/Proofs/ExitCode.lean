import Polyglot.Command
import Polyglot.Proofs.Batch

/-!
# The code with which a command ends

A command ends with zero if all inputs went well, and a folder went well exactly if no program in it came to `FAILED`
and every formatting step reported success. But what is piped in never goes well, and of a single file only the
formatting counts.
-/
namespace Polyglot

open Effect List Path

variable {a : Account} {accounts : List Account} {inputs : List String} {w : Workspace} {source outdir : String}
  {d' : Desk}

namespace Account

variable {a : Account}

def Formatted (a : Account) : Prop := ∀ ok ∈ a.formatted, ok = true

def Taken (a : Account) : Prop := ∀ t ∈ a.texts, t.2 ≠ Run.failureText

/-- What a truthful code would tell. -/
def Clean (a : Account) : Prop := a.finished = true ∧ a.Taken ∧ a.Formatted

theorem wentWell_iff :
    a.wentWell = true ↔ a.source ≠ .piped ∧ a.finished = true ∧ a.failures = [] ∧ a.Formatted := by
  simp [wentWell, Formatted, and_assoc]

end Account

namespace Job

variable {j : Job}

/-- A formatting step that was run on a file, and what it reported. -/
def Formats (j : Job) (output : String) (ok : Bool) : Prop := ∃ w w', j.format output w = .ok ok w'

/-- The accounts that can be given of an input in a workspace. -/
inductive Covers (j : Job) (w : Workspace) (source : String) : Account → Prop
  | piped {a : Account} (hname : Path.name source = "-") (ha : a.source = .piped) : Covers j w source a
  | stopped (hfile : w.hasFile source = true) : Covers j w source { source := .file, finished := false }
  | skipped (hfile : w.hasFile source = true) (hstem : Path.stem source = "__init__") :
      Covers j w source { source := .file }
  | file {text made output : String} {taken : List String} {ok : Bool} {d d' : Desk}
      (hfile : w.hasFile source = true) (hconvert : j.convert j.options [(source, text)] d = .ok ([made], taken) d')
      (hformat : Formats j output ok) :
      Covers j w source { source := .file, texts := [(source, made)], formatted := [ok] }
  | folder {sources steps : List (String × String)} {made taken : List String} {formatted : List Bool}
      {d d' : Desk} (hfile : w.hasFile source = false) (hsources : sources.map (·.1) = programsIn w source)
      (hconvert : j.convert j.ownOptions sources d = .ok (made, taken) d')
      (hsteps : steps.map (·.1) = (programsIn w source).filter fun file => taken.contains (Path.text file))
      (hformat : List.Forall₂ (fun step => Formats j step.2) steps formatted) :
      Covers j w source
        { source := .folder, texts := (programsIn w source).zip made,
          failures := (programsIn w source).filter fun file => !taken.contains (Path.text file), formatted }

/-- The programs of a folder that count as failed are those that came to `FAILED`. -/
theorem failures_eq_nil_iff {o : Options} {sources : List (String × String)} {made taken : List String} {d : Desk}
    (h : j.convert o sources d = .ok (made, taken) d') :
    ((sources.map (·.1)).filter fun file => !taken.contains (Path.text file)) = [] ↔
      ∀ t ∈ (sources.map (·.1)).zip made, t.2 ≠ Run.failureText := by
  obtain ⟨trees, q, hread, hanswered⟩ := convert_answered h
  clear h hread
  induction hanswered with
  | nil => simp
  | @cons file text _ _ hfile _ ih =>
    obtain ⟨_, _, _, _, _, hfailed⟩ := hfile
    rw [map_cons, zip_cons_cons, forall_mem_cons, ← ih, ne_eq, hfailed, not_not]
    by_cases hmem : Path.text file.1 ∈ taken <;> simp [hmem]

theorem Covers.wentWell_iff (h : j.Covers w source a) :
    a.wentWell = true ↔
      a.source ≠ .piped ∧ (a.Clean ∨ a.source = .file ∧ a.finished = true ∧ a.Formatted) := by
  rw [Account.wentWell_iff]
  cases h with
  | piped _ ha => simp [ha]
  | stopped => simp [Account.Clean]
  | skipped => simp [Account.Clean, Account.Taken]
  | file => simp [Account.Clean]
  | folder _ hsources hconvert _ _ =>
    have hfailures := failures_eq_nil_iff hconvert
    rw [hsources] at hfailures
    simp only [Account.Clean, Account.Taken, hfailures]
    simp

theorem convertPiped_source {d : Desk} (h : j.convertPiped d = .ok a d') : a.source = .piped := by
  simp only [convertPiped, bind_eq_ok] at h
  obtain ⟨_, _, -, _, _, -, formatted, _, -, h⟩ := h
  cases formatted with
  | true =>
    obtain ⟨_, d4, _, ⟨⟩⟩ := bind_eq_ok.1 h
    rfl
  | false =>
    cases h
    rfl

theorem formats_of_lift {output : String} {ok : Bool} {d : Desk} (h : (liftM (j.format output) : Work Bool) d = .ok ok d') :
    j.Formats output ok := by
  obtain ⟨w, hw, _⟩ := lift_shell_eq_ok.1 h
  exact ⟨_, w, hw⟩

theorem convertFile_covers {d : Desk} (hfile : w.hasFile source = true) (h : j.convertFile source outdir d = .ok a d') :
    j.Covers w source a := by
  simp only [convertFile, bind_eq_ok] at h
  obtain ⟨_, _, -, _, _, -, _, _, -, h⟩ := h
  split at h
  · obtain ⟨_, d4, _, ⟨⟩⟩ := bind_eq_ok.1 h
    exact .stopped hfile
  obtain ⟨_, d4, _, h⟩ := bind_eq_ok.1 h
  obtain ⟨text, d5, _, h⟩ := bind_eq_ok.1 h
  split at h
  · rename_i hskip
    obtain ⟨_, d6, _, ⟨⟩⟩ := bind_eq_ok.1 h
    exact .skipped hfile (by simp at hskip; exact hskip.1)
  split at h
  · cases h
  simp only [bind_eq_ok] at h
  obtain ⟨⟨texts, taken⟩, _, hconvert, _, _, -, ok, _, hformat, ⟨⟩⟩ := h
  obtain ⟨_, _, _, hanswered⟩ := convert_answered hconvert
  obtain ⟨made, _, _, ⟨⟩, rfl⟩ := forall₂_cons_left_iff.1 hanswered
  exact .file hfile hconvert (formats_of_lift hformat)

theorem convertFolder_covers {d : Desk} (hfile : d.room.hasFile source = false)
    (h : j.convertFolder source outdir d = .ok a d') : j.Covers d.room source a := by
  unfold convertFolder at h
  rw [bind_ok (show (get : Work Desk) d = .ok d d from rfl)] at h
  generalize hfiles : programsIn d.room source = files at h
  simp only [bind_eq_ok] at h
  obtain ⟨_, _, -, _, _, -, _, _, -, sources, _, hsources, ⟨made, taken⟩, _, hconvert, outputs, _, houtputs, _, _, -,
    formatted, _, hformatted, _, _, -, ⟨⟩⟩ := h
  have hlength : files.length = outputs.length := (forall₂_of_mapM houtputs).length_eq
  subst hfiles
  refine .folder hfile ?_ hconvert ?_ ((forall₂_of_mapM hformatted).imp fun _ _ h => ?_)
  · rw [← map_id (programsIn d.room source)]
    refine map_of_mapM (fun file read u v hread => ?_) hsources
    obtain ⟨text, v', _, ⟨⟩⟩ := bind_eq_ok.1 hread
    rfl
  · have hnames := map_fst_zip (Nat.le_of_eq hlength)
    calc _ = (((programsIn d.room source).zip outputs).map (·.1)).filter
              fun file => taken.contains (text file) := filter_map.symm
      _ = _ := by rw [hnames]
  · obtain ⟨u, v, h⟩ := h
    exact formats_of_lift h

/-- Whatever becomes of an input, the account that is given of it covers it. -/
theorem convertInput_covers {input : String} {d : Desk} (h : j.convertInput input d = .ok a d') :
    j.Covers d.room (text input) a := by
  unfold convertInput at h
  split at h
  · rename_i hname
    have hname : name (text input) = "-" := by simpa using hname
    refine .piped hname ?_
    cases hrun : j.convertPiped d with
    | ok b u =>
      rw [catch_ok hrun] at h
      cases h
      exact convertPiped_source hrun
    | error f u =>
      rw [catch_error hrun] at h
      cases h
      rfl
  rw [bind_ok (show (get : Work Desk) d = .ok d d from rfl)] at h
  split at h
  · rename_i hfile
    cases hrun : j.convertFile (text input) _ d with
    | ok b u =>
      rw [catch_ok hrun] at h
      cases h
      exact convertFile_covers hfile hrun
    | error f u =>
      rw [catch_error hrun] at h
      cases h
      exact .stopped hfile
  · rename_i hfile
    exact convertFolder_covers (by simpa using hfile) h

/-- The accounts that are given of inputs, each in the workspace that those before it have left. -/
theorem convertAll_covers {d : Desk} (h : j.convertAll inputs d = .ok accounts d') :
    List.Forall₂ (fun input a => ∃ w, j.Covers w (text input) a) inputs accounts := by
  refine (forall₂_of_mapM h).imp ?_
  rintro input a ⟨u, v, hinput⟩
  exact ⟨u.room, convertInput_covers hinput⟩

theorem all_wentWell_iff (h : List.Forall₂ (fun input a => ∃ w, j.Covers w (text input) a) inputs accounts) :
    (∀ a ∈ accounts, a.wentWell = true) ↔
      ∀ a ∈ accounts, a.source ≠ .piped ∧ (a.Clean ∨ a.source = .file ∧ a.finished = true ∧ a.Formatted) := by
  induction h with
  | nil => simp
  | cons hinput _ ih =>
    obtain ⟨w, hinput⟩ := hinput
    rw [forall_mem_cons, forall_mem_cons, hinput.wentWell_iff, ih]

end Job

namespace Command

variable (words : List String) (env ambient : Variables) (room : Workspace)

/-- The job of a command that has inputs to convert, and the workspace in which it starts. -/
def Starts (words : List String) (env ambient : Variables) (room : Workspace) (j : Job) (room' : Workspace) : Prop :=
  ∃ a room1, arguments words ambient room = .ok a room1 ∧ a.version = false ∧
    (a.extension = true → Language.rust ∈ a.languages) ∧ job a env room1 = .ok j room'

def TellsVersion (words : List String) (ambient : Variables) (room : Workspace) : Prop :=
  ∃ a room', arguments words ambient room = .ok a room' ∧ a.version = true

theorem run_eq_zero_iff :
    (∃ room', run words env ambient room = .ok 0 room') ↔ TellsVersion words ambient room ∨
      ∃ j room1, Starts words env ambient room j room1 ∧ ∃ room', perform j room1 = .ok 0 room' := by
  constructor
  · rintro ⟨room', h⟩
    obtain ⟨a, room1, harguments, h⟩ := bind_eq_ok.1 h
    split at h
    · rename_i hversion
      exact .inl ⟨a, room1, harguments, hversion⟩
    split at h
    · obtain ⟨_, room2, _, ⟨⟩⟩ := bind_eq_ok.1 h
    rename_i hversion hextension
    obtain ⟨j, room2, hjob, hperform⟩ := bind_eq_ok.1 h
    refine .inr ⟨j, room2, ⟨a, room1, harguments, by simpa using hversion, ?_, hjob⟩, room', hperform⟩
    simpa using hextension
  · rintro (⟨a, room1, harguments, hversion⟩ | ⟨j, room2, ⟨a, room1, harguments, hversion, hextension, hjob⟩, room', h⟩)
    · unfold run
      rw [bind_ok harguments, if_pos hversion]
      exact ⟨_, rfl⟩
    · refine ⟨room', ?_⟩
      unfold run
      rw [bind_ok harguments, if_neg (by simp [hversion]), if_neg (by simpa using hextension), bind_ok hjob, h]

theorem perform_eq_zero_iff {j : Job} :
    (∃ room', perform j room = .ok 0 room') ↔ ∃ accounts d,
      j.convertAll j.arguments.inputs (desk j room) = .ok accounts d ∧ ∀ a ∈ accounts, a.wentWell = true := by
  unfold perform
  cases j.convertAll j.arguments.inputs (desk j room) with
  | error f d => simp
  | ok accounts d => by_cases h : ∀ a ∈ accounts, a.wentWell = true <;> simp [h]

/-- A command ends with zero exactly if it is only asked for its version, or if nothing is piped in, every folder is
clean and every single file is formatted, whatever its text is. -/
theorem run_ends_well_iff :
    (∃ room', run words env ambient room = .ok 0 room') ↔ TellsVersion words ambient room ∨
      ∃ j room₁ accounts d, Starts words env ambient room j room₁ ∧
        j.convertAll j.arguments.inputs (desk j room₁) = .ok accounts d ∧
        List.Forall₂ (fun input a => ∃ w, j.Covers w (Path.text input) a) j.arguments.inputs accounts ∧
        ∀ a ∈ accounts, a.source ≠ .piped ∧ (a.Clean ∨ a.source = .file ∧ a.finished = true ∧ a.Formatted) := by
  rw [run_eq_zero_iff]
  refine or_congr_right ⟨?_, ?_⟩
  · rintro ⟨j, room₁, hstarts, hperform⟩
    obtain ⟨accounts, d, hconvert, hwell⟩ := (perform_eq_zero_iff room₁).1 hperform
    have hcovers := Job.convertAll_covers hconvert
    exact ⟨j, room₁, accounts, d, hstarts, hconvert, hcovers, (Job.all_wentWell_iff hcovers).1 hwell⟩
  · rintro ⟨j, room₁, accounts, d, hstarts, hconvert, hcovers, hwell⟩
    have hwell := (Job.all_wentWell_iff hcovers).2 hwell
    exact ⟨j, room₁, hstarts, (perform_eq_zero_iff room₁).2 ⟨accounts, d, hconvert, hwell⟩⟩

def ending (r : EStateM.Result Fault Workspace Int) (l : Location) : Option (Int × Option String) :=
  match r with
  | .ok code room => some (code, room.file? l)
  | .error _ _ => none

/-- A command ends with zero though the text that it wrote is `FAILED`, and with one though all that was piped in went
well. -/
theorem run_misleading :
    let room : Workspace := { programs := [("rustfmt", {})], programFolder := some "BIN" }
    ending (run ["--rust", "a.py"] [] [] { room with files := [(["a.py"], "x: i8 = 1000\n")] }) ["a.rs"] =
        some (0, some Run.failureText) ∧
      ending (run ["--rust", "-"] [] [] { room with input := "x = 1\n" }) ["a.rs"] = some (1, none) := by
  decide +kernel

end Command
end Polyglot
