import Polyglot.Proofs.ExitCode
import Polyglot.Proofs.Paths

/-!
# What a command overwrites

A command changes a file only by writing the text of a conversion there. A file that is converted by itself is not
written over by its own conversion, unless that is asked for. Nothing of the kind holds for the programs of a folder,
nor for an input at the place of the text for another one.
-/
namespace Polyglot

open Effect List Shell Workspace Path

variable {I : Workspace → Prop} (g : Language) (outdir : String) {c : Prop} {d : Desk}

namespace Effect

variable {ε σ α β : Type} {x y : EStateM ε σ α} {f : α → EStateM ε σ β} {h : ε → EStateM ε σ α} {as : List α} {s : σ}
  {act : Shell α}
variable {I E F : σ → Prop} {Q : α → σ → Prop} {R : β → σ → Prop}

/-- From states of one kind on, a computation that returns is in order, and one that fails leaves a state of another
kind. -/
def Meets (I : σ → Prop) (x : EStateM ε σ α) (Q : α → σ → Prop) (E : σ → Prop) : Prop :=
  ∀ s, I s → match x s with
    | .ok a t => Q a t
    | .error _ t => E t

/-- However a computation ends, it leaves a state of the kind in which it started. -/
def Keeps (I : σ → Prop) (x : EStateM ε σ α) : Prop := Meets I x (fun _ => I) I

namespace Meets

theorem pure {a : α} (h : ∀ s, I s → Q a s) : Meets I (Pure.pure a : EStateM ε σ α) Q E := h

theorem throw {e : ε} (h : ∀ s, I s → E s) : Meets I (throw e : EStateM ε σ α) Q E := h

theorem bind (hx : Meets I x Q E) (hf : ∀ a, Meets (Q a) (f a) R E) : Meets I (x >>= f) R E := by
  intro s hs
  have hxs := hx s hs
  cases h : x s with
  | error e t =>
    rw [bind_error h]
    rwa [h] at hxs
  | ok a t =>
    rw [bind_ok h]
    rw [h] at hxs
    exact hf a t hxs

theorem mono {P : α → σ → Prop} (hx : Meets I x P F) (hQ : ∀ a s, P a s → Q a s) (hE : ∀ s, F s → E s) :
    Meets I x Q E := by
  intro s hs
  have hxs := hx s hs
  cases h : x s with
  | error e t =>
    rw [h] at hxs
    exact hE t hxs
  | ok a t =>
    rw [h] at hxs
    exact hQ a t hxs

theorem of_imp {J : σ → Prop} (hx : Meets J x Q E) (h : ∀ s, I s → J s) : Meets I x Q E := fun s hs => hx s (h s hs)

theorem get_bind {f : σ → EStateM ε σ β} (hf : ∀ s, I s → Meets (fun t => t = s) (f s) R E) :
    Meets I (MonadState.get >>= f) R E := fun s hs => hf s hs s rfl

theorem ite [Decidable c] (hx : c → Meets I x Q E) (hy : ¬c → Meets I y Q E) : Meets I (if c then x else y) Q E := by
  split
  · exact hx ‹_›
  · exact hy ‹_›

theorem tryCatch (hx : Meets I x Q F) (hh : ∀ e, Meets F (h e) Q E) : Meets I (tryCatch x h) Q E := by
  intro s hs
  have hxs := hx s hs
  cases hr : x s with
  | ok a t =>
    rw [catch_ok hr]
    rwa [hr] at hxs
  | error e t =>
    rw [catch_error hr]
    rw [hr] at hxs
    exact hh e t hxs

/-- A fact that the state does not touch can be taken for granted. -/
theorem given {p : Prop} (h : p → Meets I x Q E) : Meets (fun s => I s ∧ p) x Q E := fun s hs => h hs.2 s hs.1

/-- What each step tells of its element, a list of steps tells of the list. -/
theorem mapM {P : α → β → Prop} (hf : ∀ a ∈ as, Meets I (f a) (fun b s => I s ∧ P a b) E) :
    Meets I (as.mapM f) (fun bs s => I s ∧ List.Forall₂ P as bs) E := by
  induction as with
  | nil => exact pure fun s hs => ⟨hs, .nil⟩
  | cons a as ih =>
    rw [mapM_cons]
    obtain ⟨ha, has⟩ := forall_mem_cons.1 hf
    refine ha.bind fun b s hs => ?_
    refine ((ih has).mono (Q := fun bs s => I s ∧ List.Forall₂ P (a :: as) (b :: bs)) ?_ fun _ h => h).bind
      (fun bs => pure fun s hs => hs) s hs.1
    exact fun bs t ht => ⟨ht.1, .cons hs.2 ht.2⟩

theorem after (hx : Meets I x Q E) (hQ : ∀ a s, Q a s → F s) (hE : ∀ s, E s → F s) (hs : I s) : F (after (x s)) := by
  have hxs := hx.mono (Q := fun _ => F) hQ hE s hs
  cases h : x s with
  | _ => rwa [h] at hxs

end Meets

namespace Keeps

theorem pure {a : α} : Keeps I (Pure.pure a : EStateM ε σ α) := Meets.pure fun _ hs => hs

theorem throw {e : ε} : Keeps I (throw e : EStateM ε σ α) := Meets.throw fun _ hs => hs

theorem bind (hx : Keeps I x) (hf : ∀ a, Keeps I (f a)) : Keeps I (x >>= f) := Meets.bind hx hf

theorem followed (hx : Keeps I x) (hE : ∀ s, I s → E s) (hf : ∀ a, Meets I (f a) R E) : Meets I (x >>= f) R E :=
  (Meets.mono hx (fun _ _ h => h) hE).bind hf

theorem tryCatch (hx : Keeps I x) (hh : ∀ e, Keeps I (h e)) : Keeps I (tryCatch x h) :=
  Meets.tryCatch hx hh

theorem after (hx : Keeps I x) (hs : I s) : I (after (x s)) := Meets.after hx (fun _ _ h => h) (fun _ h => h) hs

theorem get : Keeps I (get : EStateM ε σ σ) := fun _ hs => hs

theorem get_bind {f : σ → EStateM ε σ β} (hf : ∀ s, I s → Keeps I (f s)) : Keeps I (MonadState.get >>= f) :=
  fun s hs => hf s hs s hs

theorem set (h : I s) : Keeps I (set s : EStateM ε σ PUnit) := fun _ _ => h

theorem modify {g : σ → σ} (h : ∀ s, I s → I (g s)) : Keeps I (modify g : EStateM ε σ PUnit) := h

theorem sequential : Sequential fun {α : Type} (x : EStateM ε σ α) => Keeps I x := ⟨fun _ => pure, bind⟩

theorem forM {f : α → EStateM ε σ PUnit} (hf : ∀ a ∈ as, Keeps I (f a)) : Keeps I (as.forM f) := sequential.forM hf

theorem mapM (hf : ∀ a ∈ as, Keeps I (f a)) : Keeps I (as.mapM f) := sequential.mapM hf

end Keeps

theorem after_bind_pure {g : α → β} : after ((x >>= fun a => Pure.pure (g a)) s) = after (x s) := by
  cases h : x s with
  | ok a t =>
    rw [bind_ok h]
    rfl
  | error e t =>
    rw [bind_error h]
    rfl

theorem Meets.lift_shell {I E : Workspace → Prop} {Q : α → Workspace → Prop} (h : Meets I act Q E) :
    Meets (fun d : Desk => I d.room) (liftM act : Work α) (fun a d => Q a d.room) fun d => E d.room := by
  intro d hd
  have hact := h d.room hd
  cases hr : act d.room with
  | ok a w =>
    rw [lift_shell_ok hr]
    rwa [hr] at hact
  | error f w =>
    rw [lift_shell_error hr]
    rwa [hr] at hact

theorem Keeps.lift_shell {I : Workspace → Prop} (h : Keeps I act) :
    Keeps (fun d : Desk => I d.room) (liftM act : Work α) := Meets.lift_shell h

theorem Keeps.lift_emit (act : Emit α) {I : Workspace → Prop} : Keeps (fun d : Desk => I d.room) (liftM act : Work α) := by
  intro d hd
  cases hr : act d.page with
  | ok a p =>
    rw [lift_emit_ok hr]
    exact hd
  | error f p =>
    rw [lift_emit_error hr]
    exact hd

end Effect

/-! ### Where a path leads -/

namespace Workspace

variable {w w' : Workspace} {l m : Location} {path text : String}

/-- The location that a path leads to, if what it passes are folders. -/
def lead (w : Workspace) (path : String) : Location :=
  (names path).foldl Location.child (if isAbsolute path then Location.root else w.here)

theorem eq_foldl_of_follow {names : List String} (h : w.follow l names = .ok m) : m = names.foldl Location.child l := by
  induction names generalizing l with
  | nil =>
    cases h
    rfl
  | cons n names ih =>
    rw [follow] at h
    split at h
    · exact ih h
    · cases h

theorem getLast?_lead {n : String} (h : (names path).getLast? = some n) (hup : n ≠ "..") :
    (w.lead path).getLast? = some n := by
  obtain ⟨ns, hns⟩ := getLast?_eq_some_iff.1 h
  simp [lead, hns, Location.child, hup]

theorem file?_withFile (h : m ≠ l) : (w.withFile l text).file? m = w.file? m := by
  unfold withFile file?
  split
  · simp only
    induction w.files with
    | nil => rfl
    | cons p files ih =>
      rw [map_cons, lookup_cons, lookup_cons, ih]
      by_cases hp : p.1 = l
      · have hm : (m == l) = false := by simpa using h
        simp [hp, hm]
      · simp [hp]
  · have hm : (m == l) = false := by simpa using h
    simp [lookup_append, lookup_cons, hm]

def Shows (l : Location) (text : String) (w : Workspace) : Prop := w.file? l = some text

/-- Two workspaces with the same files, of which the same paths lead to the same places. -/
structure Steady (w w' : Workspace) : Prop where
  files : w'.files = w.files
  here : w'.here = w.here
  start : w'.start = w.start
  top : w'.top = w.top

theorem Steady.rfl : w.Steady w := ⟨.refl _, .refl _, .refl _, .refl _⟩

theorem Steady.file? (h : w.Steady w') (l : Location) : w'.file? l = w.file? l := by
  rw [Workspace.file?, Workspace.file?, h.files]

end Workspace

/-- A computation leaves the text of a file as it is. -/
abbrev Spares {α : Type} (l : Location) (text : String) (x : Shell α) : Prop := Keeps (Workspace.Shows l text) x

theorem Spares.of_steady {α : Type} {l : Location} {text : String} {x : Shell α} (h : ∀ w, Keeps (Workspace.Steady w) x) :
    Spares l text x :=
  fun v hv => Meets.mono (h v) (fun _ _ hu => (hu.file? l).trans hv) (fun _ hu => (hu.file? l).trans hv) v .rfl

/-! ### What is done in a workspace -/

namespace Shell

variable {w : Workspace} {I : Workspace → Prop} {l : Location} {path text : String}

theorem meets_locate (path : String) : Meets I (locate path) (fun m v => I v ∧ v.locate path = .ok m) I := by
  intro v hv
  unfold locate
  rw [bind_ok (show (get : Shell Workspace) v = .ok v v from rfl)]
  cases h : v.locate path with
  | ok m => exact ⟨hv, h⟩
  | error c => exact hv

theorem meets_lead (hI : ∀ v, I v → v.here = w.here) (path : String) :
    Meets I (locate path) (fun m v => I v ∧ m = w.lead path) I := by
  refine (meets_locate path).mono ?_ fun _ h => h
  rintro m v ⟨hv, hm⟩
  refine ⟨hv, (eq_foldl_of_follow hm).trans ?_⟩
  rw [lead, hI v hv]

theorem keeps_refuse {α : Type} (c : Cause) (path : String) : Keeps I (refuse c path : Shell α) := .throw

theorem keeps_locate (path : String) : Keeps I (locate path) :=
  (meets_locate path).mono (fun _ _ h => h.1) fun _ h => h

theorem keeps_read (path : String) : Keeps I (read path) := by
  refine (keeps_locate path).bind fun m => Keeps.get.bind fun v => ?_
  split
  · exact .pure
  · exact Keeps.get.bind fun _ => keeps_refuse _ _

theorem steady_say (line : String) : Keeps w.Steady (say line) :=
  .modify fun _ h => ⟨h.files, h.here, h.start, h.top⟩

theorem steady_start (word : String) : Keeps w.Steady (start word) := by
  refine .get_bind fun v hv => ?_
  dsimp only
  split
  · exact keeps_refuse _ _
  · exact .bind (.set ⟨hv.files, hv.here, hv.start, hv.top⟩) fun _ => .pure

theorem steady_makeFoldersFrom (root : String) (l : Location) (done names : List String) :
    Keeps w.Steady (makeFoldersFrom root l done names) := by
  induction names generalizing l done with
  | nil => exact .pure
  | cons n names ih =>
    refine .get_bind fun v hv => ?_
    refine of_ite (ih _ _) (of_ite ?_ ?_)
    · split <;> exact keeps_refuse _ _
    · exact (Keeps.set ⟨hv.files, hv.here, hv.start, hv.top⟩).bind fun _ => ih _ _

theorem steady_makeFolders (path : String) : Keeps w.Steady (makeFolders path) :=
  Keeps.get.bind fun _ => steady_makeFoldersFrom _ _ _ _

theorem keeps_write (h : l ≠ w.lead path) (made : String) :
    Keeps (fun v => v.here = w.here ∧ v.Shows l text) (write path made) := by
  refine (meets_lead (fun _ h => h.1) path).bind fun m => .given fun hm => Keeps.get.bind fun u => ?_
  have hmodify : Keeps (fun v => v.here = w.here ∧ v.Shows l text) (modify (·.withFile m made) : Shell Unit) := by
    refine .modify fun v hv => ⟨?_, ?_⟩
    · rw [← hv.1, Workspace.withFile]
      split <;> rfl
    · rw [Workspace.Shows, file?_withFile (by rwa [hm])]
      exact hv.2
  exact of_ite ((keeps_refuse _ _).bind fun _ => hmodify) hmodify

theorem keeps_say (line : String) : Spares l text (say line) := .modify fun _ hv => hv

theorem keeps_enter (path : String) : Spares l text (enter path) := by
  refine (keeps_locate path).bind fun m => .get_bind fun v hv => ?_
  exact of_ite (.set (by exact hv)) (keeps_refuse _ _)

end Shell

theorem Effect.Keeps.say {α : Type} {l : Location} {line text : String} {f : Unit → Shell α} (h : Spares l text (f ())) :
    Spares l text (say line >>= f) :=
  (keeps_say line).bind fun _ => h

namespace Formatting

variable {l : Location} {text : String}

theorem steady_runOn (formatter : List String) (file : String) (w : Workspace) :
    Keeps w.Steady (runOn g formatter file) := by
  unfold runOn
  cases command formatter file with
  | error f => exact .throw
  | ok words =>
    refine .bind .pure fun words => (steady_start _).bind fun started => ?_
    refine of_ite (of_ite ?_ ?_) (of_ite ?_ .pure)
    · exact (steady_say _).bind fun _ => .pure
    · exact (steady_say _).bind fun _ => .pure
    · refine (steady_start _).bind fun again => ?_
      exact of_ite ((steady_say _).bind fun _ => .pure) .pure

theorem keeps_report (ignore : Bool) (file : String) (f : Fault) :
    Spares l text (report ignore file f) := by
  refine of_ite .pure ?_
  exact .say (.say .pure)

theorem keeps_formatAndReturn (formatter : List String) (ignore : Bool) (file : String) :
    Spares l text (formatAndReturn g formatter ignore file) := by
  refine .bind (.tryCatch ?_ fun f => (keeps_report ignore file f).bind fun _ => .pure) fun e => ?_
  · exact (Spares.of_steady (steady_runOn _ _ _)).bind fun _ => .bind (.modify fun _ hv => hv) fun _ => .pure
  · cases e <;> exact .pure

/-- Programs are known by what they print and how they end, so that formatting leaves all texts as they are. -/
theorem keeps_format (formatter : List String) (ignore : Bool) (file : String) :
    Spares l text (format g formatter ignore file) := by
  unfold format
  generalize Path.parent file = folder
  split
  · refine .bind (.tryCatch ?_ fun f => ?_) fun e => ?_
    · exact (keeps_enter _).bind fun _ => .pure
    · exact (keeps_report ignore file f).bind fun _ => .pure
    · cases e with
      | error => exact .pure
      | ok => exact keeps_formatAndReturn _ _ _ _
  · exact .tryCatch (Spares.of_steady (steady_runOn _ _ _)) fun f => keeps_report _ _ f

theorem keeps_formatText (formatter : List String) (ignore : Bool) : Spares l text (formatText g formatter ignore) :=
  of_ite (keeps_report _ _ _) (keeps_format _ _ _ _)

end Formatting

namespace Job

variable {j : Job} {w : Workspace} {l : Location} {text : String}

-- paths are not to be taken apart where two computations are compared
attribute [local irreducible] Path.join Path.name Path.stem Path.parent Path.text

def outputName (w : Workspace) (suffix outdir file : String) : String :=
  let path := Path.join (Path.join outdir (Path.parent file)) (Path.stem file ++ suffix)
  if suffix == ".kt" && isAbsolute path then relative (w.pathOf w.start) path else path

theorem meets_outputPath (suffix outdir file : String) :
    Meets w.Steady (outputPath suffix outdir file)
      (fun path v => w.Steady v ∧ path = outputName w suffix outdir file) w.Steady := by
  unfold outputPath outputName
  dsimp only
  generalize Path.join outdir (Path.parent file) = folder
  generalize Path.join folder (Path.stem file ++ suffix) = path
  have hname : Meets w.Steady (do
        let v ← get
        return if suffix == ".kt" && isAbsolute path then relative (v.pathOf v.start) path else path :
          Shell String)
      (fun output v => w.Steady v ∧ output =
        if suffix == ".kt" && isAbsolute path then relative (w.pathOf w.start) path else path) w.Steady := by
    intro v hv
    refine ⟨hv, ?_⟩
    rw [Workspace.pathOf, Workspace.pathOf, hv.start, hv.top]
  refine Keeps.get.followed (fun _ h => h) fun v => .ite (fun _ => hname) fun _ => ?_
  exact (steady_makeFolders folder).followed (fun _ h => h) fun _ => hname

def fileSuffix (j : Job) : String :=
  match j.arguments.suffix with
  | some s => "." ++ s
  | none => j.language.suffix

def fileFolder (j : Job) (source : String) : String :=
  match j.arguments.outdir with
  | some outdir => Path.text outdir
  | none => Path.parent source

def programsFolder (j : Job) (source : String) : String :=
  match j.arguments.outdir with
  | some outdir => Path.text outdir
  | none => Path.join (Path.parent source) (Path.name source ++ "-py2many")

theorem keeps_report (hsay : ∀ line, Keeps I (say line)) (results : List (String × Except Fault String)) :
    Keeps (fun d => I d.room) (report results) := by
  refine .forM fun result _ => ?_
  obtain ⟨file, r⟩ := result
  cases r with
  | ok text => exact .pure
  | error f => exact (hsay _).lift_shell

theorem keeps_convert (hsay : ∀ line, Keeps I (say line)) (o : Options) (files : List (String × String)) :
    Keeps (fun d => I d.room) (j.convert o files) := by
  refine (Keeps.lift_emit _).bind fun results => (keeps_report hsay results).bind fun _ => ?_
  split
  · exact .pure
  · exact .throw

theorem keeps_format (file : String) : Spares l text (j.format file) :=
  Formatting.keeps_format _ _ _ _

theorem keeps_convertPiped : Keeps (fun d => d.room.Shows l text) j.convertPiped := by
  refine (Keeps.lift_shell fun _ hv => hv).bind fun source => ?_
  refine Keeps.bind ?_ fun made => ?_
  · refine Keeps.get.bind fun d => ?_
    split
    · exact .pure
    · refine (keeps_convert keeps_say _ _).bind fun made => ?_
      exact .bind (.modify fun _ hd => hd) fun _ => .pure
  · refine (Formatting.keeps_formatText _ _ _).lift_shell.bind fun ok => ?_
    refine of_ite (.bind (.modify fun _ hd => hd) fun _ => .pure) .pure

/-- A file that is converted by itself is not written over, nor is any other file but the one for its text. -/
theorem meets_convertFile {source outdir : String} (hfile : w.Shows l text)
    (hclear : j.arguments.force = false ∧ l = w.lead source ∨
      l ≠ w.lead (outputName w j.fileSuffix outdir (Path.name source))) :
    Meets (fun d => w.Steady d.room) (j.convertFile source outdir) (fun _ d => d.room.Shows l text)
      fun d => d.room.Shows l text := by
  have hsteady : ∀ d : Desk, w.Steady d.room → d.room.Shows l text := fun d hd => (hd.file? l).trans hfile
  refine ((meets_outputPath _ _ _).lift_shell.mono (fun _ _ h => h) hsteady).bind fun output => .given fun hpath => ?_
  have hlead path := (meets_lead (fun _ h => h.here) path).lift_shell.mono (fun _ _ h => h) hsteady
  refine (hlead _).bind fun sourceAt => .given fun hsource => (hlead _).bind fun outputAt => .given fun houtput => ?_
  refine .ite (fun _ => ?_) fun hwrites => ?_
  · exact (steady_say _).lift_shell.followed hsteady fun _ => .pure hsteady
  have hne : l ≠ w.lead output := by
    rintro rfl
    rcases hclear with ⟨hforce, hl⟩ | hl
    · simp [hforce, hsource, houtput, hl] at hwrites
    · exact hl (by rw [hpath]; rfl)
  refine (steady_say _).lift_shell.followed hsteady fun _ => ?_
  refine (keeps_read _).lift_shell.followed hsteady fun source => ?_
  refine .ite (fun _ => ?_) fun _ => .ite (fun _ => .throw hsteady) fun _ => ?_
  · exact (steady_say _).lift_shell.followed hsteady fun _ => .pure hsteady
  refine (keeps_convert steady_say _ _).followed hsteady fun made => ?_
  refine .of_imp (J := fun d => d.room.here = w.here ∧ d.room.Shows l text) ?_ fun d hd => ⟨hd.here, hsteady d hd⟩
  refine (keeps_write hne _).lift_shell.followed (fun _ h => h.2) fun _ => ?_
  refine .of_imp ?_ fun d hd => hd.2
  exact (keeps_format output).lift_shell.bind fun _ => .pure

/-! ### The texts of a folder -/

theorem keeps_writeManifest : Spares l text (writeManifest outdir) := by
  have hslash : Text.endsWith (Path.join outdir "v.mod") "/" = false :=
    endsWith_join (n := "v.mod") ⟨by decide, by decide, by decide⟩
  refine Meets.get_bind fun v hv => .ite (fun _ => ?_) fun hmissing => ?_
  · refine .pure ?_
    rintro u rfl
    exact hv
  have hvisible : ∀ m, v.locate (Path.join outdir "v.mod") = .ok m → m ≠ l := by
    rintro m hm rfl
    rw [Workspace.Shows] at hv
    simp [Workspace.hasFile, hm, hv, hslash] at hmissing
  refine (Meets.mono (meets_locate _) (fun _ _ h => h) ?_).bind fun m => ?_
  · rintro u rfl
    exact hv
  rintro u ⟨rfl, hm⟩
  have hmade : Spares l text (modify (·.withFile m manifest) : Shell Unit) := by
    refine .modify fun v hv => ?_
    rw [Workspace.Shows, file?_withFile (hvisible m hm).symm]
    exact hv
  refine Keeps.get.bind (fun _ => ?_) u hv
  exact of_ite ((keeps_refuse _ _).bind fun _ => hmade) hmade

theorem keeps_closeFolder (taken unformatted failed : Nat) :
    Spares l text (j.closeFolder outdir taken unformatted failed) := by
  have hrest : Spares l text (do
      say "\nFinished!"
      say ("Successful: " ++ toString taken)
      if unformatted != 0 then say ("Failed to reformat: " ++ toString unformatted)
      say ("Failed to convert: " ++ toString failed)
      say "" : Shell Unit) := by
    refine .say (.say ?_)
    have hlast : Spares l text (do
        say ("Failed to convert: " ++ toString failed)
        say "" : Shell Unit) := .say (keeps_say _)
    exact of_ite (.say hlast) hlast
  exact of_ite ((keeps_writeManifest outdir).bind fun _ => hrest) hrest

/-- The programs of a folder are converted without a change to any file but those for their texts. -/
theorem meets_convertFolder {source outdir : String} (hfile : w.Shows l text)
    (hclear : ∀ file ∈ programsIn w source, l ≠ w.lead (outputName w j.language.suffix outdir file)) :
    Meets (fun d => d.room = w) (j.convertFolder source outdir) (fun _ d => d.room.Shows l text)
      fun d => d.room.Shows l text := by
  have hsteady : ∀ d : Desk, w.Steady d.room → d.room.Shows l text := fun d hd => (hd.file? l).trans hfile
  refine .get_bind fun d hd => ?_
  rw [hd]
  generalize programsIn w source = files at hclear
  refine .of_imp (J := fun d => w.Steady d.room) ?_ ?_
  · refine (steady_say _).lift_shell.followed hsteady fun _ => ?_
    refine Keeps.followed (Keeps.forM fun file _ => (steady_makeFolders _).lift_shell) hsteady fun _ => ?_
    refine Keeps.followed (Keeps.modify fun d hd => hd) hsteady fun _ => ?_
    refine Keeps.followed (Keeps.mapM fun file _ => ?_) hsteady fun sources => ?_
    · exact (keeps_read _).lift_shell.bind fun _ => .pure
    refine (keeps_convert steady_say _ _).followed hsteady fun made => ?_
    refine ((Meets.mapM fun file _ => (meets_outputPath _ _ file).lift_shell).mono (fun _ _ h => h) hsteady).bind
      fun outputs => .given fun houtputs => ?_
    have hother : ∀ output ∈ outputs, l ≠ w.lead output :=
      forall_right (forall₂_of_mem houtputs fun file output hmem hpath => hpath ▸ hclear file hmem) fun _ _ h => h
    refine .of_imp (J := fun d => d.room.here = w.here ∧ d.room.Shows l text) ?_
      fun d hd => ⟨hd.here, hsteady d hd⟩
    refine Keeps.followed (Keeps.forM fun written hwritten => ?_) (fun _ h => h.2) fun _ => ?_
    · exact (keeps_write (hother _ (of_mem_zip hwritten).1) _).lift_shell
    refine .of_imp ?_ fun d hd => hd.2
    refine Keeps.bind (Keeps.mapM fun step _ => (keeps_format _).lift_shell) fun formatted => ?_
    exact (keeps_closeFolder _ _ _ _).lift_shell.bind fun _ => .pure
  · rintro u rfl
    rw [hd]
    exact .rfl

theorem getLast?_suffix : ∃ c, g.suffix.toList.getLast? = some c ∧ c ≠ '.' := by
  cases g <;> exact ⟨_, rfl, by decide⟩

theorem isName_output (file : String) : Path.IsName (Path.stem file ++ g.suffix) ∧ Path.stem file ++ g.suffix ≠ ".." := by
  obtain ⟨c, hc, hdot⟩ := getLast?_suffix g
  have hlast : (Path.stem file ++ g.suffix).toList.getLast? = some c := by
    rw [String.toList_append, getLast?_append, hc]
    rfl
  have hne : ∀ s : String, s.toList.getLast? ≠ some c → Path.stem file ++ g.suffix ≠ s := by
    rintro s hs rfl
    exact hs hlast
  refine ⟨⟨hne _ (by simp), hne _ ?_, ?_⟩, hne _ ?_⟩
  · exact fun h => hdot (Option.some.inj h).symm
  · rw [String.toList_append, mem_append, not_or]
    exact ⟨fun h => unbroken_name file (stem_subset file h), by cases g <;> decide⟩
  · exact fun h => hdot (Option.some.inj h).symm

/-- The output lies where the command began, or above. -/
def AboveStart (w : Workspace) (suffix outdir file : String) : Prop :=
  names (Path.join (Path.join outdir (Path.parent file)) (Path.stem file ++ suffix)) <+:
    names (w.pathOf w.start)

/-- The text of a program lies in a file with the suffix of the target. Kotlin's paths are relative to the folder where
the command began, and have no name at their end if they lead to that folder or above it. -/
theorem getLast?_lead_outputName (w : Workspace) (g : Language) (outdir file : String) :
    (w.lead (outputName w g.suffix outdir file)).getLast? = some (Path.stem file ++ g.suffix) ∨
      g = .kotlin ∧ AboveStart w g.suffix outdir file := by
  obtain ⟨hname, hup⟩ := isName_output g file
  obtain ⟨ns, hns⟩ := names_join (Path.join outdir (Path.parent file)) (Path.stem file ++ g.suffix)
  rw [names_of_isName hname] at hns
  unfold outputName AboveStart
  dsimp only
  generalize Path.join (Path.join outdir (Path.parent file)) (Path.stem file ++ g.suffix) = path at hns
  split
  · rename_i hkotlin
    obtain ⟨k, m, hrelative, hshared⟩ := names_relative (w.pathOf w.start) path
    by_cases hm : m < (names path).length
    · refine .inl (getLast?_lead ?_ hup)
      rw [hrelative, getLast?_append, getLast?_drop, if_neg (not_le.2 hm), hns, getLast?_concat]
      rfl
    · rw [take_of_length_le (not_lt.1 hm)] at hshared
      cases g <;> simp_all [Language.suffix]
  · exact .inl (getLast?_lead (by simp [hns]) hup)

/-! ### What a conversion writes over -/

/-- The conversion of an input writes a text to a location. A single file lies elsewhere then, unless it may be written
over. The texts of programs in a folder bear the suffix of the target. -/
inductive Overwrites (j : Job) (w : Workspace) (input : String) (l : Location) : Prop
  | file (hfile : w.hasFile (Path.text input) = true)
      (hplace : l = w.lead (outputName w j.fileSuffix (j.fileFolder (Path.text input)) (Path.name (Path.text input))))
      (hother : j.arguments.force = true ∨ l ≠ w.lead (Path.text input))
  | program (file : String) (hfolder : w.hasFile (Path.text input) = false)
      (hmem : file ∈ programsIn w (Path.text input))
      (hplace : l = w.lead (outputName w j.language.suffix (j.programsFolder (Path.text input)) file))
      (hname : l.getLast? = some (Path.stem file ++ j.language.suffix) ∨
        j.language = .kotlin ∧ AboveStart w j.language.suffix (j.programsFolder (Path.text input)) file)

theorem convertInput_keeps {input : String} (hfile : d.room.Shows l text) (hclear : ¬j.Overwrites d.room input l) :
    (after (j.convertInput input d)).room.Shows l text := by
  have hinput : Meets (fun d' => d' = d) (j.convertInput input) (fun _ d' => d'.room.Shows l text)
      fun d' => d'.room.Shows l text := by
    refine .ite (fun _ => ?_) fun _ => .get_bind fun d' hd => .ite (fun hsingle => ?_) fun hfolder => ?_
    · refine .of_imp (Keeps.tryCatch keeps_convertPiped fun _ => .pure) ?_
      rintro d' rfl
      exact hfile
    · subst hd
      refine .of_imp (.tryCatch (meets_convertFile hfile ?_) fun _ => .pure fun _ h => h) ?_
      · by_cases hplace : l = d'.room.lead
            (outputName d'.room j.fileSuffix (j.fileFolder (Path.text input)) (Path.name (Path.text input)))
        · left
          by_contra hown
          refine hclear (.file hsingle hplace ?_)
          cases hforce : j.arguments.force with
          | true => exact .inl rfl
          | false => exact .inr fun hl => hown ⟨hforce, hl⟩
        · exact .inr hplace
      · rintro d'' rfl
        exact .rfl
    · subst hd
      refine .of_imp (meets_convertFolder hfile fun file hmem hplace => ?_) ?_
      · have hplace : l = d'.room.lead
            (outputName d'.room j.language.suffix (j.programsFolder (Path.text input)) file) := by
          rw [hplace]
          unfold programsFolder
          cases j.arguments.outdir <;> rfl
        refine hclear (.program file (by simpa using hfolder) hmem hplace ?_)
        rw [hplace]
        exact getLast?_lead_outputName _ _ _ _
      · rintro d'' rfl
        rfl
  exact hinput.after (fun _ _ h => h) (fun _ h => h) rfl

/-- Inputs that are converted one after the other leave a file as it is, unless one of them writes over it. -/
theorem convertAll_keeps {inputs : List String} (hfile : d.room.Shows l text)
    (hclear : ∀ earlier input later accounts d', inputs = earlier ++ input :: later → j.convertAll earlier d = .ok accounts d' → ¬j.Overwrites d'.room input l) :
    (after (j.convertAll inputs d)).room.Shows l text := by
  induction inputs generalizing d with
  | nil => exact hfile
  | cons input inputs ih =>
    have hinput := convertInput_keeps hfile (hclear [] input inputs [] d rfl rfl)
    rw [convertAll, mapM_cons]
    cases hrun : j.convertInput input d with
    | error f d1 =>
      rw [bind_error hrun]
      rwa [hrun] at hinput
    | ok a d1 =>
      rw [hrun] at hinput
      have hrest : (after (j.convertAll inputs d1)).room.Shows l text :=
        ih hinput fun earlier next later accounts d' hinputs hearlier =>
          hclear (input :: earlier) next later (a :: accounts) d' (by rw [hinputs]; rfl)
            (mapM_cons_eq_ok.2 ⟨d1, hrun, hearlier⟩)
      rwa [bind_ok hrun, after_bind_pure]

end Job

/-! ### The tools that a command looks for -/

namespace Tooling

variable {l : Location} {text : String}

theorem keeps_findExecutable (name : String) (path : Option String) : Keeps I (findExecutable name path) := by
  refine Keeps.get.bind fun w => of_ite .pure ?_
  split <;> exact of_ite .pure .pure

theorem keeps_askJulia : Spares l text askJulia := by
  refine Keeps.get.bind fun w => ?_
  split
  · exact .pure
  · exact (Spares.of_steady fun _ => steady_start _).bind fun _ => .bind (.modify fun _ hw => hw) fun _ => .pure

theorem keeps_juliaFormatter : Spares l text juliaFormatter := by
  refine (keeps_findExecutable _ _).bind fun program => ?_
  split
  · exact .pure
  have hnamed : ∀ script : Option String, Spares l text (match script with
      | some script => pure ["julia", "-O0", "--compile=min", "--startup=no", script, "-v"]
      | none => pure ["format.jl", "-v"] : Shell (List String)) := by
    intro script
    split <;> exact .pure
  refine (keeps_findExecutable _ _).bind fun script => ?_
  split
  · exact Keeps.bind .pure fun _ => hnamed _
  · refine (keeps_findExecutable _ _).bind fun julia => of_ite ?_ ?_
    · exact keeps_askJulia.bind fun _ => hnamed _
    · exact Keeps.bind .pure fun _ => hnamed _

theorem keeps_compiler (env : Variables) : Spares l text (compiler env) := by
  have hfound : Spares l text
      (["clang++", "g++"].findM? fun cxx => do return (← findExecutable cxx).isSome : Shell (Option String)) := by
    refine Keeps.bind ((keeps_findExecutable _ _).bind fun _ => .pure) fun found => ?_
    split
    · exact .pure
    refine Keeps.bind ((keeps_findExecutable _ _).bind fun _ => .pure) fun found => ?_
    split <;> exact .pure
  have hchosen : ∀ wanted : Option String, Spares l text (match wanted with
      | some cxx => return cxx
      | none => return (← ["clang++", "g++"].findM? fun cxx => do return (← findExecutable cxx).isSome).getD "clang++" :
        Shell String) := by
    intro wanted
    split
    · exact .pure
    · exact hfound.bind fun _ => .pure
  unfold compiler
  split
  · exact Keeps.bind .pure fun _ => hchosen _
  · refine (keeps_findExecutable _ _).bind fun found => of_ite (Keeps.bind .pure fun _ => hchosen _) ?_
    exact .say (Keeps.bind .pure fun _ => hchosen _)

theorem keeps_of (indent : Option Int) (env : Variables) : Spares l text (Tooling.of g indent env) := by
  cases g with
  | julia => exact keeps_juliaFormatter.bind fun _ => .pure
  | cpp => exact (keeps_compiler env).bind fun _ => .pure
  | d => exact Keeps.get.bind fun _ => Keeps.get.bind fun _ => .pure
  | go => exact Keeps.get.bind fun _ => .pure
  | _ => exact .pure

end Tooling

namespace Command

variable (words : List String) (env ambient : Variables) {room : Workspace} {l : Location} {text : String}

theorem keeps_arguments : Spares l text (arguments words ambient) := by
  refine Keeps.bind (Keeps.forM fun g _ => (Tooling.keeps_of g _ _).bind fun _ => .pure) fun _ => ?_
  split
  · exact .pure
  · exact .throw

theorem keeps_job (a : Arguments) : Spares l text (job a env) := by
  refine (Tooling.keeps_of _ _ _).bind fun tooling => ?_
  have hmade : Spares l text (do
      if a.lenient then Shell.say "Warning: some code may be experimental and incorrect"
      return { target := chosen a, options := options a, tooling, arguments := a } : Shell Job) :=
    of_ite (.say .pure) .pure
  exact of_ite (.say hmade) hmade

theorem after_perform (j : Job) (room : Workspace) :
    after (perform j room) = (after (j.convertAll j.arguments.inputs (desk j room))).room := by
  unfold perform
  cases j.convertAll j.arguments.inputs (desk j room) <;> rfl

variable {words env ambient}

theorem run_keeps (hfile : room.Shows l text)
    (hclear : ∀ j room', Starts words env ambient room j room' → ∀ earlier input later accounts d,
      j.arguments.inputs = earlier ++ input :: later → j.convertAll earlier (desk j room') = .ok accounts d →
        ¬j.Overwrites d.room input l) : (after (run words env ambient room)).Shows l text := by
  have harguments := (keeps_arguments words ambient).after hfile
  unfold run
  cases ha : arguments words ambient room with
  | error f room1 =>
    rw [bind_error ha]
    rwa [ha] at harguments
  | ok a room1 =>
    have hroom1 : room1.Shows l text := by rwa [ha] at harguments
    rw [bind_ok ha]
    split
    · exact Keeps.after (Keeps.say .pure) hroom1
    rename_i hversion
    split
    · exact Keeps.after (Keeps.say .pure) hroom1
    rename_i hextension
    have hjob := (keeps_job env a).after hroom1
    cases hj : job a env room1 with
    | error f room2 =>
      rw [bind_error hj]
      rwa [hj] at hjob
    | ok j room2 =>
      rw [hj] at hjob
      rw [bind_ok hj, after_perform]
      have hstarts : Starts words env ambient room j room2 :=
        ⟨a, room1, ha, by simpa using hversion, by simpa using hextension, hj⟩
      exact Job.convertAll_keeps hjob (hclear j room2 hstarts)

/-- A file that a command changes is one to which the conversion of an input has written: the text of a single file that
lies elsewhere or that may be written over, or the text of a program in a folder, under a name with the suffix of the
target. -/
theorem changed_only_by_conversions (hfile : room.file? l = some text)
    (hchanged : (after (run words env ambient room)).file? l ≠ some text) :
    ∃ j room' earlier input later accounts d, Starts words env ambient room j room' ∧
      j.arguments.inputs = earlier ++ input :: later ∧ j.convertAll earlier (desk j room') = .ok accounts d ∧
      j.Overwrites d.room input l := by
  by_contra hnone
  refine hchanged (run_keeps hfile fun j room' hstarts earlier input later accounts d hinputs hearlier hwrites => ?_)
  exact hnone ⟨j, room', earlier, input, later, accounts, d, hstarts, hinputs, hearlier, hwrites⟩

def sources : Workspace :=
  { files := [(["a.py"], "x = 1\n"), (["src", "a.py"], "y = 2\n")], folders := [["src"]] }

theorem changed_by_conversion : sources.file? ["src", "a.py"] = some "y = 2\n" ∧
    (after (run ["--python", "--outdir", "src", "src"] [] [] sources)).file? ["src", "a.py"] ≠ some "y = 2\n" ∧
    ∃ j room' earlier input later accounts d,
      Starts ["--python", "--outdir", "src", "src"] [] [] sources j room' ∧
      j.arguments.inputs = earlier ++ input :: later ∧ j.convertAll earlier (desk j room') = .ok accounts d ∧
      j.Overwrites d.room input ["src", "a.py"] := by
  have hfile : sources.file? ["src", "a.py"] = some "y = 2\n" := by decide
  have hchanged : (after (run ["--python", "--outdir", "src", "src"] [] [] sources)).file? ["src", "a.py"] ≠
      some "y = 2\n" := by decide +kernel
  exact ⟨hfile, hchanged, changed_only_by_conversions hfile hchanged⟩

/-- Inputs are written over though that was not asked for: the programs of a folder that the texts go to as well, and a
single file at the place for the text of another one. -/
theorem sources_overwritten :
    ((Arguments.read ["--python", "--outdir", "src", "src"]).toOption.map (·.force) = some false ∧
      (after (run ["--python", "--outdir", "src", "src"] [] [] sources)).file? ["src", "a.py"] ≠ some "y = 2\n") ∧
    ((Arguments.read ["--python", "--outdir", "src", "a.py", "src/a.py"]).toOption.map (·.force) = some false ∧
      (after (run ["--python", "--outdir", "src", "a.py", "src/a.py"] [] [] sources)).file? ["src", "a.py"] ≠
        some "y = 2\n") := by
  decide +kernel

end Command
end Polyglot
