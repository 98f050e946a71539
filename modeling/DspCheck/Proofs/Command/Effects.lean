import DspCheck.Command.Run
import DspCheck.Proofs.Files.Atomic
import DspCheck.Proofs.Library.Counts
import DspCheck.Proofs.Remedy.RoundTrip

/-!
# What runs of the program do to files

A run starts in a state with a tree of files, with some access to it that changes files as a whole.
It does the work of a command and shows the outcome.  It ends with the outcome, or with a fault of
the work or of showing.

* A run of a command without an output leaves the tree as it was.
* A run that fails before its outcome is shown leaves all files as they were.  The tree has at most
  grown by directories that lead to the output.
* A run that has done the work of building a catalog has changed no other file than the one at its
  output, from which the catalog is read that was built from the files before the run.  An output
  that leads to a device holds nothing.

These are the effects of a run (`Launch.HasEffects`).  In a sequence of runs, however many there are
before it, each run has its effects, and a file that differs in the end is the output of a run that
has built a catalog (`Launch.hasEffects_of_session`).

A fault of showing comes too late: what has been written stays (`Launch.not_atomic_buildGain`).
-/

namespace DspCheck

variable {σ : Type} {files : FileAccess (StateM σ)} {tree : σ → FileTree}

/-! ## What commands read -/

namespace Configuration

theorem respects_ofFile (h : files.IsAtomic tree) (path : Text) :
    Respects tree Eq (ofFile files path).run := by
  refine (h.isPresent path).lift_run.bind_run fun isThere => ?_
  cases isThere with
  | false =>
      exact respects_throw_bind_run _ _
  | true =>
      refine (h.respects_readText path).lift_run.bind_run fun r => ?_
      cases r with
      | error e =>
          exact respects_throw_run _
      | ok t =>
          dsimp only
          split
          · exact respects_throw_run _
          · exact respects_pure_run _

theorem respects_ofFirst (h : files.IsAtomic tree) (paths : List Text) :
    Respects tree Eq (ofFirst files paths).run := by
  induction paths with
  | nil =>
      exact respects_pure_run _
  | cons path paths ih =>
      refine (h.isPresent path).lift_run.bind_run fun isThere => ?_
      cases isThere with
      | true =>
          exact respects_ofFile h path
      | false =>
          exact ih

theorem respects_load (h : files.IsAtomic tree) (path? : Option Text) :
    Respects tree Eq (load files path?).run := by
  cases path? <;> refine Respects.bind_run ?_ fun c => ?_
  case none.refine_1 =>
    exact respects_ofFirst h _
  case some.refine_1 path =>
    exact respects_ofFile h path
  all_goals
    dsimp only
    split
    · exact respects_throw_run _
    · exact respects_pure_run _

end Configuration

namespace Command

/-- Where a command writes. -/
def output? : Command → Option Text
  | buildCatalog _ output => some output
  | buildRemedies _ output => some output
  | _ => none

/-- Only the builders write. -/
theorem cases_of_output? {command : Command} {output : Text} (h : command.output? = some output) :
    (∃ directory, command = .buildCatalog directory output) ∨
      ∃ directory?, command = .buildRemedies directory? output := by
  cases command with
  | buildCatalog directory _ =>
      cases h
      exact Or.inl ⟨directory, rfl⟩
  | buildRemedies directory? _ =>
      cases h
      exact Or.inr ⟨directory?, rfl⟩
  | validate input catalog? format =>
      cases h
  | explain input? =>
      cases h
  | lookup name catalog? =>
      cases h

theorem respects_textOf (content : Except FileError Text) :
    Respects tree Eq (textOf content : ExceptT Fault (StateM σ) Text).run := by
  cases content with
  | ok t =>
      exact respects_pure_run _
  | error e =>
      exact respects_throw_run _

theorem respects_verdictOf (c : Catalog) (rules : Rules) (source : Text) :
    Respects tree Eq (verdictOf c rules source : ExceptT Fault (StateM σ) Verdict).run := by
  unfold verdictOf
  split
  · exact respects_pure_run _
  · exact respects_throw_run _

theorem respects_remediesOf (h : files.IsAtomic tree) (path? : Option Text) :
    Respects tree Eq (remediesOf files path?).run := by
  cases path? with
  | none =>
      exact respects_pure_run _
  | some path =>
      exact (h.respects_readArtifact _ path).adapt_run _

theorem respects_catalogPath (explicit? : Option Text) (c : Configuration) :
    Respects tree Eq (catalogPath explicit? c : ExceptT Fault (StateM σ) Text).run := by
  unfold catalogPath
  split
  · exact respects_pure_run _
  · exact respects_throw_run _

theorem respects_catalogOf (h : files.IsAtomic tree) (path : Text) :
    Respects tree Eq (catalogOf files path).run :=
  (h.respects_readArtifact _ path).adapt_run _

theorem respects_workOfValidate (h : files.IsAtomic tree) (c : Configuration) (input : Text)
    (catalog? : Option Text) (format : ReportFormat) :
    Respects tree Eq (workOfValidate files c input catalog? format).run := by
  refine (respects_catalogPath catalog? c).bind_run fun path => ?_
  refine (respects_catalogOf h path).bind_run fun catalog => ?_
  refine (respects_remediesOf h c.remedies?).bind_run fun remedies => ?_
  refine (h.respects_readText input).lift_run.bind_run fun content => ?_
  refine (respects_textOf content).bind_run fun source => ?_
  exact (respects_verdictOf catalog c.rules source).bind_run fun v => respects_pure_run _

theorem respects_workOfExplain (h : files.IsAtomic tree) (c : Configuration)
    (input? : Option Text) : Respects tree Eq (workOfExplain files c input?).run := by
  have hexplained : ∀ content, Respects tree Eq (do
      let output ← textOf content
      let remedies ← remediesOf files c.remedies?
      return .ofText true (Explanation.wording (Explanation.ofOutput remedies output)) :
        ExceptT Fault (StateM σ) Outcome).run := by
    intro content
    refine (respects_textOf content).bind_run fun output => ?_
    exact (respects_remediesOf h c.remedies?).bind_run fun remedies => respects_pure_run _
  cases input? with
  | none =>
      exact (h.input.bind fun _ => respects_pure _).lift_run.bind_run hexplained
  | some path =>
      exact (h.respects_readText path).lift_run.bind_run hexplained

theorem respects_workOfLookup (h : files.IsAtomic tree) (c : Configuration) (name : Text)
    (catalog? : Option Text) : Respects tree Eq (workOfLookup files c name catalog?).run := by
  refine (respects_catalogPath catalog? c).bind_run fun path => ?_
  exact (respects_catalogOf h path).bind_run fun catalog => respects_pure_run _

/-- The work of commands that write nothing leaves the tree as it was. -/
theorem respects_work (h : files.IsAtomic tree) (c : Configuration) {command : Command}
    (hcommand : command.output? = none) : Respects tree Eq (command.work files c).run := by
  cases command with
  | buildCatalog directory output =>
      cases hcommand
  | buildRemedies directory? output =>
      cases hcommand
  | validate input catalog? format =>
      exact respects_workOfValidate h c input catalog? format
  | explain input? =>
      exact respects_workOfExplain h c input?
  | lookup name catalog? =>
      exact respects_workOfLookup h c name catalog?

end Command

/-! ## What commands write -/

/-- A tree has at most one file that another one does not have, or has with other bytes: the file to
which a path leads. -/
def FileTree.DiffersAt (output : Text) (t u : FileTree) : Prop :=
  ∃ place, u.locate output = .ok place ∧ ∀ p, p ≠ place → u.file? p = t.file? p

/-- What is read from the artifact to which a path leads in a tree. -/
def FileTree.Holds {α : Type} (t : FileTree) (ofJson : Text → Except ArtifactFault α)
    (path : Text) (a : α) : Prop :=
  ∀ home input, ((access home input).readArtifact ofJson path).run.run t = (.ok a, t)

/-- A path leads to a device, which holds nothing of what is written to it. -/
def FileTree.LeadsToDevice (t : FileTree) (path : Text) : Prop :=
  ∃ place, t.locate path = .ok place ∧ t.node? place = some .device

/-- The files of a tree have no more bytes than the greatest count, as all files have whose sizes
are numbers of the same machine. -/
def FileTree.IsSized (t : FileTree) : Prop :=
  ∀ bytes, .file bytes ∈ t.values → bytes.size ≤ Value.maxCount

/-- An artifact that has been written is the only change of the files, and it is read back, unless
it went to a device. -/
theorem FileAccess.IsAtomic.differsAt_of_writeArtifact (h : files.IsAtomic tree)
    {output json : Text} {s s' : σ}
    (hrun : (files.writeArtifact output json).run.run s = (.ok (), s')) :
    FileTree.DiffersAt output (tree s) (tree s') ∧
      ((tree s').LeadsToDevice output ∨
        ∀ {α : Type} {ofJson : Text → Except ArtifactFault α} {a : α}, ofJson json = .ok a →
          (tree s').Holds ofJson output a) := by
  obtain ⟨u, hgrows, hwrite⟩ := h.exists_of_writeArtifact hrun
  obtain ⟨place, hplace, hdevice | hfile, hothers⟩ := hgrows.write hwrite
  · exact ⟨⟨place, hplace, hothers⟩, Or.inl ⟨place, hplace, hdevice⟩⟩
  · refine ⟨⟨place, hplace, hothers⟩, Or.inr fun hjson home input => ?_⟩
    have hcontent : decodeText ((tree s').read output) = .ok json := by
      rw [FileTree.read_of_file? hplace hfile]
      exact decodeText_toUtf8 json
    exact run_readArtifact (s := tree s') (congrArg (·, tree s') hcontent) hjson

/-- A catalog that is built from files of a sized tree is read back from its JSON text. -/
theorem FileAccess.IsAtomic.ofJson_toJson_of_buildCatalog (h : files.IsAtomic tree)
    {settings : LibrarySettings} {directory : Text} {b : CatalogBuild} {s s' : σ}
    (hsized : (tree s).IsSized)
    (hrun : (files.buildCatalog settings directory).run.run s = (.ok b, s')) :
    Catalog.ofJson b.catalog.toJson = .ok b.catalog := by
  obtain ⟨found, s₁, hfiles, hrun⟩ := exists_of_run_bind_eq_ok hrun
  cases hrun
  obtain ⟨isThere, s₂, hthere, hfiles⟩ := exists_of_run_bind_eq_ok hfiles
  cases isThere with
  | false =>
      cases hfiles
  | true =>
      have hbelow := run_of_lift_eq_ok hfiles
      apply CatalogBuild.ofJson_toJson_ofFiles
      intro f hf bytes hbytes
      apply hsized
      rw [(h.isDirectory directory).of_run (run_of_lift_eq_ok hthere)]
      apply h.found directory s₂ f _ bytes hbytes
      rw [hbelow]
      exact hf

/-- A catalog of remedies that is built is read back from its JSON text. -/
theorem FileAccess.ofJson_toJson_of_buildRemedies {settings : ScanSettings}
    {directory? : Option Text} {b : RemedyBuild} {s s' : σ}
    (hrun : (files.buildRemedies settings directory?).run.run s = (.ok b, s')) :
    RemedyCatalog.ofJson b.catalog.toJson = .ok b.catalog := by
  apply RemedyCatalog.IsObtained.ofJson_eq_ok
  cases directory? with
  | none =>
      cases hrun
      exact .list _ _
  | some directory =>
      obtain ⟨found, s₁, -, hrun⟩ := exists_of_run_bind_eq_ok hrun
      cases hrun
      exact (RemedyCatalog.IsObtained.list _ _).sightings _

section Written

variable {β : Type} {build : ExceptT CatalogFault (StateM σ) β} {json : β → Text}
  {outcome : β → Outcome} {output : Text} {s s' : σ}

/-- What is built and written is built from the files that were there before. -/
theorem exists_of_written (h : files.IsAtomic tree) (hbuild : Respects tree Eq build.run)
    {o : Outcome}
    (hrun : (ExceptT.adapt Fault.catalog do
      let b ← build
      files.writeArtifact output (json b)
      return outcome b).run.run s = (.ok o, s')) :
    ∃ b s₁, build.run.run s = (.ok b, s₁) ∧
      FileTree.DiffersAt output (tree s) (tree s') ∧
        ((tree s').LeadsToDevice output ∨
          ∀ {α : Type} {ofJson : Text → Except ArtifactFault α} {a : α},
            ofJson (json b) = .ok a → (tree s').Holds ofJson output a) := by
  obtain ⟨b, s₁, hb, hrun⟩ := exists_of_run_bind_eq_ok (run_of_adapt_eq_ok hrun)
  obtain ⟨_, s₂, hwrite, hrun⟩ := exists_of_run_bind_eq_ok hrun
  cases hrun
  rw [hbuild.of_run hb]
  exact ⟨b, s₁, hb, h.differsAt_of_writeArtifact hwrite⟩

/-- What cannot be built or written leaves a tree that has at most grown. -/
theorem growsBy_of_written (h : files.IsAtomic tree) (hbuild : Respects tree Eq build.run)
    {f : Fault}
    (hrun : (ExceptT.adapt Fault.catalog do
      let b ← build
      files.writeArtifact output (json b)
      return outcome b).run.run s = (.error f, s')) :
    (tree s).GrowsBy (Path.ancestors output) (tree s') := by
  obtain ⟨e, hrun⟩ := exists_of_adapt_eq_error hrun
  rcases exists_of_run_bind_eq_error hrun with hb | ⟨b, s₁, hb, hrun⟩
  · rw [hbuild.of_run hb]
    exact refl_of _ _
  rw [hbuild.of_run hb]
  rcases exists_of_run_bind_eq_error hrun with hwrite | ⟨_, s₂, -, hrun⟩
  · exact h.growsBy_of_writeArtifact hwrite
  · cases hrun

end Written

namespace Command

/-- The directories that lead to the output of a command. -/
def outputDirectories (command : Command) : List Text :=
  command.output?.toList.flatMap Path.ancestors

/-- The work of a command that fails leaves a tree that has at most grown by the directories that
lead to its output. -/
theorem growsBy_of_work (h : files.IsAtomic tree) {c : Configuration} {command : Command}
    {f : Fault} {s s' : σ} (hrun : (command.work files c).run.run s = (.error f, s')) :
    (tree s).GrowsBy command.outputDirectories (tree s') := by
  cases houtput : command.output? with
  | none =>
      rw [(respects_work h c houtput).of_run hrun]
      exact refl_of _ _
  | some output =>
      have hdirectories : command.outputDirectories = Path.ancestors output := by
        rw [outputDirectories, houtput]
        exact List.append_nil _
      rw [hdirectories]
      rcases cases_of_output? houtput with ⟨directory, rfl⟩ | ⟨directory?, rfl⟩
      · exact growsBy_of_written h (h.respects_buildCatalog _ directory) hrun
      · exact growsBy_of_written h (h.respects_buildRemedies _ directory?) hrun

end Command

/-! ## Showing the outcome -/

theorem FileAccess.IsAtomic.respects_present (h : files.IsAtomic tree) (o : Outcome) :
    Respects tree Eq (files.present o).run := by
  unfold FileAccess.present
  split
  · exact respects_pure_run _
  · refine (h.print o.shown).lift_run.bind_run fun r => ?_
    cases r with
    | ok _ =>
        exact respects_pure_run _
    | error e =>
        exact respects_throw_run _

/-- If an outcome cannot be shown, its text could not be written, and the reason is told. -/
theorem FileAccess.exists_of_present_eq_error {o : Outcome} {f : Fault} {s s' : σ}
    (hrun : (files.present o).run.run s = (.error f, s')) :
    ∃ e, (files.print o.shown).run s = (.error e, s') ∧ f = .file e := by
  unfold FileAccess.present at hrun
  split at hrun
  · cases hrun
  · rcases exists_of_run_bind_eq_error hrun with hprint | ⟨r, s₁, hprint, hrun⟩
    · cases hprint
    · cases r with
      | ok _ =>
          cases hrun
      | error e =>
          cases hrun
          exact ⟨e, run_of_lift_eq_ok hprint, rfl⟩

/-! ## Runs -/

/-- A run of the program: access to files, and arguments that ask for something. -/
structure Launch (tree : σ → FileTree) where
  files : FileAccess (StateM σ)
  isAtomic : files.IsAtomic tree
  arguments : List Text
  invocation : Invocation
  accepted : Invocation.ofArguments? arguments = some invocation

namespace Launch

/-- How a run ends. -/
def answer (l : Launch tree) (s : σ) : Except Fault Outcome :=
  ((l.invocation.run l.files).run.run s).1

/-- The state after a run. -/
def after (l : Launch tree) (s : σ) : σ :=
  ((l.invocation.run l.files).run.run s).2

/-- What a run builds: the result of an action behind the loading of the configuration, which has
changed no file. -/
def Builds {β : Type} (l : Launch tree) (s : σ) (build : ExceptT CatalogFault (StateM σ) β)
    (b : β) : Prop :=
  ∃ c s₁ s₂, (Configuration.load l.files l.invocation.configuration?).run.run s = (.ok c, s₁) ∧
    tree s₁ = tree s ∧ build.run.run s₁ = (.ok b, s₂)

/-- The state after some runs. -/
def afterAll (ls : List (Launch tree)) (s : σ) : σ :=
  ls.foldl (fun s l => l.after s) s

/-- The work of a run is done, and there is an outcome to show. -/
def IsDone (l : Launch tree) (s : σ) : Prop :=
  ∃ o s₁, (l.invocation.work l.files).run.run s = (.ok o, s₁)

/-- The work of a run is done, but the outcome could not be shown, and this is the fault of the
run. -/
def IsUnshown (l : Launch tree) (s : σ) : Prop :=
  ∃ o e s₁, (l.invocation.work l.files).run.run s = (.ok o, s₁) ∧
    (l.files.print o.shown).run s₁ = (.error e, l.after s) ∧ l.answer s = .error (.file e)

/-- The effects of a run on the files. -/
structure HasEffects (l : Launch tree) (s : σ) : Prop where
  readOnly : l.invocation.command.output? = none → tree (l.after s) = tree s
  failed : ∀ f, l.answer s = .error f → l.IsUnshown s ∨
    (∀ p, (tree (l.after s)).file? p = (tree s).file? p) ∧
      (tree s).GrowsBy l.invocation.command.outputDirectories (tree (l.after s))
  done : ∀ o, l.answer s = .ok o → l.IsDone s
  catalog : ∀ directory output, l.invocation.command = .buildCatalog directory output →
    l.IsDone s →
      ∃ b, l.Builds s (l.files.buildCatalog LibrarySettings.standard directory) b ∧
        FileTree.DiffersAt output (tree s) (tree (l.after s)) ∧
        ((tree s).IsSized → (tree (l.after s)).LeadsToDevice output ∨
          (tree (l.after s)).Holds Catalog.ofJson output b.catalog)
  remedies : ∀ directory? output, l.invocation.command = .buildRemedies directory? output →
    l.IsDone s →
      ∃ b, l.Builds s (l.files.buildRemedies ScanSettings.standard directory?) b ∧
        FileTree.DiffersAt output (tree s) (tree (l.after s)) ∧
        ((tree (l.after s)).LeadsToDevice output ∨
          (tree (l.after s)).Holds RemedyCatalog.ofJson output b.catalog)

variable {l : Launch tree} {s : σ}

theorem run_eq (l : Launch tree) (s : σ) :
    (l.invocation.run l.files).run.run s = (l.answer s, l.after s) := rfl

theorem IsUnshown.isDone (h : l.IsUnshown s) : l.IsDone s := by
  obtain ⟨o, -, s₁, hwork, -⟩ := h
  exact ⟨o, s₁, hwork⟩

/-- Showing the outcome leaves the files as the work has left them. -/
theorem tree_after_of_work {o : Outcome} {s₁ : σ}
    (hwork : (l.invocation.work l.files).run.run s = (.ok o, s₁)) :
    tree (l.after s) = tree s₁ := by
  have hrun := l.run_eq s
  rw [Invocation.run, run_bind_of_ok hwork] at hrun
  exact ((l.isAtomic.respects_present o).of_run hrun).symm

/-- The work of a run that is done has loaded a configuration and done the work of the command. -/
theorem IsDone.exists_work (h : l.IsDone s) :
    ∃ c o s₁ s₂, (Configuration.load l.files l.invocation.configuration?).run.run s = (.ok c, s₁) ∧
      tree s₁ = tree s ∧
      (l.invocation.command.work l.files c).run.run s₁ = (.ok o, s₂) ∧
      tree s₂ = tree (l.after s) := by
  obtain ⟨o, s₂, hwork⟩ := h
  obtain ⟨c, s₁, hload, hcommand⟩ := exists_of_run_bind_eq_ok hwork
  exact ⟨c, o, s₁, s₂, hload, ((Configuration.respects_load l.isAtomic _).of_run hload).symm,
    hcommand, (tree_after_of_work hwork).symm⟩

theorem growsBy_of_work_eq_error {f : Fault} {s' : σ}
    (h : (l.invocation.work l.files).run.run s = (.error f, s')) :
    (tree s).GrowsBy l.invocation.command.outputDirectories (tree s') := by
  rcases exists_of_run_bind_eq_error h with hload | ⟨c, s₁, hload, hcommand⟩
  · rw [(Configuration.respects_load l.isAtomic _).of_run hload]
    exact refl_of _ _
  · rw [(Configuration.respects_load l.isAtomic _).of_run hload]
    exact Command.growsBy_of_work l.isAtomic hcommand

/-- A run fails in its work, or when the outcome is shown. -/
theorem isUnshown_or_growsBy {f : Fault} (h : l.answer s = .error f) :
    l.IsUnshown s ∨
      (tree s).GrowsBy l.invocation.command.outputDirectories (tree (l.after s)) := by
  have hrun := l.run_eq s
  rw [h] at hrun
  rcases exists_of_run_bind_eq_error hrun with hwork | ⟨o, s₁, hwork, hpresent⟩
  · exact Or.inr (growsBy_of_work_eq_error hwork)
  · obtain ⟨e, hprint, rfl⟩ := FileAccess.exists_of_present_eq_error hpresent
    exact Or.inl ⟨o, e, s₁, hwork, hprint, h⟩

/-- A run that is done has written what was built from the files that were there before. -/
theorem IsDone.exists_built (h : l.IsDone s) {β : Type}
    {build : ExceptT CatalogFault (StateM σ) β} {json : β → Text} {outcome : β → Outcome}
    {output : Text} (hbuild : Respects tree Eq build.run)
    (hcommand : ∀ c, l.invocation.command.work l.files c = ExceptT.adapt Fault.catalog do
      let b ← build
      l.files.writeArtifact output (json b)
      return outcome b) :
    ∃ b, l.Builds s build b ∧ FileTree.DiffersAt output (tree s) (tree (l.after s)) ∧
      ((tree (l.after s)).LeadsToDevice output ∨
        ∀ {α : Type} {ofJson : Text → Except ArtifactFault α} {a : α},
          ofJson (json b) = .ok a → (tree (l.after s)).Holds ofJson output a) := by
  obtain ⟨c, o, s₁, s₂, hload, htree, hwork, hafter⟩ := h.exists_work
  rw [hcommand c] at hwork
  obtain ⟨b, s₃, hb, hdiffers, hholds⟩ := exists_of_written l.isAtomic hbuild hwork
  rw [htree, hafter] at hdiffers
  rw [hafter] at hholds
  exact ⟨b, ⟨c, s₁, s₃, hload, htree, hb⟩, hdiffers, hholds⟩

/-- Every run has its effects. -/
theorem hasEffects (l : Launch tree) (s : σ) : l.HasEffects s where
  readOnly houtput := by
    have hwork : Respects tree Eq (l.invocation.work l.files).run :=
      (Configuration.respects_load l.isAtomic _).bind_run
        fun c => Command.respects_work l.isAtomic c houtput
    have hrespects : Respects tree Eq (l.invocation.run l.files).run :=
      hwork.bind_run l.isAtomic.respects_present
    exact (hrespects s).symm
  failed f hanswer := by
    rcases isUnshown_or_growsBy hanswer with hunshown | hgrows
    · exact Or.inl hunshown
    · exact Or.inr ⟨hgrows.file?, hgrows⟩
  done o hanswer := by
    have hrun := l.run_eq s
    rw [hanswer] at hrun
    obtain ⟨o', s₁, hwork, -⟩ := exists_of_run_bind_eq_ok hrun
    exact ⟨o', s₁, hwork⟩
  catalog directory output hcommand hdone := by
    obtain ⟨b, hbuilds, hdiffers, hholds⟩ :=
      hdone.exists_built (l.isAtomic.respects_buildCatalog _ directory)
        fun c => by rw [hcommand]; rfl
    refine ⟨b, hbuilds, hdiffers, fun hsized => hholds.imp_right fun hread => hread ?_⟩
    obtain ⟨c, s₁, s₂, -, htree, hrun⟩ := hbuilds
    rw [← htree] at hsized
    exact l.isAtomic.ofJson_toJson_of_buildCatalog hsized hrun
  remedies directory? output hcommand hdone := by
    obtain ⟨b, hbuilds, hdiffers, hholds⟩ :=
      hdone.exists_built (l.isAtomic.respects_buildRemedies _ directory?)
        fun c => by rw [hcommand]; rfl
    refine ⟨b, hbuilds, hdiffers, hholds.imp_right fun hread => hread ?_⟩
    obtain ⟨c, s₁, s₂, -, -, hrun⟩ := hbuilds
    exact FileAccess.ofJson_toJson_of_buildRemedies hrun

/-! ## Sequences of runs -/

/-- A run builds an artifact at a place. -/
def WritesTo (l : Launch tree) (p : Path) (s : σ) : Prop :=
  ∃ output, l.invocation.command.output? = some output ∧ l.IsDone s ∧
    (tree (l.after s)).locate output = .ok p

/-- A file that differs after a run has been written by it. -/
theorem HasEffects.writesTo (h : l.HasEffects s) {p : Path}
    (hp : (tree (l.after s)).file? p ≠ (tree s).file? p) : l.WritesTo p s := by
  have hdone : l.IsDone s := by
    cases hanswer : l.answer s with
    | ok o =>
        exact h.done o hanswer
    | error f =>
        rcases h.failed f hanswer with hunshown | ⟨hfiles, -⟩
        · exact hunshown.isDone
        · exact absurd (hfiles p) hp
  have hplace : ∀ {output}, FileTree.DiffersAt output (tree s) (tree (l.after s)) →
      (tree (l.after s)).locate output = .ok p := by
    rintro output ⟨place, hlocate, hothers⟩
    by_cases heq : p = place
    · rw [hlocate, heq]
    · exact absurd (hothers p heq) hp
  cases houtput : l.invocation.command.output? with
  | none =>
      rw [h.readOnly houtput] at hp
      exact absurd rfl hp
  | some output =>
      refine ⟨output, houtput, hdone, ?_⟩
      rcases Command.cases_of_output? houtput with ⟨directory, hcommand⟩ | ⟨directory?, hcommand⟩
      · obtain ⟨b, -, hdiffers, -⟩ := h.catalog directory output hcommand hdone
        exact hplace hdiffers
      · obtain ⟨b, -, hdiffers, -⟩ := h.remedies directory? output hcommand hdone
        exact hplace hdiffers

/-- A file that differs after some runs has been written by one of them. -/
theorem exists_writesTo_of_afterAll (ls : List (Launch tree)) (s : σ) {p : Path}
    (hp : (tree (afterAll ls s)).file? p ≠ (tree s).file? p) :
    ∃ before l later, ls = before ++ l :: later ∧ l.WritesTo p (afterAll before s) := by
  induction ls generalizing s with
  | nil =>
      exact absurd rfl hp
  | cons l ls ih =>
      by_cases hfirst : (tree (l.after s)).file? p = (tree s).file? p
      · rw [← hfirst] at hp
        obtain ⟨before, l', later, rfl, hwrites⟩ := ih (l.after s) hp
        exact ⟨l :: before, l', later, rfl, hwrites⟩
      · exact ⟨[], l, ls, rfl, (l.hasEffects s).writesTo hfirst⟩

/-- In a sequence of runs, each run has its effects on what the runs before it have left.  A file
that differs in the end has been written by one of the runs. -/
theorem hasEffects_of_session (s : σ) (ls : List (Launch tree)) :
    (∀ before l later, ls = before ++ l :: later → l.HasEffects (afterAll before s)) ∧
      ∀ p, (tree (afterAll ls s)).file? p ≠ (tree s).file? p →
        ∃ before l later, ls = before ++ l :: later ∧ l.WritesTo p (afterAll before s) :=
  ⟨fun before l _ _ => l.hasEffects (afterAll before s),
    fun _ => exists_writesTo_of_afterAll ls s⟩

/-! ## A catalog in the place of its library -/

/-- Access to a tree of files, with what comes of writing a text for the user. -/
def accessShowing (shown : Except FileError Unit) : FileAccess (StateM FileTree) :=
  { FileTree.access none .empty with print := fun _ => return shown }

theorem isAtomic_accessShowing (shown : Except FileError Unit) :
    (accessShowing shown).IsAtomic id :=
  { FileTree.isAtomic_access none .empty with print := fun _ _ => rfl }

/-- A library with one function. -/
def gainLibrary : Text :=
  "// prefix: fi\n// ---`gain`---\n// A gain.\ngain(k, x) = k*x;\n"

/-- A directory `libs` with the library. -/
def gainTree : FileTree :=
  .oneLibrary gainLibrary

/-- The place of the library. -/
def gainPlace : Path :=
  .ofTexts ["libs", "filters.lib"]

/-- What is built from the library. -/
def gainBuild : CatalogBuild :=
  .ofFiles .standard "libs" [⟨.ofTexts ["filters.lib"], .ok (Text.toUtf8 gainLibrary)⟩]

/-- Building a catalog in the place of the library. -/
def buildGain (shown : Except FileError Unit) : Launch (id : FileTree → FileTree) where
  files := accessShowing shown
  isAtomic := isAtomic_accessShowing shown
  arguments := ["build-catalog", "libs", "-o", "libs/filters.lib"]
  invocation := ⟨.buildCatalog "libs" "libs/filters.lib", none, "warn"⟩
  accepted := by decide

/-- Building a catalog into the null device. -/
def buildGainToDevice : Launch (id : FileTree → FileTree) where
  files := accessShowing (.ok ())
  isAtomic := isAtomic_accessShowing (.ok ())
  arguments := ["build-catalog", "libs", "-o", "/dev/null"]
  invocation := ⟨.buildCatalog "libs" "/dev/null", none, "warn"⟩
  accepted := by decide

/-- Looking up the function in the catalog. -/
def lookupGain : Launch (id : FileTree → FileTree) where
  files := accessShowing (.ok ())
  isAtomic := isAtomic_accessShowing (.ok ())
  arguments := ["lookup", "fi.gain", "--catalog", "libs/filters.lib"]
  invocation := ⟨.lookup "fi.gain" (some "libs/filters.lib"), none, "warn"⟩
  accepted := by decide

theorem run_buildCatalog_gain (shown : Except FileError Unit) :
    ((accessShowing shown).buildCatalog .standard "libs").run.run gainTree =
      (.ok gainBuild, gainTree) := by
  have hrun := FileTree.run_buildCatalog gainTree none .empty .standard "libs"
  rwa [gainTree, FileTree.filesBelow_oneLibrary, if_pos (by decide +kernel)] at hrun

theorem run_load_gain (shown : Except FileError Unit) :
    (Configuration.load (accessShowing shown) none).run.run gainTree = (.ok .standard, gainTree) :=
  rfl

/-- The catalog is built and written to an output. -/
theorem run_work_gain {shown : Except FileError Unit} {output : Text} {t : FileTree}
    (hwrite : ((accessShowing shown).writeArtifact output gainBuild.catalog.toJson).run.run
      gainTree = (.ok (), t)) :
    (Invocation.work (accessShowing shown) ⟨.buildCatalog "libs" output, none, "warn"⟩).run.run
      gainTree = (.ok (.ofCatalog output gainBuild), t) := by
  refine (run_bind_of_ok (run_load_gain shown)).trans (run_adapt_of_ok ?_)
  exact (run_bind_of_ok (run_buildCatalog_gain shown)).trans (run_bind_of_ok hwrite)

/-- The catalog replaces the library. -/
theorem run_work_buildGain (shown : Except FileError Unit) :
    ((buildGain shown).invocation.work (buildGain shown).files).run.run gainTree =
      (.ok (.ofCatalog "libs/filters.lib" gainBuild),
        gainTree.insert gainPlace (.file (Text.toUtf8 gainBuild.catalog.toJson))) :=
  run_work_gain rfl

/-- What was the library is the catalog, which starts with another character. -/
theorem file?_after_buildGain_ne (shown : Except FileError Unit) :
    ((buildGain shown).after gainTree).file? gainPlace ≠ gainTree.file? gainPlace := by
  have hafter : (buildGain shown).after gainTree = _ :=
    tree_after_of_work (run_work_buildGain shown)
  rw [hafter]
  intro hsame
  have hjson : Text.toUtf8 gainBuild.catalog.toJson = Text.toUtf8 gainLibrary :=
    Option.some.inj hsame
  have htext := congrArg Text.ofUtf8? hjson
  rw [Text.ofUtf8?_toUtf8, Text.ofUtf8?_toUtf8] at htext
  have hhead : gainBuild.catalog.toJson.head? ≠ gainLibrary.head? := by
    decide +kernel
  exact hhead (congrArg List.head? (Option.some.inj htext))

theorem isSized_gainTree : gainTree.IsSized := by
  have hsize : (Text.toUtf8 gainLibrary).size ≤ Value.maxCount := by
    rw [Text.size_toUtf8]
    decide
  intro bytes hbytes
  rcases List.mem_cons.1 hbytes with hnode | hbytes
  · cases hnode
  · cases List.mem_singleton.1 hbytes
    exact hsize

/-- A catalog is built from a library and replaces it.  Looking up its function reads the catalog
and leaves it as it is. -/
theorem hasEffects_of_session_gain :
    gainBuild.catalog.functions.keys = ["fi.gain".toList] ∧
      (buildGain (.ok ())).answer gainTree = .ok (.ofCatalog "libs/filters.lib" gainBuild) ∧
      ((buildGain (.ok ())).after gainTree).Holds Catalog.ofJson "libs/filters.lib"
        gainBuild.catalog ∧
      afterAll [buildGain (.ok ()), lookupGain] gainTree = (buildGain (.ok ())).after gainTree ∧
      ∃ before l later, [buildGain (.ok ()), lookupGain] = before ++ l :: later ∧
        l.WritesTo gainPlace (afterAll before gainTree) := by
  obtain ⟨heffects, hframe⟩ := hasEffects_of_session gainTree [buildGain (.ok ()), lookupGain]
  have hkeys : gainBuild.catalog.functions.keys = ["fi.gain".toList] := by
    decide +kernel
  have hwork := run_work_buildGain (.ok ())
  have hanswer : (buildGain (.ok ())).answer gainTree =
      .ok (.ofCatalog "libs/filters.lib" gainBuild) :=
    congrArg Prod.fst (run_bind_of_ok hwork)
  have hlookup : afterAll [buildGain (.ok ()), lookupGain] gainTree =
      (buildGain (.ok ())).after gainTree :=
    (heffects [buildGain (.ok ())] lookupGain [] rfl).readOnly rfl
  obtain ⟨b, ⟨c, t, u, -, htree, hb⟩, -, hholds⟩ :=
    (heffects [] (buildGain (.ok ())) [lookupGain] rfl).catalog _ _ rfl ⟨_, _, hwork⟩
  obtain rfl : t = gainTree := htree
  cases (run_buildCatalog_gain (.ok ())).symm.trans hb
  have hdevice : ¬ ((buildGain (.ok ())).after gainTree).LeadsToDevice "libs/filters.lib" := by
    have hafter : (buildGain (.ok ())).after gainTree = _ := tree_after_of_work hwork
    rw [hafter]
    rintro ⟨place, hplace, hnode⟩
    obtain rfl : gainPlace = place := Except.ok.inj hplace
    cases hnode
  refine ⟨hkeys, hanswer, (hholds isSized_gainTree).resolve_left hdevice, hlookup,
    hframe _ fun hsame => ?_⟩
  rw [hlookup] at hsame
  exact file?_after_buildGain_ne (.ok ()) hsame

/-- Nothing is read from the null device, and it takes all that is written to it. -/
theorem run_work_buildGainToDevice :
    (buildGainToDevice.invocation.work buildGainToDevice.files).run.run gainTree =
      (.ok (.ofCatalog "/dev/null" gainBuild), gainTree) :=
  run_work_gain rfl

/-- The reason why nothing more can be written for the user. -/
def noSpace : FileError :=
  .other "No space left on device (os error 28)"

/-- A run that fails when its outcome is shown has replaced the library.  A run that writes to a
device succeeds, but the catalog is not read back. -/
theorem not_atomic_buildGain :
    (buildGain (.error noSpace)).answer gainTree = .error (.file noSpace) ∧
      ((buildGain (.error noSpace)).after gainTree).file? gainPlace ≠ gainTree.file? gainPlace ∧
      buildGainToDevice.answer gainTree = .ok (.ofCatalog "/dev/null" gainBuild) ∧
      ¬ (buildGainToDevice.after gainTree).Holds Catalog.ofJson "/dev/null" gainBuild.catalog := by
  refine ⟨congrArg Prod.fst (run_bind_of_ok (run_work_buildGain _)), file?_after_buildGain_ne _,
    congrArg Prod.fst (run_bind_of_ok run_work_buildGainToDevice), fun hholds => ?_⟩
  have hafter : buildGainToDevice.after gainTree = gainTree :=
    tree_after_of_work run_work_buildGainToDevice
  rw [hafter] at hholds
  have hread : ((FileTree.access none .empty).readText "/dev/null").run gainTree =
      (.ok [], gainTree) :=
    congrArg (·, gainTree) (decodeText_toUtf8 [])
  obtain ⟨r, s₁, hr, hrest⟩ := exists_of_run_bind_eq_ok (hholds none .empty)
  cases hread.symm.trans (run_of_lift_eq_ok hr)
  have hempty : (Catalog.ofJson []).toOption = none := by
    decide +kernel
  cases hjson : Catalog.ofJson [] with
  | error e =>
      dsimp only at hrest
      rw [hjson] at hrest
      cases hrest
  | ok c =>
      rw [hjson] at hempty
      cases hempty

end Launch
end DspCheck
