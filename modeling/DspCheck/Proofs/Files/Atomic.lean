import DspCheck.Command.Artifacts
import DspCheck.Proofs.Files.Changes

/-!
# Access that changes files as a whole

A program works in states that each have a tree of files.  Access to the files is *atomic*
(`FileAccess.IsAtomic`) if nothing changes the tree but creating a directory and writing a file,
and each of them either makes its change of the tree or fails and leaves the tree as it was.  It may
fail for any reason.

An action *respects* a relation if it takes each tree to a related one (`Respects`).  So actions
that only read respect equality, and creating the directories of a file lets the tree grow by them
(`respects_prepare`).  An artifact that cannot be written leaves a tree that has grown
(`growsBy_of_writeArtifact`); otherwise a tree that has grown has been changed in the file
(`exists_of_writeArtifact`).
-/

namespace DspCheck

/-! ## Actions and the trees before and after them -/

section Respects

variable {σ α β ε ε' : Type}

/-- An action takes the tree of each state to one in a given relation to it. -/
def Respects (tree : σ → FileTree) (R : FileTree → FileTree → Prop) (x : StateM σ α) : Prop :=
  ∀ s, R (tree s) (tree (x.run s).2)

variable {tree : σ → FileTree} {R : FileTree → FileTree → Prop}

theorem respects_pure [IsPreorder FileTree R] (a : α) :
    Respects tree R (pure a : StateM σ α) :=
  fun s => refl_of R (tree s)

theorem Respects.bind [IsPreorder FileTree R] {x : StateM σ α} {f : α → StateM σ β}
    (hx : Respects tree R x) (hf : ∀ a, Respects tree R (f a)) : Respects tree R (x >>= f) :=
  fun s => trans_of R (hx s) (hf _ _)

theorem respects_pure_run [IsPreorder FileTree R] (a : α) :
    Respects tree R (pure a : ExceptT ε (StateM σ) α).run :=
  respects_pure _

theorem respects_throw_run [IsPreorder FileTree R] (e : ε) :
    Respects tree R (throw e : ExceptT ε (StateM σ) α).run :=
  respects_pure _

theorem Respects.bind_run [IsPreorder FileTree R] {x : ExceptT ε (StateM σ) α}
    {f : α → ExceptT ε (StateM σ) β} (hx : Respects tree R x.run)
    (hf : ∀ a, Respects tree R (f a).run) : Respects tree R (x >>= f).run := by
  rw [ExceptT.run_bind]
  refine Respects.bind hx fun r => ?_
  cases r with
  | ok a =>
      exact hf a
  | error e =>
      exact respects_pure _

theorem respects_throw_bind_run [IsPreorder FileTree R] (e : ε)
    (f : α → ExceptT ε (StateM σ) β) : Respects tree R (throw e >>= f).run :=
  respects_pure _

theorem Respects.lift_run [IsPreorder FileTree R] {x : StateM σ α} (hx : Respects tree R x) :
    Respects tree R (liftM x : ExceptT ε (StateM σ) α).run :=
  Respects.bind hx fun _ => respects_pure _

theorem Respects.adapt_run [IsPreorder FileTree R] {x : ExceptT ε (StateM σ) α}
    (hx : Respects tree R x.run) (f : ε → ε') :
    Respects tree R (ExceptT.adapt f x).run :=
  Respects.bind hx fun _ => respects_pure _

/-! ## The parts of a run -/

variable {x : ExceptT ε (StateM σ) α} {f : α → ExceptT ε (StateM σ) β} {s s' : σ}

theorem run_bind_of_ok {a : α} {s₁ : σ} (h : x.run.run s = (.ok a, s₁)) :
    (x >>= f).run.run s = (f a).run.run s₁ := by
  rw [ExceptT.run_bind, StateT.run_bind, h]
  rfl

theorem run_bind_of_error {e : ε} {s₁ : σ} (h : x.run.run s = (.error e, s₁)) :
    (x >>= f).run.run s = (.error e, s₁) := by
  rw [ExceptT.run_bind, StateT.run_bind, h]
  rfl

theorem exists_of_run_bind_eq_ok {b : β} (h : (x >>= f).run.run s = (.ok b, s')) :
    ∃ a s₁, x.run.run s = (.ok a, s₁) ∧ (f a).run.run s₁ = (.ok b, s') := by
  cases hx : x.run.run s with
  | mk r s₁ =>
      cases r with
      | ok a =>
          exact ⟨a, s₁, rfl, (run_bind_of_ok hx).symm.trans h⟩
      | error e =>
          cases (run_bind_of_error hx).symm.trans h

theorem exists_of_run_bind_eq_error {e : ε} (h : (x >>= f).run.run s = (.error e, s')) :
    x.run.run s = (.error e, s') ∨
      ∃ a s₁, x.run.run s = (.ok a, s₁) ∧ (f a).run.run s₁ = (.error e, s') := by
  cases hx : x.run.run s with
  | mk r s₁ =>
      cases r with
      | ok a =>
          exact Or.inr ⟨a, s₁, rfl, (run_bind_of_ok hx).symm.trans h⟩
      | error e' =>
          cases (run_bind_of_error hx).symm.trans h
          exact Or.inl rfl

theorem run_adapt (g : ε → ε') (x : ExceptT ε (StateM σ) α) (s : σ) :
    (ExceptT.adapt g x).run.run s = ((x.run.run s).1.mapError g, (x.run.run s).2) := rfl

theorem run_adapt_of_ok {g : ε → ε'} {a : α} (h : x.run.run s = (.ok a, s')) :
    (ExceptT.adapt g x).run.run s = (.ok a, s') := by
  rw [run_adapt, h]
  rfl

theorem run_of_adapt_eq_ok {g : ε → ε'} {a : α}
    (h : (ExceptT.adapt g x).run.run s = (.ok a, s')) : x.run.run s = (.ok a, s') := by
  rw [run_adapt] at h
  cases hx : x.run.run s with
  | mk r s₁ =>
      rw [hx] at h
      cases r <;> cases h
      rfl

theorem exists_of_adapt_eq_error {g : ε → ε'} {e' : ε'}
    (h : (ExceptT.adapt g x).run.run s = (.error e', s')) :
    ∃ e, x.run.run s = (.error e, s') := by
  rw [run_adapt] at h
  cases hx : x.run.run s with
  | mk r s₁ =>
      rw [hx] at h
      cases r <;> cases h
      exact ⟨_, rfl⟩

theorem run_lift (y : StateM σ α) (s : σ) :
    (liftM y : ExceptT ε (StateM σ) α).run.run s = (.ok (y.run s).1, (y.run s).2) := rfl

theorem run_of_lift_eq_ok {y : StateM σ α} {a : α}
    (h : (liftM y : ExceptT ε (StateM σ) α).run.run s = (.ok a, s')) : y.run s = (a, s') := by
  rw [run_lift] at h
  cases h
  rfl

theorem Respects.of_run {r : α} {y : StateM σ α} (hy : Respects tree R y)
    (h : y.run s = (r, s')) : R (tree s) (tree s') := by
  have hs := hy s
  rw [h] at hs
  exact hs

end Respects

/-! ## Atomic access -/

/-- An action makes a change of the tree, or it fails and leaves the tree as it was. -/
def IsChange {σ : Type} (tree : σ → FileTree) (f : FileTree → Except FileError FileTree)
    (x : StateM σ (Except FileError Unit)) : Prop :=
  ∀ s, match x.run s with
    | (.ok (), s') => f (tree s) = .ok (tree s')
    | (.error _, s') => tree s = tree s'

namespace FileAccess

/-- Nothing changes the tree of a state but creating directories and writing files, each as a whole
or not at all, and what is found below a directory are files of the tree.  What is written for the
user goes to none of them. -/
structure IsAtomic {σ : Type} (files : FileAccess (StateM σ)) (tree : σ → FileTree) : Prop where
  read : ∀ path, Respects tree Eq (files.read path)
  isPresent : ∀ path, Respects tree Eq (files.isPresent path)
  isDirectory : ∀ path, Respects tree Eq (files.isDirectory path)
  filesBelow : ∀ path, Respects tree Eq (files.filesBelow path)
  found : ∀ path s, ∀ f ∈ ((files.filesBelow path).run s).1, ∀ bytes, f.content = .ok bytes →
    .file bytes ∈ (tree s).values
  createDirectory : ∀ path, IsChange tree (·.createDirectory path) (files.createDirectory path)
  write : ∀ path bytes, IsChange tree (·.write path bytes) (files.write path bytes)
  print : ∀ t, Respects tree Eq (files.print t)
  input : Respects tree Eq files.input

end FileAccess

section Changes

variable {σ : Type} {tree : σ → FileTree} {f : FileTree → Except FileError FileTree}
  {x : StateM σ (Except FileError Unit)} {s s' : σ}

theorem IsChange.of_ok (h : IsChange tree f x) (hrun : x.run s = (.ok (), s')) :
    f (tree s) = .ok (tree s') := by
  have hs := h s
  rw [hrun] at hs
  exact hs

theorem IsChange.of_error (h : IsChange tree f x) {e : FileError}
    (hrun : x.run s = (.error e, s')) : tree s = tree s' := by
  have hs := h s
  rw [hrun] at hs
  exact hs

/-- A change respects what holds of all trees that it makes. -/
theorem IsChange.respects (h : IsChange tree f x) {R : FileTree → FileTree → Prop}
    [IsPreorder FileTree R] (hf : ∀ t u, f t = .ok u → R t u) : Respects tree R x := by
  intro s
  cases hrun : x.run s with
  | mk r s' =>
      cases r with
      | ok _ =>
          exact hf _ _ (h.of_ok hrun)
      | error e =>
          rw [h.of_error hrun]
          exact refl_of R _

end Changes

/-- A tree of files is atomic access to itself. -/
theorem FileTree.isAtomic_access (home : Option Text) (input : ByteArray) :
    (FileTree.access home input).IsAtomic id := by
  have hchange : ∀ f : FileTree → Except FileError FileTree, IsChange id f (FileTree.change f) := by
    intro f t
    cases hf : f t with
    | ok u =>
        have hrun : (FileTree.change f).run t = (.ok (), u) := by
          change FileTree.change f t = _
          rw [FileTree.change, hf]
        rw [hrun]
        exact hf
    | error e =>
        have hrun : (FileTree.change f).run t = (.error e, t) := by
          change FileTree.change f t = _
          rw [FileTree.change, hf]
        rw [hrun]
  refine ⟨fun _ _ => rfl, fun _ _ => rfl, fun _ _ => rfl, fun _ _ => rfl, ?_,
    fun _ => hchange _, fun _ _ => hchange _, fun _ _ => rfl, fun _ => rfl⟩
  intro path t f hf bytes hbytes
  change f ∈ t.filesBelow path at hf
  unfold FileTree.filesBelow at hf
  split at hf
  · cases hf
  · obtain ⟨e, he, hentry⟩ := List.mem_filterMap.1 (List.mem_mergeSort.1 hf)
    obtain ⟨-, -, found, rfl, hfound⟩ := FileTree.entryBelow?_eq_some_iff.1 hentry
    cases hbytes.symm.trans hfound
    exact List.mem_map_of_mem he

/-! ## Reading -/

/-- The bytes of a text are decoded to the text. -/
theorem decodeText_toUtf8 (t : Text) : decodeText (.ok (Text.toUtf8 t)) = .ok t := by
  unfold decodeText
  rw [Except.bind, Text.ofUtf8?_toUtf8]

/-- A text that holds something is read as an artifact. -/
theorem FileAccess.run_readArtifact {σ α : Type} {files : FileAccess (StateM σ)}
    {ofJson : Text → Except ArtifactFault α} {path json : Text} {a : α} {s s' : σ}
    (hread : (files.readText path).run s = (.ok json, s')) (hjson : ofJson json = .ok a) :
    (files.readArtifact ofJson path).run.run s = (.ok a, s') := by
  have hlift : (liftM (files.readText path) : ExceptT CatalogFault (StateM σ) _).run.run s =
      (.ok (.ok json), s') := by
    rw [run_lift, hread]
  rw [readArtifact, run_bind_of_ok hlift]
  dsimp only
  rw [hjson]
  rfl

namespace FileAccess.IsAtomic

variable {σ α : Type} {files : FileAccess (StateM σ)} {tree : σ → FileTree}

theorem respects_readText (h : files.IsAtomic tree) (path : Text) :
    Respects tree Eq (files.readText path) :=
  (h.read path).bind fun _ => respects_pure _

theorem respects_readArtifact (h : files.IsAtomic tree) (ofJson : Text → Except ArtifactFault α)
    (path : Text) : Respects tree Eq (files.readArtifact ofJson path).run := by
  refine (h.respects_readText path).lift_run.bind_run fun r => ?_
  cases r with
  | error e =>
      exact respects_throw_run _
  | ok json =>
      dsimp only
      split
      · exact respects_throw_run _
      · exact respects_pure_run _

theorem respects_filesOf (h : files.IsAtomic tree) (directory : Text) :
    Respects tree Eq (files.filesOf directory).run := by
  refine (h.isDirectory directory).lift_run.bind_run fun isThere => ?_
  cases isThere with
  | true =>
      exact (h.filesBelow directory).lift_run
  | false =>
      exact respects_throw_run _

theorem respects_buildCatalog (h : files.IsAtomic tree) (settings : LibrarySettings)
    (directory : Text) : Respects tree Eq (files.buildCatalog settings directory).run :=
  (h.respects_filesOf directory).bind_run fun _ => respects_pure_run _

theorem respects_buildRemedies (h : files.IsAtomic tree) (settings : ScanSettings)
    (directory? : Option Text) :
    Respects tree Eq (files.buildRemedies settings directory?).run := by
  cases directory? with
  | none =>
      exact respects_pure_run _
  | some directory =>
      exact (h.respects_filesOf directory).bind_run fun _ => respects_pure_run _

/-! ## Writing -/

variable {paths : List Text} {path : Text}

theorem respects_createDirectory (h : files.IsAtomic tree) (hpath : path ∈ paths) :
    Respects tree (FileTree.GrowsBy paths) (files.createDirectory path) :=
  (h.createDirectory path).respects fun _ _ => FileTree.growsBy_createDirectory hpath

theorem respects_settle (h : files.IsAtomic tree) (path : Text) (r : Except FileError Unit) :
    Respects tree (FileTree.GrowsBy paths) (files.settle path r) := by
  cases r with
  | ok _ =>
      exact respects_pure _
  | error e =>
      refine Respects.bind (fun s => ?_) fun _ => respects_pure _
      rw [← h.isDirectory path s]
      exact refl_of _ _

/-- Creating directories that lead to each other lets the tree grow by them. -/
theorem respects_createDirectories (h : files.IsAtomic tree) {missing : List Text}
    (hmissing : ∀ path ∈ missing, path ∈ paths) :
    Respects tree (FileTree.GrowsBy paths) (files.createDirectories missing) := by
  induction missing with
  | nil =>
      exact respects_pure _
  | cons path outer ih =>
      rw [List.forall_mem_cons] at hmissing
      refine (h.respects_createDirectory hmissing.1).bind fun r => ?_
      split
      · refine (ih hmissing.2).bind fun r => ?_
        cases r with
        | error e =>
            exact respects_pure _
        | ok _ =>
            exact (h.respects_createDirectory hmissing.1).bind fun r => h.respects_settle path r
      · exact h.respects_settle path _

/-- Preparing a file lets the tree grow by the directories that lead to it. -/
theorem respects_prepare (h : files.IsAtomic tree) (path : Text) :
    Respects tree (FileTree.GrowsBy (Path.ancestors path)) (files.prepare path).run := by
  unfold FileAccess.prepare
  split
  · exact respects_pure_run _
  · next directory outer hancestors =>
      refine (h.respects_createDirectories fun p hp => ?_).lift_run.bind_run fun r => ?_
      · rw [hancestors]
        exact hp
      · cases r with
        | ok _ =>
            exact respects_pure_run _
        | error e =>
            exact respects_throw_run _

/-- An artifact is written to a tree that has grown by the directories that lead to its file. -/
theorem exists_of_writeArtifact (h : files.IsAtomic tree) {json : Text} {s s' : σ}
    (hrun : (files.writeArtifact path json).run.run s = (.ok (), s')) :
    ∃ u, (tree s).GrowsBy (Path.ancestors path) u ∧
      u.write path (Text.toUtf8 json) = .ok (tree s') := by
  obtain ⟨_, s₁, hprepare, hrun⟩ := exists_of_run_bind_eq_ok hrun
  obtain ⟨r, s₂, hwrite, hrun⟩ := exists_of_run_bind_eq_ok hrun
  cases r with
  | ok _ =>
      cases hrun
      exact ⟨tree s₁, (h.respects_prepare path).of_run hprepare,
        (h.write path _).of_ok (run_of_lift_eq_ok hwrite)⟩
  | error e =>
      cases hrun

/-- If an artifact cannot be written, the tree has at most grown by the directories that lead to its
file. -/
theorem growsBy_of_writeArtifact (h : files.IsAtomic tree) {json : Text} {s s' : σ}
    {e : CatalogFault} (hrun : (files.writeArtifact path json).run.run s = (.error e, s')) :
    (tree s).GrowsBy (Path.ancestors path) (tree s') := by
  rcases exists_of_run_bind_eq_error hrun with hprepare | ⟨_, s₁, hprepare, hrun⟩
  · exact (h.respects_prepare path).of_run hprepare
  have hgrows := (h.respects_prepare path).of_run hprepare
  rcases exists_of_run_bind_eq_error hrun with hwrite | ⟨r, s₂, hwrite, hrun⟩
  · cases hwrite
  · cases r with
    | ok _ =>
        cases hrun
    | error e =>
        cases hrun
        rw [← (h.write path _).of_error (run_of_lift_eq_ok hwrite)]
        exact hgrows

end FileAccess.IsAtomic
end DspCheck
