import DspCheck.Proofs.Files.Tree

/-!
# What changes of a tree keep

Creating directories and writing files keep the directories that are there, and so all paths lead
where they led (`locateNames_of_keeps`).

A tree *grows* by some directories if nothing that is there changes and nothing is new but
directories to which given paths lead (`GrowsBy`).  Such a tree has the same files
(`GrowsBy.file?`).  Writing to a file in a tree that has grown changes at most this one file
(`GrowsBy.write`).
-/

namespace DspCheck

namespace FileTree

variable {t u v : FileTree} {p q : Path} {path : Text} {paths : List Text}

/-- The bytes of the file at a place. -/
def file? (t : FileTree) (p : Path) : Option ByteArray :=
  match t.node? p with
  | some (.file bytes) => some bytes
  | _ => none

theorem node?_insert (hp : standing? p = none) (n : FileNode) :
    node? (t.insert p n) q = if p = q then some n else t.node? q := by
  rw [node?, node?, OrderedMap.get?_insert]
  split
  · next heq =>
      rw [← heq, hp, Option.none_or]
  · rfl

theorem standing?_of_node?_eq_none (h : t.node? p = none) : standing? p = none :=
  (Option.or_eq_none_iff.1 h).1

/-- A directory has a place, and is there. -/
theorem isDirectory_iff : t.isDirectory path = true ↔
    ∃ place, t.locate path = .ok place ∧ t.node? place = some .directory := by
  rw [isDirectory, find]
  cases t.locate path with
  | error e =>
      constructor
      · intro h
        cases h
      · rintro ⟨place, hplace, -⟩
        cases hplace
  | ok place =>
      dsimp only [bind, Except.bind]
      constructor
      · intro h
        split at h
        · next hfind =>
            split at hfind
            · cases hfind
            · next hnode =>
                cases hfind
                exact ⟨place, rfl, hnode⟩
        · cases h
      · rintro ⟨_, ⟨⟩, hnode⟩
        rw [hnode]

/-! ## Places after a change -/

/-- The directories of a tree are directories of another one. -/
def Keeps (t u : FileTree) : Prop :=
  ∀ p, t.node? p = some .directory → u.node? p = some .directory

theorem enter_of_keeps (h : t.Keeps u) {here there : Path} {name : Text}
    (henter : t.enter here name = .ok there) : u.enter here name = .ok there := by
  unfold enter at henter ⊢
  split at henter
  · cases henter
  · next hnode =>
      rw [h here hnode]
      exact henter
  · cases henter

/-- Names lead where they led. -/
theorem locateNames_of_keeps (h : t.Keeps u) {names : List Text} {place : Path}
    (hplace : t.locateNames path names = .ok place) : u.locateNames path names = .ok place := by
  obtain ⟨q, hchecked, hfold⟩ := exists_of_bind_eq_ok hplace
  have key : ∀ here, names.foldlM t.enter here = .ok place →
      names.foldlM u.enter here = .ok place := by
    clear hplace hfold
    induction names with
    | nil =>
        exact fun _ hfold => hfold
    | cons name names ih =>
        intro here hfold
        rw [List.foldlM_cons] at hfold ⊢
        obtain ⟨next, henter, hrest⟩ := exists_of_bind_eq_ok hfold
        rw [enter_of_keeps h henter]
        exact ih next hrest
  rw [locateNames, hchecked]
  exact key _ hfold

theorem isDirectory_of_keeps (h : t.Keeps u) (hdirectory : t.isDirectory path = true) :
    u.isDirectory path = true := by
  obtain ⟨place, hplace, hnode⟩ := isDirectory_iff.1 hdirectory
  exact isDirectory_iff.2 ⟨place, locateNames_of_keeps h hplace, h place hnode⟩

/-- Slashes behind the path of a directory lead nowhere else. -/
theorem locate_of_directory (hplace : t.locateNames path (Path.namesBeforeSlashes path) = .ok p)
    (hnode : t.node? p = some .directory) : t.locate path = .ok p := by
  obtain ⟨q, hchecked, hfold⟩ := exists_of_bind_eq_ok hplace
  have hsplit : Path.names path = Path.namesBeforeSlashes path ++
      ((Path.names path).reverse.takeWhile (· = [])).reverse := by
    rw [Path.namesBeforeSlashes, ← List.reverse_append, List.takeWhile_append_dropWhile,
      List.reverse_reverse]
  have hstill : ∀ names : List Text, (∀ name ∈ names, name = []) →
      names.foldlM t.enter p = .ok p := by
    intro names hnames
    induction names with
    | nil =>
        rfl
    | cons name names ih =>
        rw [List.forall_mem_cons] at hnames
        have henter : t.enter p name = .ok p := by
          rw [enter, hnode, hnames.1]
          rfl
        rw [List.foldlM_cons, henter]
        exact ih hnames.2
  have hslashes : ∀ name ∈ ((Path.names path).reverse.takeWhile (· = [])).reverse, name = [] := by
    intro name hname
    simpa using List.all_eq_true.1 List.all_takeWhile name (List.mem_reverse.1 hname)
  rw [locate, locateNames, hchecked, hsplit]
  change List.foldlM t.enter (Path.start q) _ = _
  rw [List.foldlM_append, hfold]
  exact hstill _ hslashes

/-! ## The changes -/

theorem keeps_insert_file (hp : standing? p = none) (h : t.node? p ≠ some .directory)
    (bytes : ByteArray) : t.Keeps (t.insert p (.file bytes)) := by
  intro q hq
  rw [node?_insert hp, if_neg]
  · exact hq
  · rintro rfl
    exact h hq

/-! ## Trees that grow -/

/-- Nothing that is in a tree has changed, and all that is new are directories to which some paths
lead. -/
structure GrowsBy (paths : List Text) (t u : FileTree) : Prop where
  kept : ∀ p n, t.node? p = some n → u.node? p = some n
  added : ∀ p n, t.node? p = none → u.node? p = some n →
    n = .directory ∧ ∃ path ∈ paths, u.locate path = .ok p

theorem GrowsBy.keeps (h : t.GrowsBy paths u) : t.Keeps u :=
  fun p => h.kept p .directory

instance (paths : List Text) : IsPreorder FileTree (GrowsBy paths) where
  refl t := by
    refine ⟨fun _ _ h => h, fun p n hnone hsome => ?_⟩
    rw [hnone] at hsome
    cases hsome
  trans t u v htu huv := by
    refine ⟨fun p n h => huv.kept p n (htu.kept p n h), fun p n hnone hsome => ?_⟩
    cases hu : u.node? p with
    | none =>
        exact huv.added p n hu hsome
    | some m =>
        obtain ⟨rfl, path, hpath, hlocate⟩ := htu.added p m hnone hu
        rw [huv.kept p _ hu] at hsome
        exact ⟨(Option.some.inj hsome).symm, path, hpath,
          locateNames_of_keeps huv.keeps hlocate⟩

/-- A tree that has grown has the same files. -/
theorem GrowsBy.file? (h : t.GrowsBy paths u) (p : Path) : u.file? p = t.file? p := by
  unfold FileTree.file?
  cases ht : t.node? p with
  | some n =>
      rw [h.kept p n ht]
  | none =>
      cases hu : u.node? p with
      | none =>
          rfl
      | some n =>
          obtain ⟨rfl, -⟩ := h.added p n ht hu
          rfl

/-- Creating a directory grows the tree by it. -/
theorem growsBy_createDirectory (hpath : path ∈ paths) (h : t.createDirectory path = .ok u) :
    t.GrowsBy paths u := by
  obtain ⟨place, hplace, hnone, rfl⟩ := exists_of_createDirectory h
  have hfree := standing?_of_node?_eq_none hnone
  have hkept : ∀ p n, t.node? p = some n → node? (t.insert place .directory) p = some n := by
    intro p n hp
    rw [node?_insert hfree, if_neg]
    · exact hp
    · rintro rfl
      rw [hnone] at hp
      cases hp
  refine ⟨hkept, fun p n hp hn => ?_⟩
  rw [node?_insert hfree] at hn
  split at hn
  · next heq =>
      subst heq
      have hnode : node? (t.insert place .directory) place = some .directory := by
        rw [node?_insert hfree, if_pos rfl]
      exact ⟨(Option.some.inj hn).symm, path, hpath, locate_of_directory
        (locateNames_of_keeps (fun q => hkept q .directory) hplace) hnode⟩
  · rw [hp] at hn
    cases hn

/-- After a file of a tree that has grown has been written, its path leads to the new bytes or to a
device, and all other files are as they were. -/
theorem GrowsBy.write {bytes : ByteArray} (h : t.GrowsBy paths u)
    (hwrite : u.write path bytes = .ok v) :
    ∃ place, v.locate path = .ok place ∧
      (v.node? place = some .device ∨ v.file? place = some bytes) ∧
      ∀ p, p ≠ place → v.file? p = t.file? p := by
  obtain ⟨place, hplace, ⟨hdevice, rfl⟩ | ⟨hnode, hfree, rfl⟩⟩ := exists_of_write hwrite
  · exact ⟨place, hplace, Or.inl hdevice, fun p _ => h.file? p⟩
  · refine ⟨place, locateNames_of_keeps (keeps_insert_file hfree hnode bytes) hplace,
      Or.inr ?_, fun p hp => ?_⟩
    · rw [FileTree.file?, node?_insert hfree, if_pos rfl]
    · rw [← h.file? p, FileTree.file?, node?_insert hfree, if_neg (Ne.symm hp), FileTree.file?]

/-- The bytes of the file to which a path leads are read. -/
theorem read_of_file? {bytes : ByteArray} (hplace : t.locate path = .ok p)
    (hfile : t.file? p = some bytes) : t.read path = .ok bytes := by
  unfold FileTree.file? at hfile
  split at hfile
  · next found hnode =>
      obtain rfl := Option.some.inj hfile
      have hfind : t.find path = .ok (.file found) := by
        rw [find, hplace]
        dsimp only [bind, Except.bind]
        rw [hnode]
      rw [read, hfind]
      rfl
  · cases hfile

end FileTree
end DspCheck
