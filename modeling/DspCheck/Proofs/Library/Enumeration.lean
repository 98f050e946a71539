import DspCheck.Proofs.Files.Walk
import DspCheck.Proofs.Library.Build

/-!
# Catalogs do not depend on the order in which files are listed

A file system that lists the entries of directories in some order gives access to a tree by walks
through this listing (`Listing.access`).  If the listing is one of the tree, the files of a
directory are those of the tree itself (`Listing.IsOf.run_filesOf`), and these do not depend on the
order of the entries of the tree (`FileTree.filesBelow_eq_of_perm`).

A table of short names is only asked for single files, so the order of its entries does not matter
either (`CatalogDraft.addSource_eq_of_perm`).

Main statement: `Listing.builds_eq_of_perm`.
-/

namespace DspCheck

/-! ## Trees with the same entries -/

namespace FileTree

variable {t u : FileTree}

theorem node?_eq_of_perm (h : t.entries.Perm u.entries) (p : Path) : t.node? p = u.node? p := by
  rw [node?, node?, OrderedMap.get?_eq_of_perm h]

/-- Paths lead to the same places. -/
theorem locate_eq_of_perm (h : t.entries.Perm u.entries) (p : Text) : t.locate p = u.locate p := by
  have henter : t.enter = u.enter := by
    funext here name
    rw [enter, enter, node?_eq_of_perm h]
  rw [locate, locate, locateNames, locateNames, henter]

theorem isDirectory_eq_of_perm (h : t.entries.Perm u.entries) (p : Text) :
    t.isDirectory p = u.isDirectory p := by
  have hnode : t.node? = u.node? := funext (node?_eq_of_perm h)
  rw [isDirectory, isDirectory, find, find, locate_eq_of_perm h, hnode]

/-- The same files stand below a directory, in the same order. -/
theorem filesBelow_eq_of_perm (h : t.entries.Perm u.entries) (p : Text) :
    t.filesBelow p = u.filesBelow p := by
  cases hplace : t.locate p with
  | error e =>
      rw [filesBelow, filesBelow, ← locate_eq_of_perm h, hplace]
  | ok place =>
      refine filesBelow_congr hplace (locate_eq_of_perm h p ▸ hplace) fun path _ => ?_
      rw [file?, file?, node?_eq_of_perm h]

end FileTree

/-! ## Access by walks -/

namespace Listing

/-- A listing of what is below a path of a tree. -/
def IsOf (t : FileTree) (directory : Text) (l : Listing) : Prop :=
  ∀ place, t.locate directory = .ok place → l.Shows t place

/-- Access to a tree, in which files are looked for by a walk through a listing. -/
def access (l : Listing) (home : Option Text) (input : ByteArray) : FileAccess (StateM FileTree) :=
  { FileTree.access home input with filesBelow := fun _ => return l.walk [] }

variable {t u : FileTree} {directory : Text} {l l' : Listing}

/-- A walk through a listing of a directory finds its files. -/
theorem IsOf.run_filesOf (h : l.IsOf t directory) (home : Option Text) (input : ByteArray) :
    ((l.access home input).filesOf directory).run.run t =
      ((FileTree.access home input).filesOf directory).run.run t := by
  have hwalk : ((l.access home input).filesOf directory).run.run t =
      (if t.isDirectory directory then .ok (l.walk [])
      else .error (.missingDirectory directory), t) := by
    change (if t.isDirectory directory then _ else _ : ExceptT _ (StateM _) _).run.run t = _
    split <;> rfl
  rw [hwalk, FileTree.run_filesOf]
  split
  · next hdirectory =>
      obtain ⟨place, hplace, -⟩ := FileTree.isDirectory_iff.1 hdirectory
      rw [(h place hplace).walk_eq_filesBelow hplace]
  · rfl

end Listing

namespace FileAccess

variable {directory : Text} {t u : FileTree} {files files' : FileAccess (StateM FileTree)}

/-- What is made of the files of a directory, if they are found. -/
theorem fst_run_map_filesOf {α : Type} (f : List FoundFile → α) :
    ((do return f (← files.filesOf directory) : ExceptT CatalogFault (StateM FileTree) α).run.run
      t).1 = ((files.filesOf directory).run.run t).1.map f := by
  rw [ExceptT.run_bind, StateT.run_bind]
  rcases (files.filesOf directory).run.run t with ⟨found | e, t'⟩ <;> rfl

/-- Catalogs depend on the files that are found, and on nothing else of a tree. -/
theorem builds_eq_of_filesOf_eq
    (h : ((files.filesOf directory).run.run t).1 = ((files'.filesOf directory).run.run u).1) :
    (∀ settings, ((files.buildCatalog settings directory).run.run t).1 =
        ((files'.buildCatalog settings directory).run.run u).1) ∧
      ∀ settings, ((files.buildRemedies settings (some directory)).run.run t).1 =
        ((files'.buildRemedies settings (some directory)).run.run u).1 := by
  constructor
  · intro settings
    rw [buildCatalog, buildCatalog, fst_run_map_filesOf, fst_run_map_filesOf, h]
  · intro settings
    dsimp only [buildRemedies]
    rw [fst_run_map_filesOf, fst_run_map_filesOf, h]

end FileAccess

/-! ## Tables of short names -/

namespace CatalogDraft

variable {aliases table : OrderedMap Text Text}

/-- A file is read in the same way with a table that has its entries in another order. -/
theorem addSource_eq_of_perm (h : table.entries.Perm aliases.entries) (limits : DocLimits) :
    addSource limits table = addSource limits aliases := by
  funext d s
  have hname : LibraryFile.nameOf? s.file s.text table =
      LibraryFile.nameOf? s.file s.text aliases := by
    rw [LibraryFile.nameOf?, LibraryFile.nameOf?, OrderedMap.get?_eq_of_perm h]
  rw [addSource, addSource, LibraryFile.read, LibraryFile.read, hname]

end CatalogDraft

namespace Listing

/-- Catalogs do not depend on the order in which anything is listed: whatever the order of the
entries of a tree and of the entries of its directories, a catalog of libraries comes out the same,
and so does one of remedies; and a table of short names can be in any order, too. -/
theorem builds_eq_of_perm {t u : FileTree} (hsame : t.entries.Perm u.entries) {directory : Text}
    {l l' : Listing} (hl : l.IsOf t directory) (hl' : l'.IsOf u directory) (home : Option Text)
    (input : ByteArray) :
    (∀ settings, (((l.access home input).buildCatalog settings directory).run.run t).1 =
      (((l'.access home input).buildCatalog settings directory).run.run u).1) ∧
    (∀ settings, (((l.access home input).buildRemedies settings (some directory)).run.run t).1 =
      (((l'.access home input).buildRemedies settings (some directory)).run.run u).1) ∧
    ∀ limits sources (table : OrderedMap Text Text),
      table.entries.Perm (CatalogDraft.aliasesIn sources).entries →
      sources.foldl (CatalogDraft.addSource limits table) .empty =
        CatalogDraft.ofSources limits sources := by
  have hfiles : (((l.access home input).filesOf directory).run.run t).1 =
      (((l'.access home input).filesOf directory).run.run u).1 := by
    rw [hl.run_filesOf, hl'.run_filesOf, FileTree.run_filesOf, FileTree.run_filesOf,
      FileTree.isDirectory_eq_of_perm hsame, FileTree.filesBelow_eq_of_perm hsame]
  obtain ⟨hcatalogs, hremedies⟩ := FileAccess.builds_eq_of_filesOf_eq hfiles
  refine ⟨hcatalogs, hremedies, fun limits sources table htable => ?_⟩
  rw [CatalogDraft.ofSources, CatalogDraft.addSource_eq_of_perm htable]

/-- A library `a/x.lib` with one function. -/
def innerLibrary : ByteArray :=
  Text.toUtf8 "// prefix: fi\n//---gain---\ngain(k)=_;"

/-- A library `b.lib` with another function of the same name. -/
def outerLibrary : ByteArray :=
  Text.toUtf8 "// prefix: fi\n//---gain---\ngain(a,b)=_;"

/-- The files and directories of a directory `libs` with both libraries. -/
def nodes : List (Path × FileNode) :=
  [(.ofTexts ["libs"], .directory), (.ofTexts ["libs", "a"], .directory),
    (.ofTexts ["libs", "a", "x.lib"], .file innerLibrary),
    (.ofTexts ["libs", "b.lib"], .file outerLibrary)]

/-- The entries of the directory `libs`. -/
def listed : List (FileName × Listing) :=
  [(.ofText "a", .directory [(.ofText "x.lib", .file innerLibrary)]),
    (.ofText "b.lib", .file outerLibrary)]

/-- The tree of these files, in a given order. -/
def treeOf (entries : List (Path × FileNode)) (h : entries.Perm nodes) : FileTree :=
  ⟨entries, (h.map Prod.fst).nodup_iff.2 (by decide +kernel)⟩

theorem isOf_treeOf {entries : List (Path × FileNode)} (h : entries.Perm nodes)
    {shown : List (FileName × Listing)} (hshown : shown.Perm listed) :
    IsOf (treeOf entries h) "libs" (.directory shown) := by
  intro place hplace
  have hlibs : (treeOf entries h).locate "libs" = .ok (.ofTexts ["libs"]) :=
    (FileTree.locate_eq_of_perm (u := treeOf nodes (List.Perm.refl _)) h _).trans
      (by decide +kernel)
  cases hlibs.symm.trans hplace
  refine ⟨.directory ?_ ?_, fun path bytes => ?_⟩
  · exact (hshown.map Prod.fst).nodup_iff.2 (by decide +kernel)
  · intro e he
    rcases List.mem_pair.1 (hshown.mem_iff.1 he) with rfl | rfl
    · exact .directory (List.nodup_singleton _) (List.forall_mem_singleton.2 .file)
    · exact .file
  · rw [holds_directory_iff]
    constructor
    · rintro ⟨e, he, rest, rfl, hrest⟩
      rcases List.mem_pair.1 (hshown.mem_iff.1 he) with rfl | rfl
      · obtain ⟨inner, hinner, last, rfl, hlast⟩ := holds_directory_iff.1 hrest
        obtain rfl := List.mem_singleton.1 hinner
        change Holds (.file _) last bytes at hlast
        cases hlast
        refine ⟨by decide +kernel, FileTree.file?_eq_some_iff.2 ⟨by decide +kernel, ?_⟩⟩
        exact h.mem_iff.2 (by simp [nodes, Path.ofTexts])
      · change Holds (.file _) rest bytes at hrest
        cases hrest
        refine ⟨by decide +kernel, FileTree.file?_eq_some_iff.2 ⟨by decide +kernel, ?_⟩⟩
        exact h.mem_iff.2 (by simp [nodes, Path.ofTexts])
    · rintro ⟨-, hfile⟩
      have hnode := h.mem_iff.1 (FileTree.file?_eq_some_iff.1 hfile).2
      simp only [nodes, Path.ofTexts, List.map_cons, List.map_nil, List.mem_cons, Prod.mk.injEq,
        List.singleton_append, List.cons.injEq,
        reduceCtorEq, and_false, false_or, true_and, FileNode.file.injEq, List.not_mem_nil,
        or_false] at hnode
      rcases hnode with ⟨rfl, rfl⟩ | ⟨rfl, rfl⟩
      · exact ⟨_, hshown.mem_iff.2 List.mem_cons_self, _, rfl, .entry List.mem_cons_self .file⟩
      · exact ⟨_, hshown.mem_iff.2 (List.mem_cons_of_mem _ List.mem_cons_self), _, rfl, .file⟩

/-- A file that gives short names to two others. -/
def namingFile : SourceFile :=
  ⟨"all.lib", "fi = library(\"filters.lib\");\nde = library(\"delays.lib\");"⟩

/-- The libraries come in the order of their paths, and the function of the second one replaces that
of the first one, when the file system lists the second one first. -/
theorem builds_eq_of_perm_reverse :
    let t := treeOf nodes.reverse (List.reverse_perm nodes)
    let u := treeOf nodes (List.Perm.refl nodes)
    let l := directory listed.reverse
    let l' := directory listed
    let table := OrderedMap.ofList [("delays.lib".toList, "de".toList), ("filters.lib", "fi")]
    t.entries.Perm u.entries ∧ l.IsOf t "libs" ∧ l'.IsOf u "libs" ∧
    (((l.access none .empty).buildCatalog .standard "libs").run.run t).1 =
      (((l'.access none .empty).buildCatalog .standard "libs").run.run u).1 ∧
    (((l.access none .empty).buildRemedies .standard (some "libs")).run.run t).1 =
      (((l'.access none .empty).buildRemedies .standard (some "libs")).run.run u).1 ∧
    (table.entries.Perm (CatalogDraft.aliasesIn [namingFile]).entries ∧
      [namingFile].foldl (CatalogDraft.addSource .standard table) .empty =
        CatalogDraft.ofSources .standard [namingFile]) ∧
    ∃ b, (((l'.access none .empty).buildCatalog .standard "libs").run.run u).1 = .ok b ∧
      b.catalog.libraries.keys = ["a/x.lib".toList, "b.lib".toList] ∧
      b.warnings.map BuildWarning.file = ["b.lib".toList] := by
  have hsame := List.reverse_perm nodes
  have hl := isOf_treeOf (List.reverse_perm nodes) (List.reverse_perm listed)
  have hl' := isOf_treeOf (List.Perm.refl nodes) (List.Perm.refl listed)
  have hfiles : (treeOf nodes (List.Perm.refl nodes)).filesBelow "libs" =
      [⟨.ofTexts ["a", "x.lib"], .ok innerLibrary⟩,
        ⟨.ofTexts ["b.lib"], .ok outerLibrary⟩] :=
    List.mergeSort_of_pairwise (by decide +kernel)
  have hrun := FileAccess.builds_eq_of_filesOf_eq (congrArg Prod.fst (hl'.run_filesOf none .empty))
  have hbuild := hrun.1 .standard
  rw [FileTree.run_buildCatalog, if_pos (by decide +kernel), hfiles] at hbuild
  have htable : (OrderedMap.ofList [("delays.lib".toList, "de".toList), ("filters.lib", "fi")]
      ).entries.Perm (CatalogDraft.aliasesIn [namingFile]).entries := by
    decide +kernel
  obtain ⟨hcatalogs, hremedies, htables⟩ := builds_eq_of_perm hsame hl hl' none .empty
  exact ⟨hsame, hl, hl', hcatalogs .standard, hremedies .standard,
    ⟨htable, htables .standard _ _ htable⟩, _, hbuild, by decide +kernel, by decide +kernel⟩

end Listing
end DspCheck
