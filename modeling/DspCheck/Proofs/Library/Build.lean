import DspCheck.Command.Artifacts
import DspCheck.Proofs.Files.Walk
import DspCheck.Proofs.Library.Draft

/-!
# What a built catalog holds

A catalog that is built from files has each function under its full name and each library under the
name of its file (`CatalogBuild.isSound_ofFiles`).

Each function comes from a file that has an entry, but the entry is lost if a later file with an
entry has the same name.  If there is no such file (`CatalogBuild.NamesDiffer`), the catalog is
*well formed*: the library of every function has an entry (`CatalogBuild.isWellFormed_ofFiles`).
So it is if the names of the files are texts (`FileTree.namesDiffer_filesBelow`).  Names that are no
texts may be read as the same one.

Main statement: `FileTree.isWellFormed_of_buildCatalog`.
-/

namespace DspCheck

/-- What holds of catalogs that are built from library files: each function is under its full name,
and each library file with an entry documents something. -/
structure Catalog.IsSound (limits : DocLimits) (c : Catalog) : Prop where
  functions : ∀ e ∈ c.functions.entries, e.1 = e.2.fullName ∧ e.2.IsDocumented limits
  libraries : ∀ e ∈ c.libraries.entries, e.1 = e.2.file ∧ Ident.isIdent e.2.library = true ∧
    1 ≤ e.2.functionCount

/-- What holds besides if no entry of a library is lost: each function has a library file with its
short name. -/
structure Catalog.IsWellFormed (limits : DocLimits) (c : Catalog) : Prop
    extends Catalog.IsSound limits c where
  declared : ∀ e ∈ c.functions.entries, ∃ l ∈ c.libraries.values, l.library = e.2.library

namespace CatalogDraft

variable {limits : DocLimits} {aliases : OrderedMap Text Text} {sources : List SourceFile}
  {d : CatalogDraft}

theorem isIdent_of_mem_aliasesIn {name : Text} (h : name ∈ (aliasesIn sources).values) :
    Ident.isIdent name = true := by
  obtain ⟨e, he, rfl⟩ := List.mem_map.1 h
  obtain ⟨source, -, hsource⟩ := List.mem_flatMap.1 (OrderedMap.mem_of_mem_ofList he)
  exact Library.isIdent_of_mem_aliases hsource

/-- A function of a draft comes from a file that has been read. -/
theorem exists_of_mem_definitions_ofSources {e : Text × Definition}
    (h : e ∈ (ofSources limits sources).definitions.entries) :
    e.1 = e.2.signature.fullName ∧ ∃ s ∈ sources, ∃ l,
      LibraryFile.read limits s.file s.text (aliasesIn sources) = .ok l ∧
        e.2.signature ∈ l.functions := by
  rw [(merges_ofSources limits sources).definitions] at h
  obtain ⟨n, hn, rfl⟩ := List.mem_map.1 (OrderedMap.mem_of_mem_ofList h)
  obtain ⟨s, hs, hdefinition⟩ := List.mem_flatMap.1 hn
  exact ⟨rfl, s, hs, exists_of_mem_definitions hdefinition⟩

/-- The entry of a library in a draft is that of a file that has been read. -/
theorem exists_of_mem_libraries_ofSources {e : Text × LibraryInfo}
    (h : e ∈ (ofSources limits sources).libraries.entries) :
    ∃ s ∈ sources, ∃ l, LibraryFile.read limits s.file s.text (aliasesIn sources) = .ok l ∧
      l.functions ≠ [] ∧ e = (s.file, l.info s.file) := by
  rw [(merges_ofSources limits sources).libraries] at h
  obtain ⟨s, hs, hentry⟩ := List.mem_filterMap.1 (OrderedMap.mem_of_mem_ofList h)
  exact ⟨s, hs, entry?_eq_some_iff.1 hentry⟩

theorem isSound_ofSources (limits : DocLimits) (sources : List SourceFile) (directory : Text) :
    ((ofSources limits sources).catalog directory).IsSound limits := by
  have haliases : ∀ name ∈ (aliasesIn sources).values, Ident.isIdent name = true :=
    fun _ => isIdent_of_mem_aliasesIn
  constructor
  · intro e he
    obtain ⟨⟨k, n⟩, hn, rfl⟩ := List.mem_map.1 he
    obtain ⟨hname, s, -, l, hread, hfunction⟩ := exists_of_mem_definitions_ofSources hn
    exact ⟨hname, (LibraryFile.isDocumented_of_read haliases hread hfunction).1⟩
  · intro e he
    obtain ⟨s, -, l, hread, hne, rfl⟩ := exists_of_mem_libraries_ofSources he
    obtain ⟨signature, hsignature⟩ := List.exists_mem_of_ne_nil _ hne
    obtain ⟨hdocumented, hlibrary⟩ := LibraryFile.isDocumented_of_read haliases hread hsignature
    have hident := hdocumented.library
    rw [hlibrary] at hident
    exact ⟨rfl, hident, List.length_pos_of_mem hsignature⟩

/-- Files with different names keep their entries. -/
theorem entries_libraries_ofSources (hnames : ((sources.filter
      fun s => s.definitions limits (aliasesIn sources) ≠ []).map SourceFile.file).Nodup) :
    (ofSources limits sources).libraries.entries =
      sources.filterMap (SourceFile.entry? limits (aliasesIn sources)) := by
  rw [← map_fst_filterMap_entry?] at hnames
  rw [(merges_ofSources limits sources).libraries]
  exact congrArg OrderedMap.entries (OrderedMap.ofList_entries ⟨_, hnames⟩)

/-- The library of a function has an entry if no file takes it away from another one. -/
theorem isWellFormed_ofSources (hnames : ((sources.filter
      fun s => s.definitions limits (aliasesIn sources) ≠ []).map SourceFile.file).Nodup)
    (directory : Text) : ((ofSources limits sources).catalog directory).IsWellFormed limits where
  toIsSound := isSound_ofSources limits sources directory
  declared e he := by
    obtain ⟨⟨k, n⟩, hn, rfl⟩ := List.mem_map.1 he
    obtain ⟨-, s, hs, l, hread, hfunction⟩ := exists_of_mem_definitions_ofSources hn
    have hentry : (s.file, l.info s.file) ∈ (ofSources limits sources).libraries.entries := by
      rw [entries_libraries_ofSources hnames, List.mem_filterMap]
      exact ⟨s, hs, entry?_eq_some_iff.2 ⟨l, hread, List.ne_nil_of_mem hfunction, rfl⟩⟩
    refine ⟨l.info s.file, List.mem_map_of_mem hentry, ?_⟩
    exact (LibraryFile.isDocumented_of_read (fun _ => isIdent_of_mem_aliasesIn) hread
      hfunction).2.symm

end CatalogDraft

namespace CatalogBuild

variable {settings : LibrarySettings} {files : List FoundFile}

/-- No two library files among some files that document something have the same name. -/
def NamesDiffer (settings : LibrarySettings) (files : List FoundFile) : Prop :=
  let sources := (readable settings files).1
  ((sources.filter fun s => s.definitions settings.limits (CatalogDraft.aliasesIn sources) ≠ []).map
    SourceFile.file).Nodup

/-- The files that can be read have the names of files that have been found. -/
theorem sublist_map_file (files : List FoundFile) :
    (((files.map FoundFile.source).filterMap Except.toOption).map SourceFile.file).Sublist
      (files.map FoundFile.name) := by
  induction files with
  | nil =>
      exact List.Sublist.slnil
  | cons f files ih =>
      rw [List.map_cons, List.map_cons, List.filterMap_cons, FoundFile.source]
      cases decodeText f.content with
      | ok text =>
          exact List.Sublist.cons_cons f.name ih
      | error e =>
          exact List.Sublist.cons f.name ih

theorem namesDiffer_of_nodup (settings : LibrarySettings)
    (hnodup : (files.map FoundFile.name).Nodup) : NamesDiffer settings files :=
  hnodup.sublist ((List.filter_sublist.map SourceFile.file).trans
    ((sublist_map_file _).trans (List.filter_sublist.map _)))

theorem isSound_ofFiles (settings : LibrarySettings) (directory : Text) (files : List FoundFile) :
    (ofFiles settings directory files).catalog.IsSound settings.limits :=
  CatalogDraft.isSound_ofSources settings.limits _ directory

theorem isWellFormed_ofFiles (directory : Text) (h : NamesDiffer settings files) :
    (ofFiles settings directory files).catalog.IsWellFormed settings.limits :=
  CatalogDraft.isWellFormed_ofSources h directory

end CatalogBuild

namespace FileTree

/-- Looking for the files below a directory changes no file. -/
theorem run_filesOf (t : FileTree) (home : Option Text) (input : ByteArray) (directory : Text) :
    ((access home input).filesOf directory).run.run t =
      (if t.isDirectory directory then .ok (t.filesBelow directory)
      else .error (.missingDirectory directory), t) := by
  change (if t.isDirectory directory then _ else _ : ExceptT _ (StateM _) _).run.run t = _
  split <;> rfl

/-- Building a catalog reads the files below a directory, and changes no file. -/
theorem run_buildCatalog (t : FileTree) (home : Option Text) (input : ByteArray)
    (settings : LibrarySettings) (directory : Text) :
    ((access home input).buildCatalog settings directory).run.run t =
      (if t.isDirectory directory then
        .ok (.ofFiles settings directory (t.filesBelow directory))
      else .error (.missingDirectory directory), t) := by
  rw [FileAccess.buildCatalog, ExceptT.run_bind, StateT.run_bind, run_filesOf]
  split <;> rfl

theorem eq_ofFiles_of_buildCatalog {t t' : FileTree} {home : Option Text} {input : ByteArray}
    {settings : LibrarySettings} {directory : Text} {b : CatalogBuild}
    (h : ((access home input).buildCatalog settings directory).run.run t = (.ok b, t')) :
    b = .ofFiles settings directory (t.filesBelow directory) := by
  rw [run_buildCatalog] at h
  split at h
  · cases h
    rfl
  · cases h

/-- The names of all files below a directory are texts. -/
def HasReadableNames (t : FileTree) (directory : Text) : Prop :=
  ∀ f ∈ t.filesBelow directory, f.path.IsReadable

/-- Files whose names are texts have different names. -/
theorem namesDiffer_filesBelow {t : FileTree} {directory : Text} (h : t.HasReadableNames directory)
    (settings : LibrarySettings) : CatalogBuild.NamesDiffer settings (t.filesBelow directory) :=
  CatalogBuild.namesDiffer_of_nodup settings (nodup_toText_filesBelow h)

/-- A directory `libs` that holds one library, with a given text. -/
def oneLibrary (text : Text) : FileTree :=
  let directory : FileTree := OrderedMap.empty.insert (.ofTexts ["libs"]) .directory
  directory.insert (.ofTexts ["libs", "filters.lib"]) (.file (Text.toUtf8 text))

theorem filesBelow_oneLibrary (text : Text) : (oneLibrary text).filesBelow "libs" =
    [⟨.ofTexts ["filters.lib"], .ok (Text.toUtf8 text)⟩] :=
  List.mergeSort_singleton _

theorem hasReadableNames_oneLibrary (text : Text) : (oneLibrary text).HasReadableNames "libs" := by
  rw [HasReadableNames, filesBelow_oneLibrary, List.forall_mem_singleton]
  exact ⟨["filters.lib".toList], rfl, by decide⟩

/-- In a catalog that is built from a directory every function is under its full name.  If no two
files that document something have the same name, as is the case if all names are texts, then the
library of every function has an entry. -/
theorem isWellFormed_of_buildCatalog {t t' : FileTree} {home : Option Text} {input : ByteArray}
    {settings : LibrarySettings} {directory : Text} {b : CatalogBuild}
    (h : ((access home input).buildCatalog settings directory).run.run t = (.ok b, t')) :
    b.catalog.IsSound settings.limits ∧
      (CatalogBuild.NamesDiffer settings (t.filesBelow directory) →
        b.catalog.IsWellFormed settings.limits) ∧
      (t.HasReadableNames directory →
        CatalogBuild.NamesDiffer settings (t.filesBelow directory)) := by
  rw [eq_ofFiles_of_buildCatalog h]
  exact ⟨CatalogBuild.isSound_ofFiles settings directory _,
    CatalogBuild.isWellFormed_ofFiles directory,
    fun hnames => namesDiffer_filesBelow hnames settings⟩

theorem isWellFormed_of_buildCatalog_oneLibrary :
    ∃ t b, ((access none .empty).buildCatalog .standard "libs").run.run t = (.ok b, t) ∧
      t.HasReadableNames "libs" ∧ b.catalog.functions.keys = ["fi.gain".toList] ∧
      b.catalog.IsWellFormed .standard := by
  let text : Text := "// prefix: fi\n// ---`gain`---\n// A gain.\ngain(k, x) = k*x;\n"
  have hrun := run_buildCatalog (oneLibrary text) none .empty .standard "libs"
  rw [filesBelow_oneLibrary, if_pos (by decide +kernel)] at hrun
  have hnames := hasReadableNames_oneLibrary text
  obtain ⟨-, hwellFormed, hdiffer⟩ := isWellFormed_of_buildCatalog hrun
  exact ⟨_, _, hrun, hnames, by decide +kernel, hwellFormed (hdiffer hnames)⟩

/-! ## Names that cannot be read -/

/-- A library with a function `f`. -/
def firstLibrary : Text :=
  "// prefix: aa\n// ---`f`---\nf(x) = x;\n"

/-- A library with another short name and a function `g`. -/
def secondLibrary : Text :=
  "// prefix: bb\n// ---`g`---\ng(x) = x;\n"

/-- A name with a byte before the ending of libraries. -/
def byteName (byte : UInt8) : FileName :=
  byte :: FileName.ofText ".lib"

/-- A directory `libs` with two libraries whose names are no texts. -/
def unreadableNames : FileTree :=
  let directory : FileTree := OrderedMap.empty.insert (.ofTexts ["libs"]) .directory
  let one := directory.insert (.ofTexts ["libs"] ++ [byteName 0xFE])
    (.file (Text.toUtf8 firstLibrary))
  one.insert (.ofTexts ["libs"] ++ [byteName 0xFF]) (.file (Text.toUtf8 secondLibrary))

theorem filesBelow_unreadableNames : unreadableNames.filesBelow "libs" =
    [⟨[byteName 0xFE], .ok (Text.toUtf8 firstLibrary)⟩,
      ⟨[byteName 0xFF], .ok (Text.toUtf8 secondLibrary)⟩] :=
  List.mergeSort_of_pairwise (by decide +kernel)

/-- What is built from the two libraries. -/
def unreadableNamesBuild : CatalogBuild :=
  .ofFiles .standard "libs" [⟨[byteName 0xFE], .ok (Text.toUtf8 firstLibrary)⟩,
    ⟨[byteName 0xFF], .ok (Text.toUtf8 secondLibrary)⟩]

theorem run_buildCatalog_unreadableNames :
    ((access none .empty).buildCatalog .standard "libs").run.run unreadableNames =
      (.ok unreadableNamesBuild, unreadableNames) := by
  rw [run_buildCatalog, if_pos (by decide +kernel), filesBelow_unreadableNames]
  rfl

/-- The entry of the second library replaces that of the first one, since what can be read of their
names is the same.  The function of the first library stays, and no entry has its short name. -/
theorem not_isWellFormed_unreadableNames :
    ((access none .empty).buildCatalog .standard "libs").run.run unreadableNames =
        (.ok unreadableNamesBuild, unreadableNames) ∧
      unreadableNamesBuild.catalog.functions.keys = ["aa.f".toList, "bb.g".toList] ∧
      unreadableNamesBuild.catalog.libraries.entries =
        [("\uFFFD.lib".toList, ⟨"\uFFFD.lib", "bb", 1⟩)] ∧
      ¬ unreadableNamesBuild.catalog.IsWellFormed .standard := by
  have hfunctions : unreadableNamesBuild.catalog.functions.keys =
      ["aa.f".toList, "bb.g".toList] := by
    decide +kernel
  have hlibraries : unreadableNamesBuild.catalog.libraries.entries =
      [("\uFFFD.lib".toList, ⟨"\uFFFD.lib", "bb", 1⟩)] := by
    decide +kernel
  refine ⟨run_buildCatalog_unreadableNames, hfunctions, hlibraries, fun hwellFormed => ?_⟩
  have hlost : ∃ e ∈ unreadableNamesBuild.catalog.functions.entries, e.2.library = "aa" := by
    decide +kernel
  obtain ⟨e, he, haa⟩ := hlost
  obtain ⟨l, hl, hlibrary⟩ := hwellFormed.declared e he
  rw [OrderedMap.values, hlibraries, List.map_singleton, List.mem_singleton] at hl
  rw [hl, haa] at hlibrary
  exact absurd hlibrary (by decide)

end FileTree
end DspCheck
