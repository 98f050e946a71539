import DspCheck.Proofs.Files.Changes
import DspCheck.Proofs.OrderedMap
import DspCheck.Proofs.Text.Order

/-!
# The order of the files below a directory

The files below a directory stand in the order of their paths (`inOrder_filesBelow`), each file of
the tree once (`mem_filesBelow_iff`).  A list of files is determined by these two facts
(`InOrder.eq_of_mem_iff`).  If the names of the files are texts, no two of them have the same path
as a text (`nodup_toText_filesBelow`).

A file system lists the entries of a directory in any order (`Listing`).  A walk that goes through
each directory in the order of the names finds the same files in the same order as long as the
listing shows the directory (`Listing.Shows.walk_eq_filesBelow`).
-/

namespace DspCheck

/-! ## Files in the order of their paths -/

namespace FoundFile

/-- The path of a file comes before that of another one. -/
def IsBefore (f g : FoundFile) : Prop :=
  Path.le f.path g.path = true ∧ f.path ≠ g.path

theorem IsBefore.asymm {f g : FoundFile} (hfg : f.IsBefore g) (hgf : g.IsBefore f) : False :=
  hfg.2 (isLinear_pathLe.antisymm _ _ hfg.1 hgf.1)

end FoundFile

/-- Files in the order of their paths, each path once. -/
def InOrder (files : List FoundFile) : Prop :=
  files.Pairwise FoundFile.IsBefore

namespace InOrder

theorem nodup {files : List FoundFile} (h : InOrder files) : files.Nodup :=
  h.imp fun hfg heq => hfg.2 (congrArg FoundFile.path heq)

/-- Files in order are determined by which files they are. -/
theorem eq_of_mem_iff {files files' : List FoundFile} (h : InOrder files) (h' : InOrder files')
    (hmem : ∀ f, f ∈ files ↔ f ∈ files') : files = files' := by
  have hperm : files.Perm files' := (List.perm_ext_iff_of_nodup h.nodup h'.nodup).2 hmem
  exact hperm.eq_of_pairwise (fun _ _ _ _ hfg hgf => (hfg.asymm hgf).elim) h h'

end InOrder

/-! ## The files of a tree -/

namespace FileTree

variable {t u : FileTree} {p : Text} {directory : Path}

theorem file?_eq_some_iff {place : Path} {bytes : ByteArray} :
    t.file? place = some bytes ↔ standing? place = none ∧ (place, .file bytes) ∈ t.entries := by
  rw [← node?_eq_file_iff, FileTree.file?]
  constructor
  · intro hfile
    split at hfile
    · next hnode =>
        rw [hnode, Option.some.inj hfile]
    · cases hfile
  · intro hnode
    rw [hnode]

/-- The files below a directory are those to which a way leads from it. -/
theorem mem_filesBelow_iff (hplace : t.locate p = .ok directory) {f : FoundFile} :
    f ∈ t.filesBelow p ↔ Path.isBase (f.path.take 1) = false ∧
      ∃ bytes, t.file? (directory ++ f.path) = some bytes ∧ f.content = .ok bytes := by
  rw [filesBelow, hplace]
  dsimp only
  rw [List.mem_mergeSort, List.mem_filterMap]
  constructor
  · rintro ⟨e, he, hentry⟩
    obtain ⟨hbase, hfree, bytes, rfl, hcontent⟩ := entryBelow?_eq_some_iff.1 hentry
    exact ⟨hbase, bytes, file?_eq_some_iff.2 ⟨hfree, he⟩, hcontent⟩
  · rintro ⟨hbase, bytes, hfile, hcontent⟩
    obtain ⟨hfree, he⟩ := file?_eq_some_iff.1 hfile
    exact ⟨_, he, entryBelow?_eq_some_iff.2 ⟨hbase, hfree, bytes, rfl, hcontent⟩⟩

theorem eq_of_path_eq (hplace : t.locate p = .ok directory) {f g : FoundFile}
    (hf : f ∈ t.filesBelow p) (hg : g ∈ t.filesBelow p) (h : f.path = g.path) : f = g := by
  obtain ⟨-, bytes, hfile, hcontent⟩ := (mem_filesBelow_iff hplace).1 hf
  obtain ⟨-, bytes', hfile', hcontent'⟩ := (mem_filesBelow_iff hplace).1 hg
  obtain ⟨path, content⟩ := f
  obtain ⟨path', content'⟩ := g
  dsimp only at h hfile hfile' hcontent hcontent'
  subst h
  cases hfile.symm.trans hfile'
  rw [hcontent, hcontent']

/-- The files below a directory stand in the order of their paths. -/
theorem inOrder_filesBelow (hplace : t.locate p = .ok directory) : InOrder (t.filesBelow p) := by
  have hsorted : (t.filesBelow p).Pairwise fun f g => Path.le f.path g.path = true := by
    rw [filesBelow, hplace]
    exact isLinear_pathLe.pairwise_mergeSort FoundFile.path _
  have hnodup : (t.filesBelow p).Nodup := by
    rw [filesBelow, hplace]
    exact (List.mergeSort_perm _ _).nodup_iff.2 (nodup_filterMap_entryBelow? t directory)
  have hpaths : ((t.filesBelow p).map FoundFile.path).Nodup :=
    hnodup.map_on fun f hf g hg => eq_of_path_eq hplace hf hg
  exact hsorted.and (List.pairwise_map.1 hpaths)

/-- Files whose names are texts have different paths as texts, too. -/
theorem nodup_toText_filesBelow (h : ∀ f ∈ t.filesBelow p, f.path.IsReadable) :
    ((t.filesBelow p).map fun f => f.path.toText).Nodup := by
  cases hplace : t.locate p with
  | error e =>
      rw [filesBelow, hplace]
      exact List.nodup_nil
  | ok directory =>
      refine (inOrder_filesBelow hplace).nodup.map_on fun f hf g hg htext => ?_
      have hne : ∀ {f}, f ∈ t.filesBelow p → f.path ≠ [] := by
        intro f hf hnil
        have hbase := ((mem_filesBelow_iff hplace).1 hf).1
        rw [hnil] at hbase
        cases hbase
      exact eq_of_path_eq hplace hf hg ((h f hf).eq_of_toText_eq (h g hg) (hne hf) (hne hg) htext)

/-- Trees with the same files below two directories list the same files there. -/
theorem filesBelow_congr {p' : Text} {directory' : Path} (hplace : t.locate p = .ok directory)
    (hplace' : u.locate p' = .ok directory')
    (hfiles : ∀ path, Path.isBase (path.take 1) = false →
      t.file? (directory ++ path) = u.file? (directory' ++ path)) :
    t.filesBelow p = u.filesBelow p' := by
  refine (inOrder_filesBelow hplace).eq_of_mem_iff (inOrder_filesBelow hplace') fun f => ?_
  rw [mem_filesBelow_iff hplace, mem_filesBelow_iff hplace']
  refine and_congr_right fun hbase => ?_
  rw [hfiles f.path hbase]

end FileTree

/-! ## Walks through listings -/

/-- A file or a directory as a file system lists it: the entries of a directory come in any
order. -/
inductive Listing
  | file (bytes : ByteArray)
  | directory (entries : List (FileName × Listing))

namespace Listing

mutual

/-- The files that a walk finds, given the way to its start: depth first, and the entries of each
directory in the order of their names. -/
def walk (way : Path) : Listing → List FoundFile
  | .file bytes => [⟨way, .ok bytes⟩]
  | .directory entries =>
      ((walkEntries way entries).mergeSort fun e e' => FileName.le e.1 e'.1).flatMap Prod.snd

/-- The files that a walk finds in each entry of a directory. -/
def walkEntries (way : Path) : List (FileName × Listing) → List (FileName × List FoundFile)
  | [] => []
  | (name, l) :: entries => (name, walk (way ++ [name]) l) :: walkEntries way entries

end

/-- A listing holds a file at the end of a way. -/
inductive Holds : Listing → Path → ByteArray → Prop
  | file {bytes : ByteArray} : Holds (.file bytes) [] bytes
  | entry {entries : List (FileName × Listing)} {name : FileName} {l : Listing} {path : Path}
      {bytes : ByteArray} :
      (name, l) ∈ entries → Holds l path bytes → Holds (.directory entries) (name :: path) bytes

/-- No directory of a listing lists a name twice. -/
inductive IsDistinct : Listing → Prop
  | file {bytes : ByteArray} : IsDistinct (.file bytes)
  | directory {entries : List (FileName × Listing)} :
      (entries.map Prod.fst).Nodup → (∀ e ∈ entries, IsDistinct e.2) →
      IsDistinct (.directory entries)

/-- A listing shows the files of a tree below a place, and lists no name twice in a directory. -/
structure Shows (t : FileTree) (place : Path) (l : Listing) : Prop where
  distinct : l.IsDistinct
  holds_iff : ∀ path bytes, l.Holds path bytes ↔
    Path.isBase (path.take 1) = false ∧ t.file? (place ++ path) = some bytes

theorem walkEntries_eq_map (way : Path) (entries : List (FileName × Listing)) :
    walkEntries way entries = entries.map fun e => (e.1, e.2.walk (way ++ [e.1])) := by
  induction entries with
  | nil =>
      rfl
  | cons e entries ih =>
      obtain ⟨name, l⟩ := e
      rw [walkEntries, ih, List.map_cons]

theorem holds_directory_iff {entries : List (FileName × Listing)} {path : Path}
    {bytes : ByteArray} :
    Holds (.directory entries) path bytes ↔
      ∃ e ∈ entries, ∃ rest, path = e.1 :: rest ∧ e.2.Holds rest bytes := by
  constructor
  · rintro (_ | ⟨he, hholds⟩)
    exact ⟨_, he, _, rfl, hholds⟩
  · rintro ⟨e, he, rest, rfl, hholds⟩
    exact .entry he hholds

/-- A walk finds the files that the listing holds. -/
theorem mem_walk_iff {l : Listing} (h : l.IsDistinct) {way : Path} {f : FoundFile} :
    f ∈ l.walk way ↔ ∃ path bytes, l.Holds path bytes ∧ f = ⟨way ++ path, .ok bytes⟩ := by
  induction h generalizing way f with
  | @file bytes =>
      rw [walk, List.mem_singleton]
      constructor
      · rintro rfl
        exact ⟨[], bytes, .file, by rw [List.append_nil]⟩
      · rintro ⟨path, bytes', hholds, rfl⟩
        cases hholds
        rw [List.append_nil]
  | @directory entries _ _ ih =>
      have happend : ∀ (name : FileName) (rest : Path),
          way ++ name :: rest = way ++ [name] ++ rest :=
        fun name rest => by simp
      rw [walk, walkEntries_eq_map, List.mem_flatMap]
      constructor
      · rintro ⟨e', he', hf⟩
        obtain ⟨e, he, rfl⟩ := List.mem_map.1 (List.mem_mergeSort.1 he')
        obtain ⟨rest, bytes, hholds, rfl⟩ := (ih e he).1 hf
        exact ⟨e.1 :: rest, bytes, .entry he hholds, by rw [happend e.1 rest]⟩
      · rintro ⟨path, bytes, hholds, rfl⟩
        obtain ⟨e, he, rest, rfl, hrest⟩ := holds_directory_iff.1 hholds
        refine ⟨_, List.mem_mergeSort.2 (List.mem_map_of_mem he), ?_⟩
        rw [happend e.1 rest]
        exact (ih e he).2 ⟨rest, bytes, hrest, rfl⟩

/-- Different names that are sorted stand in strict order. -/
theorem pairwise_mergeSort_name {α : Type} {es : List (FileName × α)}
    (h : (es.map Prod.fst).Nodup) :
    (es.mergeSort fun e e' => FileName.le e.1 e'.1).Pairwise
      fun e e' => FileName.le e.1 e'.1 = true ∧ e.1 ≠ e'.1 := by
  have hsorted : (es.mergeSort fun e e' => FileName.le e.1 e'.1).Pairwise
      fun e e' => FileName.le e.1 e'.1 = true :=
    isLinear_nameLe.pairwise_mergeSort Prod.fst es
  have hnames : ((es.mergeSort fun e e' => FileName.le e.1 e'.1).map Prod.fst).Nodup :=
    ((List.mergeSort_perm es _).map Prod.fst).nodup_iff.2 h
  exact hsorted.and (List.pairwise_map.1 hnames)

/-- Files at the ends of ways that part at two names stand in the order of these names. -/
theorem isBefore_of_name {way rest rest' : Path} {name name' : FileName} {f f' : FoundFile}
    (hf : f.path = way ++ [name] ++ rest) (hf' : f'.path = way ++ [name'] ++ rest')
    (hle : FileName.le name name' = true) (hne : name ≠ name') : f.IsBefore f' := by
  rw [List.append_assoc] at hf hf'
  constructor
  · rw [hf, hf', Path.le_append]
    exact (if_neg hne).trans hle
  · rw [hf, hf']
    intro heq
    exact hne (List.cons.inj (List.append_cancel_left heq)).1

/-- A walk finds files in the order of their paths: those in one entry of a directory by the order
inside of it, and those in two entries by the names of the entries. -/
theorem inOrder_walk {l : Listing} (h : l.IsDistinct) (way : Path) : InOrder (l.walk way) := by
  induction h generalizing way with
  | file =>
      rw [walk]
      exact List.pairwise_singleton _ _
  | @directory entries hnames hentries ih =>
      have hwalked :
          ((entries.map fun e => (e.1, e.2.walk (way ++ [e.1]))).map Prod.fst).Nodup := by
        rw [List.map_map]
        exact hnames
      rw [walk, walkEntries_eq_map, InOrder, List.pairwise_flatMap]
      constructor
      · intro found hfound
        obtain ⟨e, he, rfl⟩ := List.mem_map.1 (List.mem_mergeSort.1 hfound)
        exact ih e he (way ++ [e.1])
      · refine (pairwise_mergeSort_name hwalked).imp_of_mem ?_
        rintro found found' hfound hfound' ⟨hle, hne⟩ f hf f' hf'
        obtain ⟨e, he, rfl⟩ := List.mem_map.1 (List.mem_mergeSort.1 hfound)
        obtain ⟨e', he', rfl⟩ := List.mem_map.1 (List.mem_mergeSort.1 hfound')
        obtain ⟨rest, bytes, -, rfl⟩ := (mem_walk_iff (hentries e he)).1 hf
        obtain ⟨rest', bytes', -, rfl⟩ := (mem_walk_iff (hentries e' he')).1 hf'
        exact isBefore_of_name rfl rfl hle hne

/-- A walk through a listing that shows a directory finds the files below it in their order. -/
theorem Shows.walk_eq_filesBelow {t : FileTree} {p : Text} {place : Path} {l : Listing}
    (h : l.Shows t place) (hplace : t.locate p = .ok place) : l.walk [] = t.filesBelow p := by
  refine (inOrder_walk h.distinct []).eq_of_mem_iff (FileTree.inOrder_filesBelow hplace) fun f => ?_
  rw [mem_walk_iff h.distinct, FileTree.mem_filesBelow_iff hplace]
  constructor
  · rintro ⟨path, bytes, hholds, rfl⟩
    obtain ⟨hbase, hfile⟩ := (h.holds_iff path bytes).1 hholds
    exact ⟨hbase, bytes, hfile, rfl⟩
  · rintro ⟨hbase, bytes, hfile, hcontent⟩
    refine ⟨f.path, bytes, (h.holds_iff f.path bytes).2 ⟨hbase, hfile⟩, ?_⟩
    obtain ⟨path, content⟩ := f
    dsimp only at hcontent
    rw [hcontent, List.nil_append]

end Listing
end DspCheck
