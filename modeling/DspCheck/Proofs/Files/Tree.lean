import DspCheck.Files.Tree
import DspCheck.Proofs.Bytewise.Decoding
import DspCheck.Proofs.Fallible
import DspCheck.Proofs.OrderedMap
import DspCheck.Proofs.Text.Lines
import Mathlib.Data.List.Nodup

/-!
# What a tree of files holds

What is found at a place stands there in every tree or is entered in this one
(`node?_eq_file_iff`).  Creating a directory puts it at a place where nothing is
(`exists_of_createDirectory`), and writing replaces a file or puts one where nothing is, unless it
leads to a device (`exists_of_write`).

The names in a tree are bytes.  Ways along names that are texts can be told apart by their paths
(`Path.IsReadable.eq_of_toText_eq`); others cannot.
-/

namespace DspCheck

/-- A name that is a text can be read. -/
theorem FileName.toText_ofText (t : Text) : (FileName.ofText t).toText = t :=
  Text.readBytes_bytes t

namespace Path

/-- A way along names that are texts, without slashes in them. -/
def IsReadable (p : Path) : Prop :=
  ∃ names : List Text, p = ofTexts names ∧ ∀ name ∈ names, '/' ∉ name

theorem toText_ofTexts (names : List Text) : (ofTexts names).toText = Text.join "/" names := by
  rw [toText, ofTexts, List.map_map]
  refine congrArg (Text.join "/") ?_
  exact (List.map_congr_left fun name _ => FileName.toText_ofText name).trans (List.map_id names)

/-- Names that are texts without slashes are the parts of their path. -/
theorem splitOn_toText_ofTexts {names : List Text} (hne : names ≠ [])
    (hnames : ∀ name ∈ names, '/' ∉ name) : (ofTexts names).toText.splitOn '/' = names := by
  rw [toText_ofTexts, Text.join_eq_intercalate]
  exact List.splitOn_intercalate '/' hnames hne

/-- Ways along texts can be told apart by their paths. -/
theorem IsReadable.eq_of_toText_eq {p q : Path} (hp : p.IsReadable) (hq : q.IsReadable)
    (hpne : p ≠ []) (hqne : q ≠ []) (h : p.toText = q.toText) : p = q := by
  obtain ⟨names, rfl, hnames⟩ := hp
  obtain ⟨names', rfl, hnames'⟩ := hq
  have hne : names ≠ [] := fun hnil => hpne (congrArg ofTexts hnil)
  have hne' : names' ≠ [] := fun hnil => hqne (congrArg ofTexts hnil)
  rw [← splitOn_toText_ofTexts hne hnames, h, splitOn_toText_ofTexts hne' hnames']

/-- What is below a directory is what stands behind its names. -/
theorem below?_eq_some_iff {d p q : Path} : below? d p = some q ↔ p = d ++ q := by
  induction d generalizing p with
  | nil =>
      rw [below?, Option.some.injEq, List.nil_append]
  | cons name d ih =>
      cases p with
      | nil =>
          simp [below?]
      | cons first p =>
          rw [below?]
          split
          · next heq =>
              subst heq
              simp [ih]
          · next hne =>
              simp [Ne.symm hne]

end Path

namespace FileTree

/-! ## What is found at a place -/

/-- No file stands in every tree. -/
theorem standing?_ne_file (p : Path) (bytes : ByteArray) : standing? p ≠ some (.file bytes) := by
  unfold standing?
  split
  · simp
  split <;> simp

theorem standing?_eq_none_of_node? {t : FileTree} {p : Path}
    (hdirectory : t.node? p ≠ some .directory) (hdevice : t.node? p ≠ some .device) :
    standing? p = none := by
  cases h : standing? p with
  | none =>
      rfl
  | some n =>
      have hnode : t.node? p = some n := by rw [node?, h, Option.some_or]
      cases n with
      | file bytes =>
          exact absurd h (standing?_ne_file p bytes)
      | directory =>
          exact absurd hnode hdirectory
      | device =>
          exact absurd hnode hdevice

/-- A file is found where it is entered, unless something else stands there in every tree. -/
theorem node?_eq_file_iff {t : FileTree} {p : Path} {bytes : ByteArray} :
    t.node? p = some (.file bytes) ↔ standing? p = none ∧ (p, .file bytes) ∈ t.entries := by
  rw [← OrderedMap.get?_eq_some_iff, node?]
  cases h : standing? p with
  | none =>
      rw [Option.none_or]
      exact (and_iff_right rfl).symm
  | some n =>
      rw [Option.some_or]
      refine iff_of_false (fun hfile => ?_) fun hnone => Option.some_ne_none n hnone.1
      exact standing?_ne_file p bytes (h.trans hfile)

/-! ## Changes of a tree -/

/-- Creating a directory puts it at a place where nothing is. -/
theorem exists_of_createDirectory {t u : FileTree} {path : Text}
    (h : t.createDirectory path = .ok u) :
    ∃ place, t.locateNames path (Path.namesBeforeSlashes path) = .ok place ∧
      t.node? place = none ∧ u = t.insert place .directory := by
  obtain ⟨place, hplace, h⟩ := exists_of_bind_eq_ok h
  split at h
  · cases h
  · next hnone =>
      exact ⟨place, hplace, by simpa using hnone, (Except.ok.inj h).symm⟩

/-- Writing to a device changes nothing.  Otherwise it replaces a file or puts one at a place where
nothing is. -/
theorem exists_of_write {t u : FileTree} {path : Text} {bytes : ByteArray}
    (h : t.write path bytes = .ok u) :
    ∃ place, t.locate path = .ok place ∧
      (t.node? place = some .device ∧ u = t ∨
        t.node? place ≠ some .directory ∧ standing? place = none ∧
          u = t.insert place (.file bytes)) := by
  unfold write at h
  split at h
  · obtain ⟨place, -, h⟩ := exists_of_bind_eq_ok h
    cases h
  · obtain ⟨place, hplace, h⟩ := exists_of_bind_eq_ok h
    refine ⟨place, hplace, ?_⟩
    split at h
    · cases h
    · next hdevice =>
        exact Or.inl ⟨hdevice, (Except.ok.inj h).symm⟩
    · next hdirectory hdevice =>
        exact Or.inr ⟨hdirectory, standing?_eq_none_of_node? hdirectory hdevice,
          (Except.ok.inj h).symm⟩

/-! ## The files below a directory -/

theorem entryBelow?_eq_some_iff {directory : Path} {e : Path × FileNode} {f : FoundFile} :
    entryBelow? directory e = some f ↔
      Path.isBase (f.path.take 1) = false ∧ standing? (directory ++ f.path) = none ∧
        ∃ bytes, e = (directory ++ f.path, .file bytes) ∧ f.content = .ok bytes := by
  obtain ⟨p, n⟩ := e
  constructor
  · intro h
    unfold entryBelow? at h
    split at h
    · next path bytes hbelow hnode =>
        split at h
        · cases h
        · next hfree =>
            cases h
            obtain rfl := Path.below?_eq_some_iff.1 hbelow
            dsimp only at hnode
            subst hnode
            obtain ⟨hbase, hstanding⟩ : Path.isBase (path.take 1) = false ∧
                standing? (directory ++ path) = none := by simpa using hfree
            exact ⟨hbase, hstanding, bytes, rfl, rfl⟩
    · cases h
  · rintro ⟨hbase, hstanding, bytes, heq, hcontent⟩
    obtain ⟨rfl, rfl⟩ := Prod.mk.inj heq
    obtain ⟨path, content⟩ := f
    dsimp only at hbase hstanding hcontent
    subst hcontent
    have hbelow : Path.below? directory (directory ++ path) = some path :=
      Path.below?_eq_some_iff.2 rfl
    simp [entryBelow?, hbelow, hbase, hstanding]

/-- Each entry of a tree is found once. -/
theorem nodup_filterMap_entryBelow? (t : FileTree) (directory : Path) :
    (t.entries.filterMap (entryBelow? directory)).Nodup := by
  have hentries : t.entries.Nodup := List.Nodup.of_map Prod.fst t.nodup
  refine hentries.filterMap ?_
  intro e e' f he he'
  obtain ⟨-, -, bytes, rfl, hbytes⟩ := entryBelow?_eq_some_iff.1 he
  obtain ⟨-, -, bytes', rfl, hbytes'⟩ := entryBelow?_eq_some_iff.1 he'
  rw [hbytes] at hbytes'
  cases hbytes'
  rfl

end FileTree
end DspCheck
