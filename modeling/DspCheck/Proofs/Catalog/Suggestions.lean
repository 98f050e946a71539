import DspCheck.Catalog.Basic
import DspCheck.Proofs.Bytewise.Order
import DspCheck.Proofs.Catalog.RoundTrip
import DspCheck.Proofs.OrderedMap
import DspCheck.Proofs.Text.Word

/-!
# The names that a catalog suggests

What is suggested for a name are the least of the full names that resemble it.  The least texts of a
list are told by which texts are found and which are left out (`AreLeast`), and they depend on
neither the order of the list nor on how they are looked for (`AreLeast.eq_of_perm`).

A full name is a field of its own, so what is suggested can be looked up only where it agrees with
the key of its function.

Main statement: `Catalog.areLeast_suggestions`.
-/

namespace DspCheck

/-- Texts found in a list are the first ones in the order of their bytes, up to a given number. -/
structure AreLeast (limit : Nat) (candidates found : List Text) : Prop where
  sorted : found.Pairwise fun s t => Text.bytes s ≤ Text.bytes t
  length : found.length = min limit candidates.length
  /-- Each text of the list is found or left out as often as it occurs, and none that is left out
  comes before one that is found. -/
  least : ∃ others, (found ++ others).Perm candidates ∧
    ∀ s ∈ found, ∀ t ∈ others, Text.bytes s ≤ Text.bytes t

/-- A sorted list starts with its least texts. -/
theorem areLeast_take_mergeSort (limit : Nat) (candidates : List Text) :
    AreLeast limit candidates ((candidates.mergeSort Text.le).take limit) := by
  have hsorted : (candidates.mergeSort Text.le).Pairwise
      fun s t => Text.bytes s ≤ Text.bytes t :=
    (isLinear_textLe.pairwise_mergeSort id candidates).imp fun {s t} h =>
      (Text.le_iff_bytes_le s t).1 h
  have hperm := List.mergeSort_perm candidates Text.le
  have hsplit := List.take_append_drop limit (candidates.mergeSort Text.le)
  rw [← hsplit, List.pairwise_append] at hsorted
  refine ⟨hsorted.1, ?_, (candidates.mergeSort Text.le).drop limit, ?_, hsorted.2.2⟩
  · rw [List.length_take, hperm.length_eq]
  · rwa [hsplit]

/-- The texts that are left out can be sorted behind those that are found. -/
theorem AreLeast.exists_sorted {limit : Nat} {candidates found : List Text}
    (h : AreLeast limit candidates found) :
    ∃ others : List Text, (found ++ others).Perm candidates ∧
      (found ++ others).Pairwise fun s t => Text.le s t = true := by
  obtain ⟨others, hothers, hleast⟩ := h.least
  have hsort := List.mergeSort_perm others Text.le
  refine ⟨others.mergeSort Text.le, (hsort.append_left found).trans hothers, ?_⟩
  rw [List.pairwise_append]
  refine ⟨?_, isLinear_textLe.pairwise_mergeSort id others, fun s hs t ht => ?_⟩
  · exact h.sorted.imp fun {s t} hst => (Text.le_iff_bytes_le s t).2 hst
  · exact (Text.le_iff_bytes_le s t).2 (hleast s hs t (hsort.mem_iff.1 ht))

/-- The least texts do not depend on the order of the list. -/
theorem AreLeast.eq_of_perm {limit : Nat} {candidates candidates' found found' : List Text}
    (h : AreLeast limit candidates found) (h' : AreLeast limit candidates' found')
    (hperm : candidates.Perm candidates') : found = found' := by
  obtain ⟨others, hothers, hsorted⟩ := h.exists_sorted
  obtain ⟨others', hothers', hsorted'⟩ := h'.exists_sorted
  have hall : (found ++ others).Perm (found' ++ others') :=
    (hothers.trans hperm).trans hothers'.symm
  have hsame : found ++ others = found' ++ others' :=
    hall.eq_of_pairwise (fun s t _ _ => isLinear_textLe.antisymm s t) hsorted hsorted'
  have hlength : found.length = found'.length := by
    rw [h.length, h'.length, hperm.length_eq]
  exact (List.append_inj hsame hlength).1

namespace Catalog

/-- The full names of the functions of a library whose names start with the first three characters
of a name. -/
def resembling (c : Catalog) (library name : Text) : List Text :=
  (c.functions.values.filter fun s => s.library = library ∧ name.take 3 <+: s.name).map
    Signature.fullName

theorem candidates_eq_resembling (c : Catalog) (library name : Text) :
    c.candidates library name = c.resembling library name := by
  rw [candidates, functionsIn, resembling, List.filter_filter]
  congr 2
  funext s
  rw [Bool.decide_and, Bool.and_comm, Bool.eq_iff_iff, Bool.and_eq_true, Bool.and_eq_true,
    Text.startsWith_iff, decide_eq_true_eq (p := name.take 3 <+: s.name)]
  rfl

theorem mem_resembling_iff {c : Catalog} {library name fullName : Text} :
    fullName ∈ c.resembling library name ↔
      ∃ s ∈ c.functions.values, s.library = library ∧ name.take 3 <+: s.name ∧
        s.fullName = fullName := by
  simp [resembling, and_assoc]

theorem suggestions_eq_take (c : Catalog) (library name : Text) (limit : Nat) :
    c.suggestions library name limit =
      ((c.resembling library name).mergeSort Text.le).take limit := by
  rw [suggestions, candidates_eq_resembling]

/-- The names suggested for a name are the least ones that resemble it.  They do not depend on the
order in which the functions are kept.  If each function is kept under its library and its name, and
they are its full name too, each name suggested is the key of a function of the library. -/
theorem areLeast_suggestions (c : Catalog) (library name : Text) (limit : Nat) :
    AreLeast limit (c.resembling library name) (c.suggestions library name limit) ∧
    (∀ c' : Catalog, c'.functions.values.Perm c.functions.values →
      c'.suggestions library name limit = c.suggestions library name limit) ∧
    ((∀ e ∈ c.functions.entries,
        e.1 = Ident.qualified e.2.library e.2.name ∧ e.2.fullName = e.1) →
      ∀ fullName ∈ c.suggestions library name limit,
        ∃ s, c.get? fullName = some s ∧ s.library = library) := by
  have hleast : ∀ c : Catalog, AreLeast limit (c.resembling library name)
      (c.suggestions library name limit) := by
    intro c
    rw [suggestions_eq_take]
    exact areLeast_take_mergeSort limit _
  refine ⟨hleast c, fun c' hperm => ?_, fun hkeys fullName hfound => ?_⟩
  · exact (hleast c').eq_of_perm (hleast c) ((hperm.filter _).map _)
  · obtain ⟨others, hothers, -⟩ := (hleast c).least
    obtain ⟨s, hs, hlibrary, -, rfl⟩ :=
      mem_resembling_iff.1 (hothers.subset (List.mem_append_left others hfound))
    obtain ⟨e, he, rfl⟩ := List.mem_map.1 hs
    refine ⟨e.2, OrderedMap.get?_eq_some_iff.2 ?_, hlibrary⟩
    rw [(hkeys e he).2]
    exact he

/-- Two catalogs of the same functions, kept in one order and in the other. -/
theorem areLeast_suggestions_filters :
    ∃ c c' : Catalog, c.functions.keys = c'.functions.keys.reverse ∧
      c.suggestions "fi" "löwpas" 2 = ["fi.löwpass".toList, "fi.löwpass3e".toList] ∧
      c'.suggestions "fi" "löwpas" 2 = c.suggestions "fi" "löwpas" 2 ∧
      ∃ s, c.get? "fi.löwpass" = some s ∧ s.library = "fi" := by
  let signatures : List Signature :=
    [Signature.ofShape "fi" "löwpass3e" ["fc"] 1 1, Signature.ofShape "os" "löw" [] 0 1,
      Signature.ofShape "fi" "löwpassé" ["fc"] 1 1, Signature.ofShape "fi" "low" [] 1 1,
      Signature.ofShape "fi" "löwpass" ["N", "fc"] 1 1]
  let catalogOf (signatures : List Signature) : Catalog :=
    ofParts [] OrderedMap.empty (OrderedMap.ofList (signatures.map fun s => (s.fullName, s)))
  have hkeys : ∀ e ∈ (catalogOf signatures).functions.entries,
      e.1 = Ident.qualified e.2.library e.2.name ∧ e.2.fullName = e.1 := by
    decide +kernel
  have hperm : (catalogOf signatures.reverse).functions.values.Perm
      (catalogOf signatures).functions.values := by
    decide +kernel
  obtain ⟨hleast, hsame, hget⟩ := areLeast_suggestions (catalogOf signatures) "fi" "löwpas" 2
  have hfound : (catalogOf signatures).suggestions "fi" "löwpas" 2 =
      ["fi.löwpass".toList, "fi.löwpass3e".toList] := by
    refine hleast.eq_of_perm ⟨by decide +kernel, by decide +kernel, ["fi.löwpassé".toList], ?_, ?_⟩
      (List.Perm.refl _) <;> decide +kernel
  refine ⟨catalogOf signatures, catalogOf signatures.reverse, by decide +kernel, hfound,
    hsame _ hperm, hget hkeys _ ?_⟩
  rw [hfound]
  exact List.mem_cons_self

/-- A catalog with a function that is kept under its library and its name, and has another full
name. -/
def strayCatalog : Catalog :=
  ofParts [] OrderedMap.empty (OrderedMap.ofList
    [("fi.low", { Signature.ofShape "fi" "low" ["x"] 1 1 with fullName := "fi.x" })])

/-- An artifact can hold a function under its library and its name whose full name is suggested and
cannot be looked up. -/
theorem get?_suggestions_strayCatalog :
    ofJson strayCatalog.toJson = .ok strayCatalog ∧
    (∀ e ∈ strayCatalog.functions.entries, e.1 = Ident.qualified e.2.library e.2.name) ∧
    strayCatalog.suggestions "fi" "low" 5 = ["fi.x".toList] ∧
    strayCatalog.get? "fi.x" = none := by
  have hfits : strayCatalog.Fits := by
    constructor
    · exact List.forall_mem_nil _
    · intro s hs
      rcases List.mem_singleton.1 hs with rfl
      exact ⟨by decide, by decide, by decide⟩
  have hresembling : strayCatalog.resembling "fi" "low" = ["fi.x".toList] := by
    decide +kernel
  refine ⟨hfits.ofJson_eq_ok rfl, by decide +kernel, ?_, by decide +kernel⟩
  rw [suggestions_eq_take, hresembling]
  decide +kernel

end Catalog
end DspCheck
