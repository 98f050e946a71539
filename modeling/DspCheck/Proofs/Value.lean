import DspCheck.Json.Reader
import DspCheck.Json.Writer
import DspCheck.Proofs.Fallible
import DspCheck.Proofs.Json.RoundTrip
import DspCheck.Proofs.OrderedMap
import Mathlib.Data.List.Nodup

/-!
# Reading documents as data

Each reader of documents takes back what the writer of the same kind has written: lists
(`asListOf?_map`), maps (`asMapOf?_ofMap`), counts within bounds, and the fields of a record
(`exists_fieldsOf?`), of which some may be left out (`exists_fieldsOf?_recordOf`).

An artifact is accepted if its value can be read and says the expected version
(`Artifact.read_eq_ok_iff`).
-/

namespace DspCheck

open Json (Writable)

namespace Value

theorem asCount?_natural {n : Nat} (h : n ≤ maxCount) : asCount? (.natural n) = some n :=
  if_pos h

theorem le_of_asCount? {v : Value} {n : Nat} (h : asCount? v = some n) : n ≤ maxCount := by
  unfold asCount? at h
  split at h
  · split at h
    · next hle =>
        cases h
        exact hle
    · cases h
  · cases h

/-- A list is read as it has been written, if its items are. -/
theorem asListOf?_map {α : Type} {item? : Value → Option α} {item : α → Value} {as : List α}
    (h : ∀ a ∈ as, item? (item a) = some a) :
    asListOf? item? (.list (as.map item)) = some as := by
  have hmap : (as.map item).mapM item? = some as := by
    rw [List.mapM_map]
    exact (mapM_eq_some h).trans (congrArg some (List.map_id as))
  exact hmap

theorem asListOf?_ofTexts (ts : List Text) : asListOf? asText? (ofTexts ts) = some ts :=
  asListOf?_map fun _ _ => rfl

/-- A map is read as it has been written, if its values are. -/
theorem asMapOf?_ofMap {α : Type} {item? : Value → Option α} {item : α → Value}
    {m : OrderedMap Text α} (h : ∀ a ∈ m.values, item? (item a) = some a) :
    asMapOf? item? (ofMap item m) = some m := by
  have hentries : (m.entries.map fun e => (e.1, item e.2)).mapM
      (fun f => (item? f.2).map (f.1, ·)) = some m.entries := by
    rw [List.mapM_map]
    refine (mapM_eq_some (g := id) ?_).trans (congrArg some (List.map_id _))
    intro e he
    show (item? (item e.2)).map (e.1, ·) = some e
    rw [h e.2 (List.mem_map_of_mem he)]
    rfl
  have hread : asMapOf? item? (ofMap item m) =
      ((m.entries.map fun e => (e.1, item e.2)).mapM fun f => (item? f.2).map (f.1, ·)).bind
        fun entries => some (OrderedMap.ofList entries) := rfl
  rw [hread, hentries, Option.bind_some, OrderedMap.ofList_entries]

/-- Changing the values of a map as they are read, or in the map. -/
theorem asMapOf?_map {α β : Type} (f : α → β) (item? : Value → Option α) (v : Value) :
    asMapOf? (fun v => (item? v).map f) v =
      (asMapOf? item? v).map (OrderedMap.mapValues fun _ => f) := by
  cases v with
  | record fields =>
      have hitem : (fun e : Text × Value => ((item? e.2).map f).map (e.1, ·)) =
          fun e => ((item? e.2).map (e.1, ·)).map fun p => (p.1, f p.2) := by
        funext e
        cases item? e.2 <;> rfl
      simp only [asMapOf?, hitem, mapM_map_option]
      cases fields.mapM fun e => (item? e.2).map (e.1, ·) with
      | none =>
          rfl
      | some entries =>
          exact congrArg some (OrderedMap.mapValues_ofList f entries).symm
  | _ =>
      rfl

/-- Every value of a map has been read from a document. -/
theorem exists_of_mem_asMapOf? {α : Type} {item? : Value → Option α} {v : Value}
    {m : OrderedMap Text α} (h : asMapOf? item? v = some m) {a : α} (ha : a ∈ m.values) :
    ∃ w, item? w = some a := by
  cases v with
  | record fields =>
      simp only [asMapOf?, Option.bind_eq_bind, Option.bind_eq_some_iff, Option.pure_def,
        Option.some.injEq] at h
      obtain ⟨entries, hentries, rfl⟩ := h
      obtain ⟨e, he, rfl⟩ := List.mem_map.1 ha
      obtain ⟨f, -, hf⟩ := exists_mem_of_mapM_eq_some hentries (OrderedMap.mem_of_mem_ofList he)
      obtain ⟨b, hb, rfl⟩ := Option.map_eq_some_iff.1 hf
      exact ⟨f.2, hb⟩
  | _ =>
      cases h

/-- The fields of a record are found by their names, if no name occurs twice. -/
theorem lookup?_of_mem {fields : List (Text × Value)} (hnodup : (fields.map Prod.fst).Nodup)
    {f : Text × Value} (hf : f ∈ fields) : lookup? fields f.1 = some f.2 := by
  induction fields with
  | nil =>
      cases hf
  | cons g fields ih =>
      rw [List.map_cons, List.nodup_cons] at hnodup
      rcases List.mem_cons.1 hf with rfl | hf
      · rw [lookup?, List.find?_cons_of_pos (by simp)]
        rfl
      · have hne : g.1 ≠ f.1 := by
          intro heq
          exact hnodup.1 (heq ▸ List.mem_map_of_mem hf)
        rw [lookup?, List.find?_cons_of_neg (by simpa using hne)]
        exact ih hnodup.2 hf

theorem not_repeats {fields : List (Text × Value)} (hnodup : (fields.map Prod.fst).Nodup)
    (name : Text) : repeats fields name = false := by
  have hcount : (fields.filter fun f => f.1 = name).length ≤ 1 := by
    have hle := List.nodup_iff_count.1 hnodup name
    rw [List.count, List.countP_map, List.countP_eq_length_filter] at hle
    have hsame : (fun f : Text × Value => decide (f.1 = name)) = (· == name) ∘ Prod.fst := by
      funext f
      exact (beq_eq_decide f.1 name).symm
    rw [hsame]
    exact hle
  rw [repeats, decide_eq_false_iff_not]
  omega

theorem fieldsOf?_record {fields : List (Text × Value)} (names : List Text)
    (hnodup : (fields.map Prod.fst).Nodup) :
    (record fields).fieldsOf? names = some (lookup? fields) := by
  have hnames : names.any (repeats fields) = false := by
    rw [List.any_eq_false]
    intro name _
    rw [not_repeats hnodup]
    exact Bool.false_ne_true
  rw [fieldsOf?, hnames]
  rfl

/-- From the record of a record type each field is read by its name. -/
theorem exists_fieldsOf? {v : Value} {fields : List (Text × Value)} (hv : v = .record fields)
    (names : List Text) (hnodup : (fields.map Prod.fst).Nodup) :
    ∃ field, v.fieldsOf? names = some field ∧ ∀ f ∈ fields, field f.1 = some f.2 := by
  subst hv
  exact ⟨lookup? fields, fieldsOf?_record names hnodup, fun _ hf => lookup?_of_mem hnodup hf⟩

theorem lookup?_eq_none {fields : List (Text × Value)} {name : Text}
    (h : name ∉ fields.map Prod.fst) : lookup? fields name = none := by
  have hnone : fields.find? (fun f => f.1 = name) = none := by
    rw [List.find?_eq_none]
    intro f hf heq
    rw [decide_eq_true_eq] at heq
    exact h (heq ▸ List.mem_map_of_mem hf)
  rw [lookup?, hnone, Option.map_none]

/-- The fields that have a value keep their names and their order. -/
theorem sublist_map_fst_filterMap (fields : List (Text × Option Value)) :
    ((fields.filterMap fun f => f.2.map (f.1, ·)).map Prod.fst).Sublist
      (fields.map Prod.fst) := by
  induction fields with
  | nil =>
      exact List.Sublist.slnil
  | cons f fields ih =>
      obtain ⟨name, value?⟩ := f
      cases value? with
      | none =>
          exact List.Sublist.cons name ih
      | some v =>
          exact List.Sublist.cons_cons name ih

/-- Among the fields that have a value, a field is found if and only if it has one. -/
theorem lookup?_filterMap_of_mem {fields : List (Text × Option Value)}
    (hnodup : (fields.map Prod.fst).Nodup) {f : Text × Option Value} (hf : f ∈ fields) :
    lookup? (fields.filterMap fun f => f.2.map (f.1, ·)) f.1 = f.2 := by
  have hsublist := sublist_map_fst_filterMap fields
  obtain ⟨name, value?⟩ := f
  cases value? with
  | some v =>
      refine lookup?_of_mem (f := (name, v)) (hnodup.sublist hsublist) ?_
      exact List.mem_filterMap.2 ⟨(name, some v), hf, rfl⟩
  | none =>
      apply lookup?_eq_none
      intro hmem
      obtain ⟨g, hg, hname⟩ := List.mem_map.1 hmem
      obtain ⟨f, hf', heq⟩ := List.mem_filterMap.1 hg
      obtain ⟨v, hv, rfl⟩ := Option.map_eq_some_iff.1 heq
      -- two fields of one name are one field, which has a value and has none
      have hsame : f = (name, none) := List.inj_on_of_nodup_map hnodup hf' hf hname
      rw [hsame] at hv
      cases hv

/-- From a record without the fields that have no value each field is read as it is. -/
theorem exists_fieldsOf?_recordOf {v : Value} {fields : List (Text × Option Value)}
    (hv : v = recordOf fields) (names : List Text) (hnodup : (fields.map Prod.fst).Nodup) :
    ∃ field, v.fieldsOf? names = some field ∧ ∀ f ∈ fields, field f.1 = f.2 := by
  subst hv
  exact ⟨_, fieldsOf?_record names (hnodup.sublist (sublist_map_fst_filterMap fields)),
    fun _ hf => lookup?_filterMap_of_mem hnodup hf⟩

/-- A text that may be missing is read as it is from a field that may be missing. -/
theorem defaulted_nullable_text (t? : Option Text) :
    defaulted none (nullable asText?) (t?.map text) = some t? := by
  cases t? with
  | none =>
      rfl
  | some t =>
      rfl

/-! ## Values that can be written -/

theorem writable_ofTexts (ts : List Text) : Writable (ofTexts ts) := by
  refine Writable.list ?_
  intro v hv
  obtain ⟨t, -, rfl⟩ := List.mem_map.1 hv
  exact Writable.text t

theorem writable_ofMap {α : Type} {item : α → Value} (h : ∀ a, Writable (item a))
    (m : OrderedMap Text α) : Writable (ofMap item m) := by
  refine Writable.record ?_
  intro f hf
  obtain ⟨e, -, rfl⟩ := List.mem_map.1 hf
  exact h e.2

theorem writable_recordOf {fields : List (Text × Option Value)}
    (h : ∀ f ∈ fields, ∀ v ∈ f.2, Writable v) : Writable (recordOf fields) := by
  refine Writable.record ?_
  intro f hf
  obtain ⟨g, hg, heq⟩ := List.mem_filterMap.1 hf
  obtain ⟨v, hv, rfl⟩ := Option.map_eq_some_iff.1 heq
  exact h g hg v hv

end Value

namespace Artifact

/-- An artifact is accepted if its value can be read and says the expected version. -/
theorem read_eq_ok_iff {α : Type} {artifact expected : Text} {ofValue? : Value → Option α}
    {version : α → Text} {json : Text} {a : α} :
    read artifact expected ofValue? version json = .ok a ↔
      (Json.read? json).bind ofValue? = some a ∧ version a = expected := by
  constructor
  · intro h
    rw [read] at h
    split at h
    · cases h
    · next b hb =>
        split at h
        · next hversion =>
            cases h
            exact ⟨hb, hversion⟩
        · cases h
  · rintro ⟨ha, hversion⟩
    rw [read, ha]
    exact if_pos hversion

end Artifact
end DspCheck
