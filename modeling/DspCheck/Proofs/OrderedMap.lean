import DspCheck.OrderedMap
import Mathlib.Algebra.BigOperators.Group.List.Basic
import Mathlib.Algebra.GroupWithZero.Nat
import Mathlib.Data.List.Induction
import Mathlib.Data.List.Nodup
import Mathlib.Data.List.Perm.Subperm

/-!
# What a map holds

A map holds nothing but what has been written into it (`mem_of_mem_ofList`), and what it holds is
found under its key (`get?_eq_some_iff`).  In a map made of a list of writes each key stands where
it was written first (`keys_ofList`) and has the value that was written last (`get?_ofList`).
-/

namespace DspCheck
namespace OrderedMap

variable {κ α : Type}

theorem keys_mapValues {β : Type} (f : κ → α → β) (m : OrderedMap κ α) :
    (m.mapValues f).keys = m.keys := by
  simp [keys, mapValues]

theorem size_mapValues {β : Type} (f : κ → α → β) (m : OrderedMap κ α) :
    (m.mapValues f).size = m.size := by
  simp [size, mapValues]

variable [DecidableEq κ]

theorem mem_of_mem_putEntry {k : κ} {v : α} {es : List (κ × α)} {e : κ × α}
    (h : e ∈ putEntry k v es) : e = (k, v) ∨ e ∈ es := by
  induction es with
  | nil =>
      exact Or.inl (List.mem_singleton.1 h)
  | cons e' es ih =>
      rw [putEntry] at h
      split at h
      · rcases List.mem_cons.1 h with h | h
        · exact Or.inl h
        · exact Or.inr (List.mem_cons_of_mem e' h)
      · rcases List.mem_cons.1 h with rfl | h
        · exact Or.inr List.mem_cons_self
        · rcases ih h with h | h
          · exact Or.inl h
          · exact Or.inr (List.mem_cons_of_mem e' h)

/-- A map holds nothing but what has been written into it. -/
theorem mem_of_mem_ofList {es : List (κ × α)} {e : κ × α} (h : e ∈ (ofList es).entries) :
    e ∈ es := by
  have key : ∀ (es : List (κ × α)) (m : OrderedMap κ α),
      e ∈ (es.foldl (fun m e => m.insert e.1 e.2) m).entries → e ∈ m.entries ∨ e ∈ es := by
    intro es
    induction es with
    | nil =>
        exact fun m h => Or.inl h
    | cons e' es ih =>
        intro m h
        rcases ih (m.insert e'.1 e'.2) h with h | h
        · rcases mem_of_mem_putEntry h with rfl | h
          · exact Or.inr List.mem_cons_self
          · exact Or.inl h
        · exact Or.inr (List.mem_cons_of_mem e' h)
  rcases key es empty h with h | h
  · cases h
  · exact h

/-- A value is found under a key if and only if it is the entry of the key. -/
theorem get?_eq_some_iff {m : OrderedMap κ α} {k : κ} {v : α} :
    m.get? k = some v ↔ (k, v) ∈ m.entries := by
  rw [get?, Option.map_eq_some_iff]
  constructor
  · rintro ⟨e, he, rfl⟩
    have hkey : e.1 = k := by simpa using List.find?_some he
    exact hkey ▸ List.mem_of_find?_eq_some he
  · intro h
    cases hfind : m.entries.find? fun e => e.1 = k with
    | none =>
        have hne := List.find?_eq_none.1 hfind (k, v) h
        simp at hne
    | some e =>
        have hkey : e.1 = k := by simpa using List.find?_some hfind
        have hsame := List.inj_on_of_nodup_map m.nodup (List.mem_of_find?_eq_some hfind) h hkey
        exact ⟨e, rfl, congrArg Prod.snd hsame⟩

/-- Nothing is found under a key if and only if the key is absent. -/
theorem get?_eq_none_iff {m : OrderedMap κ α} {k : κ} : m.get? k = none ↔ k ∉ m.keys := by
  rw [get?, Option.map_eq_none_iff, List.find?_eq_none, keys, List.mem_map]
  constructor
  · rintro h ⟨e, he, rfl⟩
    simpa using h e he
  · intro h e he hkey
    exact h ⟨e, he, by simpa using hkey⟩

/-- What is found does not depend on the order of the entries. -/
theorem get?_eq_of_perm {m n : OrderedMap κ α} (h : m.entries.Perm n.entries) (k : κ) :
    m.get? k = n.get? k := by
  apply Option.ext
  intro v
  rw [get?_eq_some_iff, get?_eq_some_iff, h.mem_iff]

theorem mem_values_of_get? {m : OrderedMap κ α} {k : κ} {v : α} (h : m.get? k = some v) :
    v ∈ m.values :=
  List.mem_map.2 ⟨(k, v), get?_eq_some_iff.1 h, rfl⟩

theorem get?_mapValues {β : Type} (f : α → β) (m : OrderedMap κ α) (k : κ) :
    (m.mapValues fun _ => f).get? k = (m.get? k).map f := by
  simp only [get?, mapValues, List.find?_map, Option.map_map]
  rfl

/-! ## Maps made of a list of writes -/

theorem ofList_concat (es : List (κ × α)) (e : κ × α) :
    ofList (es ++ [e]) = (ofList es).insert e.1 e.2 := by
  rw [ofList, List.foldl_append]
  rfl

/-- The keys of a map, each one where it was written first. -/
theorem keys_ofList [BEq κ] [LawfulBEq κ] (es : List (κ × α)) :
    (ofList es).keys = (es.map Prod.fst).eraseDups := by
  induction es using List.reverseRecOn with
  | nil =>
      rfl
  | append_singleton es e ih =>
      rw [ofList_concat, keys_insert, ih, List.map_append, List.eraseDups_append]
      by_cases h : e.1 ∈ es.map Prod.fst
      · simp [List.removeAll, h]
      · simp [List.removeAll, h, List.eraseDups_cons]

/-- A key has the value that was written under it last. -/
theorem get?_ofList (es : List (κ × α)) (k : κ) :
    (ofList es).get? k = (es.reverse.find? fun e => e.1 = k).map Prod.snd := by
  induction es using List.reverseRecOn with
  | nil =>
      rfl
  | append_singleton es e ih =>
      rw [ofList_concat, get?_insert, ih, List.reverse_append, List.reverse_singleton,
        List.singleton_append, List.find?_cons]
      by_cases h : e.1 = k <;> simp [h]

theorem mapValues_insert {β : Type} (f : α → β) (m : OrderedMap κ α) (k : κ) (v : α) :
    (m.insert k v).mapValues (fun _ => f) = (m.mapValues fun _ => f).insert k (f v) := by
  have key : ∀ es : List (κ × α), (putEntry k v es).map (fun e => (e.1, f e.2)) =
      putEntry k (f v) (es.map fun e => (e.1, f e.2)) := by
    intro es
    induction es with
    | nil =>
        rfl
    | cons e es ih =>
        by_cases h : e.1 = k <;> simp [putEntry, h, ih]
  exact OrderedMap.ext (key m.entries)

/-- Changing the values before they are written or in the map. -/
theorem mapValues_ofList {β : Type} (f : α → β) (es : List (κ × α)) :
    (ofList es).mapValues (fun _ => f) = ofList (es.map fun e => (e.1, f e.2)) := by
  induction es using List.reverseRecOn with
  | nil =>
      rfl
  | append_singleton es e ih =>
      rw [List.map_append, List.map_singleton, ofList_concat, ofList_concat, mapValues_insert, ih]

/-- Writes under some keys keep the sum of the values if and only if the keys are different, when no
value is zero. -/
theorem sum_values_ofList_eq_iff (f : α → Nat)
    {es : List (κ × α)} (hpos : ∀ e ∈ es, f e.2 ≠ 0) :
    ((ofList es).values.map f).sum = (es.map fun e => f e.2).sum ↔ (es.map Prod.fst).Nodup := by
  have hentries : (ofList es).entries.Nodup := List.Nodup.of_map Prod.fst (ofList es).nodup
  obtain ⟨kept, hkept, hsublist⟩ := List.subperm_of_subset hentries fun _ => mem_of_mem_ofList
  obtain ⟨lost, hlost⟩ := hsublist.exists_perm_append
  have hperm : es.Perm ((ofList es).entries ++ lost) := hlost.trans (hkept.append_right lost)
  have hsum : (es.map fun e => f e.2).sum =
      ((ofList es).values.map f).sum + (lost.map fun e => f e.2).sum := by
    rw [(hperm.map fun e => f e.2).sum_eq, List.map_append, List.sum_append, values, List.map_map]
    rfl
  constructor
  · intro heq
    have hzero : ∀ n ∈ lost.map fun e => f e.2, n = 0 := by
      rw [← List.sum_eq_zero_iff_forall_eq_nat]
      omega
    have hnil : lost = [] := by
      refine List.eq_nil_iff_forall_not_mem.2 fun e he => ?_
      exact hpos e (hperm.mem_iff.2 (List.mem_append_right _ he))
        (hzero _ (List.mem_map_of_mem he))
    rw [hnil, List.append_nil] at hperm
    exact (hperm.map Prod.fst).nodup_iff.2 (ofList es).nodup
  · intro hnodup
    rw [values, List.map_map, congrArg OrderedMap.entries (ofList_entries ⟨es, hnodup⟩)]
    rfl

end OrderedMap
end DspCheck
