/-!
# Maps that keep the order of insertion

A map is the list of its entries, oldest key first, in which no key occurs twice.  Writing under a
key that is present replaces the value and keeps the place of the key; any other key goes to the
end.

Main statements: `get?_insert`, `keys_insert`, and `ofList_entries`, by which a map is rebuilt from
its entries.
-/

namespace DspCheck

variable {κ α : Type}

/-- Writing a value under a key in a list of entries. -/
def putEntry [DecidableEq κ] (k : κ) (v : α) : List (κ × α) → List (κ × α)
  | [] => [(k, v)]
  | e :: es => if e.1 = k then (k, v) :: es else e :: putEntry k v es

/-- The keys after a write: the old ones, and the new one at the end if it was absent. -/
theorem keys_putEntry [DecidableEq κ] (k : κ) (v : α) (es : List (κ × α)) :
    (putEntry k v es).map Prod.fst =
      if k ∈ es.map Prod.fst then es.map Prod.fst else es.map Prod.fst ++ [k] := by
  induction es with
  | nil => simp [putEntry]
  | cons e es ih =>
      by_cases h : e.1 = k
      · simp [putEntry, h]
      · have h' : ¬ k = e.1 := fun hk => h hk.symm
        simp only [putEntry, if_neg h, List.map_cons, ih, List.mem_cons, h', false_or]
        split <;> simp

theorem nodup_putEntry [DecidableEq κ] (k : κ) (v : α) {es : List (κ × α)}
    (h : (es.map Prod.fst).Nodup) : ((putEntry k v es).map Prod.fst).Nodup := by
  rw [keys_putEntry]
  split
  · exact h
  · next hk =>
      refine List.nodup_append.2 ⟨h, by simp, fun a ha b hb hab => hk ?_⟩
      rw [List.mem_singleton] at hb
      exact hb ▸ hab ▸ ha

/-- A list of entries without repeated keys, in the order in which the keys came. -/
structure OrderedMap (κ α : Type) where
  entries : List (κ × α)
  nodup : (entries.map Prod.fst).Nodup
  deriving DecidableEq

namespace OrderedMap

@[ext] theorem ext {m n : OrderedMap κ α} (h : m.entries = n.entries) : m = n := by
  cases m
  cases n
  cases h
  rfl

/-- The map without entries. -/
def empty : OrderedMap κ α := ⟨[], List.nodup_nil⟩

instance : EmptyCollection (OrderedMap κ α) := ⟨empty⟩

instance : Inhabited (OrderedMap κ α) := ⟨empty⟩

/-- The keys, oldest first. -/
def keys (m : OrderedMap κ α) : List κ :=
  m.entries.map Prod.fst

/-- The values in the order of their keys. -/
def values (m : OrderedMap κ α) : List α :=
  m.entries.map Prod.snd

/-- Number of entries. -/
def size (m : OrderedMap κ α) : Nat :=
  m.entries.length

/-- Changing the values, each with its key in hand. -/
def mapValues {β : Type} (f : κ → α → β) (m : OrderedMap κ α) : OrderedMap κ β where
  entries := m.entries.map fun e => (e.1, f e.1 e.2)
  nodup := by
    have h : (m.entries.map fun e => (e.1, f e.1 e.2)).map Prod.fst = m.entries.map Prod.fst := by
      simp
    rw [h]
    exact m.nodup

/-- Changing the value of the youngest key. -/
def modifyLast (f : α → α) (m : OrderedMap κ α) : OrderedMap κ α where
  entries := m.entries.dropLast ++ (m.entries.getLast?.map fun e => (e.1, f e.2)).toList
  nodup := by
    have h : (m.entries.dropLast ++ (m.entries.getLast?.map fun e => (e.1, f e.2)).toList).map
        Prod.fst = m.entries.map Prod.fst := by
      rcases List.eq_nil_or_concat m.entries with he | ⟨es, e, he⟩ <;> simp [he]
    rw [h]
    exact m.nodup

variable [DecidableEq κ]

/-- The value under a key. -/
def get? (m : OrderedMap κ α) (k : κ) : Option α :=
  (m.entries.find? fun e => e.1 = k).map Prod.snd

/-- Whether a key is present. -/
def contains (m : OrderedMap κ α) (k : κ) : Bool :=
  m.entries.any fun e => e.1 = k

/-- Writing a value under a key. -/
def insert (m : OrderedMap κ α) (k : κ) (v : α) : OrderedMap κ α :=
  ⟨putEntry k v m.entries, nodup_putEntry k v m.nodup⟩

/-- The map of a list of writes, in their order. -/
def ofList (es : List (κ × α)) : OrderedMap κ α :=
  es.foldl (fun m e => m.insert e.1 e.2) empty

theorem keys_insert (m : OrderedMap κ α) (k : κ) (v : α) :
    (m.insert k v).keys = if k ∈ m.keys then m.keys else m.keys ++ [k] :=
  keys_putEntry k v m.entries

theorem get?_insert (m : OrderedMap κ α) (k k' : κ) (v : α) :
    (m.insert k v).get? k' = if k = k' then some v else m.get? k' := by
  simp only [get?, insert]
  induction m.entries with
  | nil => by_cases h : k = k' <;> simp [putEntry, h]
  | cons e es ih =>
      by_cases he : e.1 = k
      · by_cases h : k = k' <;> simp [putEntry, he, h]
      · rw [putEntry, if_neg he]
        by_cases h : e.1 = k'
        · have hk : ¬ k = k' := fun hk => he (h.trans hk.symm)
          rw [List.find?_cons_of_pos (by simpa using h), List.find?_cons_of_pos (by simpa using h),
            if_neg hk]
        · rw [List.find?_cons_of_neg (by simpa using h), List.find?_cons_of_neg (by simpa using h)]
          exact ih

/-- A write under an absent key goes to the end. -/
theorem entries_insert_of_notMem {m : OrderedMap κ α} {k : κ} (v : α) (h : k ∉ m.keys) :
    (m.insert k v).entries = m.entries ++ [(k, v)] := by
  have key : ∀ es : List (κ × α), k ∉ es.map Prod.fst → putEntry k v es = es ++ [(k, v)] := by
    intro es
    induction es with
    | nil => simp [putEntry]
    | cons e es ih =>
        intro hk
        simp only [List.map_cons, List.mem_cons, not_or] at hk
        rw [putEntry, if_neg fun he : e.1 = k => hk.1 he.symm, ih hk.2, List.cons_append]
  exact key m.entries h

/-- Rebuilding a map from its entries. -/
theorem ofList_entries (m : OrderedMap κ α) : ofList m.entries = m := by
  have key : ∀ (es : List (κ × α)) (n : OrderedMap κ α),
      ((n.entries ++ es).map Prod.fst).Nodup →
      (es.foldl (fun m e => m.insert e.1 e.2) n).entries = n.entries ++ es := by
    intro es
    induction es with
    | nil => simp
    | cons e es ih =>
        intro n hn
        have hk : e.1 ∉ n.keys := by
          intro hmem
          have hd := (List.nodup_append.1 (by simpa using hn)).2.2
          exact hd e.1 hmem e.1 (by simp) rfl
        have he := entries_insert_of_notMem e.2 hk
        rw [List.foldl_cons, ih _ (by simpa [he] using hn), he]
        simp
  apply OrderedMap.ext
  simpa [ofList, empty] using key m.entries empty (by simpa [empty] using m.nodup)

end OrderedMap
end DspCheck
