import DspCheck.Files.Path

/-!
# Alphabetical order is linear

If items are in a linear order, so are lists of them (`IsLinear.lexicallyLe`): texts by their
scalars, file names by their bytes, and paths by their names (`isLinear_textLe`, `isLinear_nameLe`,
`isLinear_pathLe`).
-/

namespace DspCheck

/-- A comparison by which any two different items have one order. -/
structure IsLinear {α : Type} (le : α → α → Bool) : Prop where
  total : ∀ a b, le a b = true ∨ le b a = true
  trans : ∀ a b c, le a b = true → le b c = true → le a c = true
  antisymm : ∀ a b, le a b = true → le b a = true → a = b

namespace IsLinear

variable {α : Type} {le : α → α → Bool}

/-- What is sorted by its keys stands in the order of its keys. -/
theorem pairwise_mergeSort {β : Type} (h : IsLinear le) (key : β → α) (items : List β) :
    (items.mergeSort fun a b => le (key a) (key b)).Pairwise
      fun a b => le (key a) (key b) = true := by
  refine List.pairwise_mergeSort (fun a b c => h.trans (key a) (key b) (key c))
    (fun a b => ?_) items
  simpa using h.total (key a) (key b)

variable [DecidableEq α]

theorem lexicallyLe_total (h : IsLinear le) (s t : List α) :
    lexicallyLe le s t = true ∨ lexicallyLe le t s = true := by
  induction s generalizing t with
  | nil =>
      exact Or.inl rfl
  | cons a s ih =>
      cases t with
      | nil =>
          exact Or.inr rfl
      | cons b t =>
          by_cases hab : a = b
          · subst hab
            simpa [lexicallyLe] using ih t
          · simpa [lexicallyLe, hab, Ne.symm hab] using h.total a b

theorem lexicallyLe_antisymm (h : IsLinear le) {s t : List α} (hst : lexicallyLe le s t = true)
    (hts : lexicallyLe le t s = true) : s = t := by
  induction s generalizing t with
  | nil =>
      cases t with
      | nil =>
          rfl
      | cons b t =>
          cases hts
  | cons a s ih =>
      cases t with
      | nil =>
          cases hst
      | cons b t =>
          by_cases hab : a = b
          · subst hab
            simp only [lexicallyLe, if_true] at hst hts
            rw [ih hst hts]
          · simp only [lexicallyLe, if_neg hab, if_neg (Ne.symm hab)] at hst hts
            exact absurd (h.antisymm a b hst hts) hab

theorem lexicallyLe_trans (h : IsLinear le) {s t u : List α} (hst : lexicallyLe le s t = true)
    (htu : lexicallyLe le t u = true) : lexicallyLe le s u = true := by
  induction s generalizing t u with
  | nil =>
      rfl
  | cons a s ih =>
      cases t with
      | nil =>
          cases hst
      | cons b t =>
          cases u with
          | nil =>
              cases htu
          | cons c u =>
              unfold lexicallyLe at hst htu ⊢
              split at hst
              · next hab =>
                  subst hab
                  split at htu
                  · next hac =>
                      rw [if_pos hac]
                      exact ih hst htu
                  · next hac =>
                      rw [if_neg hac]
                      exact htu
              · next hab =>
                  split at htu
                  · next hbc =>
                      subst hbc
                      rw [if_neg hab]
                      exact hst
                  · next hbc =>
                      -- if the outer items were equal, the middle one would be equal to them
                      have hac : a ≠ c := by
                        rintro rfl
                        exact hab (h.antisymm a b hst htu)
                      rw [if_neg hac]
                      exact h.trans a b c hst htu

/-- Lists of items in a linear order are in a linear order. -/
theorem lexicallyLe (h : IsLinear le) : IsLinear (DspCheck.lexicallyLe le) where
  total := h.lexicallyLe_total
  trans _ _ _ := h.lexicallyLe_trans
  antisymm _ _ := h.lexicallyLe_antisymm

end IsLinear

theorem isLinear_textLe : IsLinear Text.le := by
  refine IsLinear.lexicallyLe ⟨fun a b => ?_, fun a b c => ?_, fun a b hab hba => ?_⟩
  · simpa using Nat.le_total a.toNat b.toNat
  · simpa using Nat.le_trans
  · exact Char.toNat_inj.1 (Nat.le_antisymm (by simpa using hab) (by simpa using hba))

theorem isLinear_nameLe : IsLinear FileName.le := by
  refine IsLinear.lexicallyLe ⟨fun a b => ?_, fun a b c => ?_, fun a b hab hba => ?_⟩
  · simpa using UInt8.le_total a b
  · simpa using UInt8.le_trans
  · exact UInt8.le_antisymm (by simpa using hab) (by simpa using hba)

theorem isLinear_pathLe : IsLinear Path.le :=
  isLinear_nameLe.lexicallyLe

/-- What two paths have in common at their start does not matter. -/
theorem Path.le_append (front p q : Path) : Path.le (front ++ p) (front ++ q) = Path.le p q := by
  induction front with
  | nil =>
      rfl
  | cons name front ih =>
      exact (if_pos rfl).trans ih

end DspCheck
