import Mathlib.Data.List.Basic

/-!
# Fallible functions over lists

What is known of the results of a fallible function over a list: they are the results about its
items, one after the other, and one failure makes the whole fail.  The functions fail with an error,
or by having no result.
-/

namespace DspCheck

/-! ## With errors -/

section Errors

variable {ε α β γ : Type}

/-- Changing all results of a fallible function over a list changes the list of results. -/
theorem mapM_map_except {f : α → Except ε β} {g : β → γ} (as : List α) :
    as.mapM (fun a => (f a).map g) = (as.mapM f).map (List.map g) := by
  induction as with
  | nil =>
      rfl
  | cons a as ih =>
      rw [List.mapM_cons, List.mapM_cons, ih]
      cases f a with
      | error e =>
          rfl
      | ok b =>
          cases as.mapM f with
          | error e =>
              rfl
          | ok bs =>
              rfl

theorem exists_of_map_eq_ok {e : Except ε α} {f : α → β} {b : β} (h : e.map f = .ok b) :
    ∃ a, e = .ok a ∧ f a = b := by
  cases e with
  | error e =>
      cases h
  | ok a =>
      exact ⟨a, rfl, Except.ok.inj h⟩

/-- A composition that gives a result has a first part that does. -/
theorem exists_of_bind_eq_ok {e : Except ε α} {f : α → Except ε β} {b : β}
    (h : (e >>= f) = .ok b) : ∃ a, e = .ok a ∧ f a = .ok b := by
  cases e with
  | error e =>
      cases h
  | ok a =>
      exact ⟨a, rfl, h⟩

theorem mapM_cons_of_ok {f : α → Except ε β} {a : α} {as : List α} {b : β} {bs : List β}
    (hb : f a = .ok b) (hbs : as.mapM f = .ok bs) : (a :: as).mapM f = .ok (b :: bs) := by
  rw [List.mapM_cons, hb, hbs]
  rfl

theorem mapM_cons_eq_ok {f : α → Except ε β} {a : α} {as : List α} {bs : List β}
    (h : (a :: as).mapM f = .ok bs) :
    ∃ b bs', f a = .ok b ∧ as.mapM f = .ok bs' ∧ bs = b :: bs' := by
  rw [List.mapM_cons] at h
  cases hb : f a with
  | error e =>
      rw [hb] at h
      cases h
  | ok b =>
      cases hbs : as.mapM f with
      | error e =>
          rw [hb, hbs] at h
          cases h
      | ok bs' =>
          rw [hb, hbs] at h
          exact ⟨b, bs', rfl, rfl, (Except.ok.inj h).symm⟩

/-- Every result of a fallible function over a list comes from an item of it. -/
theorem exists_mem_of_mapM_ok {f : α → Except ε β} {as : List α} {bs : List β}
    (h : as.mapM f = .ok bs) {b : β} (hb : b ∈ bs) : ∃ a ∈ as, f a = .ok b := by
  induction as generalizing bs with
  | nil =>
      cases h
      cases hb
  | cons a as ih =>
      obtain ⟨first, rest, hfirst, hrest, rfl⟩ := mapM_cons_eq_ok h
      rcases List.mem_cons.1 hb with rfl | hb
      · exact ⟨a, List.mem_cons_self, hfirst⟩
      · obtain ⟨a', ha', hfa'⟩ := ih hrest hb
        exact ⟨a', List.mem_cons_of_mem a ha', hfa'⟩

/-- What the results say about the items. -/
theorem map_eq_of_mapM_ok {f : α → Except ε β} {g : β → α} (hg : ∀ a b, f a = .ok b → g b = a)
    {as : List α} {bs : List β} (h : as.mapM f = .ok bs) : bs.map g = as := by
  induction as generalizing bs with
  | nil =>
      obtain rfl := Except.ok.inj h
      rfl
  | cons a as ih =>
      obtain ⟨b, bs', hb, hbs', rfl⟩ := mapM_cons_eq_ok h
      rw [List.map_cons, ih hbs', hg a b hb]

/-- A result between others comes from an item between others. -/
theorem exists_of_mapM_eq_append {f : α → Except ε β} {as : List α} {bs cs : List β}
    {b : β} (h : as.mapM f = .ok (bs ++ b :: cs)) :
    ∃ as₁ a as₂, as = as₁ ++ a :: as₂ ∧ f a = .ok b ∧ as₂.mapM f = .ok cs ∧
      ∀ as' cs', as'.mapM f = .ok cs' → (as₁ ++ as').mapM f = .ok (bs ++ cs') := by
  induction bs generalizing as with
  | nil =>
      cases as with
      | nil =>
          cases h
      | cons a as =>
          obtain ⟨b', cs', hb, hcs, heq⟩ := mapM_cons_eq_ok h
          obtain ⟨rfl, rfl⟩ := List.cons.inj heq
          exact ⟨[], a, as, rfl, hb, hcs, fun _ _ h => h⟩
  | cons b₀ bs ih =>
      cases as with
      | nil =>
          cases h
      | cons a₀ as =>
          obtain ⟨b', rest, hb, hrest, heq⟩ := mapM_cons_eq_ok h
          obtain ⟨rfl, rfl⟩ := List.cons.inj heq
          obtain ⟨as₁, a, as₂, rfl, ha, has₂, happend⟩ := ih hrest
          exact ⟨a₀ :: as₁, a, as₂, rfl, ha, has₂,
            fun as' cs' h => mapM_cons_of_ok hb (happend as' cs' h)⟩

theorem toOption_map_eq_none_iff {f : α → β} (e : Except ε α) :
    (e.map f).toOption = none ↔ e.toOption = none := by
  cases e <;> simp [Except.map, Except.toOption]

/-- One failure makes the whole fail. -/
theorem mapM_toOption_eq_none_iff {f : α → Except ε β} {as : List α} :
    (as.mapM f).toOption = none ↔ ∃ a ∈ as, (f a).toOption = none := by
  induction as with
  | nil =>
      constructor
      · intro h
        cases h
      · rintro ⟨a, ha, -⟩
        cases ha
  | cons a as ih =>
      rw [List.mapM_cons, List.exists_mem_cons_iff, ← ih]
      cases f a with
      | error e =>
          exact ⟨fun _ => Or.inl rfl, fun _ => rfl⟩
      | ok b =>
          cases as.mapM f with
          | error e =>
              exact ⟨fun _ => Or.inr rfl, fun _ => rfl⟩
          | ok bs =>
              refine ⟨fun h => ?_, fun h => ?_⟩
              · cases h
              · rcases h with h | h <;> cases h

end Errors

/-! ## Without results -/

section Options

variable {ε α β γ : Type}

theorem mapM_eq_some {f : α → Option β} {g : α → β} {as : List α}
    (h : ∀ a ∈ as, f a = some (g a)) : as.mapM f = some (as.map g) := by
  induction as with
  | nil =>
      rfl
  | cons a as ih =>
      rw [List.forall_mem_cons] at h
      rw [List.mapM_cons, h.1, ih h.2]
      rfl

/-- Changing all results of a function over a list that may have none. -/
theorem mapM_map_option {f : α → Option β} {g : β → γ} (as : List α) :
    as.mapM (fun a => (f a).map g) = (as.mapM f).map (List.map g) := by
  induction as with
  | nil =>
      rfl
  | cons a as ih =>
      rw [List.mapM_cons, List.mapM_cons, ih]
      cases f a with
      | none =>
          rfl
      | some b =>
          cases as.mapM f <;> rfl

theorem filterMapM_cons_of_some {f : α → Option (Option β)} {a : α} {as : List α}
    {b? : Option β} {bs : List β} (h : f a = some b?) (hbs : as.filterMapM f = some bs) :
    (a :: as).filterMapM f = some (b?.toList ++ bs) := by
  rw [List.filterMapM_cons, h, hbs]
  cases b? <;> rfl

theorem filterMapM_eq_some {f : α → Option (Option β)} {g : α → Option β} {as : List α}
    (h : ∀ a ∈ as, f a = some (g a)) : as.filterMapM f = some (as.filterMap g) := by
  induction as with
  | nil =>
      rfl
  | cons a as ih =>
      rw [List.forall_mem_cons] at h
      rw [filterMapM_cons_of_some h.1 (ih h.2), List.filterMap_cons]
      cases g a <;> rfl

theorem filterMapM_map {f : β → Option (Option γ)} {g : α → β} (as : List α) :
    (as.map g).filterMapM f = as.filterMapM fun a => f (g a) := by
  induction as with
  | nil =>
      rfl
  | cons a as ih =>
      rw [List.map_cons, List.filterMapM_cons, List.filterMapM_cons, ih]

theorem flatMapM_eq_some {f : α → Option (List β)} {g : α → List β} {as : List α}
    (h : ∀ a ∈ as, f a = some (g a)) : as.flatMapM f = some (as.flatMap g) := by
  induction as with
  | nil =>
      rfl
  | cons a as ih =>
      rw [List.forall_mem_cons] at h
      rw [List.flatMapM_cons, h.1, ih h.2]
      rfl

theorem exists_mem_of_mapM_eq_some {f : α → Option β} {as : List α} {bs : List β}
    (h : as.mapM f = some bs) {b : β} (hb : b ∈ bs) : ∃ a ∈ as, f a = some b := by
  induction as generalizing bs with
  | nil =>
      cases h
      cases hb
  | cons a as ih =>
      simp only [List.mapM_cons, Option.bind_eq_bind, Option.bind_eq_some_iff, Option.pure_def,
        Option.some.injEq] at h
      obtain ⟨b', hb', bs', hbs', rfl⟩ := h
      rcases List.mem_cons.1 hb with rfl | hb
      · exact ⟨a, List.mem_cons_self, hb'⟩
      · obtain ⟨a', ha', hfa'⟩ := ih hbs' hb
        exact ⟨a', List.mem_cons_of_mem a ha', hfa'⟩

theorem anyM_cons_of_some {f : α → Option Bool} {a : α} {b : Bool} (h : f a = some b)
    (as : List α) : (a :: as).anyM f = if b then some true else as.anyM f := by
  rw [List.anyM, h]
  cases b <;> rfl

theorem anyM_eq_some {f : α → Option Bool} {g : α → Bool} {as : List α}
    (h : ∀ a ∈ as, f a = some (g a)) : as.anyM f = some (as.any g) := by
  induction as with
  | nil =>
      rfl
  | cons a as ih =>
      rw [List.forall_mem_cons] at h
      rw [anyM_cons_of_some h.1, ih h.2, List.any_cons]
      cases g a <;> rfl

theorem findSomeM?_cons_of_some {f : α → Option (Option β)} {a : α} {as : List α}
    {b? later? : Option β} (h : f a = some b?) (hlater : as.findSomeM? f = some later?) :
    (a :: as).findSomeM? f = some (b?.or later?) := by
  rw [List.findSomeM?_cons, h, hlater]
  cases b? <;> rfl

theorem findSomeM?_eq_some {f : α → Option (Option β)} {g : α → Option β} {as : List α}
    (h : ∀ a ∈ as, f a = some (g a)) : as.findSomeM? f = some (as.findSome? g) := by
  induction as with
  | nil =>
      rfl
  | cons a as ih =>
      rw [List.forall_mem_cons] at h
      rw [findSomeM?_cons_of_some h.1 (ih h.2), List.findSome?_cons]
      cases g a <;> rfl

theorem flatMapM_map {f : β → Option (List γ)} {g : α → β} (as : List α) :
    (as.map g).flatMapM f = as.flatMapM fun a => f (g a) := by
  induction as with
  | nil =>
      rfl
  | cons a as ih =>
      rw [List.map_cons, List.flatMapM_cons, List.flatMapM_cons, ih]

theorem findSomeM?_map {f : β → Option (Option γ)} {g : α → β} (as : List α) :
    (as.map g).findSomeM? f = as.findSomeM? fun a => f (g a) := by
  induction as with
  | nil =>
      rfl
  | cons a as ih =>
      rw [List.map_cons, List.findSomeM?_cons, List.findSomeM?_cons, ih]

/-- A function that fails where another one does. -/
theorem flatMapM_eq_toOption {f : α → Option (List γ)} {g : α → Except ε β} {k : β → List γ}
    {as : List α} (h : ∀ a ∈ as, f a = ((g a).map k).toOption) :
    as.flatMapM f = ((as.mapM g).map (List.flatMap k)).toOption := by
  induction as with
  | nil =>
      rfl
  | cons a as ih =>
      rw [List.forall_mem_cons] at h
      rw [List.flatMapM_cons, List.mapM_cons, h.1, ih h.2]
      cases g a with
      | error e =>
          rfl
      | ok b =>
          cases as.mapM g <;> rfl

end Options

end DspCheck
