import DspCheck.Json.Reader
import DspCheck.Proofs.Json.Token

/-!
# Reading what has been written

The written form of a value is cut into tokens that take the reader, wherever it waits for a value,
to the state in which that value has been delivered (`isDelivered_of_writable`).  So a document is
read as the value of which it is the written form (`read?_write`).

Numbers that are no natural numbers are kept as they are written, so they must be written as JSON
writes numbers (`Writable`).
-/

namespace DspCheck
namespace Json

/-- A value of which all number literals are those of numbers. -/
inductive Writable : Value → Prop
  | null : Writable .null
  | bool (b : Bool) : Writable (.bool b)
  | natural (n : Nat) : Writable (.natural n)
  | numeral {w : Text} (hchar : ∀ c ∈ w, isWordChar c = true)
      (hword : wordValue? w = some (.numeral w)) : Writable (.numeral w)
  | text (t : Text) : Writable (.text t)
  | list {items : List Value} (h : ∀ v ∈ items, Writable v) : Writable (.list items)
  | record {fields : List (Text × Value)} (h : ∀ f ∈ fields, Writable f.2) :
      Writable (.record fields)

/-- Before `rest` a text is cut into tokens that take the reader from one state to another. -/
def Leads (t rest : Text) (s s' : State) : Prop :=
  ∃ ts, tokens? (t ++ rest) = (tokens? rest).map (ts ++ ·) ∧ ts.foldlM step s = some s'

section Parts

variable {t u rest : Text} {s s' s'' : State}

theorem Leads.append (ht : Leads t (u ++ rest) s s') (hu : Leads u rest s' s'') :
    Leads (t ++ u) rest s s'' := by
  obtain ⟨ts, htokens, hsteps⟩ := ht
  obtain ⟨us, hutokens, husteps⟩ := hu
  refine ⟨ts ++ us, ?_, ?_⟩
  · rw [List.append_assoc, htokens, hutokens, Option.map_map]
    congr 1
    funext found
    exact (List.append_assoc ts us found).symm
  · rw [List.foldlM_append, hsteps]
    exact husteps

theorem leads_token {token : Token}
    (htokens : tokens? (t ++ rest) = (tokens? rest).map (token :: ·))
    (hstep : step s token = some s') : Leads t rest s s' := by
  refine ⟨[token], htokens, ?_⟩
  rw [List.foldlM_cons, hstep]
  rfl

theorem leads_blanks (h : ∀ c ∈ t, isBlank c = true) : Leads t rest s s := by
  refine ⟨[], ?_, rfl⟩
  induction t with
  | nil =>
      exact Option.map_id'.symm
  | cons c t ih =>
      rw [List.forall_mem_cons] at h
      rw [List.cons_append, tokens?_blank h.1, ih h.2]

theorem leads_newLine (level : Nat) : Leads (newLine level) rest s s := by
  apply leads_blanks
  rw [newLine, List.forall_mem_cons]
  refine ⟨by decide, ?_⟩
  intro c hc
  rw [List.eq_of_mem_replicate hc]
  decide

theorem leads_text {x : Text} (hstep : step s (.string (some x)) = some s') :
    Leads (writeText x) rest s s' :=
  leads_token (tokens?_writeText x rest) hstep

theorem leads_punctuation {c : Char} {token : Token} (htoken : punctuation? c = some token)
    (hstep : step s token = some s') : Leads [c] rest s s' :=
  leads_token (tokens?_punctuation htoken rest) hstep

theorem leads_word {w : Text} {v : Value} (hw : ∀ c ∈ w, isWordChar c = true)
    (hrest : Text.EndsAt isWordChar rest) (hv : wordValue? w = some v)
    (hstep : step s (.word v) = some s') : Leads w rest s s' :=
  leads_token (tokens?_word hw hrest hv) hstep

end Parts

/-- Whether a value may come next. -/
def Expectation.AllowsValue (next : Expectation) : Prop :=
  next = .value ∨ next = .firstItem

/-- Whether a key may come next. -/
def Expectation.AllowsKey (next : Expectation) : Prop :=
  next = .key ∨ next = .firstKey

/-- A token with which a value starts closes nothing. -/
theorem step_of_stepValue {frames : List Frame} {next : Expectation} (hnext : next.AllowsValue)
    {token : Token} {s : State} (h : stepValue frames token = some s) :
    step (.reading frames next) token = some s := by
  rcases hnext with rfl | rfl
  · exact h
  · have hclose : stepClose frames token = none := by
      unfold stepClose
      split
      · cases h
      · cases h
      · rfl
    rw [step, hclose, Option.none_or, h]

/-- The written forms of values, and of values behind others in a container, start like no word. -/
theorem endsAt_writeItems (level : Nat) (vs : List Value) {rest : Text}
    (hrest : Text.EndsAt isWordChar rest) :
    Text.EndsAt isWordChar (writeItems level vs ++ rest) := by
  cases vs with
  | nil =>
      exact hrest
  | cons v vs =>
      rw [writeItems]
      exact Text.endsAt_cons (by decide) _

theorem endsAt_writeFields (level : Nat) (fs : List (Text × Value)) {rest : Text}
    (hrest : Text.EndsAt isWordChar rest) :
    Text.EndsAt isWordChar (writeFields level fs ++ rest) := by
  cases fs with
  | nil =>
      exact hrest
  | cons f fs =>
      rw [writeFields]
      exact Text.endsAt_cons (by decide) _

/-- The reader takes the written form of a value, wherever it waits for a value, to the state in
which that value has been delivered. -/
def IsDelivered (v : Value) : Prop :=
  ∀ (level : Nat) (frames : List Frame) (next : Expectation) (rest : Text), next.AllowsValue →
    Text.EndsAt isWordChar rest →
    Leads (writeAt level v) rest (.reading frames next) (deliver v frames)

theorem leads_comma {rest : Text} {frames : List Frame} {s : State}
    (hstep : stepSeparator frames .comma = some s) :
    Leads [','] rest (.reading frames .separator) s :=
  leads_punctuation rfl hstep

theorem leads_writeItems (level : Nat) {vs : List Value} (hvs : ∀ v ∈ vs, IsDelivered v)
    (items : List Value) (frames : List Frame) {rest : Text} (hrest : Text.EndsAt isWordChar rest) :
    Leads (writeItems level vs) rest (.reading (.list items :: frames) .separator)
      (.reading (.list (vs.reverse ++ items) :: frames) .separator) := by
  induction vs generalizing items with
  | nil =>
      exact leads_blanks fun c hc => absurd hc List.not_mem_nil
  | cons v vs ih =>
      rw [List.forall_mem_cons] at hvs
      have hcomma : ∀ u, Leads [','] u (.reading (.list items :: frames) .separator)
          (.reading (.list items :: frames) .value) := fun _ => leads_comma rfl
      have hvalue := hvs.1 level (.list items :: frames) .value _ (Or.inl rfl)
        (endsAt_writeItems level vs hrest)
      rw [writeItems, List.reverse_cons, List.append_assoc vs.reverse]
      exact (((hcomma _).append (leads_newLine level)).append hvalue).append (ih hvs.2 (v :: items))

/-- The reader takes the written form of a field, wherever it waits for a key. -/
theorem leads_field (level : Nat) {k : Text} {v : Value} (hv : IsDelivered v)
    (fields : List (Text × Value)) (key : Option Text) (frames : List Frame) {next : Expectation}
    (hnext : next.AllowsKey) {rest : Text} (hrest : Text.EndsAt isWordChar rest) :
    Leads (writeText k ++ ": " ++ writeAt level v) rest
      (.reading (.record fields key false :: frames) next)
      (.reading (.record ((k, v) :: fields) (some k) false :: frames) .separator) := by
  have hkey : step (.reading (.record fields key false :: frames) next) (.string (some k)) =
      some (.reading (.record fields (some k) false :: frames) .colon) := by
    rcases hnext with rfl | rfl <;> rfl
  have hcolon : ∀ u, Leads [':'] u (.reading (.record fields (some k) false :: frames) .colon)
      (.reading (.record fields (some k) false :: frames) .value) := fun _ =>
    leads_punctuation rfl rfl
  have hblank : ∀ u, Leads [' '] u (.reading (.record fields (some k) false :: frames) .value)
      (.reading (.record fields (some k) false :: frames) .value) := fun _ =>
    leads_blanks (List.all_iff_forall_prop.1 (by decide))
  have hvalue := hv level (.record fields (some k) false :: frames) .value rest (Or.inl rfl) hrest
  have hseparator : ∀ u, Leads ": " u (.reading (.record fields (some k) false :: frames) .colon)
      (.reading (.record fields (some k) false :: frames) .value) := fun _ =>
    (hcolon _).append (hblank _)
  exact ((leads_text hkey).append (hseparator _)).append hvalue

theorem leads_writeFields (level : Nat) {fs : List (Text × Value)}
    (hfs : ∀ f ∈ fs, IsDelivered f.2) (fields : List (Text × Value)) (key : Option Text)
    (frames : List Frame) {rest : Text} (hrest : Text.EndsAt isWordChar rest) :
    ∃ key', Leads (writeFields level fs) rest
      (.reading (.record fields key false :: frames) .separator)
      (.reading (.record (fs.reverse ++ fields) key' false :: frames) .separator) := by
  induction fs generalizing fields key with
  | nil =>
      exact ⟨key, leads_blanks fun c hc => absurd hc List.not_mem_nil⟩
  | cons f fs ih =>
      obtain ⟨k, v⟩ := f
      rw [List.forall_mem_cons] at hfs
      have hcomma : ∀ u, Leads [','] u (.reading (.record fields key false :: frames) .separator)
          (.reading (.record fields key false :: frames) .key) := fun _ => leads_comma rfl
      have hfield := leads_field (k := k) level hfs.1 fields key frames (Or.inl rfl)
        (endsAt_writeFields level fs hrest)
      obtain ⟨key', hothers⟩ := ih hfs.2 ((k, v) :: fields) (some k)
      refine ⟨key', ?_⟩
      have hall := ((hcomma _).append (leads_newLine level)).append (hfield.append hothers)
      rw [writeFields, List.reverse_cons, List.append_assoc fs.reverse]
      simpa only [List.append_assoc, List.cons_append, List.nil_append] using hall

theorem isDelivered_list {items : List Value} (h : ∀ v ∈ items, IsDelivered v) :
    IsDelivered (.list items) := by
  intro level frames next rest hnext hrest
  have hopen : ∀ u, Leads ['['] u (.reading frames next)
      (.reading (.list [] :: frames) .firstItem) := fun _ =>
    leads_punctuation rfl (step_of_stepValue hnext rfl)
  cases items with
  | nil =>
      have hclose : ∀ u, Leads [']'] u (.reading (.list [] :: frames) .firstItem)
          (deliver (.list []) frames) := fun _ =>
        leads_punctuation rfl rfl
      show Leads (['['] ++ [']']) rest _ _
      exact (hopen _).append (hclose _)
  | cons v vs =>
      rw [List.forall_mem_cons] at h
      have hreverse : (vs.reverse ++ [v]).reverse = v :: vs := by simp
      have hclose : ∀ u, Leads [']'] u (.reading (.list (vs.reverse ++ [v]) :: frames) .separator)
          (deliver (.list (vs.reverse ++ [v]).reverse) frames) := fun _ =>
        leads_punctuation rfl rfl
      rw [hreverse] at hclose
      have hend : ∀ u, Text.EndsAt isWordChar (newLine level ++ u) :=
        fun _ => Text.endsAt_cons (by decide) _
      have hfirst := h.1 (level + 1) (.list [] :: frames) .firstItem _ (Or.inr rfl)
        (endsAt_writeItems (level + 1) vs (hend ([']'] ++ rest)))
      have hothers := leads_writeItems (level + 1) h.2 [v] frames (hend ([']'] ++ rest))
      exact (((((hopen _).append (leads_newLine (level + 1))).append hfirst).append hothers).append
        (leads_newLine level)).append (hclose rest)

theorem isDelivered_record {fields : List (Text × Value)} (h : ∀ f ∈ fields, IsDelivered f.2) :
    IsDelivered (.record fields) := by
  intro level frames next rest hnext hrest
  have hopen : ∀ u, Leads ['\x7b'] u (.reading frames next)
      (.reading (.record [] none false :: frames) .firstKey) := fun _ =>
    leads_punctuation rfl (step_of_stepValue hnext rfl)
  cases fields with
  | nil =>
      have hclose : ∀ u, Leads ['\x7d'] u (.reading (.record [] none false :: frames) .firstKey)
          (deliver (.record []) frames) := fun _ =>
        leads_punctuation rfl rfl
      show Leads (['\x7b'] ++ ['\x7d']) rest _ _
      exact (hopen _).append (hclose _)
  | cons f fs =>
      obtain ⟨k, v⟩ := f
      rw [List.forall_mem_cons] at h
      have hend : ∀ u, Text.EndsAt isWordChar (newLine level ++ u) :=
        fun _ => Text.endsAt_cons (by decide) _
      have hfirst := leads_field (k := k) (level + 1) h.1 [] none frames (Or.inr rfl)
        (endsAt_writeFields (level + 1) fs (hend (['\x7d'] ++ rest)))
      obtain ⟨key, hothers⟩ :=
        leads_writeFields (level + 1) h.2 [(k, v)] (some k) frames (hend (['\x7d'] ++ rest))
      have hreverse : (fs.reverse ++ [(k, v)]).reverse = (k, v) :: fs := by simp
      have hclose : ∀ u, Leads ['\x7d'] u
          (.reading (.record (fs.reverse ++ [(k, v)]) key false :: frames) .separator)
          (deliver (.record (fs.reverse ++ [(k, v)]).reverse) frames) := fun _ =>
        leads_punctuation rfl rfl
      rw [hreverse] at hclose
      have hall := (((((hopen _).append (leads_newLine (level + 1))).append hfirst).append
        hothers).append (leads_newLine level)).append (hclose rest)
      show Leads ('\x7b' :: newLine (level + 1) ++ writeText k ++ ": " ++ writeAt (level + 1) v
        ++ writeFields (level + 1) fs ++ newLine level ++ ['\x7d']) rest _ _
      simpa only [List.append_assoc, List.cons_append, List.nil_append] using hall

theorem isDelivered_of_word {v : Value} {w : Text} (hwrite : ∀ level, writeAt level v = w)
    (hchar : ∀ c ∈ w, isWordChar c = true) (hword : wordValue? w = some v) : IsDelivered v := by
  intro level frames next rest hnext hrest
  rw [hwrite]
  exact leads_word hchar hrest hword (step_of_stepValue hnext rfl)

/-- Every value that can be written is delivered. -/
theorem isDelivered_of_writable {v : Value} (h : Writable v) : IsDelivered v := by
  induction h with
  | list _ ih =>
      exact isDelivered_list ih
  | record _ ih =>
      exact isDelivered_record ih
  | null =>
      exact isDelivered_of_word (fun _ => rfl) (w := "null") (List.all_eq_true.1 (by decide)) rfl
  | bool b =>
      cases b with
      | false =>
          exact isDelivered_of_word (fun _ => rfl) (w := "false")
            (List.all_eq_true.1 (by decide)) rfl
      | true =>
          exact isDelivered_of_word (fun _ => rfl) (w := "true")
            (List.all_eq_true.1 (by decide)) rfl
  | natural n =>
      exact isDelivered_of_word (fun _ => rfl)
        (fun _ hc => isWordChar_of_isDigit (Text.isDigit_of_mem_decimal hc)) (wordValue?_decimal n)
  | numeral hchar hword =>
      exact isDelivered_of_word (fun _ => rfl) hchar hword
  | text t =>
      intro level frames next rest hnext hrest
      exact leads_text (step_of_stepValue hnext rfl)

/-- A document is read as the value that has been written. -/
theorem read?_write {v : Value} (h : Writable v) : read? (write v) = some v := by
  obtain ⟨ts, htokens, hsteps⟩ :=
    isDelivered_of_writable h 0 [] .value [] (Or.inl rfl) (Text.endsAt_nil _)
  have hwritten : tokens? (write v) = some ts := by
    rw [List.append_nil] at htokens
    rw [write, htokens, tokens?, Option.map_some, List.append_nil]
  rw [read?, hwritten]
  simp [hsteps, deliver, State.value?]

end Json
end DspCheck
