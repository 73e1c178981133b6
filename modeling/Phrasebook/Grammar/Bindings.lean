import Phrasebook.Members

/-!
# Bindings

The tokens that a match has bound to argument names (`Bindings`), in the order of the names, each of
which occurs once. `Bindings.insert` binds a name anew and `Bindings.append` takes over the bindings
of a later match, which win over earlier ones. `get?_insert` and `get?_append` say what a name is bound
to afterwards.
-/

namespace Phrasebook

/-- Tokens bound to names, in the order of the names. -/
structure Bindings where
  entries : List (String × String)
  sorted : entries.Pairwise fun a b => a.1 < b.1
  deriving DecidableEq

namespace Bindings

/-- Puts an entry in its place among sorted ones; an entry of the same name gives way. -/
def insertEntry (name token : String) : List (String × String) → List (String × String)
  | [] => [(name, token)]
  | (known, old) :: rest =>
    if name < known then (name, token) :: (known, old) :: rest
    else if name = known then (name, token) :: rest
    else (known, old) :: insertEntry name token rest

theorem mem_insertEntry {name token : String} {entries : List (String × String)}
    {entry : String × String} (h : entry ∈ insertEntry name token entries) :
    entry = (name, token) ∨ entry ∈ entries := by
  induction entries with
  | nil => simpa [insertEntry] using h
  | cons first rest ih =>
    obtain ⟨known, old⟩ := first
    rw [insertEntry] at h
    split at h
    · exact List.mem_cons.1 h
    · split at h
      · rcases List.mem_cons.1 h with same | later
        · exact .inl same
        · exact .inr (List.mem_cons_of_mem _ later)
      · rcases List.mem_cons.1 h with same | inserted
        · exact .inr (List.mem_cons.2 (.inl same))
        · rcases ih inserted with same | later
          · exact .inl same
          · exact .inr (List.mem_cons_of_mem _ later)

theorem sorted_insertEntry (name token : String) {entries : List (String × String)}
    (h : entries.Pairwise fun a b => a.1 < b.1) :
    (insertEntry name token entries).Pairwise fun a b => a.1 < b.1 := by
  induction entries with
  | nil => simp [insertEntry]
  | cons first rest ih =>
    obtain ⟨known, old⟩ := first
    rw [List.pairwise_cons] at h
    obtain ⟨least, rest_sorted⟩ := h
    unfold insertEntry
    split
    · next before =>
      refine List.pairwise_cons.2 ⟨fun entry member => ?_, List.pairwise_cons.2 ⟨least, rest_sorted⟩⟩
      rcases List.mem_cons.1 member with rfl | later
      · exact before
      · exact String.lt_trans before (least entry later)
    · split
      · next same =>
        subst same
        exact List.pairwise_cons.2 ⟨least, rest_sorted⟩
      · next after different =>
        refine List.pairwise_cons.2 ⟨fun entry member => ?_, ih rest_sorted⟩
        rcases mem_insertEntry member with rfl | later
        · have le : known ≤ name := String.not_lt.1 after
          refine Decidable.byContradiction fun notBefore => different ?_
          exact String.le_antisymm (String.not_lt.1 notBefore) le
        · exact least entry later

/-- No bindings. -/
def empty : Bindings := ⟨[], .nil⟩

instance : Inhabited Bindings := ⟨empty⟩

/-- Binds a name, which loses what it was bound to. -/
def insert (bindings : Bindings) (name token : String) : Bindings :=
  ⟨insertEntry name token bindings.entries, sorted_insertEntry name token bindings.sorted⟩

/-- Takes over bindings; they win over those that are there. -/
def append (bindings later : Bindings) : Bindings :=
  later.entries.foldl (fun bindings (name, token) => bindings.insert name token) bindings

/-- The token that is bound to a name. -/
def get? (bindings : Bindings) (name : String) : Option String :=
  Members.find? bindings.entries name

/-- Whether a name is bound. -/
def contains (bindings : Bindings) (name : String) : Bool :=
  (bindings.get? name).isSome

/-- The bound names, in order. -/
def names (bindings : Bindings) : List String :=
  bindings.entries.map (·.1)

@[simp] theorem get?_empty (name : String) : empty.get? name = none := rfl

/-- Every entry is the one that its name leads to. -/
theorem get?_of_mem {bindings : Bindings} {name token : String}
    (h : (name, token) ∈ bindings.entries) : bindings.get? name = some token := by
  obtain ⟨front, back, equal⟩ := List.append_of_mem h
  refine Members.find?_eq_some_iff.2 ⟨front, back, equal, fun entry member => ?_⟩
  have sorted := bindings.sorted
  rw [equal] at sorted
  have before := (List.pairwise_append.1 sorted).2.2 entry member _ List.mem_cons_self
  rintro rfl
  exact String.lt_irrefl _ before

/-- The bound names are those that are bound to a token. -/
theorem mem_names_iff {bindings : Bindings} {name : String} :
    name ∈ bindings.names ↔ ∃ token, bindings.get? name = some token := by
  rw [names, get?]
  constructor
  · intro member
    obtain ⟨⟨known, token⟩, isEntry, rfl⟩ := List.mem_map.1 member
    cases found : Members.find? bindings.entries known with
    | some first => exact ⟨first, rfl⟩
    | none => exact absurd isEntry (Members.notMem_of_find?_eq_none found token)
  · rintro ⟨token, found⟩
    obtain ⟨front, back, equal, -⟩ := Members.find?_eq_some_iff.1 found
    exact List.mem_map.2 ⟨(name, token), by rw [equal]; simp, rfl⟩

/-- Binding a name leads it to the token and leaves other names alone. -/
theorem get?_insert (bindings : Bindings) (name token asked : String) :
    (bindings.insert name token).get? asked =
      if name = asked then some token else bindings.get? asked := by
  obtain ⟨entries, sorted⟩ := bindings
  simp only [get?, insert]
  clear sorted
  induction entries with
  | nil => simp [insertEntry, Members.find?]
  | cons first rest ih =>
    obtain ⟨known, old⟩ := first
    rw [insertEntry]
    split
    · rw [Members.find?]
    · split
      · next same =>
        subst same
        rw [Members.find?, Members.find?]
        by_cases bound : name = asked
        · rw [if_pos bound, if_pos bound]
        · rw [if_neg bound, if_neg bound, if_neg bound]
      · next different =>
        rw [Members.find?, Members.find?, ih]
        by_cases bound : known = asked
        · have other : name ≠ asked := fun same => different (same.trans bound.symm)
          rw [if_pos bound, if_neg other, if_pos bound]
        · rw [if_neg bound, if_neg bound]

theorem find?_eq_none_of_lt {entries : List (String × String)} {name : String}
    (h : ∀ entry ∈ entries, name < entry.1) : Members.find? entries name = none := by
  induction entries with
  | nil => rfl
  | cons first rest ih =>
    have later : name < first.1 := h first (by simp)
    have : first.1 ≠ name := fun same => String.lt_irrefl name (same ▸ later)
    rw [Members.find?, if_neg this]
    exact ih fun entry member => h entry (by simp [member])

/-- A name in front of the first one is not bound. -/
theorem find?_cons_eq_none_of_lt {first : String × String} {rest : List (String × String)}
    (sorted : (first :: rest).Pairwise fun a b => a.1 < b.1) {name : String} (h : name < first.1) :
    Members.find? (first :: rest) name = none := by
  refine find?_eq_none_of_lt fun entry member => ?_
  rcases List.mem_cons.1 member with rfl | later
  · exact h
  · exact String.lt_trans h ((List.pairwise_cons.1 sorted).1 entry later)

theorem eq_of_find?_eq {entries entries' : List (String × String)}
    (sorted : entries.Pairwise fun a b => a.1 < b.1)
    (sorted' : entries'.Pairwise fun a b => a.1 < b.1)
    (h : ∀ name, Members.find? entries name = Members.find? entries' name) : entries = entries' := by
  induction entries generalizing entries' with
  | nil =>
    cases entries' with
    | nil => rfl
    | cons first' rest' => simpa [Members.find?] using h first'.1
  | cons first rest ih =>
    cases entries' with
    | nil => simpa [Members.find?] using h first.1
    | cons first' rest' =>
      obtain ⟨name, token⟩ := first
      obtain ⟨name', token'⟩ := first'
      -- the least name is bound by both lists
      have behind : ¬ name < name' := fun before => by
        have bound := h name
        rw [find?_cons_eq_none_of_lt sorted' before, Members.find?, if_pos rfl] at bound
        cases bound
      have behind' : ¬ name' < name := fun before => by
        have bound := h name'
        rw [find?_cons_eq_none_of_lt sorted before, Members.find?, if_pos rfl] at bound
        cases bound
      obtain rfl : name = name' :=
        String.le_antisymm (String.not_lt.1 behind') (String.not_lt.1 behind)
      obtain rfl : token = token' := by simpa [Members.find?] using h name
      obtain ⟨least, sortedRest⟩ := List.pairwise_cons.1 sorted
      obtain ⟨least', sortedRest'⟩ := List.pairwise_cons.1 sorted'
      rw [ih sortedRest sortedRest']
      intro asked
      by_cases same : name = asked
      · subst same
        rw [find?_eq_none_of_lt least, find?_eq_none_of_lt least']
      · simpa [Members.find?, same] using h asked

/-- Bindings in which every name is bound to the same token are the same. -/
theorem ext_get? {bindings bindings' : Bindings}
    (h : ∀ name, bindings.get? name = bindings'.get? name) : bindings = bindings' := by
  obtain ⟨entries, sorted⟩ := bindings
  obtain ⟨entries', sorted'⟩ := bindings'
  obtain rfl : entries = entries' := eq_of_find?_eq sorted sorted' h
  rfl

/-- A name is bound as the later bindings say, and else as before. -/
theorem get?_append (bindings later : Bindings) (asked : String) :
    (bindings.append later).get? asked = (later.get? asked).or (bindings.get? asked) := by
  obtain ⟨entries, sorted⟩ := later
  simp only [append, get?]
  induction entries generalizing bindings with
  | nil => simp [Members.find?]
  | cons first rest ih =>
    obtain ⟨name, token⟩ := first
    rw [List.pairwise_cons] at sorted
    have bound := get?_insert bindings name token asked
    simp only [get?] at bound
    rw [List.foldl_cons, ih (bindings.insert name token) sorted.2, bound, Members.find?]
    by_cases same : name = asked
    · subst same
      simp [find?_eq_none_of_lt sorted.1]
    · simp [same]

theorem insertEntry_of_lt {entries : List (String × String)} {name : String}
    (h : ∀ entry ∈ entries, entry.1 < name) (token : String) :
    insertEntry name token entries = entries ++ [(name, token)] := by
  induction entries with
  | nil => rfl
  | cons first rest ih =>
    have before : first.1 < name := h first (by simp)
    have behind : ¬ name < first.1 := fun after => String.lt_irrefl name (String.lt_trans after before)
    have other : name ≠ first.1 := fun same => String.lt_irrefl name (same ▸ before)
    rw [insertEntry, if_neg behind, if_neg other, ih fun entry member => h entry (by simp [member])]
    rfl

/-- Names behind all known ones are bound at the end. -/
theorem entries_foldl_insert (later : List (String × String)) (known : Bindings)
    (sorted : (known.entries ++ later).Pairwise fun a b => a.1 < b.1) :
    (later.foldl (fun bindings (name, token) => bindings.insert name token) known).entries =
      known.entries ++ later := by
  induction later generalizing known with
  | nil => exact (List.append_nil known.entries).symm
  | cons entry later ih =>
    have before : ∀ old ∈ known.entries, old.1 < entry.1 := fun old member =>
      (List.pairwise_append.1 sorted).2.2 old member entry (by simp)
    have put : (known.insert entry.1 entry.2).entries = known.entries ++ [entry] :=
      insertEntry_of_lt before entry.2
    have more := ih (known.insert entry.1 entry.2) (by rw [put]; simpa using sorted)
    rw [put, List.append_assoc, List.singleton_append] at more
    exact more

/-- Bindings that are taken over into none are the same bindings. -/
theorem empty_append (bindings : Bindings) : empty.append bindings = bindings := by
  have same : (empty.append bindings).entries = bindings.entries :=
    entries_foldl_insert bindings.entries empty (by simpa [empty] using bindings.sorted)
  cases bindings
  cases appended : empty.append _
  rw [appended] at same
  cases same
  rfl

end Bindings

end Phrasebook
