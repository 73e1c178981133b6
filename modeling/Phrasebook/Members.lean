/-!
# Named members

Lists of values under names, in an order of their own: the members of objects and of tables.
`Members.insert` adds one, where a new name goes to the end and a known name keeps its place and takes
the new value; `Members.find?` looks one up, and `find?_insert` relates the two. What is found is the first
value under the name (`find?_eq_some_iff`).
-/

namespace Phrasebook

/-- Values under names, in order. -/
abbrev Members (α : Type) := List (String × α)

namespace Members

variable {α : Type}

/-- The value under a name. -/
def find? : Members α → String → Option α
  | [], _ => none
  | (known, value) :: rest, name => if known = name then some value else find? rest name

/-- Puts a value under a name: a new name goes to the end, a known one keeps its place. -/
def insert : Members α → String → α → Members α
  | [], name, value => [(name, value)]
  | (known, old) :: rest, name, value =>
    if known = name then (name, value) :: rest else (known, old) :: insert rest name value

/-- The members that result from putting values under names one after another. -/
def collect (written : List (String × α)) : Members α :=
  written.foldl (fun members (name, value) => members.insert name value) []

/-- What is found is the first member of the name. -/
theorem find?_eq_some_iff {members : Members α} {name : String} {value : α} :
    members.find? name = some value ↔
      ∃ front back, members = front ++ (name, value) :: back ∧ ∀ entry ∈ front, entry.1 ≠ name := by
  induction members with
  | nil => simp [find?]
  | cons first rest ih =>
    obtain ⟨known, old⟩ := first
    rw [find?]
    by_cases same : known = name
    · subst same
      rw [if_pos rfl]
      constructor
      · rintro ⟨rfl⟩
        exact ⟨[], rest, rfl, List.forall_mem_nil _⟩
      · rintro ⟨front, back, equal, different⟩
        cases front with
        | nil =>
          cases equal
          rfl
        | cons other front =>
          obtain ⟨rfl, -⟩ := List.cons.inj equal
          exact absurd rfl (different _ List.mem_cons_self)
    · rw [if_neg same, ih]
      constructor
      · rintro ⟨front, back, rfl, different⟩
        exact ⟨(known, old) :: front, back, rfl, List.forall_mem_cons.2 ⟨same, different⟩⟩
      · rintro ⟨front, back, equal, different⟩
        cases front with
        | nil =>
          cases equal
          exact absurd rfl same
        | cons other front =>
          obtain ⟨rfl, rfl⟩ := List.cons.inj equal
          exact ⟨front, back, rfl, fun entry member =>
            different entry (List.mem_cons_of_mem _ member)⟩

/-- A name that leads nowhere is the name of no member. -/
theorem notMem_of_find?_eq_none {members : Members α} {name : String}
    (h : members.find? name = none) (value : α) : (name, value) ∉ members := by
  induction members with
  | nil => exact List.not_mem_nil
  | cons first rest ih =>
    rw [find?] at h
    split at h
    · cases h
    · next different =>
      intro member
      rcases List.mem_cons.1 member with same | later
      · exact different (by rw [← same])
      · exact ih h later

/-- Inserting makes the name lead to the value and leaves other names alone. -/
theorem find?_insert (members : Members α) (name : String) (value : α) (asked : String) :
    (members.insert name value).find? asked =
      if name = asked then some value else members.find? asked := by
  induction members with
  | nil => simp [insert, find?]
  | cons first rest ih =>
    obtain ⟨known, old⟩ := first
    by_cases hk : known = name
    · subst hk
      by_cases ha : known = asked <;> simp [insert, find?, ha]
    · by_cases ha : known = asked
      · subst ha
        simp [insert, find?, hk, Ne.symm hk]
      · simp [insert, find?, hk, ha, ih]

end Members

end Phrasebook
