/-
Ordered association lists.

A table from strings to values is the list of its entries in ascending key
order, so that two tables with the same entries are the same list and walking a
table is walking a list.  `insert` and `erase` keep the order when the list has
it (`ordered_insert`, `ordered_erase`), and `find?` says what they did to the
contents (`find?_insert`, `find?_erase`).  Strings are compared by code point.
-/
namespace FleetMesh
namespace Keyed

variable {α : Type}

/-- The keys in ascending order, no key twice. -/
def Ordered (table : List (String × α)) : Prop :=
  table.Pairwise (fun a b => a.1 < b.1)

def keys (table : List (String × α)) : List String :=
  table.map Prod.fst

def values (table : List (String × α)) : List α :=
  table.map Prod.snd

/-- The value stored under `key`. -/
def find? (key : String) : List (String × α) → Option α
  | [] => none
  | (k, a) :: rest => if k = key then some a else find? key rest

/-- Stores `value` under `key`, in the place of what was there. -/
def insert (key : String) (value : α) : List (String × α) → List (String × α)
  | [] => [(key, value)]
  | (k, a) :: rest =>
    if key < k then (key, value) :: (k, a) :: rest
    else if k = key then (key, value) :: rest
    else (k, a) :: insert key value rest

/-- Removes `key` and its value. -/
def erase (key : String) : List (String × α) → List (String × α)
  | [] => []
  | (k, a) :: rest => if k = key then rest else (k, a) :: erase key rest

def contains (key : String) (table : List (String × α)) : Bool :=
  (find? key table).isSome

/-- Changes the value under `key`, if there is one. -/
def modify (key : String) (f : α → α) : List (String × α) → List (String × α)
  | [] => []
  | (k, a) :: rest => if k = key then (k, f a) :: rest else (k, a) :: modify key f rest

/-- The table of a list of entries; a later entry replaces an earlier one of the
same key. -/
def ofList (entries : List (String × α)) : List (String × α) :=
  entries.foldl (fun table entry => insert entry.1 entry.2 table) []

/-- The values mapped, the keys as they are. -/
def mapValues {β : Type} (f : α → β) (table : List (String × α)) : List (String × β) :=
  table.map (fun entry => (entry.1, f entry.2))

/-! ## Contents -/

theorem find?_insert (key other : String) (value : α) (table : List (String × α)) :
    find? other (insert key value table) = if key = other then some value else find? other table := by
  induction table with
  | nil => simp [insert, find?]
  | cons entry rest ih =>
    obtain ⟨k, a⟩ := entry
    unfold insert
    by_cases hlt : key < k
    · rw [if_pos hlt]; simp [find?]
    · rw [if_neg hlt]
      by_cases hk : k = key
      · subst hk
        rw [if_pos rfl]
        by_cases ho : k = other <;> simp [find?, ho]
      · rw [if_neg hk]
        by_cases ho : k = other
        · subst ho
          simp [find?, Ne.symm hk]
        · simp [find?, ho, ih]

theorem find?_eq_none_of_lt {key : String} {table : List (String × α)}
    (h : ∀ entry ∈ table, key < entry.1) : find? key table = none := by
  induction table with
  | nil => rfl
  | cons entry rest ih =>
    obtain ⟨k, a⟩ := entry
    have hk : key < k := h (k, a) List.mem_cons_self
    have hne : k ≠ key := fun e => String.lt_irrefl key (e ▸ hk)
    simp [find?, hne, ih (fun e he => h e (List.mem_cons_of_mem _ he))]

theorem find?_erase {table : List (String × α)} (hord : Ordered table) (key other : String) :
    find? other (erase key table) = if key = other then none else find? other table := by
  induction table with
  | nil => simp [erase, find?]
  | cons entry rest ih =>
    obtain ⟨k, a⟩ := entry
    have hrest : Ordered rest := (List.pairwise_cons.mp hord).2
    have hlt : ∀ entry ∈ rest, k < entry.1 := (List.pairwise_cons.mp hord).1
    by_cases hk : k = key
    · subst hk
      by_cases ho : k = other
      · subst ho
        simp [erase, find?_eq_none_of_lt hlt]
      · simp [erase, find?, ho]
    · by_cases ho : k = other
      · subst ho
        simp [erase, find?, hk, Ne.symm hk]
      · simp [erase, find?, hk, ho, ih hrest]

/-! ## Order -/

theorem mem_insert {key : String} {value : α} {table : List (String × α)} {entry : String × α}
    (h : entry ∈ insert key value table) : entry = (key, value) ∨ entry ∈ table := by
  induction table with
  | nil => simpa [insert] using h
  | cons head rest ih =>
    obtain ⟨k, a⟩ := head
    unfold insert at h
    split at h
    · simpa using h
    · split at h
      · rcases List.mem_cons.mp h with h | h
        · exact Or.inl h
        · exact Or.inr (List.mem_cons_of_mem _ h)
      · rcases List.mem_cons.mp h with h | h
        · exact Or.inr (h ▸ List.mem_cons_self)
        · rcases ih h with h | h
          · exact Or.inl h
          · exact Or.inr (List.mem_cons_of_mem _ h)

theorem ordered_insert {table : List (String × α)} (hord : Ordered table) (key : String)
    (value : α) : Ordered (insert key value table) := by
  induction table with
  | nil => simp [insert, Ordered]
  | cons head rest ih =>
    obtain ⟨k, a⟩ := head
    have hrest : Ordered rest := (List.pairwise_cons.mp hord).2
    have hlt : ∀ entry ∈ rest, k < entry.1 := (List.pairwise_cons.mp hord).1
    unfold insert
    split
    · rename_i hkey
      refine List.pairwise_cons.mpr ⟨fun entry he => ?_, hord⟩
      rcases List.mem_cons.mp he with he | he
      · exact he ▸ hkey
      · exact String.lt_trans hkey (hlt entry he)
    · rename_i hkey
      split
      · rename_i hk
        exact List.pairwise_cons.mpr ⟨fun entry he => hk ▸ hlt entry he, hrest⟩
      · rename_i hk
        refine List.pairwise_cons.mpr ⟨fun entry he => ?_, ih hrest⟩
        rcases mem_insert he with he | he
        · have hle : k ≤ key := String.not_lt.mp hkey
          exact he ▸ Std.lt_of_le_of_ne hle hk
        · exact hlt entry he

theorem mem_of_mem_erase {key : String} {table : List (String × α)} {entry : String × α}
    (h : entry ∈ erase key table) : entry ∈ table := by
  induction table with
  | nil => simp [erase] at h
  | cons head rest ih =>
    obtain ⟨k, a⟩ := head
    unfold erase at h
    split at h
    · exact List.mem_cons_of_mem _ h
    · rcases List.mem_cons.mp h with h | h
      · exact h ▸ List.mem_cons_self
      · exact List.mem_cons_of_mem _ (ih h)

theorem ordered_erase {table : List (String × α)} (hord : Ordered table) (key : String) :
    Ordered (erase key table) := by
  induction table with
  | nil => exact hord
  | cons head rest ih =>
    obtain ⟨k, a⟩ := head
    have hrest : Ordered rest := (List.pairwise_cons.mp hord).2
    have hlt : ∀ entry ∈ rest, k < entry.1 := (List.pairwise_cons.mp hord).1
    unfold erase
    split
    · exact hrest
    · exact List.pairwise_cons.mpr ⟨fun entry he => hlt entry (mem_of_mem_erase he), ih hrest⟩

end Keyed
end FleetMesh
