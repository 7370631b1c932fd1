import ProtoCatalog.Naming

/-!
# Tables

A table gives values to names, each name once, and keeps the order in which the names came.
-/

namespace ProtoCatalog

/-- Values by name, in the order in which the names first came. -/
structure Table (α : Type) where
  entries : List (String × α)
  distinct : (entries.map (·.1)).Nodup
deriving DecidableEq, Repr

namespace Table

variable {α β : Type}

def empty : Table α := ⟨[], by simp⟩

instance : Inhabited (Table α) := ⟨empty⟩

def keys (t : Table α) : List String := t.entries.map (·.1)

def find? (t : Table α) (key : String) : Option α :=
  (t.entries.find? (·.1 == key)).map (·.2)

def contains (t : Table α) (key : String) : Bool := t.keys.contains key

def isEmpty (t : Table α) : Bool := t.entries.isEmpty

@[ext]
theorem ext {s t : Table α} (h : s.entries = t.entries) : s = t := by
  cases s; cases t; cases h; rfl

/-- The entries with a name's value replaced. -/
def replace (key : String) (value : α) : List (String × α) → List (String × α)
  | [] => []
  | (k, v) :: rest => if k = key then (k, value) :: rest else (k, v) :: replace key value rest

theorem keys_replace (key : String) (value : α) (entries : List (String × α)) :
    (replace key value entries).map (·.1) = entries.map (·.1) := by
  induction entries with
  | nil => rfl
  | cons e rest ih => unfold replace; split <;> simp [ih]

/-- A table with a value for a name: at the place of the name's old value, or at the end. -/
def insert (t : Table α) (key : String) (value : α) : Table α :=
  if h : t.contains key then
    ⟨replace key value t.entries, by rw [keys_replace]; exact t.distinct⟩
  else
    ⟨t.entries ++ [(key, value)], by
      simp only [contains, keys, List.contains_iff_mem] at h
      simp only [List.map_append, List.map_cons, List.map_nil]
      exact List.nodup_append.2 ⟨t.distinct, by simp, by
        intro a ha b hb
        rcases List.mem_singleton.1 hb with rfl
        rintro rfl
        exact h ha⟩⟩

theorem contains_iff {t : Table α} {key : String} : t.contains key = true ↔ key ∈ t.keys := by
  simp [contains]

/-- A new name comes last, and an old one stays where it is. -/
theorem keys_insert (t : Table α) (key : String) (value : α) :
    (t.insert key value).keys = if t.contains key then t.keys else t.keys ++ [key] := by
  unfold insert
  split
  · simp [keys, keys_replace]
  · simp [keys]

theorem find?_replace (key k : String) (value : α) (entries : List (String × α))
    (h : key ∈ entries.map (·.1)) :
    ((replace key value entries).find? (·.1 == k)).map (·.2) =
      if k = key then some value else (entries.find? (·.1 == k)).map (·.2) := by
  induction entries with
  | nil => simp at h
  | cons e rest ih =>
    obtain ⟨l, v⟩ := e
    unfold replace
    by_cases hl : l = key
    · subst hl
      by_cases hk : k = l
      · subst hk; simp
      · have : (l == k) = false := by simpa using fun h => hk h.symm
        simp [this, hk]
    · have hr : key ∈ rest.map (·.1) := by
        rcases List.mem_cons.1 h with h | h
        · exact absurd h.symm hl
        · exact h
      rw [if_neg hl]
      by_cases hk : k = l
      · subst hk; simp [hl]
      · have : (l == k) = false := by simpa using fun h => hk h.symm
        simpa [this] using ih hr

/-- The value just given to a name is found, and all other names keep theirs. -/
theorem find?_insert (t : Table α) (key k : String) (value : α) :
    (t.insert key value).find? k = if k = key then some value else t.find? k := by
  unfold insert
  split
  · rename_i h
    exact find?_replace key k value t.entries (contains_iff.1 h)
  · rename_i h
    have hnone : ∀ e ∈ t.entries, ¬ (e.1 == key) = true := fun e he hk => by
      rw [beq_iff_eq] at hk
      exact h (contains_iff.2 (List.mem_map.2 ⟨e, he, hk⟩))
    by_cases hk : k = key
    · subst hk
      simp [find?, List.find?_append, List.find?_eq_none.2 hnone]
    · have : (key == k) = false := by simpa using fun h => hk h.symm
      simp [find?, List.find?_append, hk, this]

/-- A table with a value for a name that has none yet. -/
def insertNew (t : Table α) (key : String) (value : α) : Table α :=
  if t.contains key then t else t.insert key value

/-- The table of some entries: of two with one name the later value counts, at the earlier
one's place. -/
def ofList (entries : List (String × α)) : Table α :=
  entries.foldl (fun t e => t.insert e.1 e.2) empty

/-- A table with the entries of another whose names it has not. -/
def union (s t : Table α) : Table α :=
  t.entries.foldl (fun s e => s.insertNew e.1 e.2) s

def sortedKeys (t : Table α) : List String := t.keys.mergeSort nameOrder

end Table
end ProtoCatalog
