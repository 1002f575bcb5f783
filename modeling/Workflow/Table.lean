import Workflow.Text.Basic

/-! Tables that keep the order in which their keys were first written. -/

namespace Workflow

abbrev Table (α : Type) := List (Text × α)

namespace Table

variable {α : Type}

def get? (key : Text) : Table α → Option α
  | [] => none
  | (name, value) :: rest => if name = key then some value else get? key rest

/-- A new key goes to the end; a known one keeps its place and gets the new value. -/
def put (key : Text) (value : α) : Table α → Table α
  | [] => [(key, value)]
  | (name, old) :: rest =>
    if name = key then (name, value) :: rest else (name, old) :: put key value rest

def erase (key : Text) (table : Table α) : Table α :=
  table.filter fun entry => entry.1 != key

def keys (table : Table α) : List Text := table.map Prod.fst

def has (key : Text) (table : Table α) : Bool := (table.get? key).isSome

def ofEntries (entries : List (Text × α)) : Table α :=
  entries.foldl (fun table entry => table.put entry.1 entry.2) []

theorem get?_put_self (key : Text) (value : α) (table : Table α) :
    (table.put key value).get? key = some value := by
  induction table with
  | nil => simp [put, get?]
  | cons head tail ih =>
      obtain ⟨name, old⟩ := head
      by_cases same : name = key <;> simp [put, get?, same, ih]

theorem get?_put_of_ne {key other : Text} (different : other ≠ key) (value : α)
    (table : Table α) : (table.put key value).get? other = table.get? other := by
  induction table with
  | nil => simp [put, get?, Ne.symm different]
  | cons head tail ih =>
      obtain ⟨name, old⟩ := head
      by_cases same : name = key
      · simp [put, get?, same, Ne.symm different]
      · simp [put, get?, same, ih]

theorem get?_erase_self (key : Text) (table : Table α) : (table.erase key).get? key = none := by
  induction table with
  | nil => rfl
  | cons head tail ih =>
      obtain ⟨name, old⟩ := head
      by_cases same : name = key
      · subst same
        simpa [erase] using ih
      · simp only [erase] at ih
        simp [erase, get?, same, ih]

theorem get?_erase_of_ne {key other : Text} (different : other ≠ key) (table : Table α) :
    (table.erase key).get? other = table.get? other := by
  induction table with
  | nil => rfl
  | cons head tail ih =>
      obtain ⟨name, old⟩ := head
      simp only [erase] at ih
      by_cases same : name = key
      · subst same
        simp [erase, get?, Ne.symm different, ih]
      · by_cases hit : name = other
        · subst hit
          simp [erase, get?, same]
        · simp [erase, get?, same, hit, ih]

theorem keys_put_of_has {key : Text} {table : Table α} (present : key ∈ table.keys) (value : α) :
    (table.put key value).keys = table.keys := by
  induction table with
  | nil => simp [keys] at present
  | cons head tail ih =>
      obtain ⟨name, old⟩ := head
      by_cases same : name = key
      · simp [put, keys, same]
      · have deeper : key ∈ keys tail := by
          simpa [keys, Ne.symm same] using present
        simp only [keys] at ih
        simp [put, keys, same, ih deeper]

theorem keys_put_of_not_has {key : Text} {table : Table α} (absent : key ∉ table.keys)
    (value : α) : (table.put key value).keys = table.keys ++ [key] := by
  induction table with
  | nil => rfl
  | cons head tail ih =>
      obtain ⟨name, old⟩ := head
      have differs : name ≠ key := by
        intro same
        exact absent (by simp [keys, same])
      have deeper : key ∉ keys tail := fun member => absent (List.mem_cons_of_mem _ member)
      simp only [keys] at ih
      simp [put, keys, differs, ih deeper]

end Table

end Workflow
