import Mathlib.Data.List.Nodup
import Workflow.Table

/-! What is found in a table, and what writing changes in it. -/

namespace Workflow.Table

variable {α β : Type}

theorem get?_eq_none_iff {key : Text} {table : Table α} :
    table.get? key = none ↔ key ∉ table.keys := by
  induction table with
  | nil => simp [get?, keys]
  | cons head tail ih =>
      obtain ⟨name, value⟩ := head
      by_cases same : name = key
      · simp [get?, keys, same]
      · have other : key ≠ name := Ne.symm same
        simp only [keys] at ih
        simp [get?, keys, same, other, ih]

theorem mem_of_get? {key : Text} {value : α} {table : Table α}
    (found : table.get? key = some value) : (key, value) ∈ table := by
  induction table with
  | nil => exact absurd found (by simp [get?])
  | cons head tail ih =>
      obtain ⟨name, old⟩ := head
      by_cases same : name = key
      · subst same
        simp only [get?, ↓reduceIte, Option.some.injEq] at found
        exact found ▸ List.mem_cons_self
      · simp only [get?, same, ↓reduceIte] at found
        exact List.mem_cons_of_mem _ (ih found)

theorem get?_of_mem {table : Table α} (distinct : table.keys.Nodup) {key : Text} {value : α}
    (member : (key, value) ∈ table) : table.get? key = some value := by
  induction table with
  | nil => exact absurd member List.not_mem_nil
  | cons entry rest ih =>
      obtain ⟨name, old⟩ := entry
      obtain ⟨unique, others⟩ := List.nodup_cons.mp distinct
      rcases List.mem_cons.mp member with here | further
      · obtain ⟨rfl, rfl⟩ := Prod.mk.inj here
        exact if_pos rfl
      · have different : name ≠ key := fun same =>
          unique (same ▸ List.mem_map.mpr ⟨_, further, rfl⟩)
        rw [get?, if_neg different, ih others further]

theorem get?_map_of_mem {keys : List Text} {key : Text} (member : key ∈ keys) (f : Text → α) :
    Table.get? key (keys.map fun key => (key, f key)) = some (f key) := by
  induction keys with
  | nil => exact absurd member List.not_mem_nil
  | cons name rest ih =>
      rw [List.map_cons, get?]
      by_cases same : name = key
      · rw [if_pos same, same]
      · rw [if_neg same]
        exact ih ((List.mem_cons.mp member).resolve_left (Ne.symm same))

theorem keys_map (keys : List Text) (f : Text → α) :
    Table.keys (keys.map fun key => (key, f key)) = keys := by
  rw [Table.keys, List.map_map]
  exact List.map_id keys

theorem get?_map_snd (f : α → β) (table : Table α) (key : Text) :
    Table.get? key (table.map fun (key, value) => (key, f value)) = (table.get? key).map f := by
  induction table with
  | nil => rfl
  | cons entry rest ih =>
      obtain ⟨name, value⟩ := entry
      by_cases same : name = key
      · simp [get?, same]
      · simp [get?, same, ih]

theorem get?_filter {table : Table α} (distinct : table.keys.Nodup) (p : Text × α → Bool)
    (key : Text) :
    Table.get? key (table.filter p) = (table.get? key).filter fun value => p (key, value) := by
  induction table with
  | nil => rfl
  | cons entry rest ih =>
      obtain ⟨name, value⟩ := entry
      obtain ⟨unique, others⟩ := List.nodup_cons.mp distinct
      rw [List.filter_cons]
      by_cases same : name = key
      · subst same
        have absent : get? name (rest.filter p) = none := by
          rw [ih others, get?_eq_none_iff.mpr unique, Option.filter_none]
        rw [get?, if_pos rfl, Option.filter_some]
        split
        · rw [get?, if_pos rfl]
        · exact absent
      · rw [get?, if_neg same, ← ih others]
        split
        · rw [get?, if_neg same]
        · rfl

theorem mem_keys_put {key name : Text} {value : α} {table : Table α}
    (member : name ∈ (table.put key value).keys) : name = key ∨ name ∈ table.keys := by
  by_cases present : key ∈ table.keys
  · rw [keys_put_of_has present] at member
    exact .inr member
  · rw [keys_put_of_not_has present] at member
    rcases List.mem_append.mp member with old | new
    · exact .inr old
    · exact .inl (List.mem_singleton.mp new)

theorem mem_keys_erase {key name : Text} {table : Table α} :
    name ∈ (table.erase key).keys ↔ name ∈ table.keys ∧ name ≠ key := by
  simp only [erase, keys, List.mem_map, List.mem_filter, bne_iff_ne, ne_eq]
  constructor
  · rintro ⟨entry, ⟨member, different⟩, rfl⟩
    exact ⟨⟨entry, member, rfl⟩, different⟩
  · rintro ⟨⟨entry, member, rfl⟩, different⟩
    exact ⟨entry, ⟨member, different⟩, rfl⟩

theorem nodup_keys_put {key : Text} {table : Table α} (distinct : table.keys.Nodup) (value : α) :
    (table.put key value).keys.Nodup := by
  by_cases present : key ∈ table.keys
  · rw [keys_put_of_has present]
    exact distinct
  · rw [keys_put_of_not_has present, List.nodup_append]
    refine ⟨distinct, List.nodup_singleton _, ?_⟩
    intro name member other new same
    obtain rfl := List.mem_singleton.mp new
    exact present (same ▸ member)

theorem mem_put {key name : Text} {value other : α} {table : Table α}
    (distinct : table.keys.Nodup) (member : (name, other) ∈ table.put key value) :
    (name = key ∧ other = value) ∨ (name ≠ key ∧ (name, other) ∈ table) := by
  induction table with
  | nil =>
      obtain ⟨rfl, rfl⟩ := Prod.mk.inj (List.mem_singleton.mp member)
      exact .inl ⟨rfl, rfl⟩
  | cons head tail ih =>
      obtain ⟨first, old⟩ := head
      obtain ⟨unique, rest⟩ := List.nodup_cons.mp distinct
      by_cases same : first = key
      · subst same
        rw [put, if_pos rfl] at member
        rcases List.mem_cons.mp member with here | deeper
        · obtain ⟨rfl, rfl⟩ := Prod.mk.inj here
          exact .inl ⟨rfl, rfl⟩
        · refine .inr ⟨?_, List.mem_cons_of_mem _ deeper⟩
          intro equal
          subst equal
          exact unique (List.mem_map.mpr ⟨_, deeper, rfl⟩)
      · rw [put, if_neg same] at member
        rcases List.mem_cons.mp member with here | deeper
        · obtain ⟨rfl, rfl⟩ := Prod.mk.inj here
          exact .inr ⟨same, List.mem_cons_self⟩
        · rcases ih rest deeper with new | ⟨different, kept⟩
          · exact .inl new
          · exact .inr ⟨different, List.mem_cons_of_mem _ kept⟩

theorem eq_or_mem_of_mem_put {key : Text} {value : α} {table : Table α}
    {entry : Text × α} (member : entry ∈ table.put key value) :
    entry = (key, value) ∨ entry ∈ table := by
  induction table with
  | nil => exact .inl (List.mem_singleton.mp member)
  | cons head rest ih =>
      obtain ⟨name, old⟩ := head
      rw [put] at member
      split at member
      · rename_i same
        rcases List.mem_cons.mp member with new | deeper
        · exact .inl (new.trans (by rw [same]))
        · exact .inr (List.mem_cons_of_mem _ deeper)
      · rcases List.mem_cons.mp member with rfl | deeper
        · exact .inr List.mem_cons_self
        · exact (ih deeper).imp_right (List.mem_cons_of_mem _)

theorem put_of_get? {key : Text} {value : α} {table : Table α}
    (known : table.get? key = some value) : table.put key value = table := by
  induction table with
  | nil => cases known
  | cons entry rest ih =>
      obtain ⟨name, old⟩ := entry
      by_cases same : name = key
      · rw [get?, if_pos same] at known
        rw [put, if_pos same, Option.some.inj known]
      · rw [get?, if_neg same] at known
        rw [put, if_neg same, ih known]

theorem put_of_not_mem {key : Text} {table : Table α} (absent : key ∉ table.keys) (value : α) :
    table.put key value = table ++ [(key, value)] := by
  induction table with
  | nil => rfl
  | cons head tail ih =>
      obtain ⟨name, old⟩ := head
      have different : name ≠ key := fun same => absent (same ▸ List.mem_cons_self)
      have deeper : key ∉ keys tail := fun member => absent (List.mem_cons_of_mem _ member)
      rw [put, if_neg different, ih deeper, List.cons_append]

theorem put_append_self {key : Text} {table : Table α} (absent : key ∉ table.keys)
    (old value : α) : (table ++ [(key, old)]).put key value = table ++ [(key, value)] := by
  induction table with
  | nil => simp [put]
  | cons head tail ih =>
      obtain ⟨name, first⟩ := head
      have different : name ≠ key := fun same => absent (same ▸ List.mem_cons_self)
      have deeper : key ∉ keys tail := fun member => absent (List.mem_cons_of_mem _ member)
      rw [List.cons_append, put, if_neg different, ih deeper, List.cons_append]

theorem get?_append_self {key : Text} {table : Table α} (absent : key ∉ table.keys) (value : α) :
    get? key (table ++ [(key, value)]) = some value := by
  rw [← put_of_not_mem absent, get?_put_self]

theorem flatMap_put_append (key : Text) (value : α) (table : Table (List α)) :
    ((table.put key ((table.get? key).getD [] ++ [value])).flatMap Prod.snd).Perm
      (table.flatMap Prod.snd ++ [value]) := by
  induction table with
  | nil => exact List.Perm.refl _
  | cons head tail ih =>
      obtain ⟨name, old⟩ := head
      by_cases same : name = key
      · subst same
        simp only [put, get?, ↓reduceIte, Option.getD_some, List.flatMap_cons, List.append_assoc]
        exact List.Perm.append_left _ List.perm_append_comm
      · simp only [put, get?, same, ↓reduceIte, List.flatMap_cons, List.append_assoc]
        exact List.Perm.append_left _ ih

theorem foldl_put_same {fields table : Table α}
    (known : ∀ key value, (key, value) ∈ fields → table.get? key = some value) :
    fields.foldl (fun merged (key, value) => merged.put key value) table = table := by
  induction fields with
  | nil => rfl
  | cons field rest ih =>
      obtain ⟨key, value⟩ := field
      have here : table.put key value = table := put_of_get? (known key value List.mem_cons_self)
      rw [List.foldl_cons]
      dsimp only
      rw [here]
      exact ih fun name other member => known name other (List.mem_cons_of_mem _ member)

theorem foldl_put_of_new {entries table : Table α} (distinct : (table ++ entries : Table α).keys.Nodup) :
    entries.foldl (fun table entry => table.put entry.1 entry.2) table = table ++ entries := by
  induction entries generalizing table with
  | nil => exact (List.append_nil table).symm
  | cons entry rest ih =>
      have absent : entry.1 ∉ table.keys := by
        intro member
        rw [keys, List.map_append, List.nodup_append] at distinct
        exact distinct.2.2 entry.1 member entry.1 List.mem_cons_self rfl
      rw [List.foldl_cons, put_of_not_mem absent, ih, List.append_assoc]
      · rfl
      · rw [List.append_assoc]
        exact distinct

theorem ofEntries_of_nodup {entries : Table α} (distinct : entries.keys.Nodup) :
    ofEntries entries = entries := foldl_put_of_new distinct

theorem nodup_ofEntries (entries : List (Text × α)) : (ofEntries entries).keys.Nodup :=
  @List.foldlRecOn _ _ (fun table : Table α => table.keys.Nodup) entries _ [] List.nodup_nil
    fun _ distinct entry _ => nodup_keys_put distinct entry.2

theorem get?_foldl_put {fields table : Table α} (distinct : fields.keys.Nodup) (key : Text) :
    (fields.foldl (fun merged (key, value) => merged.put key value) table).get? key =
      (fields.get? key).or (table.get? key) := by
  induction fields generalizing table with
  | nil => rfl
  | cons field rest ih =>
      obtain ⟨name, value⟩ := field
      obtain ⟨unique, others⟩ := List.nodup_cons.mp distinct
      rw [List.foldl_cons, ih others]
      by_cases same : name = key
      · subst same
        rw [get?_eq_none_iff.mpr unique, Option.none_or, get?_put_self, get?, if_pos rfl,
          Option.some_or]
      · rw [get?_put_of_ne (Ne.symm same), get?, if_neg same]

theorem mem_keys_foldl_put {fields table : Table α} {key : Text}
    (member : key ∈ (fields.foldl (fun merged (key, value) => merged.put key value) table).keys) :
    key ∈ fields.keys ∨ key ∈ table.keys := by
  induction fields generalizing table with
  | nil => exact .inr member
  | cons field rest ih =>
      obtain ⟨name, value⟩ := field
      rw [List.foldl_cons] at member
      rcases ih member with later | before
      · exact .inl (List.mem_cons_of_mem _ later)
      · rcases mem_keys_put before with rfl | old
        · exact .inl List.mem_cons_self
        · exact .inr old

end Workflow.Table
