import FlowCompiler.Table

namespace FlowCompiler

/-! The entries of tables. A value is stored under a key exactly if the pair is an entry, and
the table of a list with pairwise different keys has the list itself as its entries. -/

namespace Entries

variable {α β : Type}

theorem get?_eq_some_iff {entries : List (String × α)} (distinct : (keys entries).Nodup)
    {key : String} {value : α} : get? key entries = some value ↔ (key, value) ∈ entries := by
  induction entries with
  | nil => simp [get?]
  | cons entry rest induction =>
      rcases entry with ⟨name, current⟩
      rw [keys_cons, List.nodup_cons] at distinct
      rw [get?, List.mem_cons]
      by_cases same : name = key
      · subst same
        rw [if_pos rfl]
        constructor
        · intro found
          exact .inl (by rw [Option.some.inj found])
        · rintro (equal | member)
          · rw [(Prod.mk.inj equal).2]
          · exact absurd (List.mem_map_of_mem (f := Prod.fst) member) distinct.1
      · rw [if_neg same, induction distinct.2]
        constructor
        · exact .inr
        · rintro (equal | member)
          · exact absurd (Prod.mk.inj equal).1.symm same
          · exact member

theorem isSome_get?_iff {entries : List (String × α)} {key : String} :
    (get? key entries).isSome ↔ key ∈ keys entries := by
  induction entries with
  | nil => simp [get?]
  | cons entry rest induction =>
      rw [get?, keys_cons, List.mem_cons]
      by_cases same : entry.1 = key
      · simp [same]
      · have other : key ≠ entry.1 := fun equal => same equal.symm
        simp [same, other, induction]

theorem eq_or_mem_of_mem_insert {entries : List (String × α)} {key : String} {value : α}
    {entry : String × α} (member : entry ∈ insert key value entries) :
    entry = (key, value) ∨ entry ∈ entries := by
  induction entries with
  | nil => exact .inl (List.mem_singleton.mp member)
  | cons first rest induction =>
      rw [insert] at member
      by_cases same : first.1 = key
      · rw [if_pos same] at member
        rcases List.mem_cons.mp member with equal | member
        · exact .inl equal
        · exact .inr (List.mem_cons_of_mem _ member)
      · rw [if_neg same] at member
        rcases List.mem_cons.mp member with equal | member
        · exact .inr (equal ▸ List.mem_cons_self)
        · exact (induction member).imp_right (List.mem_cons_of_mem _)

theorem insert_of_not_mem {entries : List (String × α)} {key : String} {value : α}
    (absent : key ∉ keys entries) : insert key value entries = entries ++ [(key, value)] := by
  induction entries with
  | nil => rfl
  | cons first rest induction =>
      rw [keys_cons, List.mem_cons, not_or] at absent
      have other : first.1 ≠ key := fun equal => absent.1 equal.symm
      rw [insert, if_neg other, induction absent.2, List.cons_append]

theorem get?_map (change : String → α → β) (query : String) (entries : List (String × α)) :
    get? query (entries.map fun entry => (entry.1, change entry.1 entry.2)) =
      (get? query entries).map (change query) := by
  induction entries with
  | nil => rfl
  | cons entry rest induction =>
      rw [List.map_cons, get?, get?]
      by_cases same : entry.1 = query
      · rw [if_pos same, if_pos same, same, Option.map_some]
      · rw [if_neg same, if_neg same, induction]

end Entries

namespace Table

variable {α β : Type}

@[simp] theorem keys_empty : (empty : Table α).keys = [] := rfl

@[simp] theorem entries_empty : (empty : Table α).entries = [] := rfl

theorem get?_eq_some_iff {table : Table α} {key : String} {value : α} :
    table.get? key = some value ↔ (key, value) ∈ table.entries :=
  Entries.get?_eq_some_iff table.distinct

theorem eq_of_entries_eq {left right : Table α} (equal : left.entries = right.entries) :
    left = right := by
  cases left
  cases right
  cases equal
  rfl

theorem contains_iff {table : Table α} {key : String} : table.contains key ↔ key ∈ table.keys :=
  Entries.isSome_get?_iff

theorem eq_or_mem_of_mem_insert {table : Table α} {key : String} {value : α}
    {entry : String × α} (member : entry ∈ (table.insert key value).entries) :
    entry = (key, value) ∨ entry ∈ table.entries :=
  Entries.eq_or_mem_of_mem_insert member

theorem mem_keys_insert {table : Table α} {key query : String} {value : α} :
    query ∈ (table.insert key value).keys ↔ query = key ∨ query ∈ table.keys := by
  rw [keys_insert]
  by_cases present : key ∈ table.keys
  · rw [if_pos present]
    constructor
    · exact .inr
    · rintro (equal | member)
      · exact equal ▸ present
      · exact member
  · rw [if_neg present, List.mem_append, List.mem_singleton]
    exact Or.comm

theorem get?_map (change : String → α → β) (table : Table α) (query : String) :
    (table.map change).get? query = (table.get? query).map (change query) :=
  Entries.get?_map change query table.entries

/-! ## Tables of lists -/

theorem mem_or_mem_of_mem_insertAll (entries : List (String × α)) :
    ∀ {table : Table α} {entry : String × α},
      entry ∈ (table.insertAll entries).entries → entry ∈ table.entries ∨ entry ∈ entries := by
  induction entries with
  | nil => exact .inl
  | cons first rest induction =>
      intro table entry member
      rcases induction member with member | member
      · rcases eq_or_mem_of_mem_insert member with equal | member
        · exact .inr (equal ▸ List.mem_cons_self)
        · exact .inl member
      · exact .inr (List.mem_cons_of_mem _ member)

theorem mem_of_mem_ofList {entries : List (String × α)} {entry : String × α}
    (member : entry ∈ (ofList entries).entries) : entry ∈ entries := by
  rcases mem_or_mem_of_mem_insertAll entries member with none | member
  · cases none
  · exact member

theorem entries_insertAll (entries : List (String × α)) :
    ∀ {table : Table α}, (table.keys ++ Entries.keys entries).Nodup →
      (table.insertAll entries).entries = table.entries ++ entries := by
  induction entries with
  | nil => simp [insertAll]
  | cons first rest induction =>
      intro table distinct
      have parts := List.nodup_append.mp distinct
      have absent : first.1 ∉ table.keys := by
        intro present
        exact parts.2.2 first.1 present first.1 List.mem_cons_self rfl
      have inserted : (table.insert first.1 first.2).entries = table.entries ++ [first] :=
        Entries.insert_of_not_mem absent
      have keys : (table.insert first.1 first.2).keys = table.keys ++ [first.1] := by
        rw [keys_insert, if_neg absent]
      have step : table.insertAll (first :: rest) =
          (table.insert first.1 first.2).insertAll rest := rfl
      rw [step, induction, inserted, List.append_assoc, List.singleton_append]
      rw [keys, List.append_assoc]
      exact distinct

/-- A list with pairwise different keys is the list of the entries of its table. -/
theorem entries_ofList {entries : List (String × α)} (distinct : (Entries.keys entries).Nodup) :
    (ofList entries).entries = entries :=
  entries_insertAll entries (by simpa using distinct)

end Table

end FlowCompiler
