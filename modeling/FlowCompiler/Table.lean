namespace FlowCompiler

/-! Insertion-ordered tables: finite maps from names to values that remember
the order in which their names first appeared. Writing to a name that is
already present replaces its value in place. -/

/-! ## Entry lists -/

namespace Entries

variable {α β : Type}

def insert (key : String) (value : α) : List (String × α) → List (String × α)
  | [] => [(key, value)]
  | (name, current) :: rest =>
      if name = key then (key, value) :: rest
      else (name, current) :: insert key value rest

def get? (key : String) : List (String × α) → Option α
  | [] => none
  | (name, value) :: rest => if name = key then some value else get? key rest

def keys (entries : List (String × α)) : List String :=
  entries.map Prod.fst

@[simp] theorem keys_nil : keys ([] : List (String × α)) = [] := rfl

@[simp] theorem keys_cons (entry : String × α) (rest : List (String × α)) :
    keys (entry :: rest) = entry.1 :: keys rest := rfl

/-- Writing keeps the order of the names and adds an absent name at the end. -/
theorem keys_insert (key : String) (value : α) (entries : List (String × α)) :
    keys (insert key value entries) =
      if key ∈ keys entries then keys entries else keys entries ++ [key] := by
  induction entries with
  | nil => rfl
  | cons entry rest induction =>
      obtain ⟨name, current⟩ := entry
      by_cases same : name = key
      · subst same
        simp [insert]
      · have other : ¬ key = name := fun equal => same equal.symm
        by_cases member : key ∈ keys rest <;>
          simp [insert, same, other, induction, member]

theorem nodup_keys_insert (key : String) (value : α) (entries : List (String × α))
    (distinct : (keys entries).Nodup) : (keys (insert key value entries)).Nodup := by
  rw [keys_insert]
  by_cases member : key ∈ keys entries
  · simpa [member] using distinct
  · simp only [member, if_false]
    refine List.nodup_append.mpr ⟨distinct, by simp, ?_⟩
    intro name present other single equal
    rw [List.mem_singleton] at single
    exact member (single ▸ equal ▸ present)

theorem get?_insert (key query : String) (value : α) (entries : List (String × α)) :
    get? query (insert key value entries) =
      if key = query then some value else get? query entries := by
  induction entries with
  | nil => simp [insert, get?]
  | cons entry rest induction =>
      obtain ⟨name, current⟩ := entry
      by_cases same : name = key
      · subst same
        by_cases asked : name = query <;> simp [insert, get?, asked]
      · by_cases asked : name = query
        · subst asked
          have other : ¬ key = name := fun equal => same equal.symm
          simp [insert, get?, same, other]
        · simp [insert, get?, same, asked, induction]

end Entries

/-! ## Tables -/

/-! A finite map with pairwise different names, in order of first insertion. -/

structure Table (α : Type) where
  entries : List (String × α)
  distinct : (Entries.keys entries).Nodup
deriving DecidableEq

namespace Table

variable {α β : Type}

def empty : Table α := ⟨[], List.nodup_nil⟩

instance : Inhabited (Table α) := ⟨empty⟩

def keys (table : Table α) : List String :=
  Entries.keys table.entries

def values (table : Table α) : List α :=
  table.entries.map Prod.snd

def size (table : Table α) : Nat :=
  table.entries.length

def isEmpty (table : Table α) : Bool :=
  table.entries.isEmpty

def get? (table : Table α) (key : String) : Option α :=
  Entries.get? key table.entries

def contains (table : Table α) (key : String) : Bool :=
  (table.get? key).isSome

/-- Store `value` under `key`: in place if the name is present, else at the end. -/
def insert (table : Table α) (key : String) (value : α) : Table α :=
  ⟨Entries.insert key value table.entries,
    Entries.nodup_keys_insert key value table.entries table.distinct⟩

def insertAll (table : Table α) (entries : List (String × α)) : Table α :=
  entries.foldl (fun current entry => current.insert entry.1 entry.2) table

def ofList (entries : List (String × α)) : Table α :=
  empty.insertAll entries

def erase (table : Table α) (key : String) : Table α :=
  ⟨table.entries.filter fun entry => entry.1 != key, by
    have sublist : (Entries.keys (table.entries.filter fun entry => entry.1 != key)).Sublist
        (Entries.keys table.entries) :=
      List.filter_sublist.map Prod.fst
    exact sublist.nodup table.distinct⟩

def map (change : String → α → β) (table : Table α) : Table β :=
  ⟨table.entries.map fun entry => (entry.1, change entry.1 entry.2), by
    have same : Entries.keys (table.entries.map fun entry => (entry.1, change entry.1 entry.2)) =
        Entries.keys table.entries := by
      simp [Entries.keys]
    rw [same]
    exact table.distinct⟩

theorem nodup_keys (table : Table α) : table.keys.Nodup :=
  table.distinct

theorem keys_insert (table : Table α) (key : String) (value : α) :
    (table.insert key value).keys =
      if key ∈ table.keys then table.keys else table.keys ++ [key] :=
  Entries.keys_insert key value table.entries

theorem get?_insert (table : Table α) (key query : String) (value : α) :
    (table.insert key value).get? query =
      if key = query then some value else table.get? query :=
  Entries.get?_insert key query value table.entries

@[simp] theorem keys_map (change : String → α → β) (table : Table α) :
    (table.map change).keys = table.keys := by
  simp [map, keys, Entries.keys]

end Table

end FlowCompiler
