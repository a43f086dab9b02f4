import FlowCompiler.Flow.Loader
import FlowCompiler.Proofs.DocumentReading

namespace FlowCompiler

/-! Values that are taken over from documents. No object in a value that was read from a text
repeats a name, and decoders take no other values over than the parts of what they decode. So no
object in the settings of a loaded node repeats a name either. -/

namespace Json

/-! ## Values without repeated names -/

theorem distinctItems_iff {items : List Json} :
    DistinctItems items ↔ ∀ item ∈ items, item.Distinct := by
  induction items with
  | nil => simp [DistinctItems]
  | cons item rest induction => simp [DistinctItems, induction]

theorem distinctMembers_iff {members : List (String × Json)} :
    DistinctMembers members ↔ ∀ member ∈ members, member.2.Distinct := by
  induction members with
  | nil => simp [DistinctMembers]
  | cons member rest induction =>
      obtain ⟨name, value⟩ := member
      simp [DistinctMembers, induction]

@[simp] theorem distinct_array {items : List Json} :
    (Json.array items).Distinct ↔ ∀ item ∈ items, item.Distinct := by
  rw [Distinct, distinctItems_iff]

@[simp] theorem distinct_object {members : List (String × Json)} :
    (Json.object members).Distinct ↔ (Entries.keys members).Nodup ∧ DistinctMembers members := by
  rw [Distinct]

@[simp] theorem distinctMembers_nil : DistinctMembers [] := trivial

@[simp] theorem distinctMembers_cons {name : String} {value : Json}
    {rest : List (String × Json)} :
    DistinctMembers ((name, value) :: rest) ↔ value.Distinct ∧ DistinctMembers rest := by
  rw [DistinctMembers]

@[simp] theorem distinct_null : Json.null.Distinct := trivial

@[simp] theorem distinct_bool (value : Bool) : (Json.bool value).Distinct := trivial

@[simp] theorem distinct_number (value : Number) : (Json.number value).Distinct := trivial

@[simp] theorem distinct_string (text : String) : (Json.string text).Distinct := trivial

theorem distinctMembers_insert {members : List (String × Json)} {name : String} {value : Json}
    (distinct : DistinctMembers members) (sound : value.Distinct) :
    DistinctMembers (Entries.insert name value members) := by
  rw [distinctMembers_iff] at distinct ⊢
  intro member inserted
  cases Entries.eq_or_mem_of_mem_insert inserted with
  | inl equal => exact equal ▸ sound
  | inr stored => exact distinct member stored

/-! ## Drafts -/

namespace Draft

mutual
/-- Where a text repeats a name, the value has it once. -/
theorem distinct_of_complete : ∀ (draft : Draft) {value : Json}, draft.complete = .ok value →
    value.Distinct
  | .null, _, completed => by
      cases completed
      trivial
  | .bool _, _, completed => by
      cases completed
      trivial
  | .number _, _, completed => by
      cases completed
      trivial
  | .string _, _, completed => by
      cases completed
      trivial
  | .array items fault, _, completed => by
      rw [complete] at completed
      obtain ⟨values, inside, completed⟩ := bind_eq_ok completed
      obtain ⟨_, _, equal⟩ := bind_eq_ok completed
      cases equal
      exact distinct_array.mpr (distinct_of_completeItems items inside)
  | .object members fault, _, completed => by
      rw [complete] at completed
      obtain ⟨values, inside, completed⟩ := bind_eq_ok completed
      obtain ⟨_, _, equal⟩ := bind_eq_ok completed
      cases equal
      exact distinct_object.mpr
        (distinct_of_completeMembers members (by simp) distinctMembers_nil inside)
  | .broken _, _, completed => by cases completed

theorem distinct_of_completeItems : ∀ (items : List Draft) {values : List Json},
    completeItems items = .ok values → ∀ value ∈ values, value.Distinct
  | [], _, completed => by
      cases completed
      simp
  | item :: rest, _, completed => by
      rw [completeItems] at completed
      obtain ⟨value, first, completed⟩ := bind_eq_ok completed
      obtain ⟨values, others, equal⟩ := bind_eq_ok completed
      cases equal
      have behind := distinct_of_completeItems rest others
      simpa using ⟨distinct_of_complete item first, behind⟩

theorem distinct_of_completeMembers : ∀ (members : List (String × Draft))
    {before values : List (String × Json)}, (Entries.keys before).Nodup →
      DistinctMembers before → completeMembers before members = .ok values →
      (Entries.keys values).Nodup ∧ DistinctMembers values
  | [], _, _, names, distinct, completed => by
      cases completed
      exact ⟨names, distinct⟩
  | (name, draft) :: rest, _, _, names, distinct, completed => by
      rw [completeMembers] at completed
      obtain ⟨value, first, completed⟩ := bind_eq_ok completed
      have sound := distinct_of_complete draft first
      exact distinct_of_completeMembers rest (Entries.nodup_keys_insert _ _ _ names)
        (distinctMembers_insert distinct sound) completed
end

end Draft

end Json

theorem Entries.mem_of_get? {α : Type} {entries : List (String × α)} {key : String} {value : α}
    (found : get? key entries = some value) : (key, value) ∈ entries := by
  induction entries with
  | nil => cases found
  | cons entry rest induction =>
      rw [get?] at found
      split at found
      · next same =>
          cases found
          cases same
          exact List.mem_cons_self
      · exact List.mem_cons_of_mem _ (induction found)

namespace Decode

variable {σ α β : Type}

/-! ## Records -/

/-! From good documents, decoders and records make values with a property. -/

def Yields (good : σ → Prop) (decoder : Decoder σ α) (holds : α → Prop) : Prop :=
  ∀ document value, good document → decoder document = .ok value → holds value

def Record.Yields (good : σ → Prop) (record : Record σ α) (holds : α → Prop) : Prop :=
  ∀ find value, (∀ name part, find name = some part → good part) →
    record.build find = .ok value → holds value

variable {good : σ → Prop} {holds : α → Prop}

namespace Record

theorem yields_any (record : Record σ α) : Yields good record fun _ => True :=
  fun _ _ _ _ => trivial

theorem yields_required {decoder : Decoder σ α} (yields : Decode.Yields good decoder holds)
    (name : String) : Yields good (required name decoder) holds := by
  intro find value goodParts built
  simp only [required] at built
  split at built
  · next part found => exact yields part value (goodParts name part found) built
  · cases built

theorem yields_defaulted {decoder : Decoder σ α} (yields : Decode.Yields good decoder holds)
    (name : String) {default : α} (fallback : holds default) :
    Yields good (defaulted name decoder default) holds := by
  intro find value goodParts built
  simp only [defaulted] at built
  split at built
  · next part found => exact yields part value (goodParts name part found) built
  · cases built
    exact fallback

variable {record : Record σ α} {results : β → Prop}

theorem Yields.map {change : α → β} (yields : Yields good record holds)
    (carries : ∀ value, holds value → results (change value)) :
    Yields good (change <$> record) results := by
  intro find value goodParts built
  obtain ⟨inner, builtInner, equal⟩ := bind_eq_ok built
  cases equal
  exact carries inner (yields find inner goodParts builtInner)

theorem Yields.seq {changes : Record σ (α → β)}
    (front : Yields good changes fun change => ∀ value, holds value → results (change value))
    (yields : Yields good record holds) : Yields good (changes <*> record) results := by
  intro find value goodParts built
  obtain ⟨change, builtChange, built⟩ := bind_eq_ok built
  obtain ⟨inner, builtInner, equal⟩ := bind_eq_ok built
  cases equal
  exact front find change goodParts builtChange inner (yields find inner goodParts builtInner)

/-- The parts in which fields are found are parts of the document. -/
theorem good_of_collect {fields : List (Field σ)} {members : List (String × σ)} :
    ∀ {before found : List (String × σ)}, (∀ member ∈ members, good member.2) →
      (∀ part ∈ before, good part.2) → collect fields before members = .ok found →
      ∀ part ∈ found, good part.2 := by
  induction members with
  | nil =>
      intro before found _ known collected
      cases collected
      exact known
  | cons member rest induction =>
      intro before found goodMembers known collected
      rw [List.forall_mem_cons] at goodMembers
      rw [collect] at collected
      split at collected
      · exact induction goodMembers.2 known collected
      · split at collected
        · cases collected
        · obtain ⟨_, _, collected⟩ := bind_eq_ok collected
          apply induction goodMembers.2 _ collected
          rw [List.forall_mem_append]
          exact ⟨known, by simpa using goodMembers.1⟩

theorem good_of_pair {complaint : Nat → DecodeError} {fault : Option Json.Fault}
    {fields : List (Field σ)} : ∀ {index : Nat} {items rest : List σ} {found : List (String × σ)},
      (∀ item ∈ items, good item) →
      pair complaint fault index fields items = .ok (found, rest) →
      ∀ part ∈ found, good part.2 := by
  induction fields with
  | nil =>
      intro index items rest found _ paired
      rw [pair] at paired
      cases paired
      simp
  | cons field fields induction =>
      intro index items rest found goodItems paired
      cases items with
      | nil =>
          rw [pair] at paired
          obtain ⟨_, _, paired⟩ := bind_eq_ok paired
          split at paired
          · cases paired
          · exact induction goodItems paired
      | cons item items =>
          rw [List.forall_mem_cons] at goodItems
          rw [pair] at paired
          obtain ⟨_, _, paired⟩ := bind_eq_ok paired
          obtain ⟨⟨others, behind⟩, pairedOthers, equal⟩ := bind_eq_ok paired
          cases equal
          rw [List.forall_mem_cons]
          exact ⟨goodItems.1, induction goodItems.2 pairedOthers⟩

end Record

/-! ## Decoders -/

theorem Yields.mapM {decoder : Decoder σ α} (yields : Yields good decoder holds) {items : List σ} :
    ∀ {values : List α}, (∀ item ∈ items, good item) → items.mapM decoder = .ok values →
      ∀ value ∈ values, holds value := by
  induction items with
  | nil =>
      intro values _ decoded
      cases decoded
      simp
  | cons item rest induction =>
      intro values goodItems decoded
      rw [List.mapM_cons] at decoded
      obtain ⟨first, decodedFirst, decoded⟩ := bind_eq_ok decoded
      obtain ⟨others, decodedOthers, equal⟩ := bind_eq_ok decoded
      cases equal
      rw [List.forall_mem_cons] at goodItems ⊢
      exact ⟨yields item first goodItems.1 decodedFirst, induction goodItems.2 decodedOthers⟩

/-- What holds of the entries of a table and of what a decoder yields for the members that follow
holds of all entries together. -/
theorem Yields.tableFrom {decoder : Decoder σ α} (yields : Yields good decoder holds)
    {members : List (String × σ)} :
    ∀ {before values : Table α}, (∀ member ∈ members, good member.2) →
      (∀ entry ∈ before.entries, holds entry.2) →
      tableFrom decoder before members = .ok values → ∀ entry ∈ values.entries, holds entry.2 := by
  induction members with
  | nil =>
      intro before values _ known decoded
      cases decoded
      exact known
  | cons member rest induction =>
      intro before values goodMembers known decoded
      rw [List.forall_mem_cons] at goodMembers
      obtain ⟨first, decodedFirst, decoded⟩ := bind_eq_ok decoded
      apply induction goodMembers.2 _ decoded
      intro entry inserted
      cases Table.eq_or_mem_of_mem_insert inserted with
      | inl equal => exact equal ▸ yields member.2 first goodMembers.1 decodedFirst
      | inr stored => exact known entry stored

section

variable [Source σ]

structure Inherited (good : σ → Prop) : Prop where
  item : ∀ {document items fault}, good document → Source.view document = .array items fault →
    ∀ item ∈ items, good item
  member : ∀ {document members fault}, good document →
    Source.view document = .object members fault → ∀ member ∈ members, good member.2
  whole : ∀ {document value}, good document → Source.whole document = .ok value → value.Distinct

/-- Every draft is good: its value is made when it is asked for. -/
theorem inherited_draft : Inherited (fun _ : Json.Draft => True) where
  item _ _ _ _ := trivial
  member _ _ _ _ := trivial
  whole _ completed := Json.Draft.distinct_of_complete _ completed

theorem inherited_json : Inherited Json.Distinct where
  item {document _ _} distinct viewed := by
    cases document <;> cases viewed
    exact Json.distinct_array.mp distinct
  member {document _ _} distinct viewed := by
    cases document <;> cases viewed
    exact Json.distinctMembers_iff.mp (Json.distinct_object.mp distinct).2
  whole distinct completed := by
    cases completed
    exact distinct

theorem yields_whole (inherits : Inherited good) : Yields good whole Json.Distinct := by
  intro document value goodDocument decoded
  rw [whole] at decoded
  split at decoded
  · next completed =>
      cases decoded
      exact inherits.whole goodDocument completed
  · cases decoded

theorem Yields.list (inherits : Inherited good) {decoder : Decoder σ α}
    (yields : Yields good decoder holds) :
    Yields good (list decoder) fun values => ∀ value ∈ values, holds value := by
  intro document values goodDocument decoded
  rw [Decode.list] at decoded
  split at decoded
  · next items fault viewed =>
      obtain ⟨_, decodedItems, decoded⟩ := bind_eq_ok decoded
      obtain ⟨_, _, equal⟩ := bind_eq_ok decoded
      cases equal
      exact yields.mapM (inherits.item goodDocument viewed) decodedItems
  · cases decoded

theorem Yields.table (inherits : Inherited good) {decoder : Decoder σ α}
    (yields : Yields good decoder holds) :
    Yields good (table decoder) fun values => ∀ entry ∈ values.entries, holds entry.2 := by
  intro document values goodDocument decoded
  rw [Decode.table] at decoded
  split at decoded
  · next members fault viewed =>
      obtain ⟨_, decodedMembers, decoded⟩ := bind_eq_ok decoded
      obtain ⟨_, _, equal⟩ := bind_eq_ok decoded
      cases equal
      exact yields.tableFrom (inherits.member goodDocument viewed) (by simp) decodedMembers
  · cases decoded

theorem Yields.optional {decoder : Decoder σ α} (yields : Yields good decoder holds) :
    Yields good (optional decoder) fun value => ∀ present ∈ value, holds present := by
  intro document value goodDocument decoded
  rw [Decode.optional] at decoded
  split at decoded
  · cases decoded
    simp
  · obtain ⟨present, decodedPresent, equal⟩ := bind_eq_ok decoded
    cases equal
    simpa using yields document present goodDocument decodedPresent

theorem Record.yields_optional {decoder : Decoder σ α} (yields : Decode.Yields good decoder holds)
    (name : String) :
    Record.Yields good (Record.optional name decoder) fun value =>
      ∀ present ∈ value, holds present :=
  Record.yields_defaulted yields.optional name (by simp)

theorem yields_decoder (inherits : Inherited good) (name : String) {record : Record σ α}
    (yields : Record.Yields good record holds) :
    Yields good (Record.decoder name record) holds := by
  intro document value goodDocument decoded
  rw [Record.decoder] at decoded
  split at decoded
  · next members fault viewed =>
      obtain ⟨found, collected, decoded⟩ := bind_eq_ok decoded
      obtain ⟨_, _, built⟩ := bind_eq_ok decoded
      have parts := Record.good_of_collect (inherits.member goodDocument viewed) (by simp) collected
      exact yields _ value (fun _ _ part => parts _ (Entries.mem_of_get? part)) built
  · next items fault viewed =>
      obtain ⟨⟨found, rest⟩, paired, decoded⟩ := bind_eq_ok decoded
      have parts := Record.good_of_pair (inherits.item goodDocument viewed) paired
      simp only at decoded
      split at decoded
      · exact yields _ value (fun _ _ part => parts _ (Entries.mem_of_get? part)) decoded
      · cases decoded
  · cases decoded

end

end Decode

end FlowCompiler
