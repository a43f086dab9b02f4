import FlowCompiler.Proofs.DecodedValues
import FlowCompiler.Proofs.TableEntries
import FlowCompiler.Proofs.Unfolding
import Mathlib.Data.List.Forall2

namespace FlowCompiler

/-! Normal forms of documents. A decoder may accept several documents for one value: with
unknown members, with members left out, as an array. The normal form of a document has what the
decoder takes from it, written in one way. -/

/-! ## Forms -/

namespace Normal

/-! A variant is written by its name. Of a name that is repeated, the last value is kept, at the
place of the first. -/

def kept (document : Json) : Json :=
  document

def variant : Json → Json
  | .object [(name, _)] => .string name
  | other => other

def list (item : Json → Json) : Json → Json
  | .array items => .array (items.map item)
  | other => other

def table : Json → Json
  | .object members => .object (Table.ofList members).entries
  | other => other

end Normal

namespace Decode

variable {α β : Type}

/-! What is decoded from a document is decoded from its normal form as well, and is written as this
normal form. -/

def Settles (decoder : Decoder Json α) (normal : Json → Json) : Prop :=
  ∀ document value, decoder document = .ok value → decoder (normal document) = .ok value

def Writes (decoder : Decoder Json α) (write : α → Json) (normal : Json → Json) : Prop :=
  ∀ document value, decoder document = .ok value → write value = normal document

variable {decoder : Decoder Json α} {write : α → Json} {normal : Json → Json}

structure Normalizes (decoder : Decoder Json α) (write : α → Json) (normal : Json → Json) :
    Prop where
  settles : Settles decoder normal
  writes : Writes decoder write normal

theorem Normalizes.decode_write (normalizes : Normalizes decoder write normal) {document : Json}
    {value : α} (decoded : decoder document = .ok value) : decoder (write value) = .ok value := by
  rw [normalizes.writes document value decoded]
  exact normalizes.settles document value decoded

/-! ## Single values -/

/-- A decoder that takes only what is written for its values has nothing to normalize. -/
theorem normalizes_kept (writes : Writes decoder write Normal.kept) :
    Normalizes decoder write Normal.kept where
  settles _ _ decoded := decoded
  writes := writes

theorem normalizes_text : Normalizes text Json.string Normal.kept := by
  apply normalizes_kept
  intro document value decoded
  cases document <;> cases decoded
  rfl

theorem normalizes_bool : Normalizes bool Json.bool Normal.kept := by
  apply normalizes_kept
  intro document value decoded
  cases document <;> cases decoded
  rfl

theorem normalizes_whole : Normalizes whole id Normal.kept := by
  apply normalizes_kept
  intro document value decoded
  cases decoded
  rfl

theorem normalizes_uint64 : Normalizes uint64 Json.ofUInt64 Normal.kept := by
  apply normalizes_kept
  intro document value decoded
  rcases document with _ | _ | (number | _ | _) | _ | _ | _ <;> cases decoded
  rfl

theorem normalizes_uint32 : Normalizes uint32 Json.ofUInt32 Normal.kept := by
  apply normalizes_kept
  intro document value decoded
  rcases document with _ | _ | (number | _ | _) | _ | _ | _
  case number.natural =>
    change (if number.toNat < twoTo 32 then _ else _) = _ at decoded
    split at decoded
    · next small =>
        cases decoded
        have same : number.toUInt32.toUInt64 = number := by
          apply UInt64.toNat_inj.mp
          simpa [twoTo] using Nat.mod_eq_of_lt small
        rw [Json.ofUInt32, same]
        rfl
    · cases decoded
  all_goals cases decoded

/-! ## Variants -/

theorem variantNamed_eq_ok {variants : List (String × α)} {name : String} {value : α}
    (known : variantNamed variants name = .ok value) : Entries.get? name variants = some value := by
  rw [variantNamed] at known
  split at known
  · next found =>
      cases known
      exact found
  · cases known

/-- A variant is decoded from its name, whether the document is the name or an object. -/
theorem variantNamed_of_variant {variants : List (String × α)} {document : Json} {value : α}
    (decoded : variant variants document = .ok value) :
    ∃ name, Normal.variant document = .string name ∧ variantNamed variants name = .ok value := by
  cases document with
  | string name => exact ⟨name, rfl, decoded⟩
  | object members =>
      rcases members with _ | ⟨⟨name, content⟩, _ | ⟨_, _⟩⟩
      · cases decoded
      · obtain ⟨found, known, decoded⟩ := bind_eq_ok decoded
        refine ⟨name, rfl, ?_⟩
        split at decoded <;> cases decoded
        exact known
      · cases decoded
  | _ => cases decoded

theorem normalizes_variant {variants : List (String × α)} {name : α → String}
    (names : ∀ entry ∈ variants, name entry.2 = entry.1) :
    Normalizes (variant variants) (fun value => .string (name value)) Normal.variant where
  settles document value decoded := by
    obtain ⟨found, form, known⟩ := variantNamed_of_variant decoded
    rw [form]
    exact known
  writes document value decoded := by
    obtain ⟨found, form, known⟩ := variantNamed_of_variant decoded
    have same := names (found, value) (Entries.mem_of_get? (variantNamed_eq_ok known))
    rw [form]
    exact congrArg Json.string same

/-! ## Lists -/

theorem mapM_eq_ok_iff {items : List Json} : ∀ {values : List α},
    items.mapM decoder = .ok values ↔
      List.Forall₂ (fun item value => decoder item = .ok value) items values := by
  induction items with
  | nil =>
      intro values
      rw [List.forall₂_nil_left_iff]
      exact ⟨fun decoded => by cases decoded; rfl, fun none => none ▸ rfl⟩
  | cons item rest induction =>
      intro values
      rw [List.mapM_cons, List.forall₂_cons_left_iff]
      constructor
      · intro decoded
        obtain ⟨first, decodedFirst, decoded⟩ := bind_eq_ok decoded
        obtain ⟨others, decodedOthers, equal⟩ := bind_eq_ok decoded
        cases equal
        exact ⟨first, others, decodedFirst, induction.mp decodedOthers, rfl⟩
      · rintro ⟨first, others, decodedFirst, decodedOthers, rfl⟩
        rw [decodedFirst, induction.mpr decodedOthers]
        rfl

theorem mapM_of_list {document : Json} {values : List α}
    (decoded : list decoder document = .ok values) :
    ∃ items, document = .array items ∧ items.mapM decoder = .ok values := by
  cases document with
  | array items =>
      obtain ⟨_, decodedItems, decoded⟩ := bind_eq_ok decoded
      cases decoded
      exact ⟨items, rfl, decodedItems⟩
  | _ => cases decoded

theorem list_array {items : List Json} {values : List α}
    (decoded : items.mapM decoder = .ok values) : list decoder (.array items) = .ok values := by
  simp only [list, Source.view, Json.view, decoded]
  rfl

theorem Normalizes.list (normalizes : Normalizes decoder write normal) :
    Normalizes (list decoder) (fun values => .array (values.map write)) (Normal.list normal) where
  settles document values decoded := by
    obtain ⟨items, rfl, decodedItems⟩ := mapM_of_list decoded
    apply list_array
    rw [mapM_eq_ok_iff] at decodedItems ⊢
    rw [List.forall₂_map_left_iff]
    exact decodedItems.imp normalizes.settles
  writes document values decoded := by
    obtain ⟨items, rfl, decodedItems⟩ := mapM_of_list decoded
    rw [mapM_eq_ok_iff] at decodedItems
    have same : List.Forall₂ (· = ·) (items.map normal) (values.map write) := by
      rw [List.forall₂_map_left_iff, List.forall₂_map_right_iff]
      exact decodedItems.imp fun item value decoded => (normalizes.writes item value decoded).symm
    rw [List.forall₂_eq_eq_eq] at same
    exact congrArg Json.array same.symm

/-! ## Tables -/

def EntryOf (decoder : Decoder Json α) (member : String × Json) (entry : String × α) : Prop :=
  member.1 = entry.1 ∧ decoder member.2 = .ok entry.2

theorem entriesOf_insert {members : List (String × Json)} {entries : List (String × α)}
    {name : String} {document : Json} {value : α}
    (stored : List.Forall₂ (EntryOf decoder) members entries)
    (decoded : decoder document = .ok value) :
    List.Forall₂ (EntryOf decoder) (Entries.insert name document members)
      (Entries.insert name value entries) := by
  induction stored with
  | nil => exact .cons ⟨rfl, decoded⟩ .nil
  | @cons member entry members entries first rest induction =>
      rw [Entries.insert, Entries.insert, ← first.1]
      split
      · exact .cons ⟨rfl, decoded⟩ rest
      · exact .cons ⟨rfl, first.2⟩ induction

theorem entriesOf_tableFrom {members : List (String × Json)} :
    ∀ (stored : Table Json) (before : Table α) {after : Table α},
      List.Forall₂ (EntryOf decoder) stored.entries before.entries →
      tableFrom decoder before members = .ok after →
      List.Forall₂ (EntryOf decoder) (stored.insertAll members).entries after.entries := by
  induction members with
  | nil =>
      intro stored before after known decoded
      cases decoded
      exact known
  | cons member rest induction =>
      intro stored before after known decoded
      obtain ⟨value, decodedFirst, decoded⟩ := bind_eq_ok decoded
      exact induction (stored.insert member.1 member.2) (before.insert member.1 value)
        (entriesOf_insert known decodedFirst) decoded

theorem tableFrom_of_entriesOf {members : List (String × Json)} {entries : List (String × α)}
    (decoded : List.Forall₂ (EntryOf decoder) members entries) :
    ∀ before : Table α, tableFrom decoder before members = .ok (before.insertAll entries) := by
  induction decoded with
  | nil => exact fun _ => rfl
  | @cons member entry members entries first _ induction =>
      intro before
      rw [tableFrom, first.2, first.1]
      exact induction (before.insert entry.1 entry.2)

theorem entriesOf_table {document : Json} {values : Table α}
    (decoded : table decoder document = .ok values) :
    ∃ members, document = .object members ∧
      List.Forall₂ (EntryOf decoder) (Table.ofList members).entries values.entries := by
  cases document with
  | object members =>
      obtain ⟨_, decodedMembers, decoded⟩ := bind_eq_ok decoded
      cases decoded
      exact ⟨members, rfl, entriesOf_tableFrom .empty .empty .nil decodedMembers⟩
  | _ => cases decoded

theorem map_write_of_entriesOf (writes : Writes decoder write Normal.kept)
    {members : List (String × Json)} {entries : List (String × α)}
    (decoded : List.Forall₂ (EntryOf decoder) members entries) :
    entries.map (fun entry => (entry.1, write entry.2)) = members := by
  induction decoded with
  | nil => rfl
  | @cons member entry _ _ first _ induction =>
      rw [List.map_cons, induction, ← first.1, writes member.2 entry.2 first.2]
      rfl

theorem Normalizes.table (normalizes : Normalizes decoder write Normal.kept) :
    Normalizes (table decoder)
      (fun values => .object (values.map fun _ value => write value).entries) Normal.table where
  settles document values decoded := by
    obtain ⟨members, rfl, entries⟩ := entriesOf_table decoded
    have same : Table.ofList values.entries = values :=
      Table.eq_of_entries_eq (Table.entries_ofList values.distinct)
    have read := tableFrom_of_entriesOf entries .empty
    simp only [Normal.table, Decode.table, Source.view, Json.view, read]
    exact congrArg Except.ok same
  writes document values decoded := by
    obtain ⟨members, rfl, entries⟩ := entriesOf_table decoded
    exact congrArg Json.object (map_write_of_entriesOf normalizes.writes entries)

/-! ## Optional values -/

def KeepsNull (normal : Json → Json) : Prop :=
  ∀ document, normal document = .null ↔ document = .null

theorem keepsNull_kept : KeepsNull Normal.kept :=
  fun _ => Iff.rfl

theorem keepsNull_variant : KeepsNull Normal.variant := by
  intro document
  fun_cases Normal.variant document <;> simp_all

theorem optional_of_ne_null {document : Json} (present : document ≠ .null) :
    optional decoder document = (do return some (← decoder document)) := by
  cases document with
  | null => exact absurd rfl present
  | _ => rfl

theorem Normalizes.optional (normalizes : Normalizes decoder write normal)
    (keeps : KeepsNull normal) :
    Normalizes (optional decoder) (fun value => (value.map write).getD .null) normal where
  settles document value decoded := by
    by_cases absent : document = .null
    · cases absent
      rw [(keeps .null).mpr rfl]
      exact decoded
    · have present : normal document ≠ .null := fun null => absent ((keeps document).mp null)
      rw [optional_of_ne_null absent] at decoded
      obtain ⟨inner, decodedInner, equal⟩ := bind_eq_ok decoded
      cases equal
      rw [optional_of_ne_null present, normalizes.settles document inner decodedInner]
      rfl
  writes document value decoded := by
    by_cases absent : document = .null
    · cases absent
      cases decoded
      exact ((keeps .null).mpr rfl).symm
    · rw [optional_of_ne_null absent] at decoded
      obtain ⟨inner, decodedInner, equal⟩ := bind_eq_ok decoded
      cases equal
      exact normalizes.writes document inner decodedInner

end Decode

end FlowCompiler
