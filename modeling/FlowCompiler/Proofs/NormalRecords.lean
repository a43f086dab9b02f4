import FlowCompiler.Proofs.NormalForms
import Mathlib.Data.List.Nodup

namespace FlowCompiler

/-! Normal forms of records. A record is written as an object that has the declared members in
order, with defaults filled in. It is normalized if its fields are, each on its own, so what is to
be shown of a record is put together from its fields in the same way as its decoder. -/

/-! ## Forms -/

namespace Normal

/-- How a member of a record is written, given the part of the document in which it is found.
Without a result the member is left out. -/
structure Member where
  name : String
  form : Option Json → Option Json

namespace Member

def required (name : String) (normal : Json → Json) : Member where
  name := name
  form part := part.map normal

def defaulted (name : String) (default : Json) (normal : Json → Json) : Member where
  name := name
  form part := some ((part.map normal).getD default)

def optional (name : String) (normal : Json → Json) : Member :=
  defaulted name .null normal

def omitted (name : String) (normal : Json → Json) : Member where
  name := name
  form part := if part = some .null then none else part.map normal

@[simp] theorem name_omitted (name : String) (normal : Json → Json) :
    (omitted name normal).name = name := rfl

end Member

/-- What a document has to say under which name; the items of an array belong to the names in
order. -/
def parts (names : List String) : Json → List (String × Json)
  | .object members => members
  | .array items => names.zip items
  | _ => []

def write (members : List Member) (find : String → Option Json) : List (String × Json) :=
  members.filterMap fun member =>
    (member.form (find member.name)).map fun part => (member.name, part)

def record (members : List Member) (document : Json) : Json :=
  .object (write members fun name =>
    Entries.get? name (parts (members.map Member.name) document))

variable {members : List Member} {find again : String → Option Json}

theorem write_cons (member : Member) :
    write (member :: members) find =
      ((member.form (find member.name)).map fun part => (member.name, part)).toList ++
        write members find := by
  rw [write, List.filterMap_cons]
  cases member.form (find member.name) <;> rfl

theorem write_congr (agree : ∀ member ∈ members, find member.name = again member.name) :
    write members find = write members again := by
  induction members with
  | nil => rfl
  | cons member rest induction =>
      rw [List.forall_mem_cons] at agree
      rw [write_cons, write_cons, agree.1, induction agree.2]

theorem mem_write {name : String} {part : Json} :
    (name, part) ∈ write members find ↔
      ∃ member ∈ members, member.name = name ∧ member.form (find member.name) = some part := by
  simp only [write, List.mem_filterMap, Option.map_eq_some_iff, Prod.mk.injEq]
  constructor
  · rintro ⟨member, among, _, formed, rfl, rfl⟩
    exact ⟨member, among, rfl, formed⟩
  · rintro ⟨member, among, rfl, formed⟩
    exact ⟨member, among, part, formed, rfl, rfl⟩

theorem keys_write_sublist :
    (Entries.keys (write members find)).Sublist (members.map Member.name) := by
  induction members with
  | nil => exact .slnil
  | cons member rest induction =>
      rw [write_cons, List.map_cons]
      cases member.form (find member.name) with
      | none => exact induction.cons _
      | some part => exact induction.cons_cons _

theorem get?_write (distinct : (members.map Member.name).Nodup) {member : Member}
    (among : member ∈ members) :
    Entries.get? member.name (write members find) = member.form (find member.name) := by
  have names : (Entries.keys (write members find)).Nodup := keys_write_sublist.nodup distinct
  ext part
  rw [Entries.get?_eq_some_iff names, mem_write]
  constructor
  · rintro ⟨other, present, same, formed⟩
    rwa [List.inj_on_of_nodup_map distinct present among same] at formed
  · exact fun formed => ⟨member, among, rfl, formed⟩

end Normal

/-! ## Writing -/

abbrev Writing (α : Type) : Type :=
  α → List (String × Json) → Prop

namespace Writing

variable {α β : Type}

inductive Single (name : String) (write : α → Json) : Writing α
  | intro (value : α) : Single name write value [(name, write value)]

inductive Omittable (name : String) (write : α → Json) : Writing (Option α)
  | absent : Omittable name write none []
  | present (value : α) : Omittable name write (some value) [(name, write value)]

inductive Map (change : α → β) (writing : Writing α) : Writing β
  | intro {value : α} {members : List (String × Json)} :
      writing value members → Map change writing (change value) members

inductive Seq (front : Writing (α → β)) (back : Writing α) : Writing β
  | intro {change : α → β} {value : α} {members others : List (String × Json)} :
      front change members → back value others → Seq front back (change value) (members ++ others)

end Writing

namespace Decode

variable {α β : Type} {decoder : Decoder Json α} {write : α → Json} {normal : Json → Json}

namespace Record

/-! The fields of a record are the given members. A value that is built from parts of a document is
written as the members in their normal forms. The value is built from these as well, and the fields
have no objection to them. -/

structure Normalizes (record : Record Json α) (members : List Normal.Member)
    (writing : Writing α) : Prop where
  names : record.fields.map Field.name = members.map Normal.Member.name
  plain : ∀ field ∈ record.fields, field.alias? = none
  written : ∀ find value, record.build find = .ok value →
    writing value (Normal.write members find)
  checked : ∀ find value, record.build find = .ok value →
    ∀ member ∈ members, ∀ part, member.form (find member.name) = some part →
      ∃ field ∈ record.fields, field.name = member.name ∧ field.check part = .ok ()
  built : ∀ find again value, record.build find = .ok value →
    (∀ member ∈ members, again member.name = member.form (find member.name)) →
    record.build again = .ok value

/-! ## Fields -/

theorem checkWith_ok {document : Json} {value : α} (decoded : decoder document = .ok value) :
    checkWith decoder document = .ok () := by
  rw [checkWith, decoded]
  rfl

/-- A field for which a part is written from which its value is decoded again. -/
theorem normalizes_single {record : Record Json α} {member : Normal.Member} (required : Bool)
    (fields : record.fields = [⟨member.name, none, required, checkWith decoder⟩])
    (reads : ∀ find part, find member.name = some part → record.build find = decoder part)
    (formed : ∀ find value, record.build find = .ok value →
      member.form (find member.name) = some (write value) ∧ decoder (write value) = .ok value) :
    Normalizes record [member] (.Single member.name write) where
  names := by simp [fields]
  plain := by simp [fields]
  written find value built := by
    rw [Normal.write_cons, (formed find value built).1]
    exact .intro value
  checked find value built := by
    rw [List.forall_mem_singleton]
    rintro part shown
    rw [(formed find value built).1] at shown
    cases shown
    exact ⟨_, by rw [fields]; exact List.mem_cons_self, rfl,
      checkWith_ok (formed find value built).2⟩
  built find again value built agree := by
    rw [List.forall_mem_singleton, (formed find value built).1] at agree
    rw [reads again _ agree]
    exact (formed find value built).2

section

variable (normalizes : Decode.Normalizes decoder write normal) (name : String)
include normalizes

theorem normalizes_required :
    Normalizes (required name decoder) [.required name normal] (.Single name write) := by
  apply normalizes_single true rfl
  · intro find part found
    simp only [required, show find name = some part from found]
  · intro find value built
    simp only [required] at built
    split at built
    · next document found =>
        refine ⟨?_, normalizes.decode_write built⟩
        rw [normalizes.writes document value built]
        exact congrArg (Option.map normal) found
    · cases built

theorem normalizes_defaulted (default : α) (restored : decoder (write default) = .ok default) :
    Normalizes (defaulted name decoder default) [.defaulted name (write default) normal]
      (.Single name write) := by
  apply normalizes_single false rfl
  · intro find part found
    simp only [defaulted, show find name = some part from found]
  · intro find value built
    simp only [defaulted] at built
    split at built
    · next document found =>
        refine ⟨?_, normalizes.decode_write built⟩
        rw [normalizes.writes document value built]
        simp [Normal.Member.defaulted, found]
    · next missing =>
        cases built
        exact ⟨by simp [Normal.Member.defaulted, missing], restored⟩

theorem normalizes_optional (keeps : KeepsNull normal) {writeOptional : Option α → Json}
    (same : ∀ value, writeOptional value = (value.map write).getD .null) :
    Normalizes (optional name decoder) [.optional name normal] (.Single name writeOptional) := by
  rw [funext same]
  exact normalizes_defaulted (normalizes.optional keeps) name none rfl

variable {name} in
/-- What is written for an optional field is decoded again, also where nothing is written. -/
theorem form_omitted (keeps : KeepsNull normal) {find : String → Option Json} {value : Option α}
    (built : (optional name decoder).build find = .ok value) :
    (Normal.Member.omitted name normal).form (find name) = value.map write ∧
      Decode.optional decoder ((value.map write).getD .null) = .ok value := by
  simp only [optional, defaulted] at built
  split at built
  · next document found =>
      refine ⟨?_, (normalizes.optional keeps).decode_write built⟩
      have same := (normalizes.optional keeps).writes document value built
      by_cases null : document = .null
      · cases null
        cases built
        simp [Normal.Member.omitted, found]
      · rw [optional_of_ne_null null] at built
        obtain ⟨inner, _, equal⟩ := bind_eq_ok built
        cases equal
        simp only [Normal.Member.omitted, found, Option.some.injEq, null, if_false,
          Option.map_some, ← same]
        rfl
  · next missing =>
      cases built
      exact ⟨by simp [Normal.Member.omitted, missing], rfl⟩

/-- A field may be left out where what is missing is taken for `null`. -/
theorem normalizes_omitted (keeps : KeepsNull normal) :
    Normalizes (optional name decoder) [.omitted name normal] (.Omittable name write) where
  names := rfl
  plain := by simp [optional, defaulted]
  written find value built := by
    rw [Normal.write_cons, Normal.Member.name_omitted, (form_omitted normalizes keeps built).1]
    cases value with
    | none => exact .absent
    | some present => exact .present present
  checked find value built := by
    have formed := form_omitted normalizes keeps built
    rw [List.forall_mem_singleton]
    intro part shown
    rw [Normal.Member.name_omitted, formed.1, Option.map_eq_some_iff] at shown
    obtain ⟨present, rfl, rfl⟩ := shown
    exact ⟨_, List.mem_cons_self, rfl, checkWith_ok formed.2⟩
  built find again value built agree := by
    have formed := form_omitted normalizes keeps built
    rw [List.forall_mem_singleton, Normal.Member.name_omitted, formed.1] at agree
    simp only [optional, defaulted, agree]
    cases value with
    | none => rfl
    | some present => exact formed.2

end

/-! ## Records of several fields -/

section

variable {find : String → Option Json}

theorem build_map {record : Record Json α} {change : α → β} {value : β} :
    (change <$> record).build find = .ok value ↔
      ∃ inner, record.build find = .ok inner ∧ change inner = value := by
  constructor
  · intro built
    obtain ⟨inner, builtInner, equal⟩ := bind_eq_ok built
    cases equal
    exact ⟨inner, builtInner, rfl⟩
  · rintro ⟨inner, built, rfl⟩
    change (do return change (← record.build find)) = _
    rw [built]
    rfl

theorem build_seq {changes : Record Json (α → β)} {record : Record Json α} {value : β} :
    (changes <*> record).build find = .ok value ↔
      ∃ change inner, changes.build find = .ok change ∧ record.build find = .ok inner ∧
        change inner = value := by
  constructor
  · intro built
    obtain ⟨change, builtChange, built⟩ := bind_eq_ok built
    obtain ⟨inner, builtInner, equal⟩ := bind_eq_ok built
    cases equal
    exact ⟨change, inner, builtChange, builtInner, rfl⟩
  · rintro ⟨change, inner, builtChange, built, rfl⟩
    change (do
      let change ← changes.build find
      let value ← record.build find
      return change value) = _
    rw [builtChange, built]
    rfl

end

theorem Normalizes.map {record : Record Json α} {members : List Normal.Member} {writing : Writing α}
    (normalizes : Normalizes record members writing) (change : α → β) :
    Normalizes (change <$> record) members (.Map change writing) where
  names := normalizes.names
  plain := normalizes.plain
  written find value built := by
    obtain ⟨inner, builtInner, rfl⟩ := build_map.mp built
    exact .intro (normalizes.written find inner builtInner)
  checked find value built := by
    obtain ⟨inner, builtInner, _⟩ := build_map.mp built
    exact normalizes.checked find inner builtInner
  built find again value built agree := by
    obtain ⟨inner, builtInner, equal⟩ := build_map.mp built
    exact build_map.mpr ⟨inner, normalizes.built find again inner builtInner agree, equal⟩

theorem Normalizes.seq {changes : Record Json (α → β)} {record : Record Json α}
    {members others : List Normal.Member} {front : Writing (α → β)} {back : Writing α}
    (changesNormalize : Normalizes changes members front)
    (normalizes : Normalizes record others back) :
    Normalizes (changes <*> record) (members ++ others) (.Seq front back) where
  names := by
    rw [List.map_append, ← changesNormalize.names, ← normalizes.names, ← List.map_append]
    rfl
  plain field among :=
    (List.mem_append.mp among).elim (changesNormalize.plain field) (normalizes.plain field)
  written find value built := by
    obtain ⟨change, inner, builtChange, builtInner, rfl⟩ := build_seq.mp built
    rw [Normal.write, List.filterMap_append]
    exact .intro (changesNormalize.written find change builtChange)
      (normalizes.written find inner builtInner)
  checked find value built member among part formed := by
    obtain ⟨change, inner, builtChange, builtInner, _⟩ := build_seq.mp built
    rcases List.mem_append.mp among with inFront | behind
    · obtain ⟨field, present, passes⟩ :=
        changesNormalize.checked find change builtChange member inFront part formed
      exact ⟨field, List.mem_append_left _ present, passes⟩
    · obtain ⟨field, present, passes⟩ :=
        normalizes.checked find inner builtInner member behind part formed
      exact ⟨field, List.mem_append_right _ present, passes⟩
  built find again value built agree := by
    obtain ⟨change, inner, builtChange, builtInner, equal⟩ := build_seq.mp built
    rw [List.forall_mem_append] at agree
    exact build_seq.mpr ⟨change, inner,
      changesNormalize.built find again change builtChange agree.1,
      normalizes.built find again inner builtInner agree.2, equal⟩

/-! ## Members of objects and items of arrays -/

variable {fields : List (Field Json)}

theorem get?_append (name : String) (front rest : List (String × α)) :
    Entries.get? name (front ++ rest) =
      (Entries.get? name front).or (Entries.get? name rest) := by
  induction front with
  | nil => rfl
  | cons entry front induction =>
      rw [List.cons_append, Entries.get?, Entries.get?]
      split
      · rfl
      · exact induction

theorem mem_of_named {field : Field Json} {name : String}
    (plain : ∀ field ∈ fields, field.alias? = none)
    (searched : fields.find? (fun field => field.isNamed name) = some field) :
    field ∈ fields ∧ field.name = name := by
  have among := List.mem_of_find?_eq_some searched
  have called := List.find?_some searched
  simp only [Field.isNamed, plain field among, reduceCtorEq, decide_false, Bool.or_false,
    decide_eq_true_eq] at called
  exact ⟨among, called⟩

/-- Under the name of a field, the first member of an object with this name is found. -/
theorem get?_collect (plain : ∀ field ∈ fields, field.alias? = none)
    {members : List (String × Json)} {name : String} (known : name ∈ fields.map Field.name) :
    ∀ {before found : List (String × Json)}, collect fields before members = .ok found →
      Entries.get? name found = (Entries.get? name before).or (Entries.get? name members) := by
  induction members with
  | nil =>
      intro before found collected
      cases collected
      exact (Option.or_none).symm
  | cons member rest induction =>
      intro before found collected
      obtain ⟨other, document⟩ := member
      rw [Entries.get?]
      rw [collect] at collected
      split at collected
      · next unknown =>
          have different : other ≠ name := by
            rintro rfl
            obtain ⟨field, among, called⟩ := List.mem_map.mp known
            have missed := List.find?_eq_none.mp unknown field among
            simp [Field.isNamed, called] at missed
          rw [if_neg different]
          exact induction collected
      · next field searched =>
          obtain ⟨_, called⟩ := mem_of_named plain searched
          split at collected
          · cases collected
          · next absent =>
              obtain ⟨_, _, collected⟩ := bind_eq_ok collected
              rw [induction collected, get?_append, Entries.get?, called, Entries.get?]
              rw [called, Option.not_isSome_iff_eq_none] at absent
              by_cases same : other = name
              · subst same
                simp [absent]
              · simp [same]

/-- An object that has only fields of the record, none of them twice, is taken as it is. -/
theorem collect_known (distinct : (fields.map Field.name).Nodup)
    (plain : ∀ field ∈ fields, field.alias? = none) {members : List (String × Json)}
    (checked : ∀ member ∈ members,
      ∃ field ∈ fields, field.name = member.1 ∧ field.check member.2 = .ok ()) :
    ∀ {before : List (String × Json)}, (Entries.keys (before ++ members)).Nodup →
      collect fields before members = .ok (before ++ members) := by
  induction members with
  | nil =>
      intro before _
      rw [List.append_nil]
      rfl
  | cons member rest induction =>
      intro before names
      obtain ⟨name, document⟩ := member
      rw [List.forall_mem_cons] at checked
      obtain ⟨⟨field, among, called, passes⟩, others⟩ := checked
      have searched : fields.find? (fun field => field.isNamed name) = some field := by
        have some : (fields.find? fun field => field.isNamed name).isSome := by
          rw [List.find?_isSome]
          exact ⟨field, among, by simp [Field.isNamed, called]⟩
        obtain ⟨first, searched⟩ := Option.isSome_iff_exists.mp some
        obtain ⟨present, same⟩ := mem_of_named plain searched
        rw [searched, List.inj_on_of_nodup_map distinct present among (same.trans called.symm)]
      have absent : (Entries.get? name before).isSome = false := by
        rw [← Bool.not_eq_true, Entries.isSome_get?_iff]
        rw [Entries.keys, List.map_append, List.nodup_append] at names
        exact fun present => names.2.2 name present name List.mem_cons_self rfl
      rw [List.append_cons] at names ⊢
      simp only [collect, searched, absent, passes, called]
      exact induction others names

/-- An array that a record takes as a whole has its items for the fields in order. -/
theorem pair_eq {complaint : Nat → DecodeError} : ∀ {fields : List (Field Json)} {index : Nat}
    {items : List Json} {found : List (String × Json)},
    pair complaint none index fields items = .ok (found, []) →
    found = (fields.map Field.name).zip items
  | [], _, _, _, paired => by
      rw [pair] at paired
      cases paired
      rfl
  | field :: fields, index, [], found, paired => by
      rw [pair] at paired
      obtain ⟨_, _, paired⟩ := bind_eq_ok paired
      split at paired
      · cases paired
      · rw [pair_eq paired, List.zip_nil_right, List.zip_nil_right]
  | field :: fields, index, item :: items, found, paired => by
      rw [pair] at paired
      obtain ⟨_, _, paired⟩ := bind_eq_ok paired
      obtain ⟨⟨others, behind⟩, pairedOthers, equal⟩ := bind_eq_ok paired
      cases equal
      rw [pair_eq pairedOthers]
      rfl

/-! ## Decoders of records -/

variable {record : Record Json α} {members : List Normal.Member} {writing : Writing α}

/-- The value of a record is built from the parts that the document has for its members. -/
theorem Normalizes.parts (normalizes : Normalizes record members writing) {name : String}
    {document : Json} {value : α} (decoded : Record.decoder name record document = .ok value) :
    ∃ find, record.build find = .ok value ∧ ∀ member ∈ members,
      find member.name =
        Entries.get? member.name (Normal.parts (members.map Normal.Member.name) document) := by
  cases document with
  | object found =>
      obtain ⟨collected, collects, decoded⟩ := bind_eq_ok decoded
      refine ⟨_, decoded, ?_⟩
      intro member among
      have known : member.name ∈ record.fields.map Field.name := by
        rw [normalizes.names]
        exact List.mem_map_of_mem among
      exact get?_collect normalizes.plain known collects
  | array items =>
      obtain ⟨⟨found, rest⟩, paired, decoded⟩ := bind_eq_ok decoded
      simp only at decoded
      split at decoded
      · next complete =>
          rw [List.isEmpty_iff] at complete
          rw [complete.1] at paired
          refine ⟨_, decoded, ?_⟩
          intro member _
          rw [pair_eq paired, normalizes.names]
          rfl
      · cases decoded
  | _ => cases decoded

/-- A record is normalized if its value is written as an object with the members of its fields. -/
theorem normalizes_decoder {write : α → Json} (normalizes : Normalizes record members writing)
    (distinct : (members.map Normal.Member.name).Nodup) (name : String)
    (same : ∀ value parts, writing value parts → write value = .object parts) :
    Decode.Normalizes (Record.decoder name record) write (Normal.record members) where
  settles document value decoded := by
    obtain ⟨find, built, agree⟩ := normalizes.parts decoded
    have written : Normal.record members document = .object (Normal.write members find) :=
      (congrArg Json.object (Normal.write_congr agree)).symm
    have names : (Entries.keys (Normal.write members find)).Nodup :=
      Normal.keys_write_sublist.nodup distinct
    have collected : collect record.fields [] (Normal.write members find) =
        .ok (Normal.write members find) := by
      refine collect_known (normalizes.names ▸ distinct) normalizes.plain ?_ names
      rintro ⟨name, part⟩ among
      obtain ⟨member, present, rfl, formed⟩ := Normal.mem_write.mp among
      exact normalizes.checked find value built member present part formed
    have again := normalizes.built find (fun name => Entries.get? name (Normal.write members find))
      value built fun member among => Normal.get?_write distinct among
    simp only [written, Record.decoder, Source.view, Json.view, collected]
    exact again
  writes document value decoded := by
    obtain ⟨find, built, agree⟩ := normalizes.parts decoded
    rw [same value _ (normalizes.written find value built)]
    exact congrArg Json.object (Normal.write_congr agree)

end Record

end Decode

end FlowCompiler
