import FlowCompiler.Lowering.Emission
import FlowCompiler.Proofs.StepNames

namespace FlowCompiler

/-! The names of the routines that are emitted for one visit. The slugs of its exits are pairwise
different, because those of options and paths begin with their number, and they have no dots,
so no routine is taken for a primitive. -/

open Text

/-! ## Slugs -/

structure ProperSlugs (slugs : List String) : Prop where
  distinct : slugs.Nodup
  known : ∀ slug ∈ slugs, OnlyIdentifierChars slug.toList

instance (slugs : List String) : Decidable (ProperSlugs slugs) :=
  decidable_of_iff (slugs.Nodup ∧ ∀ slug ∈ slugs, OnlyIdentifierChars slug.toList)
    ⟨fun parts => ⟨parts.1, parts.2⟩, fun proper => ⟨proper.distinct, proper.known⟩⟩

def Outlet.numberedSlug (outlet : Outlet) (index : Nat) : String :=
  toString index ++ "_" ++ outlet.slug

theorem Outlet.isIdentifierChar_numberedSlug {outlet : Outlet} {index : Nat} {character : Char}
    (member : character ∈ (outlet.numberedSlug index).toList) : isIdentifierChar character := by
  rw [numberedSlug, String.toList_append, String.toList_append] at member
  rcases List.mem_append.mp member with member | member
  · rcases List.mem_append.mp member with member | member
    · exact isIdentifierChar_of_mem_toString member
    · exact onlyIdentifierChars_underscore character member
  · have proper : IsIdentifier outlet.slug :=
      isIdentifier_identifierOr (by decide) outlet.key
    exact proper.known character member

theorem Outlet.firstNumeral?_numberedSlug (outlet : Outlet) (index : Nat) :
    firstNumeral? (outlet.numberedSlug index) = some (Nat.toDigits 10 index) := by
  rw [numberedSlug, firstNumeral?, parts_join, parts_toString]
  simp [isNumeral_toDigits]

theorem properSlugs_numbered {α : Type} (values : List α) (make : Nat → α → Exit)
    (outlet : α → Outlet)
    (numbered : ∀ index value, (make index value).slug = (outlet value).numberedSlug index)
    {rest : List String} (fixed : ProperSlugs rest) (wordy : ∀ slug ∈ rest, Wordy slug) :
    ProperSlugs ((values.mapIdx make).map Exit.slug ++ rest) := by
  have numeral : ∀ index value,
      firstNumeral? (make index value).slug = some (Nat.toDigits 10 index) := by
    intro index value
    rw [numbered, Outlet.firstNumeral?_numberedSlug]
  constructor
  · refine List.nodup_append.mpr ⟨?_, fixed.distinct, ?_⟩
    · have numerals := map_mapIdx_eq_map_range values make
        (fun exit => firstNumeral? exit.slug) (fun index => some (Nat.toDigits 10 index)) numeral
      apply List.Nodup.of_map firstNumeral?
      rw [List.map_map]
      refine (congrArg List.Nodup numerals).mpr (List.nodup_range.map_on ?_)
      intro left _ right _ equal
      exact toDigits_injective (Option.some.inj equal)
    · intro left leftMember right rightMember equal
      rcases List.mem_map.mp leftMember with ⟨exit, inside, rfl⟩
      rcases List.mem_mapIdx.mp inside with ⟨index, bound, rfl⟩
      have none := firstNumeral?_of_wordy (wordy right rightMember)
      rw [← equal, numeral] at none
      cases none
  · intro slug member character inside
    rcases List.mem_append.mp member with member | member
    · rcases List.mem_map.mp member with ⟨exit, among, rfl⟩
      rcases List.mem_mapIdx.mp among with ⟨index, bound, rfl⟩
      rw [numbered] at inside
      exact Outlet.isIdentifierChar_numberedSlug inside
    · exact fixed.known slug member character inside

/-! ## Exits -/

def ProperExits (exits : List Exit) : Prop :=
  ProperSlugs (exits.map Exit.slug)

theorem properExits_nil : ProperExits [] :=
  ⟨List.nodup_nil, by simp⟩

theorem properExits_failure : ProperExits [.failure] := by
  have slugs : [Exit.failure].map Exit.slug = ["failure"] := rfl
  rw [ProperExits, slugs]
  decide

theorem Fork.properExits (fork : Fork) : ProperExits fork.exits := by
  have noResponse : ProperSlugs ["no_response"] := by decide
  have wordy : ∀ slug ∈ ["no_response"], Wordy slug := by decide
  cases fork with
  | text message =>
      have slugs : (Fork.text message).exits.map Exit.slug = ["yes", "no_response"] := rfl
      rw [ProperExits, slugs]
      decide
  | buttons prompt =>
      rw [ProperExits, exits, List.map_append]
      exact properSlugs_numbered prompt.buttons
        (fun index button => .option index button.id button.label)
        (fun button => .option button.id) (fun _ _ => rfl) noResponse wordy
  | list prompt =>
      rw [ProperExits, exits, List.map_append]
      exact properSlugs_numbered prompt.rows (fun index row => .option index row.id row.title)
        (fun row => .option row.id) (fun _ _ => rfl) noResponse wordy
  | split rules =>
      have slugs : (Fork.split rules).exits.map Exit.slug = ["yes", "no"] := rfl
      rw [ProperExits, slugs]
      decide
  | branch choice =>
      have none : ProperSlugs [] := properExits_nil
      have proper := properSlugs_numbered choice.paths
        (fun index path => Exit.path index path.label) (fun path => .label path.label)
        (fun _ _ => rfl) none (by simp)
      rwa [List.append_nil] at proper

theorem ProperExits.isIdentifier_routine {exits : List Exit} (proper : ProperExits exits)
    {names : Names} (namesProper : names.Proper) {exit : Exit} (member : exit ∈ exits) :
    IsIdentifier (names.routine exit.slug) :=
  names.isIdentifier_routine namesProper (proper.known exit.slug (List.mem_map_of_mem member))

theorem ProperExits.isPrimitive_eq_false {exits : List Exit} (proper : ProperExits exits)
    {names : Names} (namesProper : names.Proper) {exit : Exit} (member : exit ∈ exits) :
    Primitive.isPrimitive (names.routine exit.slug) = false :=
  Primitive.isPrimitive_eq_false (proper.isIdentifier_routine namesProper member)

end FlowCompiler
