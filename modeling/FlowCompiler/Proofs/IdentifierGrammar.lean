import FlowCompiler.Proofs.CallTree

namespace FlowCompiler

/-! The grammar of derived identifiers. An identifier is derived from any text: its ASCII letters
and digits in lower case, in groups that are joined by single underscores, behind a leading letter.
Deriving one from an identifier changes nothing. Names that are built of identifiers can be told
from the operations of the engine, and stand for themselves in paths of files. -/

namespace Text

/-! ## The grammar -/

def isGroupChar (character : Char) : Bool :=
  character.isLower || character.isDigit

def goesOn : List Char → Bool
  | [] => true
  | '_' :: next :: rest => isGroupChar next && goesOn rest
  | next :: rest => isGroupChar next && goesOn rest

/-- Whether a text is a lower-case letter that is followed by letters and digits in groups, which
are joined by single underscores. -/
def isGrouped : List Char → Bool
  | [] => false
  | first :: rest => first.isLower && goesOn rest

example : isGrouped "n_2nd_offer".toList := by decide
example : ¬ isGrouped "offer__2".toList := by decide

theorem isGroupChar_iff {character : Char} : isGroupChar character ↔
    97 ≤ character.toNat ∧ character.toNat ≤ 122 ∨
      48 ≤ character.toNat ∧ character.toNat ≤ 57 := by
  have shape : isGroupChar character =
      ((decide (character.val ≥ 'a'.val) && decide (character.val ≤ 'z'.val)) ||
        (decide (character.val ≥ '0'.val) && decide (character.val ≤ '9'.val))) := rfl
  rw [shape]
  simp only [Bool.or_eq_true, Bool.and_eq_true, decide_eq_true_eq, UInt32.le_iff_toNat_le,
    ge_iff_le]
  rfl

theorem isGroupChar_toLower {character : Char} (word : isWordChar character) :
    isGroupChar character.toLower := by
  rw [isWordChar_iff] at word
  rw [isGroupChar_iff, toNat_toLower]
  split <;> omega

theorem isWordChar_of_isGroupChar {character : Char} (grouped : isGroupChar character) :
    isWordChar character := by
  rw [isGroupChar_iff] at grouped
  rw [isWordChar_iff]
  omega

theorem toLower_of_isGroupChar {character : Char} (grouped : isGroupChar character) :
    character.toLower = character := by
  rw [isGroupChar_iff] at grouped
  apply Char.toNat_inj.mp
  rw [toNat_toLower, if_neg (by omega)]

theorem isLower_of_isGroupChar {character : Char} (grouped : isGroupChar character)
    (digit : character.isDigit = false) : character.isLower := by
  simpa [isGroupChar, digit] using grouped

theorem ne_underscore_of_isGroupChar {character : Char} (grouped : isGroupChar character) :
    character ≠ '_' := by
  rintro rfl
  exact absurd grouped (by decide)

/-! ## Groups -/

def Groups (groups : List (List Char)) : Prop :=
  ∀ group ∈ groups, group ≠ [] ∧ ∀ character ∈ group, isGroupChar character

theorem groups_wordsFrom {text : List Char} : ∀ {current : List Char},
    (∀ character ∈ current, isGroupChar character) → Groups (wordsFrom current text) := by
  induction text with
  | nil =>
      intro current known
      rw [wordsFrom]
      split
      · simp [Groups]
      · next some => simpa [Groups] using And.intro some known
  | cons first rest induction =>
      intro current known
      rw [wordsFrom]
      split
      · next word =>
          apply induction
          rw [List.forall_mem_cons]
          exact ⟨isGroupChar_toLower word, known⟩
      · split
        · exact induction (by simp)
        · next some =>
            have group : current.reverse ≠ [] ∧
                ∀ character ∈ current.reverse, isGroupChar character := by
              simpa using And.intro some known
            exact List.forall_mem_cons.mpr ⟨group, induction (by simp)⟩

theorem groups_words (text : List Char) : Groups (words text) :=
  groups_wordsFrom (by simp)

/-- The words of a text hold its letters and digits, in lower case and in order. -/
theorem flatten_wordsFrom {text : List Char} : ∀ {current : List Char},
    (wordsFrom current text).flatten =
      current.reverse ++ (text.filter isWordChar).map Char.toLower := by
  induction text with
  | nil =>
      intro current
      rw [wordsFrom]
      split <;> simp_all
  | cons first rest induction =>
      intro current
      rw [wordsFrom]
      split
      · next word => simp [induction, word]
      · next other =>
          split <;> simp_all

theorem flatten_words (text : List Char) :
    (words text).flatten = (text.filter isWordChar).map Char.toLower :=
  flatten_wordsFrom

/-! ## Joined groups -/

section

variable {groups : List (List Char)}

theorem intercalate_cons (group : List Char) (rest : List (List Char)) :
    List.intercalate ['_'] (group :: rest) = group ++ rest.flatMap ('_' :: ·) := by
  induction rest generalizing group with
  | nil => simp
  | cons next rest induction =>
      rw [List.intercalate_cons_cons, induction, List.flatMap_cons, List.append_assoc]
      rfl

/-- A group is read as it is, behind what has been read of it. -/
theorem wordsFrom_group {group : List Char} (known : ∀ character ∈ group, isGroupChar character)
    (current rest : List Char) :
    wordsFrom current (group ++ rest) = wordsFrom (group.reverse ++ current) rest := by
  induction group generalizing current with
  | nil => rfl
  | cons first more induction =>
      rw [List.forall_mem_cons] at known
      have word := isWordChar_of_isGroupChar known.1
      rw [List.cons_append, wordsFrom, if_pos word, toLower_of_isGroupChar known.1,
        induction known.2]
      simp

/-- The underscores in front of groups end the word that is being read. -/
theorem wordsFrom_behind {current : List Char} (started : current ≠ []) (proper : Groups groups) :
    wordsFrom current (groups.flatMap ('_' :: ·)) = current.reverse :: groups := by
  induction groups generalizing current with
  | nil => simp [wordsFrom, started]
  | cons group rest induction =>
      obtain ⟨⟨nonempty, known⟩, others⟩ := List.forall_mem_cons.mp proper
      have underscore : isWordChar '_' = false := by decide
      have read : wordsFrom [] (group ++ rest.flatMap ('_' :: ·)) = group :: rest := by
        rw [wordsFrom_group known, induction (by simpa using nonempty) others]
        simp
      rw [List.flatMap_cons, List.cons_append, wordsFrom, read]
      simp [underscore, started]

/-- Groups are the words of the text in which underscores join them. -/
theorem words_intercalate (proper : Groups groups) :
    words (List.intercalate ['_'] groups) = groups := by
  cases groups with
  | nil => rfl
  | cons group rest =>
      obtain ⟨⟨nonempty, known⟩, others⟩ := List.forall_mem_cons.mp proper
      rw [intercalate_cons, words, wordsFrom_group known,
        wordsFrom_behind (by simpa using nonempty) others]
      simp

theorem goesOn_group {group rest : List Char} (known : ∀ character ∈ group, isGroupChar character)
    (behind : goesOn rest) : goesOn (group ++ rest) := by
  induction group with
  | nil => exact behind
  | cons first more induction =>
      rw [List.forall_mem_cons] at known
      have inside := induction known.2
      rw [List.cons_append, goesOn, known.1, inside]
      · rfl
      · intro next others equal
        exact absurd equal (ne_underscore_of_isGroupChar known.1)

theorem goesOn_behind (proper : Groups groups) : goesOn (groups.flatMap ('_' :: ·)) := by
  induction groups with
  | nil => rfl
  | cons group rest induction =>
      obtain ⟨⟨nonempty, known⟩, others⟩ := List.forall_mem_cons.mp proper
      obtain ⟨first, more, rfl⟩ := List.exists_cons_of_ne_nil nonempty
      rw [List.forall_mem_cons] at known
      have behind := goesOn_group known.2 (induction others)
      rw [List.flatMap_cons, List.cons_append, List.cons_append, goesOn, known.1, behind]
      rfl

/-- Joined groups follow the grammar if a letter leads them. -/
theorem isGrouped_intercalate (proper : Groups groups) (some : groups ≠ [])
    (letter : groups.flatten.head?.any Char.isDigit = false) :
    isGrouped (List.intercalate ['_'] groups) := by
  obtain ⟨group, rest, rfl⟩ := List.exists_cons_of_ne_nil some
  obtain ⟨⟨nonempty, known⟩, others⟩ := List.forall_mem_cons.mp proper
  obtain ⟨first, more, rfl⟩ := List.exists_cons_of_ne_nil nonempty
  rw [List.forall_mem_cons] at known
  have lower : first.isLower := isLower_of_isGroupChar known.1 (by simpa using letter)
  have behind := goesOn_group known.2 (goesOn_behind others)
  rw [intercalate_cons, List.cons_append, isGrouped, lower, behind]
  rfl

/-- Without the underscores, the groups follow each other. -/
theorem filter_intercalate (proper : Groups groups) :
    (List.intercalate ['_'] groups).filter (· ≠ '_') = groups.flatten := by
  have inside : ∀ group ∈ groups, group.filter (· ≠ '_') = group := by
    intro group member
    rw [List.filter_eq_self]
    intro character among
    simpa using ne_underscore_of_isGroupChar ((proper group member).2 character among)
  cases groups with
  | nil => rfl
  | cons group rest =>
      rw [List.forall_mem_cons] at inside
      have behind : (rest.flatMap ('_' :: ·)).filter (· ≠ '_') = rest.flatten := by
        rw [List.filter_flatMap, List.flatten_eq_flatMap]
        exact List.flatMap_congr fun group member => by simpa using inside.2 group member
      rw [intercalate_cons, List.filter_append, inside.1, behind, List.flatten_cons]

end

/-! ## Identifiers -/

def identifierGroups (text : List Char) : List (List Char) :=
  if (words text).flatten.head?.any Char.isDigit then ['n'] :: words text else words text

variable {text : List Char}

theorem identifierChars_eq (text : List Char) :
    identifierChars text = List.intercalate ['_'] (identifierGroups text) := by
  have proper := groups_words text
  rw [identifierChars, identifierGroups]
  cases found : words text with
  | nil => rfl
  | cons word rest =>
      rw [found] at proper
      obtain ⟨first, more, rfl⟩ :=
        List.exists_cons_of_ne_nil (proper word List.mem_cons_self).1
      cases digit : first.isDigit <;> simp [intercalate_cons, digit]

theorem groups_identifierGroups (text : List Char) : Groups (identifierGroups text) := by
  have letter : isGroupChar 'n' := by decide
  rw [identifierGroups]
  split
  · exact List.forall_mem_cons.mpr ⟨by simpa using letter, groups_words text⟩
  · exact groups_words text

theorem leading_identifierGroups (text : List Char) :
    (identifierGroups text).flatten.head?.any Char.isDigit = false := by
  rw [identifierGroups]
  split
  · rfl
  · next letter => simpa using letter

theorem identifierGroups_eq_nil_iff : identifierGroups text = [] ↔ words text = [] := by
  rw [identifierGroups]
  cases words text <;> split <;> simp_all

theorem words_eq_nil_iff : words text = [] ↔ ∀ character ∈ text, isWordChar character = false := by
  have letters := flatten_words text
  have proper := groups_words text
  constructor
  · intro none
    rw [none] at letters
    simpa using letters.symm
  · intro none
    have empty : text.filter isWordChar = [] := by simpa using none
    rw [empty] at letters
    cases found : words text with
    | nil => rfl
    | cons word rest =>
        rw [found] at letters proper
        have blank := (List.append_eq_nil_iff.mp letters).1
        exact absurd blank (proper word List.mem_cons_self).1

theorem intercalate_eq_nil_iff {groups : List (List Char)} (proper : Groups groups) :
    List.intercalate ['_'] groups = [] ↔ groups = [] := by
  cases groups with
  | nil => simp
  | cons group rest => simp [intercalate_cons, (proper group List.mem_cons_self).1]

theorem identifierChars_identifierChars (text : List Char) :
    identifierChars (identifierChars text) = identifierChars text := by
  have same : words (identifierChars text) = identifierGroups text := by
    rw [identifierChars_eq, words_intercalate (groups_identifierGroups text)]
  have groups : identifierGroups (identifierChars text) = identifierGroups text := by
    rw [identifierGroups, same, if_neg (by simp [leading_identifierGroups])]
  rw [identifierChars_eq (identifierChars text), groups, ← identifierChars_eq]

def lowered (text : String) : List Char :=
  (text.toList.filter Char.isAlphanum).map Char.toLower

theorem filter_identifier (text : String) : (identifier text).toList.filter (· ≠ '_') =
    (if (lowered text).head?.any Char.isDigit then ['n'] else []) ++ lowered text := by
  have letters : (words text.toList).flatten = lowered text := flatten_words text.toList
  rw [identifier, String.toList_ofList, identifierChars_eq,
    filter_intercalate (groups_identifierGroups _), identifierGroups, letters]
  split <;> simp [letters]

theorem identifier_eq_empty_iff {text : String} :
    identifier text = "" ↔ ∀ character ∈ text.toList, character.isAlphanum = false := by
  have same : identifier text = "" ↔ identifierChars text.toList = [] := by
    rw [identifier, ← String.toList_inj, String.toList_ofList]
    rfl
  rw [same, identifierChars_eq, intercalate_eq_nil_iff (groups_identifierGroups _),
    identifierGroups_eq_nil_iff]
  exact words_eq_nil_iff

theorem isGrouped_identifier {text : String} (some : identifier text ≠ "") :
    isGrouped (identifier text).toList := by
  have groups : identifierGroups text.toList ≠ [] := by
    intro none
    apply some
    rw [identifier, identifierChars_eq, none]
    rfl
  rw [identifier, String.toList_ofList, identifierChars_eq]
  exact isGrouped_intercalate (groups_identifierGroups _) groups (leading_identifierGroups _)

theorem identifier_identifier (text : String) : identifier (identifier text) = identifier text := by
  rw [identifier, identifier, String.toList_ofList, identifierChars_identifierChars]

/-! ## Names in paths -/

/-- The name is neither empty, nor does it have parts as the name of an operation or the path of a
file has. -/
structure Undivided (name : String) : Prop where
  nonempty : name ≠ ""
  dotless : '.' ∉ name.toList
  slashless : '/' ∉ name.toList

theorem IsIdentifier.undivided {name : String} (proper : IsIdentifier name) : Undivided name where
  nonempty := by
    rintro rfl
    exact proper.nonempty rfl
  dotless dot := absurd (proper.known '.' dot) (by decide)
  slashless slash := absurd (proper.known '/' slash) (by decide)

end Text

open Text

theorem Outlet.isIdentifier_slug (outlet : Outlet) : IsIdentifier outlet.slug :=
  isIdentifier_identifierOr (by decide) outlet.key

theorem Flow.isIdentifier_programName (flow : Flow) : IsIdentifier flow.programName :=
  isIdentifier_identifierOr (by decide) _

theorem Compile.isIdentifier_of_build {settings : Settings} {lookup : BranchLookup}
    {flow : Flow} {program : Program} (built : build settings lookup flow = .ok program)
    {name : String} (member : name ∈ program.routines.keys) : IsIdentifier name := by
  rcases exists_origin_of_build built with ⟨_, empty⟩ | ⟨origin, _, proper, entries⟩
  · rw [empty] at member
    rw [List.mem_singleton.mp member]
    decide
  · exact isIdentifier_of_mem_keys proper entries member

/-- The identifier of a text is empty if the text has neither ASCII letters nor digits, and
otherwise follows the grammar. It is its own identifier, and without underscores it holds the
letters and digits of the text in lower case and in order, behind the letter `n` if a digit comes
first. So the slugs of outlets, the names of routines and those of programs are neither empty nor
have dots or slashes. -/
theorem identifiers_follow_grammar (text : String) :
    (identifier text = "" ↔ ∀ character ∈ text.toList, character.isAlphanum = false) ∧
      (identifier text = "" ∨ isGrouped (identifier text).toList) ∧
      identifier (identifier text) = identifier text ∧
      (identifier text).toList.filter (· ≠ '_') =
        (if (lowered text).head?.any Char.isDigit then ['n'] else []) ++ lowered text ∧
      (∀ outlet : Outlet, Undivided outlet.slug) ∧
      (∀ flow : Flow, Undivided flow.programName) ∧
      ∀ settings lookup flow program, compile settings lookup flow = .ok program →
        ∀ name ∈ program.routines.keys, Undivided name := by
  refine ⟨identifier_eq_empty_iff, (eq_or_ne _ _).imp_right isGrouped_identifier,
    identifier_identifier text, filter_identifier text,
    fun outlet => outlet.isIdentifier_slug.undivided,
    fun flow => flow.isIdentifier_programName.undivided, ?_⟩
  intro settings lookup flow program compiled name member
  rw [compile_eq_build] at compiled
  exact (Compile.isIdentifier_of_build compiled member).undivided

theorem identifiers_follow_grammar_sample :
    ∃ program, compile .standard Compile.sampleLookup Compile.sampleFlow = .ok program ∧
      identifier "2nd  Offer (VIP)!" = "n_2nd_offer_vip" ∧
      ∀ name ∈ program.routines.keys, Undivided name := by
  obtain ⟨program, compiled⟩ := Compile.exists_sampleProgram
  have derived : identifier "2nd  Offer (VIP)!" = "n_2nd_offer_vip" := by decide
  obtain ⟨_, _, _, _, _, _, names⟩ := identifiers_follow_grammar "2nd  Offer (VIP)!"
  exact ⟨program, compiled, derived, names _ _ _ program compiled⟩

end FlowCompiler
