import FlowCompiler.Json.Printer
import FlowCompiler.Proofs.TableEntries
import FlowCompiler.Proofs.TokenReading

namespace FlowCompiler

/-! Documents are read back as they were written. A value whose objects repeat no name, and whose
doubles are read back from their digits, is what its own text denotes, unless arrays and objects
are nested deeper in it than a reader follows; then the text is refused for this reason. -/

/-- The digits of the number denote the number. They denote one of its neighbours where reading
them rounds more than once. -/
def Double.ReadsBack (number : Double) : Prop :=
  Json.Numeral.read number.toChars = .ok (.double number, [])

namespace Json

/-! ## What is asked of a value -/

mutual
def depth : Json → Nat
  | .null => 0
  | .bool _ => 0
  | .number _ => 0
  | .string _ => 0
  | .array items => depthItems items + 1
  | .object members => depthMembers members + 1

def depthItems : List Json → Nat
  | [] => 0
  | item :: rest => max (depth item) (depthItems rest)

def depthMembers : List (String × Json) → Nat
  | [] => 0
  | (_, value) :: rest => max (depth value) (depthMembers rest)
end

mutual
def Distinct : Json → Prop
  | .null => True
  | .bool _ => True
  | .number _ => True
  | .string _ => True
  | .array items => DistinctItems items
  | .object members => (Entries.keys members).Nodup ∧ DistinctMembers members

def DistinctItems : List Json → Prop
  | [] => True
  | item :: rest => Distinct item ∧ DistinctItems rest

def DistinctMembers : List (String × Json) → Prop
  | [] => True
  | (_, value) :: rest => Distinct value ∧ DistinctMembers rest
end

mutual
def doubles : Json → List Double
  | .null => []
  | .bool _ => []
  | .number (.natural _) => []
  | .number (.negative _) => []
  | .number (.double value) => [value]
  | .string _ => []
  | .array items => doublesItems items
  | .object members => doublesMembers members

def doublesItems : List Json → List Double
  | [] => []
  | item :: rest => doubles item ++ doublesItems rest

def doublesMembers : List (String × Json) → List Double
  | [] => []
  | (_, value) :: rest => doubles value ++ doublesMembers rest
end

def Exact (numbers : List Double) : Prop :=
  ∀ number ∈ numbers, number.ReadsBack

theorem exact_append_iff {left right : List Double} :
    Exact (left ++ right) ↔ Exact left ∧ Exact right :=
  List.forall_mem_append

/-! ## Blanks between tokens -/

def Padded (text inner : List Char) : Prop :=
  ∃ blanks : List Char, (∀ blank ∈ blanks, Reader.isGap blank = true) ∧ text = blanks ++ inner

structure Layout.Blank (layout : Layout) : Prop where
  gap : ∀ depth after, Padded (layout.gap depth after) after
  afterColon : ∀ after, Padded (layout.afterColon after) after

theorem Layout.spaces_padded (after : List Char) (count : Nat) :
    Padded (Layout.spaces after count) after := by
  induction count with
  | zero => exact ⟨[], by simp, rfl⟩
  | succ count induction =>
      obtain ⟨blanks, gaps, equal⟩ := induction
      refine ⟨' ' :: blanks, ?_, congrArg (' ' :: ·) equal⟩
      simpa [Reader.isGap] using gaps

theorem Layout.indented_blank : Layout.indented.Blank where
  gap depth after := by
    obtain ⟨blanks, gaps, equal⟩ := Layout.spaces_padded after (2 * depth)
    refine ⟨'\n' :: blanks, ?_, congrArg ('\n' :: ·) equal⟩
    simpa [Reader.isGap] using gaps
  afterColon after := ⟨[' '], by simp [Reader.isGap], rfl⟩

namespace Padded

variable {text inner : List Char}

theorem length_le (padded : Padded text inner) : inner.length ≤ text.length := by
  obtain ⟨blanks, _, equal⟩ := padded
  simp [equal]

/-- A reader that passes over blanks does not see them. -/
theorem skipGap_eq (padded : Padded text inner) : Reader.skipGap text = Reader.skipGap inner := by
  obtain ⟨blanks, gaps, rfl⟩ := padded
  exact List.dropWhile_append_of_pos gaps

theorem stops (padded : Padded text inner) (stops : Numeral.Stops inner) : Numeral.Stops text := by
  obtain ⟨blanks, gaps, rfl⟩ := padded
  cases blanks with
  | nil => exact stops
  | cons blank blanks =>
      intro first equal
      cases equal
      have gap := gaps blank List.mem_cons_self
      simp only [Reader.isGap, Bool.or_eq_true, decide_eq_true_eq] at gap
      obtain ((rfl | rfl) | rfl) | rfl := gap <;> decide

end Padded

/-! ## The first character of a value -/

def Opens (text : List Char) : Prop :=
  ∃ first rest, text = first :: rest ∧ Reader.isGap first = false ∧ first ≠ ']'

theorem Opens.skipGap_eq {text : List Char} (opens : Opens text) : Reader.skipGap text = text := by
  obtain ⟨first, rest, rfl, gap, _⟩ := opens
  simp [Reader.skipGap, gap]

theorem read_numberChars {number : Number} (exact : Exact (doubles (.number number))) :
    Numeral.read (numberChars number) = .ok (number, []) := by
  cases number with
  | natural value => exact Numeral.read_natural value
  | negative value => exact Numeral.read_negative value
  | double value => exact exact value (by simp [doubles])

theorem exists_numberChars {number : Number} (exact : Exact (doubles (.number number))) :
    ∃ first rest, numberChars number = first :: rest ∧ (first = '-' ∨ first.isDigit = true) :=
  Numeral.exists_first_of_read (read_numberChars exact)

/-- What a numeral begins with is the beginning of no other value. -/
theorem not_gap_of_numeral {first : Char} (numeral : first = '-' ∨ first.isDigit = true) :
    Reader.isGap first = false ∧ first ∉ ['n', 't', 'f', '"', '[', ']', '\x7b'] := by
  constructor
  · by_contra gap
    simp only [Reader.isGap, Bool.not_eq_false, Bool.or_eq_true, decide_eq_true_eq] at gap
    obtain ((rfl | rfl) | rfl) | rfl := gap <;> revert numeral <;> decide
  · intro other
    simp only [List.mem_cons, List.not_mem_nil, or_false] at other
    obtain rfl | rfl | rfl | rfl | rfl | rfl | rfl := other <;> revert numeral <;> decide

theorem opens_chars {layout : Layout} {value : Json} (exact : Exact value.doubles) (depth : Nat)
    (after : List Char) : Opens (value.chars layout depth after) := by
  match value with
  | .null => exact ⟨_, _, rfl, by decide, by decide⟩
  | .bool true => exact ⟨_, _, rfl, by decide, by decide⟩
  | .bool false => exact ⟨_, _, rfl, by decide, by decide⟩
  | .string _ => exact ⟨_, _, rfl, by decide, by decide⟩
  | .array [] => exact ⟨_, _, rfl, by decide, by decide⟩
  | .array (_ :: _) => exact ⟨_, _, rfl, by decide, by decide⟩
  | .object [] => exact ⟨_, _, rfl, by decide, by decide⟩
  | .object (_ :: _) => exact ⟨_, _, rfl, by decide, by decide⟩
  | .number written =>
      obtain ⟨first, rest, equal, numeral⟩ := exists_numberChars exact
      have other := not_gap_of_numeral numeral
      refine ⟨first, rest ++ after, by rw [chars, equal]; rfl, other.1, ?_⟩
      rintro rfl
      simp at other

/-! ## Tokens between values -/

section Tokens

open Reader

variable {text inner rest after : List Char}

theorem nextItem_closed {first : Bool} (padded : Padded text (']' :: after)) :
    nextItem first text = .ok (.closed after) := by
  have skipped : skipGap text = ']' :: after := padded.skipGap_eq
  simp only [nextItem, skipped]

theorem nextItem_first (padded : Padded text inner) (opens : Opens inner) :
    nextItem true text = .ok (.entry inner) := by
  have skipped : skipGap text = inner := padded.skipGap_eq.trans opens.skipGap_eq
  obtain ⟨first, rest, rfl, _, other⟩ := opens
  simp only [nextItem, skipped]
  simp [other]

theorem nextItem_behind (padded : Padded text inner) (opens : Opens inner) :
    nextItem false (',' :: text) = .ok (.entry inner) := by
  have comma : skipGap (',' :: text) = ',' :: text := rfl
  have skipped : skipGap text = inner := padded.skipGap_eq.trans opens.skipGap_eq
  obtain ⟨first, rest, rfl, _, other⟩ := opens
  simp only [nextItem, comma]
  simp [skipped, other]

theorem nextName_closed {first : Bool} (padded : Padded text ('\x7d' :: after)) :
    nextName first text = .ok (.closed after) := by
  have skipped : skipGap text = '\x7d' :: after := padded.skipGap_eq
  simp only [nextName, skipped]

theorem nextName_first (padded : Padded text ('"' :: rest)) :
    nextName true text = .ok (.entry rest) := by
  have skipped : skipGap text = '"' :: rest := padded.skipGap_eq
  simp only [nextName, skipped]
  simp

theorem nextName_behind (padded : Padded text ('"' :: rest)) :
    nextName false (',' :: text) = .ok (.entry rest) := by
  have comma : skipGap (',' :: text) = ',' :: text := rfl
  have skipped : skipGap text = '"' :: rest := padded.skipGap_eq
  simp only [nextName, comma]
  simp [skipped]

theorem value_padded (rounds levels : Nat) (padded : Padded text inner) :
    value rounds levels text = value rounds levels inner := by
  rw [value.eq_def, value.eq_def, padded.skipGap_eq]

theorem value_scalar (rounds levels : Nat) {first : Char} (gap : isGap first = false)
    (square : first ≠ '[') (curly : first ≠ '\x7b') :
    value rounds levels (first :: rest) = scalar (first :: rest) := by
  have skipped : skipGap (first :: rest) = first :: rest := by simp [skipGap, gap]
  rw [value.eq_def, skipped]
  split <;> simp_all

theorem scalar_numeral {first : Char} (numeral : first = '-' ∨ first.isDigit = true) :
    scalar (first :: rest) = ofResult .number (Numeral.read (first :: rest)) := by
  have other := (not_gap_of_numeral numeral).2
  simp only [List.mem_cons, List.not_mem_nil, or_false, not_or] at other
  rw [scalar]
  · rw [if_pos numeral]
  all_goals simp [other]

theorem read_name (name : String) (after : List Char) :
    Literal.read (name.toList.flatMap Literal.escape ++ ['"'] ++ after) =
      .ok (name.toList, after) := by
  rw [List.append_assoc]
  exact Literal.read_escaped name.toList after

theorem scalar_string (text after : List Char) :
    scalar ('"' :: (text.flatMap Literal.escape ++ '"' :: after)) =
      (.string (String.ofList text), .ok after) := by
  simp only [scalar, Literal.read_escaped, ofResult]

end Tokens

/-! ## Reading -/

/-- What a reader makes of the text of `value` in front of `after`: the value where it fits, with
`after` left to read, and the objection that it is too deep where it does not. -/
structure Understood {α β : Type} (complete : α → Except Fault β) (fits : Prop) (value : β)
    (after : List Char) (reading : Reader.Reading α) : Prop where
  whole : fits → complete reading.1 = .ok value ∧ reading.2 = .ok after
  refused : ¬ fits → complete reading.1 = .error .tooDeep

namespace Understood

open Reader

theorem of_fits {α β : Type} {complete : α → Except Fault β} {fits : Prop} {value : β}
    {after : List Char} {reading : Reading α} (holds : fits)
    (completed : complete reading.1 = .ok value) (ends : reading.2 = .ok after) :
    Understood complete fits value after reading :=
  ⟨fun _ => ⟨completed, ends⟩, fun unfit => absurd holds unfit⟩

variable {reader : List Char → Reading Draft} {left : Nat} {first : Bool}
variable {text entry behind after : List Char} {fitsHead fitsTail : Prop}

theorem map {α β γ : Type} {complete : α → Except Fault β} {fits : Prop} {value : β}
    {reading : Reading α} (understood : Understood complete fits value after reading)
    (make : β → γ) :
    Understood (fun inside => make <$> complete inside) fits (make value) after reading where
  whole holds := by
    obtain ⟨completed, ends⟩ := understood.whole holds
    rw [completed]
    exact ⟨rfl, ends⟩
  refused deep := by
    rw [understood.refused deep]
    rfl

def entries {γ : Type} (entry : Draft → γ) (others : List Char → Reading (List γ)) :
    Reading Draft → Reading (List γ)
  | (draft, .error fault) => ([entry draft], .error fault)
  | (draft, .ok rest) => (entry draft :: (others rest).1, (others rest).2)

/-- An entry is read in front of others: where it fits they are read behind it, and where it does
not the entry is refused. -/
theorem followed {β γ : Type} {complete : List γ → Except Fault β} {value : Json} {all : β}
    {reading : Reading Draft} (entry : Draft → γ) (next : Json → List γ → Except Fault β)
    (others : List Char → Reading (List γ))
    (completes : ∀ draft rest,
      complete (entry draft :: rest) = (do next (← draft.complete) rest))
    (head : Understood Draft.complete fitsHead value behind reading)
    (tail : Understood (next value) fitsTail all after (others behind)) :
    Understood complete (fitsHead ∧ fitsTail) all after (entries entry others reading) := by
  obtain ⟨draft, ending⟩ := reading
  by_cases fits : fitsHead
  · obtain ⟨whole, goesOn⟩ := head.whole fits
    have completed := completes draft (others behind).1
    cases goesOn
    rw [whole] at completed
    constructor
    · intro both
      obtain ⟨rest, ends⟩ := tail.whole both.2
      exact ⟨completed.trans rest, ends⟩
    · intro deep
      exact completed.trans (tail.refused fun fitsTail => deep ⟨fits, fitsTail⟩)
  · refine ⟨fun both => absurd both.1 fits, fun _ => ?_⟩
    have refused : ∀ rest, complete (entry draft :: rest) = .error .tooDeep := by
      intro rest
      rw [completes, head.refused fits]
      rfl
    cases ending with
    | error fault => exact refused []
    | ok rest => exact refused (others rest).1

theorem item {value : Json} {rest : List Json} (enough : 0 < left)
    (next : nextItem first text = .ok (.entry entry))
    (head : Understood Draft.complete fitsHead value behind (reader entry))
    (tail : Understood Draft.completeItems fitsTail rest after
      (items reader (left - 1) false behind)) :
    Understood Draft.completeItems (fitsHead ∧ fitsTail) (value :: rest) after
      (items reader left first text) := by
  obtain ⟨left, rfl⟩ := Nat.exists_add_one_eq.mpr enough
  rw [Nat.add_sub_cancel] at tail
  simp only [items, next]
  have completes : ∀ draft rest, Draft.completeItems (id draft :: rest) = (do
      let value ← draft.complete
      (value :: ·) <$> Draft.completeItems rest) := fun _ _ => rfl
  exact followed id _ (items reader left false) completes head (tail.map (value :: ·))

theorem memberValue {value : Json}
    (head : Understood Draft.complete fitsHead value after (reader text)) :
    Understood Draft.complete fitsHead value after (memberValue reader (':' :: text)) := by
  have colon : colon (':' :: text) = .ok text := rfl
  simp only [Reader.memberValue, colon]
  cases read : reader text with
  | mk draft ending =>
      rw [read] at head
      by_cases fits : fitsHead
      · obtain ⟨whole, goesOn⟩ := head.whole fits
        cases goesOn
        exact head
      · refine ⟨fun fitsHead => absurd fitsHead fits, fun _ => ?_⟩
        cases ending <;> exact head.refused fits

theorem member {before all : List (String × Json)} {name : String} {value : Json}
    {behindName : List Char} (enough : 0 < left) (next : nextName first text = .ok (.entry entry))
    (named : Literal.read entry = .ok (name.toList, behindName))
    (head : Understood Draft.complete fitsHead value behind (Reader.memberValue reader behindName))
    (tail : Understood (Draft.completeMembers (Entries.insert name value before)) fitsTail all after
      (members reader (left - 1) false behind)) :
    Understood (Draft.completeMembers before) (fitsHead ∧ fitsTail) all after
      (members reader left first text) := by
  obtain ⟨left, rfl⟩ := Nat.exists_add_one_eq.mpr enough
  rw [Nat.add_sub_cancel] at tail
  simp only [members, next, named]
  rw [String.ofList_toList]
  have completes : ∀ draft rest, Draft.completeMembers before ((name, draft) :: rest) = (do
      let value ← draft.complete
      Draft.completeMembers (Entries.insert name value before) rest) := fun _ _ => rfl
  exact followed (name, ·) _ (members reader left false) completes head tail

theorem bracketed {α β : Type} {completeInside : α → Except Fault β}
    {wrap : α → Option Fault → Draft} {make : β → Json} {value : β} {fits : Prop}
    {reading : Reading α}
    (completes : ∀ inside fault, (wrap inside fault).complete = (do
      let value ← completeInside inside
      Draft.ended fault
      return make value))
    (inside : Understood completeInside fits value after reading) :
    Understood Draft.complete fits (make value) after
      (wrap reading.1 (faultOf reading.2), reading.2) := by
  constructor
  · intro holds
    obtain ⟨whole, ends⟩ := inside.whole holds
    rw [completes, whole, ends]
    exact ⟨rfl, rfl⟩
  · intro deep
    rw [completes, inside.refused deep]
    rfl

/-- An array is read where its items fit one level lower. -/
theorem array {rounds levels : Nat} {values : List Json}
    (inside : ∀ lower, Understood Draft.completeItems (depthItems values ≤ lower) values after
      (items (Reader.value rounds lower) rounds true text)) :
    Understood Draft.complete (depth (.array values) ≤ levels) (.array values) after
      (Reader.value rounds levels ('[' :: text)) := by
  cases levels with
  | zero => exact ⟨fun fits => absurd fits (by simp [depth]), fun _ => rfl⟩
  | succ lower =>
      rw [depth, Nat.add_le_add_iff_right]
      exact (inside lower).bracketed fun _ _ => rfl

/-- An object is read where the values of its members fit one level lower. -/
theorem object {rounds levels : Nat} {values : List (String × Json)}
    (inside : ∀ lower, Understood (Draft.completeMembers []) (depthMembers values ≤ lower) values
      after (members (Reader.value rounds lower) rounds true text)) :
    Understood Draft.complete (depth (.object values) ≤ levels) (.object values) after
      (Reader.value rounds levels ('\x7b' :: text)) := by
  cases levels with
  | zero => exact ⟨fun fits => absurd fits (by simp [depth]), fun _ => rfl⟩
  | succ lower =>
      rw [depth, Nat.add_le_add_iff_right]
      exact (inside lower).bracketed fun _ _ => rfl

theorem noItems (enough : 0 < left) (next : nextItem first text = .ok (.closed after))
    {fits : Prop} (holds : fits) :
    Understood Draft.completeItems fits [] after (items reader left first text) := by
  obtain ⟨left, rfl⟩ := Nat.exists_add_one_eq.mpr enough
  simp only [items, next]
  exact .of_fits holds rfl rfl

theorem noMembers (enough : 0 < left) (next : nextName first text = .ok (.closed after))
    {fits : Prop} (holds : fits) (before : List (String × Json)) :
    Understood (Draft.completeMembers before) fits before after
      (members reader left first text) := by
  obtain ⟨left, rfl⟩ := Nat.exists_add_one_eq.mpr enough
  simp only [members, next]
  exact .of_fits holds rfl rfl

end Understood

section Documents

variable {layout : Layout}

/-! ### Lengths -/

mutual
theorem length_le_chars (blank : layout.Blank) (depth : Nat) (after : List Char) :
    ∀ value : Json, after.length ≤ (value.chars layout depth after).length
  | .null => by simp only [chars, List.length_cons]; omega
  | .bool true => by simp only [chars, List.length_cons]; omega
  | .bool false => by simp only [chars, List.length_cons]; omega
  | .number written => by simp only [chars, List.length_append]; omega
  | .string text => by simp only [chars, List.length_append]; omega
  | .array items => by
      have all := length_lt_charsItems blank depth after items
      cases items with
      | nil => simp only [chars, List.length_cons]; omega
      | cons item rest =>
          simp only [chars, charsItems, List.length_cons] at all ⊢
          omega
  | .object members => by
      have all := length_lt_charsMembers blank depth after members
      cases members with
      | nil => simp only [chars, List.length_cons]; omega
      | cons member rest =>
          simp only [chars, charsMembers, List.length_cons] at all ⊢
          omega

theorem length_lt_charsItems (blank : layout.Blank) (depth : Nat) (after : List Char) :
    ∀ items : List Json, after.length < (charsItems layout depth after items).length
  | [] => (blank.gap depth (']' :: after)).length_le
  | item :: rest => by
      have behind := length_lt_charsItems blank depth after rest
      have inside := length_le_chars blank (depth + 1) (charsItems layout depth after rest) item
      have gap := (blank.gap (depth + 1)
        (item.chars layout (depth + 1) (charsItems layout depth after rest))).length_le
      simp only [charsItems, List.length_cons]
      omega

theorem length_lt_charsMembers (blank : layout.Blank) (depth : Nat) (after : List Char) :
    ∀ members : List (String × Json),
      after.length < (charsMembers layout depth after members).length
  | [] => (blank.gap depth ('\x7d' :: after)).length_le
  | (name, value) :: rest => by
      have behind := length_lt_charsMembers blank depth after rest
      have inside := length_le_chars blank (depth + 1) (charsMembers layout depth after rest) value
      have colon := (blank.afterColon
        (value.chars layout (depth + 1) (charsMembers layout depth after rest))).length_le
      have gap := (blank.gap (depth + 1) (Literal.write name.toList ++ ':' :: layout.afterColon
        (value.chars layout (depth + 1) (charsMembers layout depth after rest)))).length_le
      simp only [List.length_append, List.length_cons] at gap
      simp only [charsMembers, List.length_cons]
      omega
end

theorem lengths_charsItems (blank : layout.Blank) (depth : Nat) (after : List Char) (item : Json)
    (rest : List Json) :
    (charsItems layout depth after rest).length ≤
        (item.chars layout (depth + 1) (charsItems layout depth after rest)).length ∧
      (item.chars layout (depth + 1) (charsItems layout depth after rest)).length <
        (charsItems layout depth after (item :: rest)).length := by
  have inside := length_le_chars blank (depth + 1) (charsItems layout depth after rest) item
  have gap := (blank.gap (depth + 1)
    (item.chars layout (depth + 1) (charsItems layout depth after rest))).length_le
  rw [charsItems, List.length_cons]
  omega

theorem lengths_charsMembers (blank : layout.Blank) (depth : Nat) (after : List Char)
    (name : String) (value : Json) (rest : List (String × Json)) :
    (charsMembers layout depth after rest).length ≤
        (value.chars layout (depth + 1) (charsMembers layout depth after rest)).length ∧
      (value.chars layout (depth + 1) (charsMembers layout depth after rest)).length <
        (charsMembers layout depth after ((name, value) :: rest)).length := by
  have inside := length_le_chars blank (depth + 1) (charsMembers layout depth after rest) value
  have colon := (blank.afterColon
    (value.chars layout (depth + 1) (charsMembers layout depth after rest))).length_le
  have gap := (blank.gap (depth + 1) (Literal.write name.toList ++ ':' :: layout.afterColon
    (value.chars layout (depth + 1) (charsMembers layout depth after rest)))).length_le
  rw [List.length_append, List.length_cons] at gap
  rw [charsMembers, List.length_cons]
  omega

/-! ### Values -/

theorem stops_charsItems (blank : layout.Blank) (depth : Nat) (after : List Char)
    (items : List Json) : Numeral.Stops (charsItems layout depth after items) := by
  cases items with
  | nil =>
      apply (blank.gap depth (']' :: after)).stops
      simp [Numeral.Stops]
  | cons item rest => simp [charsItems, Numeral.Stops]

theorem stops_charsMembers (blank : layout.Blank) (depth : Nat) (after : List Char)
    (members : List (String × Json)) : Numeral.Stops (charsMembers layout depth after members) := by
  cases members with
  | nil =>
      apply (blank.gap depth ('\x7d' :: after)).stops
      simp [Numeral.Stops]
  | cons member rest => simp [charsMembers, Numeral.Stops]

variable {rounds : Nat}

mutual
/-- The text of a value is read as this value. -/
theorem understood_chars (blank : layout.Blank) :
    ∀ (value : Json) {levels depth : Nat} {after : List Char}, value.Distinct →
      Exact value.doubles → Numeral.Stops after →
      (value.chars layout depth after).length ≤ rounds →
      Understood Draft.complete (value.depth ≤ levels) value after
        (Reader.value rounds levels (value.chars layout depth after))
  | .null, levels, depth, after, _, _, _, _ => by
      rw [chars, value_scalar rounds levels (by decide) (by decide) (by decide)]
      exact .of_fits (Nat.zero_le _) rfl rfl
  | .bool true, levels, depth, after, _, _, _, _ => by
      rw [chars, value_scalar rounds levels (by decide) (by decide) (by decide)]
      exact .of_fits (Nat.zero_le _) rfl rfl
  | .bool false, levels, depth, after, _, _, _, _ => by
      rw [chars, value_scalar rounds levels (by decide) (by decide) (by decide)]
      exact .of_fits (Nat.zero_le _) rfl rfl
  | .number written, levels, depth, after, _, exact, stops, _ => by
      have read := Numeral.read_append stops (read_numberChars exact)
      obtain ⟨first, rest, equal, numeral⟩ := exists_numberChars exact
      have other := not_gap_of_numeral numeral
      rw [chars, equal, List.cons_append]
      rw [equal, List.cons_append] at read
      rw [value_scalar rounds levels other.1 (by rintro rfl; simp at other)
        (by rintro rfl; simp at other), scalar_numeral numeral, read]
      exact .of_fits (Nat.zero_le _) rfl rfl
  | .string text, levels, depth, after, _, _, _, _ => by
      rw [chars, Literal.write, List.cons_append, List.append_assoc, List.singleton_append,
        value_scalar rounds levels (by decide) (by decide) (by decide), scalar_string,
        String.ofList_toList]
      exact .of_fits (Nat.zero_le _) rfl rfl
  | .array [], levels, depth, after, _, _, _, bound => by
      simp only [chars, List.length_cons] at bound
      apply Understood.array
      intro lower
      exact .noItems (by omega) rfl (Nat.zero_le _)
  | .array (item :: rest), levels, depth, after, distinct, exact, _, bound => by
      obtain ⟨exactItem, exactRest⟩ := exact_append_iff.mp exact
      obtain ⟨fewer, shorter⟩ := lengths_charsItems blank depth after item rest
      have bound : (charsItems layout depth after (item :: rest)).length ≤ rounds := bound
      apply Understood.array
      intro lower
      rw [depthItems, Nat.max_le]
      apply Understood.item (by omega) (nextItem_first (blank.gap _ _) (opens_chars exactItem _ _))
      · exact understood_chars blank item distinct.1 exactItem
          (stops_charsItems blank depth after rest) (by omega)
      · exact understood_charsItems blank rest distinct.2 exactRest (by omega) (Nat.sub_le _ _)
  | .object [], levels, depth, after, _, _, _, bound => by
      simp only [chars, List.length_cons] at bound
      apply Understood.object
      intro lower
      exact .noMembers (by omega) rfl (Nat.zero_le _) []
  | .object ((name, value) :: rest), levels, depth, after, distinct, exact, _, bound => by
      obtain ⟨exactValue, exactRest⟩ := exact_append_iff.mp exact
      obtain ⟨fewer, shorter⟩ := lengths_charsMembers blank depth after name value rest
      have bound : (charsMembers layout depth after ((name, value) :: rest)).length ≤ rounds :=
        bound
      apply Understood.object
      intro lower
      rw [depthMembers, Nat.max_le]
      apply Understood.member (by omega) (nextName_first (blank.gap _ _))
        (read_name name _)
      · apply Understood.memberValue
        rw [value_padded _ _ (blank.afterColon _)]
        exact understood_chars blank value distinct.2.1 exactValue
          (stops_charsMembers blank depth after rest) (by omega)
      · exact understood_charsMembers blank rest [(name, value)] distinct.1 distinct.2.2 exactRest
          (by omega) (Nat.sub_le _ _)

theorem understood_charsItems (blank : layout.Blank) :
    ∀ (items : List Json) {left levels depth : Nat} {after : List Char}, DistinctItems items →
      Exact (doublesItems items) → (charsItems layout depth after items).length ≤ left →
      left ≤ rounds →
      Understood Draft.completeItems (depthItems items ≤ levels) items after
        (Reader.items (Reader.value rounds levels) left false
          (charsItems layout depth after items))
  | [], left, levels, depth, after, _, _, bound, _ => by
      have filled := length_lt_charsItems blank depth after []
      exact .noItems (by omega) (nextItem_closed (blank.gap _ _)) (Nat.zero_le _)
  | item :: rest, left, levels, depth, after, distinct, exact, bound, most => by
      obtain ⟨exactItem, exactRest⟩ := exact_append_iff.mp exact
      obtain ⟨fewer, shorter⟩ := lengths_charsItems blank depth after item rest
      rw [depthItems, Nat.max_le]
      apply Understood.item (by omega) (nextItem_behind (blank.gap _ _) (opens_chars exactItem _ _))
      · exact understood_chars blank item distinct.1 exactItem
          (stops_charsItems blank depth after rest) (by omega)
      · exact understood_charsItems blank rest distinct.2 exactRest (by omega) (by omega)

theorem understood_charsMembers (blank : layout.Blank) :
    ∀ (members before : List (String × Json)) {left levels depth : Nat} {after : List Char},
      (Entries.keys (before ++ members)).Nodup → DistinctMembers members →
      Exact (doublesMembers members) → (charsMembers layout depth after members).length ≤ left →
      left ≤ rounds →
      Understood (Draft.completeMembers before) (depthMembers members ≤ levels)
        (before ++ members) after
        (Reader.members (Reader.value rounds levels) left false
          (charsMembers layout depth after members))
  | [], before, left, levels, depth, after, _, _, _, bound, _ => by
      have filled := length_lt_charsMembers blank depth after []
      rw [List.append_nil]
      exact .noMembers (by omega) (nextName_closed (blank.gap _ _)) (Nat.zero_le _) before
  | (name, value) :: rest, before, left, levels, depth, after, names, distinct, exact, bound,
      most => by
      obtain ⟨exactValue, exactRest⟩ := exact_append_iff.mp exact
      obtain ⟨fewer, shorter⟩ := lengths_charsMembers blank depth after name value rest
      rw [depthMembers, Nat.max_le]
      apply Understood.member (by omega) (nextName_behind (blank.gap _ _)) (read_name name _)
      · apply Understood.memberValue
        rw [value_padded _ _ (blank.afterColon _)]
        exact understood_chars blank value distinct.1 exactValue
          (stops_charsMembers blank depth after rest) (by omega)
      · have absent : name ∉ Entries.keys before := by
          intro taken
          rw [Entries.keys, List.map_append, List.nodup_append] at names
          exact names.2.2 name taken name List.mem_cons_self rfl
        have all : before ++ (name, value) :: rest = (before ++ [(name, value)]) ++ rest := by simp
        rw [Entries.insert_of_not_mem absent, all]
        rw [all] at names
        exact understood_charsMembers blank rest (before ++ [(name, value)]) names distinct.2
          exactRest (by omega) (by omega)
end

/-! ### Whole documents -/

theorem parseWithin_chars (blank : layout.Blank) {value : Json} (distinct : value.Distinct)
    (exact : Exact value.doubles) (levels : Nat) :
    parseWithin levels (String.ofList (value.chars layout 0 [])) =
      if value.depth ≤ levels then .ok value else .error .tooDeep := by
  have understood : Understood Draft.complete (value.depth ≤ levels) value []
      (Reader.value (value.chars layout 0 []).length levels (value.chars layout 0 [])) :=
    understood_chars blank value distinct exact Numeral.Stops.nil (Nat.le_refl _)
  simp only [parseWithin, draft, String.toList_ofList]
  split
  · next fits =>
      obtain ⟨whole, ends⟩ := understood.whole fits
      rw [whole, ends]
      rfl
  · next deep =>
      rw [understood.refused deep]
      rfl

end Documents

/-- A document in lines is read as the value that was written, as long as it is not too deep. -/
theorem parse_pretty {value : Json} (distinct : value.Distinct) (exact : Exact value.doubles) :
    parse value.pretty = if value.depth ≤ maxLevels then .ok value else .error .tooDeep :=
  parseWithin_chars Layout.indented_blank distinct exact maxLevels

end Json

end FlowCompiler
