import FlowCompiler.Program.Tree
import FlowCompiler.Proofs.Identifiers
import Mathlib.Logic.Function.Basic

namespace FlowCompiler

/-! Outlines: entries in order, each with the entries that are nested in it. The tree view of a
program prints its outline, one line for each entry, and the outline can be read back from the
lines: their prefixes tell how deep they are nested. -/

inductive Outline (α : Type) where
  | empty
  | entry (item : α) (nested next : Outline α)
deriving DecidableEq

namespace Outline

variable {α β : Type}

def isEmpty : Outline α → Bool
  | empty => true
  | entry .. => false

def map (change : α → β) : Outline α → Outline β
  | empty => empty
  | entry item nested next => entry (change item) (nested.map change) (next.map change)

def items : Outline α → List α
  | empty => []
  | entry item nested next => item :: (nested.items ++ next.items)

theorem isEmpty_map (change : α → β) (outline : Outline α) :
    (outline.map change).isEmpty = outline.isEmpty := by
  cases outline <;> rfl

theorem items_map (change : α → β) (outline : Outline α) :
    (outline.map change).items = outline.items.map change := by
  induction outline with
  | empty => rfl
  | entry item nested next nestedInduction nextInduction =>
      rw [map, items, items, nestedInduction, nextInduction, List.map_cons, List.map_append]

end Outline

/-! ## Rows -/

inductive Row where
  | header (label : String)
  /-- A line below a header. Of the entry, and of each one around it, the line tells whether it is
  the last of its siblings. -/
  | branch (around : List Bool) (last : Bool) (label : String)

namespace Row

def label : Row → String
  | header label => label
  | branch _ _ label => label

def depth : Row → Nat
  | header _ => 0
  | branch around _ _ => around.length + 1

/-- In front of a label stand four characters for each entry around it, and its marker. -/
def text : Row → String
  | header label => label
  | branch around last label =>
      String.join (around.map Tree.indentation) ++ Tree.marker last ++ label

/-! ## Reading -/

def within (last : Bool) : Row → Row
  | header label => header label
  | branch around own label => branch (last :: around) own label

def read : List Char → Row
  | ' ' :: ' ' :: ' ' :: ' ' :: rest => (read rest).within true
  | '│' :: ' ' :: ' ' :: ' ' :: rest => (read rest).within false
  | '└' :: '─' :: '─' :: ' ' :: label => branch [] true (String.ofList label)
  | '├' :: '─' :: '─' :: ' ' :: label => branch [] false (String.ofList label)
  | label => header (String.ofList label)

def Titled : Row → Prop
  | header label => label.toList.head?.any Text.isIdentifierChar
  | branch .. => True

theorem text_cons (first : Bool) (around : List Bool) (last : Bool) (label : String) :
    (branch (first :: around) last label).text =
      Tree.indentation first ++ (branch around last label).text := by
  simp only [text, List.map_cons, String.join_cons, String.append_assoc]

theorem read_branch (around : List Bool) (last : Bool) (label : String) :
    read (branch around last label).text.toList = branch around last label := by
  induction around with
  | nil =>
      cases last with
      | true =>
          have characters : (branch [] true label).text.toList =
              '└' :: '─' :: '─' :: ' ' :: label.toList := by
            rw [text, String.toList_append]
            rfl
          rw [characters, read, String.ofList_toList]
      | false =>
          have characters : (branch [] false label).text.toList =
              '├' :: '─' :: '─' :: ' ' :: label.toList := by
            rw [text, String.toList_append]
            rfl
          rw [characters, read, String.ofList_toList]
  | cons first around induction =>
      rw [text_cons, String.toList_append]
      cases first with
      | true => exact congrArg (within true) induction
      | false => exact congrArg (within false) induction

theorem read_text {row : Row} (titled : row.Titled) : read row.text.toList = row := by
  cases row with
  | branch around last label => exact read_branch around last label
  | header label =>
      rw [text]
      rw [Titled] at titled
      cases characters : label.toList with
      | nil =>
          rw [characters] at titled
          cases titled
      | cons first rest =>
          have known : Text.isIdentifierChar first := by
            rw [characters] at titled
            exact titled
          have others : first ≠ ' ' ∧ first ≠ '│' ∧ first ≠ '└' ∧ first ≠ '├' := by
            refine ⟨?_, ?_, ?_, ?_⟩ <;> rintro rfl <;> exact absurd known (by decide)
          rw [← String.ofList_toList (s := label), characters, read.eq_def]
          split <;> simp_all

end Row

namespace Outline

def rows (around : List Bool) : Outline String → List Row
  | empty => []
  | entry label nested next =>
      .branch around next.isEmpty label ::
        (nested.rows (around ++ [next.isEmpty]) ++ next.rows around)

def titledRows : Outline String → List Row
  | empty => []
  | entry label nested next => .header label :: (nested.rows [] ++ next.titledRows)

theorem label_rows (outline : Outline String) (around : List Bool) :
    (outline.rows around).map Row.label = outline.items := by
  induction outline generalizing around with
  | empty => rfl
  | entry label nested next nestedInduction nextInduction =>
      rw [rows, items, List.map_cons, List.map_append, nestedInduction, nextInduction]
      rfl

theorem label_titledRows (outline : Outline String) :
    outline.titledRows.map Row.label = outline.items := by
  induction outline with
  | empty => rfl
  | entry label nested next _ induction =>
      rw [titledRows, items, List.map_cons, List.map_append, label_rows, induction]
      rfl

theorem titled_of_mem_rows {row : Row} (outline : Outline String) {around : List Bool}
    (member : row ∈ outline.rows around) : row.Titled := by
  induction outline generalizing around with
  | empty => cases member
  | entry label nested next nestedInduction nextInduction =>
      rcases List.mem_cons.mp member with rfl | member
      · trivial
      · rcases List.mem_append.mp member with inside | behind
        · exact nestedInduction inside
        · exact nextInduction behind

/-! ## Rebuilding -/

/-- Put a row in front of the outlines that follow it, one for each depth. What follows one level
deeper is nested in the row. -/
def place (row : Row) (levels : Nat → Outline String) (depth : Nat) : Outline String :=
  if depth = row.depth then entry row.label (levels (row.depth + 1)) (levels row.depth)
  else if depth = row.depth + 1 then empty
  else levels depth

def ofRows (rows : List Row) : Outline String :=
  rows.foldr place (fun _ => empty) 0

/-- A row takes what follows it one level deeper into it, and what follows it at its own depth
behind it. -/
theorem place_update (row : Row) {levels : Nat → Outline String} {nested next : Outline String}
    (below : levels (row.depth + 1) = empty) :
    place row (Function.update (Function.update levels row.depth next) (row.depth + 1) nested) =
      Function.update levels row.depth (entry row.label nested next) := by
  funext depth
  rw [place]
  split
  · next same =>
      rw [same, Function.update_self, Function.update_self, Function.update_of_ne (by omega),
        Function.update_self]
  · next other =>
      rw [Function.update_of_ne other]
      split
      · next deeper => rw [deeper, below]
      · next elsewhere => rw [Function.update_of_ne elsewhere, Function.update_of_ne other]

theorem foldr_place_rows (outline : Outline String) : ∀ {around : List Bool}
    {levels : Nat → Outline String}, (∀ depth, around.length < depth → levels depth = empty) →
      (outline.rows around).foldr place levels =
        Function.update levels (around.length + 1) outline := by
  induction outline with
  | empty =>
      intro around levels below
      rw [rows, List.foldr_nil, ← below (around.length + 1) (Nat.lt_succ_self _),
        Function.update_eq_self]
  | entry label nested next nestedInduction nextInduction =>
      intro around levels below
      have inside : ∀ depth, (around ++ [next.isEmpty]).length < depth →
          Function.update levels (around.length + 1) next depth = empty := by
        intro depth deeper
        rw [List.length_append, List.length_singleton] at deeper
        rw [Function.update_of_ne (by omega), below depth (by omega)]
      rw [rows, List.foldr_cons, List.foldr_append, nextInduction below, nestedInduction inside,
        List.length_append, List.length_singleton]
      exact place_update (.branch around next.isEmpty label)
        (below _ (Nat.lt_succ_of_lt (Nat.lt_succ_self _)))

theorem foldr_place_titledRows (outline : Outline String) :
    outline.titledRows.foldr place (fun _ => empty) =
      Function.update (fun _ => empty) 0 outline := by
  induction outline with
  | empty => exact (Function.update_eq_self 0 _).symm
  | entry label nested next _ induction =>
      have inside : ∀ depth, ([] : List Bool).length < depth →
          Function.update (fun _ => empty) 0 next depth = empty := by
        intro depth deeper
        exact Function.update_of_ne (Nat.ne_of_gt deeper) _ _
      rw [titledRows, List.foldr_cons, List.foldr_append, induction, foldr_place_rows nested inside]
      exact place_update (.header label) rfl

/-- An outline can be rebuilt from its rows. -/
theorem ofRows_titledRows (outline : Outline String) : ofRows outline.titledRows = outline := by
  rw [ofRows, foldr_place_titledRows, Function.update_self]

end Outline

end FlowCompiler
