import BoolQuery.Text.Basic

/-!
# Dialects

A dialect fixes the spelling of the query language: eight special characters and a keyword
for each boolean operator. Everything that reads or writes queries takes the dialect as an
argument, so nothing in the language depends on a particular character.

## Main definitions

* `Operator`: the three boolean operators.
* `BracketPair`, `BracketSide`, `BracketKind`, `Bracket`: pairs of characters, their two sides,
  the classes of brackets, and a character read as a bracket.
* `Dialect`: the special characters and keywords, and `Dialect.standard`, the usual ones.
* `Dialect.bracket?`: what a character is as a bracket.
* `Dialect.keywordAt?`: the operator whose keyword stands at the front of a text as a word.

## Main results

* `Dialect.afterKeyword?_eq_some_iff`: when a keyword stands at the front of a text.
* `Dialect.length_lt_of_keywordAt?`: passing over a keyword leaves less to read.
-/

namespace BoolQuery

/-- A boolean operator. -/
inductive Operator where
  /-- Conjunction. -/
  | and
  /-- Disjunction. -/
  | or
  /-- Negation. -/
  | not
deriving DecidableEq, Repr

/-- The operators, in the order in which their keywords are examined. -/
def Operator.all : List Operator := [.and, .or, .not]

/-- There are no other operators. -/
theorem Operator.mem_all (op : Operator) : op ∈ Operator.all := by
  cases op <;> decide

/-- The name of an operator in displays and messages: its keyword in the standard dialect. -/
def Operator.name : Operator → Text
  | .and => "AND".toList
  | .or => "OR".toList
  | .not => "NOT".toList

/-- An opening and a closing character. -/
structure BracketPair where
  /-- The opening character. -/
  opening : Char
  /-- The closing character. -/
  closing : Char
deriving DecidableEq, Repr

/-- The two sides of a pair of brackets. -/
inductive BracketSide where
  /-- The opening side. -/
  | opening
  /-- The closing side. -/
  | closing
deriving DecidableEq, Repr

/-- The side of a pair that a character is, the opening one if it is both. -/
def BracketPair.side? (p : BracketPair) (c : Char) : Option BracketSide :=
  if c = p.opening then some .opening else if c = p.closing then some .closing else none

/-- The three classes of brackets. -/
inductive BracketKind where
  /-- Parentheses around a part of the query. -/
  | group
  /-- Brackets around the operator of a field, as in `title[exact]:guide`. -/
  | fieldOperator
  /-- Brackets around the modifier of a field, as in `title{lower}:guide`. -/
  | modifier
deriving DecidableEq, Repr

/-- The classes in the order in which a character is looked up in them. -/
def BracketKind.all : List BracketKind := [.group, .fieldOperator, .modifier]

/-- There are no other classes. -/
theorem BracketKind.mem_all (kind : BracketKind) : kind ∈ BracketKind.all := by
  cases kind <;> decide

/-- A character read as a bracket. -/
structure Bracket where
  /-- Its class. -/
  kind : BracketKind
  /-- Its side. -/
  side : BracketSide
deriving DecidableEq, Repr

/-- The keywords of the three operators. -/
structure Keywords where
  /-- The keyword for conjunction. -/
  and : Text
  /-- The keyword for disjunction. -/
  or : Text
  /-- The keyword for negation. -/
  not : Text
deriving DecidableEq, Repr

/-- The spelling of the query language. -/
structure Dialect where
  /-- Stands between a field specification and its value. -/
  fieldDelimiter : Char
  /-- Stands on both sides of a literal phrase. -/
  quote : Char
  /-- Parentheses around a part of the query. -/
  group : BracketPair
  /-- Brackets around the operator of a field. -/
  fieldOperator : BracketPair
  /-- Brackets around the modifier of a field. -/
  modifier : BracketPair
  /-- The keywords of the operators. -/
  keywords : Keywords
deriving DecidableEq, Repr

namespace Dialect

/-- The usual spelling: `(a OR "b c") AND NOT title{lower}[exact]:guide`. -/
def standard : Dialect where
  fieldDelimiter := ':'
  quote := '"'
  group := ⟨'(', ')'⟩
  fieldOperator := ⟨'[', ']'⟩
  modifier := ⟨'{', '}'⟩
  keywords := ⟨Operator.and.name, Operator.or.name, Operator.not.name⟩

instance : Inhabited Dialect := ⟨standard⟩

/-- The keyword of an operator. -/
def keyword (d : Dialect) : Operator → Text
  | .and => d.keywords.and
  | .or => d.keywords.or
  | .not => d.keywords.not

/-- The pair of a class of brackets. -/
def pair (d : Dialect) : BracketKind → BracketPair
  | .group => d.group
  | .fieldOperator => d.fieldOperator
  | .modifier => d.modifier

/-- The special characters in the order of their roles: the three pairs, each opening side
first, then the field delimiter and the quote. -/
def specials (d : Dialect) : List Char :=
  [d.group.opening, d.group.closing, d.fieldOperator.opening, d.fieldOperator.closing,
    d.modifier.opening, d.modifier.closing, d.fieldDelimiter, d.quote]

/-! ### Classes of characters -/

/-- What a character is as a bracket, in the first class that has it. -/
def bracket? (d : Dialect) (c : Char) : Option Bracket :=
  BracketKind.all.findSome? fun kind => ((d.pair kind).side? c).map (Bracket.mk kind)

/-- True for the two grouping characters. -/
def isGrouping (d : Dialect) (c : Char) : Bool :=
  c = d.group.opening || c = d.group.closing

/-- True for the four characters around field operators and modifiers. -/
def isFieldBracket (d : Dialect) (c : Char) : Bool :=
  c = d.fieldOperator.opening || c = d.fieldOperator.closing
    || c = d.modifier.opening || c = d.modifier.closing

/-- True for the characters that a keyword may stand before: white space, the grouping
characters and the quote. -/
def endsWord (d : Dialect) (c : Char) : Bool :=
  Text.isBlank c || d.isGrouping c || c = d.quote

/-! ### Keywords at the front of a text -/

/-- The text after the keyword of `op`, when `t` begins with that keyword as a whole word:
the keyword is followed by the end of the text or by a character that ends a word. An empty
keyword stands nowhere. -/
def afterKeyword? (d : Dialect) (t : Text) (op : Operator) : Option Text :=
  match d.keyword op with
  | [] => none
  | k :: ks => (Text.after? t (k :: ks)).filter fun rest => rest.head?.all d.endsWord

/-- The operator whose keyword stands at the front of `t` as a whole word, with the text
after the keyword; the longest keyword, if there are several. -/
def keywordAt? (d : Dialect) (t : Text) : Option (Operator × Text) :=
  (Operator.all.filterMap fun op => (d.afterKeyword? t op).map (op, ·)).maxOn?
    fun found => Text.byteSize (d.keyword found.1)

/-- A keyword found at the front of a text is that text's front, is not empty, and is
followed by the end of the text or by a character that ends a word. -/
theorem afterKeyword?_eq_some_iff {d : Dialect} {t rest : Text} {op : Operator} :
    d.afterKeyword? t op = some rest ↔
      d.keyword op ≠ [] ∧ t = d.keyword op ++ rest ∧ rest.head?.all d.endsWord = true := by
  unfold afterKeyword?
  split
  · next h => simp [h]
  · next k ks h =>
    rw [h, Option.filter_eq_some_iff, Text.after?_eq_some_iff]
    simp

/-- What `keywordAt?` finds is a keyword at the front of the text. -/
theorem afterKeyword?_of_keywordAt? {d : Dialect} {t rest : Text} {op : Operator}
    (h : d.keywordAt? t = some (op, rest)) : d.afterKeyword? t op = some rest := by
  have hmem := List.maxOn?_mem h
  simp only [List.mem_filterMap, Option.map_eq_some_iff, Prod.mk.injEq] at hmem
  obtain ⟨_, _, _, hrest, rfl, rfl⟩ := hmem
  exact hrest

/-- Passing over a keyword leaves less to read. -/
theorem length_lt_of_keywordAt? {d : Dialect} {t rest : Text} {op : Operator}
    (h : d.keywordAt? t = some (op, rest)) : rest.length < t.length := by
  obtain ⟨hne, rfl, _⟩ := afterKeyword?_eq_some_iff.1 (afterKeyword?_of_keywordAt? h)
  have := List.length_pos_iff.2 hne
  simp only [List.length_append]
  omega

end Dialect

end BoolQuery
