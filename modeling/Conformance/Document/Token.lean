import Conformance.Document.Basic
import Conformance.Numeral.Decimal

/-!
# Tokens of a document

A JSON text is read one character at a time by an automaton: `Lexer.step` takes one
character, `tokens` runs it over a text.  The automaton is between tokens, inside a
number or a word, or inside a text, where escapes are decoded as they come.  It knows the
place of the character, for the defects it finds.
-/

namespace Conformance.Document

/-- A token: punctuation or a value without parts. -/
inductive Token where
  | openBrace
  | closeBrace
  | openBracket
  | closeBracket
  | colon
  | comma
  | leaf (value : Document)

/-- The part of a text read so far: its characters, last first, the high surrogate that
waits for its partner, and the first defect. -/
structure PartialText where
  characters : List Char := []
  surrogate : Option Nat := none
  defect : Option Defect := none

namespace PartialText

/-- The first defect, where `next` is the one that a waiting surrogate leaves. -/
def settle (t : PartialText) (next : Defect) : Option Defect :=
  t.defect.or (t.surrogate.map fun _ => next)

/-- A character after the part read so far, at the given place. -/
def push (t : PartialText) (place : Place) (c : Char) : PartialText :=
  ⟨c :: t.characters, none, t.settle (.noPartner place)⟩

/-- An escaped UTF-16 unit after the part read so far, whose last digit is at the given
place. -/
def pushUnit (t : PartialText) (place : Place) (unit : Nat) : PartialText :=
  if 0xDC00 ≤ unit ∧ unit < 0xE000 then
    match t.surrogate with
    | some high =>
      ⟨Char.ofNat (0x10000 + (high - 0xD800) * 0x400 + (unit - 0xDC00)) :: t.characters,
        none, t.defect⟩
    | none => ⟨t.characters, none, t.defect.or (some (.unpaired place))⟩
  else if 0xD800 ≤ unit ∧ unit < 0xDC00 then
    ⟨t.characters, some unit, t.settle (.unpaired place)⟩
  else ⟨Char.ofNat unit :: t.characters, none, t.settle (.unpaired place)⟩

/-- The value of a text whose closing quote is at the given place. -/
def finish (t : PartialText) (place : Place) : Document :=
  match t.settle (.noPartner place) with
  | some defect => .garbled defect
  | none => .text (String.ofList t.characters.reverse)

end PartialText

/-- What the automaton is in the middle of. -/
inductive Mode where
  | between
  /-- A number or a word, where it starts and its characters, last first. -/
  | bare (start : Place) (characters : List Char)
  | quoted (part : PartialText)
  | escape (part : PartialText)
  /-- A Unicode escape: the digits still to come and the value of those read. -/
  | unicode (part : PartialText) (left : Nat) (value : Nat)

/-- The state of the automaton: its mode, the tokens read, last first, and the place of
the next character. -/
structure Lexer where
  mode : Mode := .between
  tokens : List Token := []
  place : Place := {}

/-- The digits a text starts with, and the rest. -/
def spanDigits (cs : List Char) : List Char × List Char := cs.span Char.isDigit

/-- The exponent of a number: nothing, or `e` with an optional sign and digits. -/
def exponentPart? : List Char → Option (Option Int)
  | [] => some none
  | c :: cs =>
    if c = 'e' ∨ c = 'E' then
      match cs with
      | '-' :: rest => (Numeral.plainDigits? rest).map fun n => some (-(n : Int))
      | '+' :: rest => (Numeral.plainDigits? rest).map fun n => some n
      | rest => (Numeral.plainDigits? rest).map fun n => some n
    else none

/-- The digits after the point of a number, if it has one, and the rest. -/
def places? : List Char → Option (Option (List Char) × List Char)
  | '.' :: cs =>
    let (places, rest) := spanDigits cs
    if places = [] then none else some (some places, rest)
  | cs => some (none, cs)

/-- The number with the given sign, integer part, places and exponent. -/
def numberOf (negative : Bool) (whole : List Char) (places : Option (List Char))
    (exponent : Option Int) : Option Document := do
  let magnitude ← Numeral.plainDigits? (whole ++ places.getD [])
  let value : Int := if negative then -magnitude else magnitude
  if places.isNone && exponent.isNone && !(negative && magnitude == 0) then
    return .integer value
  else
    return .real value (exponent.getD 0 - (places.getD []).length)

/-- The number that a text spells. -/
def number? (cs : List Char) : Option Document := do
  let (negative, body) := match cs with
    | '-' :: rest => (true, rest)
    | _ => (false, cs)
  let (whole, rest) := spanDigits body
  if whole = [] ∨ (whole.head? = some '0' ∧ whole.length ≠ 1) then none
  else
    let (places, rest) ← places? rest
    let exponent ← exponentPart? rest
    numberOf negative whole places exponent

/-- The value that a bare word spells. -/
def bare? (cs : List Char) : Option Document :=
  if cs = ['n', 'u', 'l', 'l'] then some .null
  else if cs = ['t', 'r', 'u', 'e'] then some (.boolean true)
  else if cs = ['f', 'a', 'l', 's', 'e'] then some (.boolean false)
  else number? cs

/-- The value that a bare word spells, given where it starts.  A word that is no value is
no number after its sign if it has one. -/
def bareAt (start : Place) (cs : List Char) : Except Defect Document :=
  match bare? cs with
  | some d => return d
  | none =>
    if cs.head? = some '-' then throw (.noNumber (start.after '-'))
    else throw (.noValue start)

/-- The value of a hexadecimal digit. -/
def hexDigit? (c : Char) : Option Nat :=
  if c.isDigit then some (c.toNat - '0'.toNat)
  else if 'a' ≤ c ∧ c ≤ 'f' then some (c.toNat - 'a'.toNat + 10)
  else if 'A' ≤ c ∧ c ≤ 'F' then some (c.toNat - 'A'.toNat + 10)
  else none

/-- The character that a short escape stands for. -/
def shortEscape? : Char → Option Char
  | '\x22' => some '\x22'
  | '\\' => some '\\'
  | '/' => some '/'
  | 'b' => some '\x08'
  | 'f' => some '\x0C'
  | 'n' => some '\n'
  | 'r' => some '\r'
  | 't' => some '\t'
  | _ => none

namespace Lexer

/-- What a character at the given place starts or adds between two tokens. -/
def between (tokens : List Token) (place : Place) (c : Char) : Mode × List Token :=
  match c with
  | '\x7b' => (.between, .openBrace :: tokens)
  | '\x7d' => (.between, .closeBrace :: tokens)
  | '[' => (.between, .openBracket :: tokens)
  | ']' => (.between, .closeBracket :: tokens)
  | ':' => (.between, .colon :: tokens)
  | ',' => (.between, .comma :: tokens)
  | '\x22' => (.quoted {}, tokens)
  | ' ' | '\t' | '\n' | '\r' => (.between, tokens)
  | _ => (.bare place [c], tokens)

/-- Whether a character ends a bare word. -/
def endsBare (c : Char) : Bool :=
  match (between [] {} c).1 with
  | .bare .. => false
  | _ => true

/-- The mode and the tokens after one character. -/
def advance (l : Lexer) (c : Char) : Except Defect (Mode × List Token) :=
  match l.mode with
  | .between => return between l.tokens l.place c
  | .bare start word =>
    if endsBare c then
      return between (.leaf (← bareAt start word.reverse) :: l.tokens) l.place c
    else return (.bare start (c :: word), l.tokens)
  | .quoted part =>
    if c = '\x22' then return (.between, .leaf (part.finish l.place) :: l.tokens)
    else if c = '\\' then return (.escape part, l.tokens)
    else if c.toNat < 0x20 then throw .ungrammatical
    else return (.quoted (part.push l.place c), l.tokens)
  | .escape part =>
    if c = 'u' then return (.unicode part 4 0, l.tokens)
    else
      match shortEscape? c with
      | some d => return (.quoted (part.push l.place d), l.tokens)
      | none => throw .ungrammatical
  | .unicode part left value =>
    match hexDigit? c with
    | some d =>
      let value := 16 * value + d
      if left = 1 then return (.quoted (part.pushUnit l.place value), l.tokens)
      else return (.unicode part (left - 1) value, l.tokens)
    | none => throw .ungrammatical

/-- One character. -/
def step (l : Lexer) (c : Char) : Except Defect Lexer := do
  let (mode, tokens) ← l.advance c
  return ⟨mode, tokens, l.place.after c⟩

/-- The tokens of a finished text. -/
def finish (l : Lexer) : Except Defect (List Token) :=
  match l.mode with
  | .between => return l.tokens.reverse
  | .bare start word => return (.leaf (← bareAt start word.reverse) :: l.tokens).reverse
  | _ => throw .ungrammatical

end Lexer

/-- The tokens of a text, or the first defect that keeps it from having some. -/
def tokens (cs : List Char) : Except Defect (List Token) := do
  (← cs.foldlM Lexer.step {}).finish

end Conformance.Document
