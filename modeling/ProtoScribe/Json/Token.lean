import ProtoScribe.Json.Number
import ProtoScribe.Json.StringLiteral

/-!
# JSON tokens

The pieces of a JSON text, each with the offsets where it starts and stops. `next` takes the first
piece of a text; what it leaves is shorter, so that taking pieces ends.
-/

namespace ProtoScribe.Json

/-- A value that is spelled as a word. -/
inductive Word where
  | null
  | yes
  | no
  deriving DecidableEq, Repr, Inhabited

/-- The letters of a word. -/
def Word.spelling : Word → String
  | .null => "null"
  | .yes => "true"
  | .no => "false"

/-- The kinds of tokens. -/
inductive TokenKind where
  | openArray
  | closeArray
  | openObject
  | closeObject
  | comma
  | colon
  | word (w : Word)
  /-- A word that goes wrong after its first letter. -/
  | brokenWord (w : Word) (fault : Fault)
  | number (literal : Literal Number)
  | string (literal : Literal String)
  /-- A character that begins nothing. -/
  | stray
  deriving Repr, Inhabited

/-- A piece of a text. -/
structure Token where
  kind : TokenKind
  start : Nat
  stop : Nat
  deriving Repr, Inhabited

namespace Token

/-- Blank characters may stand between tokens. -/
def isBlank (c : Char) : Bool := c = ' ' || c = '\n' || c = '\t' || c = '\r'

/-- The text after its leading blanks, with its offset. -/
def skipBlanks (offset : Nat) : List Char → Nat × List Char
  | [] => (offset, [])
  | c :: cs => if isBlank c then skipBlanks (offset + 1) cs else (offset, c :: cs)

/-- Checks that a text goes on with the given letters. A text that ends too early counts as a
missing value. -/
def spells (length offset : Nat) : List Char → List Char → Option Fault
  | [], _ => none
  | _ :: _, [] => some ⟨.endInValue, length⟩
  | l :: ls, c :: cs => if l = c then spells length (offset + 1) ls cs else some ⟨.wordExpected, offset + 1⟩

/-- The kind of token that begins with `c`, the offset after it and the rest of the text. -/
def read (length start : Nat) (c : Char) (cs : List Char) : TokenKind × Nat × List Char :=
  let word (w : Word) : TokenKind × Nat × List Char :=
    let letters := w.spelling.toList
    match spells length (start + 1) letters.tail cs with
    | some fault => (.brokenWord w fault, start + 1, cs)
    | none => (.word w, start + letters.length, cs.drop (letters.length - 1))
  match c with
  | '[' => (.openArray, start + 1, cs)
  | ']' => (.closeArray, start + 1, cs)
  | '{' => (.openObject, start + 1, cs)
  | '}' => (.closeObject, start + 1, cs)
  | ',' => (.comma, start + 1, cs)
  | ':' => (.colon, start + 1, cs)
  | 'n' => word .null
  | 't' => word .yes
  | 'f' => word .no
  | '"' =>
    let (literal, rest) := StringLiteral.scan length (start + 1) cs
    (.string literal, literal.stop, rest)
  | '-' =>
    let (digits, rest) := Number.spanDigits cs
    let (literal, rest) := Number.scanWhole length (start + 1) true digits rest
    (.number literal, literal.stop, rest)
  | c =>
    if c.isDigit then
      let (digits, rest) := Number.spanDigits cs
      let (literal, rest) := Number.scanWhole length start false (c :: digits) rest
      (.number literal, literal.stop, rest)
    else (.stray, start + c.utf8Size, cs)

/-- A token leaves no more than what follows its first character. -/
theorem length_read (length start : Nat) (c : Char) (cs : List Char) :
    (read length start c cs).2.2.length ≤ cs.length := by
  have hs := StringLiteral.length_scanFrom length (start + 1) {} cs
  have hd := Number.length_spanDigits cs
  have hn := Number.length_scanWhole length (start + 1) true (Number.spanDigits cs).1 (Number.spanDigits cs).2
  have hu (c : Char) :=
    Number.length_scanWhole length start false (c :: (Number.spanDigits cs).1) (Number.spanDigits cs).2
  have hw (letters : List Char) : (cs.drop (letters.length - 1)).length ≤ cs.length := by
    simp only [List.length_drop]
    omega
  unfold read
  split <;> dsimp only
  all_goals first
    | exact Nat.le_refl _
    | exact hs
    | exact Nat.le_trans hn hd
    | (split <;> first | exact Nat.le_refl _ | exact hw _ | exact Nat.le_trans (hu _) hd)

/-- The first token of a text that starts at `offset`, the offset after it, and the rest. -/
def next (length offset : Nat) (cs : List Char) : Option (Token × List Char) :=
  match skipBlanks offset cs with
  | (_, []) => none
  | (start, c :: cs) =>
    let (kind, stop, rest) := read length start c cs
    some (⟨kind, start, stop⟩, rest)

theorem length_skipBlanks (offset : Nat) (cs : List Char) :
    (skipBlanks offset cs).2.length ≤ cs.length := by
  induction cs generalizing offset with
  | nil => exact Nat.le_refl _
  | cons c cs ih =>
    unfold skipBlanks
    split
    · exact Nat.le_succ_of_le (ih _)
    · exact Nat.le_refl _

/-- Taking a token makes the text shorter. -/
theorem length_next {length offset : Nat} {cs rest : List Char} {t : Token}
    (h : next length offset cs = some (t, rest)) : rest.length < cs.length := by
  have hb := length_skipBlanks offset cs
  unfold next at h
  split at h
  · cases h
  · next start c cs' hc =>
    rw [hc] at hb
    have hr := length_read length start c cs'
    cases h
    exact Nat.lt_of_le_of_lt hr hb

end Token

end ProtoScribe.Json
