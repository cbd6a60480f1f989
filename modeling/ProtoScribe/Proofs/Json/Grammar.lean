import Mathlib.Data.List.Forall2

/-!
# The grammar of JSON

What a text spells, by rules that say nothing about how it is read: a datum, which is a value with
its numbers as they are spelled, its strings as the characters that they mean, and the members of
its objects in order, with whatever keys occur twice.

The rules are those of the standard, except that an escape has to mean a character: a surrogate
stands for nothing by itself.
-/

namespace ProtoScribe.Json

/-! ## Blanks -/

/-- Characters that mean nothing between tokens. -/
def Blank (cs : List Char) : Prop := ∀ c ∈ cs, c ∈ [' ', '\t', '\n', '\r']

/-- A text with blanks around it. -/
def Padded (P : List Char → Prop) (cs : List Char) : Prop :=
  ∃ before body after, Blank before ∧ P body ∧ Blank after ∧ cs = before ++ body ++ after

/-! ## Numbers -/

/-- One digit or more. -/
def IsDigits (cs : List Char) : Prop := cs ≠ [] ∧ ∀ c ∈ cs, c.isDigit = true

/-- Digits of which a first one that is zero stands alone. -/
structure IsWhole (cs : List Char) : Prop where
  digits : IsDigits cs
  leadingZero : ∀ ds, cs = '0' :: ds → ds = []

/-- A point with digits after it, or nothing. -/
inductive IsFraction : List Char → Prop where
  | none : IsFraction []
  | point {ds : List Char} : IsDigits ds → IsFraction ('.' :: ds)

/-- The letter of an exponent, a sign that may be missing, and digits, or nothing. -/
inductive IsExponent : List Char → Prop where
  | none : IsExponent []
  | letter {e : Char} {sign ds : List Char} : e ∈ ['e', 'E'] → sign ∈ [[], ['+'], ['-']] →
    IsDigits ds → IsExponent (e :: sign ++ ds)

/-- A number as it is spelled. -/
structure Numeral where
  negative : Bool
  whole : List Char
  fraction : List Char := []
  exponent : List Char := []
  isWhole : IsWhole whole
  isFraction : IsFraction fraction := by exact .none
  isExponent : IsExponent exponent := by exact .none

namespace Numeral

/-- The characters of a number. -/
def text (n : Numeral) : List Char :=
  (if n.negative then ['-'] else []) ++ n.whole ++ n.fraction ++ n.exponent

/-- The number that the digits before a fraction and an exponent spell. -/
def magnitude (n : Numeral) : Nat := Nat.ofDigitChars 10 n.whole 0

/-- The integer that a number means if it is spelled as one. Zero has no sign. -/
def integer? (n : Numeral) : Option Int :=
  if n.fraction = [] ∧ n.exponent = [] ∧ ¬(n.negative = true ∧ n.whole = ['0']) then
    some (if n.negative then -n.magnitude else n.magnitude)
  else none

end Numeral

/-! ## Strings -/

/-- The digits of a UTF-16 unit, of which those that are letters may be capital. -/
def hexDigits : List Char :=
  ['0', '1', '2', '3', '4', '5', '6', '7', '8', '9', 'a', 'b', 'c', 'd', 'e', 'f']

/-- A digit with its value. -/
def IsHexDigit (c : Char) (value : Nat) : Prop := hexDigits[value]? = some c.toLower

/-- Four digits and the UTF-16 unit that they spell. -/
inductive SpellsUnit : List Char → Nat → Prop where
  | digits {a b c d : Char} {i j k l : Nat} : IsHexDigit a i → IsHexDigit b j → IsHexDigit c k →
    IsHexDigit d l → SpellsUnit [a, b, c, d] (((i * 16 + j) * 16 + k) * 16 + l)

/-- The letters that make an escape with a backslash, and what each stands for. -/
def shortEscapes : List (Char × Char) :=
  [('"', '"'), ('\\', '\\'), ('/', '/'), ('b', '\x08'), ('f', '\x0c'), ('n', '\n'), ('r', '\r'),
    ('t', '\t')]

/-- What stands between two quotes, and the characters that it means. -/
inductive SpellsChars : List Char → List Char → Prop where
  | nil : SpellsChars [] []
  /-- Whatever is neither a quote nor a backslash nor a control character stands for itself. -/
  | plain {c : Char} {cs s : List Char} : c ≠ '"' → c ≠ '\\' → 0x20 ≤ c.toNat →
    SpellsChars cs s → SpellsChars (c :: cs) (c :: s)
  | short {l c : Char} {cs s : List Char} : (l, c) ∈ shortEscapes → SpellsChars cs s →
    SpellsChars ('\\' :: l :: cs) (c :: s)
  /-- A unit that is a character. -/
  | unit {ds : List Char} {c : Char} {cs s : List Char} : SpellsUnit ds c.toNat →
    SpellsChars cs s → SpellsChars ('\\' :: 'u' :: (ds ++ cs)) (c :: s)
  /-- A high and a low surrogate, which make a character together. -/
  | pair {hs ls : List Char} {high low : Nat} {c : Char} {cs s : List Char} :
    SpellsUnit hs high → SpellsUnit ls low → 0xD800 ≤ high → high < 0xDC00 → 0xDC00 ≤ low →
    low < 0xE000 → c.toNat = 0x10000 + (high - 0xD800) * 0x400 + (low - 0xDC00) →
    SpellsChars cs s → SpellsChars ('\\' :: 'u' :: (hs ++ '\\' :: 'u' :: (ls ++ cs))) (c :: s)

/-- A string between its quotes. -/
def SpellsString (cs : List Char) (s : String) : Prop :=
  ∃ body, SpellsChars body s.toList ∧ cs = '"' :: body ++ ['"']

/-! ## Values -/

/-- What a text can spell. -/
inductive Datum where
  | null
  | flag (value : Bool)
  | number (numeral : Numeral)
  | string (value : String)
  | array (items : List Datum)
  | object (members : List (String × Datum))

mutual

/-- A text and the datum that it spells. -/
inductive Spells : List Char → Datum → Prop where
  | null : Spells "null".toList .null
  | yes : Spells "true".toList (.flag true)
  | no : Spells "false".toList (.flag false)
  | number (n : Numeral) : Spells n.text (.number n)
  | string {cs : List Char} {s : String} : SpellsString cs s → Spells cs (.string s)
  | emptyArray {bs : List Char} : Blank bs → Spells ('[' :: bs ++ [']']) (.array [])
  | array {cs : List Char} {ds : List Datum} : SpellsItems cs ds →
    Spells ('[' :: cs ++ [']']) (.array ds)
  | emptyObject {bs : List Char} : Blank bs → Spells ('{' :: bs ++ ['}']) (.object [])
  | object {cs : List Char} {ms : List (String × Datum)} : SpellsMembers cs ms →
    Spells ('{' :: cs ++ ['}']) (.object ms)

/-- The items of an array, with commas between them. -/
inductive SpellsItems : List Char → List Datum → Prop where
  | last {before cs after : List Char} {d : Datum} : Blank before → Spells cs d → Blank after →
    SpellsItems (before ++ cs ++ after) [d]
  | cons {before cs after rest : List Char} {d : Datum} {ds : List Datum} : Blank before →
    Spells cs d → Blank after → SpellsItems rest ds →
    SpellsItems (before ++ cs ++ after ++ ',' :: rest) (d :: ds)

/-- The members of an object: keys and values with colons between them, and commas around that. -/
inductive SpellsMembers : List Char → List (String × Datum) → Prop where
  | last {key before cs after : List Char} {k : String} {d : Datum} :
    Padded (SpellsString · k) key → Blank before → Spells cs d → Blank after →
    SpellsMembers (key ++ ':' :: (before ++ cs ++ after)) [(k, d)]
  | cons {key before cs after rest : List Char} {k : String} {d : Datum}
    {ms : List (String × Datum)} : Padded (SpellsString · k) key → Blank before → Spells cs d →
    Blank after → SpellsMembers rest ms →
    SpellsMembers (key ++ ':' :: (before ++ cs ++ after ++ ',' :: rest)) ((k, d) :: ms)

end

/-- A whole text: one value and blanks. -/
def SpellsText (text : String) (d : Datum) : Prop := Padded (Spells · d) text.toList

/-! ### Texts without blanks -/

theorem blank_nil : Blank [] := by
  intro c hc
  cases hc

theorem Padded.of_body {P : List Char → Prop} {cs : List Char} (h : P cs) : Padded P cs :=
  ⟨[], cs, [], blank_nil, h, blank_nil, by simp⟩

theorem SpellsItems.single {cs : List Char} {d : Datum} (h : Spells cs d) : SpellsItems cs [d] := by
  have hitem := SpellsItems.last blank_nil h blank_nil
  rwa [List.nil_append, List.append_nil] at hitem

theorem SpellsItems.comma {cs rest : List Char} {d : Datum} {ds : List Datum} (h : Spells cs d)
    (hrest : SpellsItems rest ds) : SpellsItems (cs ++ ',' :: rest) (d :: ds) := by
  have hitems := SpellsItems.cons blank_nil h blank_nil hrest
  rwa [List.nil_append, List.append_nil] at hitems

theorem SpellsMembers.single {key cs : List Char} {k : String} {d : Datum} (hk : SpellsString key k)
    (h : Spells cs d) : SpellsMembers (key ++ ':' :: cs) [(k, d)] := by
  have hmember := SpellsMembers.last (.of_body hk) blank_nil h blank_nil
  rwa [List.nil_append, List.append_nil] at hmember

theorem SpellsMembers.comma {key cs rest : List Char} {k : String} {d : Datum}
    {ms : List (String × Datum)} (hk : SpellsString key k) (h : Spells cs d)
    (hrest : SpellsMembers rest ms) :
    SpellsMembers (key ++ ':' :: (cs ++ ',' :: rest)) ((k, d) :: ms) := by
  have hmembers := SpellsMembers.cons (.of_body hk) blank_nil h blank_nil hrest
  rwa [List.nil_append, List.append_nil] at hmembers

/-- Text without quotes, backslashes and control characters stands for itself. -/
theorem spellsString_of_plain (s : String)
    (h : s.toList.all (fun c => c ≠ '"' ∧ c ≠ '\\' ∧ 0x20 ≤ c.toNat) = true) :
    SpellsString ('"' :: s.toList ++ ['"']) s := by
  refine ⟨s.toList, ?_, rfl⟩
  generalize s.toList = cs at h
  induction cs with
  | nil => exact .nil
  | cons c cs ih =>
    rw [List.all_cons, Bool.and_eq_true, decide_eq_true_eq] at h
    obtain ⟨⟨hquote, hbackslash, hcontrol⟩, hcs⟩ := h
    exact .plain hquote hbackslash hcontrol (ih hcs)

/-! ## Nesting -/

mutual

/-- How many arrays and objects nest in a datum. -/
def Datum.nesting : Datum → Nat
  | .array ds => nestingOfItems ds + 1
  | .object ms => nestingOfMembers ms + 1
  | _ => 0

/-- How many nest in one of some items. -/
def nestingOfItems : List Datum → Nat
  | [] => 0
  | d :: ds => max d.nesting (nestingOfItems ds)

/-- How many nest in one of some values. -/
def nestingOfMembers : List (String × Datum) → Nat
  | [] => 0
  | (_, d) :: ms => max d.nesting (nestingOfMembers ms)

end

theorem nesting_le_nestingOfItems {d : Datum} : ∀ {ds : List Datum}, d ∈ ds →
    d.nesting ≤ nestingOfItems ds
  | d' :: ds, h => by
    rw [nestingOfItems]
    rcases List.mem_cons.mp h with rfl | h
    · exact Nat.le_max_left _ _
    · exact Nat.le_trans (nesting_le_nestingOfItems h) (Nat.le_max_right _ _)

theorem nesting_le_nestingOfMembers {m : String × Datum} : ∀ {ms : List (String × Datum)}, m ∈ ms →
    m.2.nesting ≤ nestingOfMembers ms
  | (k, d) :: ms, h => by
    rw [nestingOfMembers]
    rcases List.mem_cons.mp h with rfl | h
    · exact Nat.le_max_left _ _
    · exact Nat.le_trans (nesting_le_nestingOfMembers h) (Nat.le_max_right _ _)

end ProtoScribe.Json
