import ProtoScribe.Yaml.Tag

/-!
# YAML tokens

The tokens of a text. Indentation appears as tokens that open and close blocks.
-/

namespace ProtoScribe.Yaml

/-- How a scalar is written. -/
inductive ScalarStyle where
  | plain
  | quoted
  | literal
  | folded
  deriving DecidableEq, Repr, Inhabited

/-- The kinds of tokens. A block starts and ends where its column does. -/
inductive TokenKind where
  | directive (d : Directive)
  | documentStart
  | documentEnd
  | streamEnd
  | blockSequence
  | blockMapping
  | blockEnd
  | flowSequence
  | flowSequenceEnd
  | flowMapping
  | flowMappingEnd
  | blockEntry
  | flowEntry
  | key
  | value
  | alias (name : String)
  | anchor (name : String)
  | tag (name : TagName)
  | scalar (style : ScalarStyle) (text : String)
  deriving DecidableEq, Repr, Inhabited

/-- A token with the place where it starts and, for those of one character, the place after it. -/
structure Token where
  kind : TokenKind
  start : Mark
  stop : Mark
  deriving DecidableEq, Repr, Inhabited

/-- The tokens of a text up to its first fault, if it has one. -/
structure TokenStream where
  tokens : List Token
  faulty : Bool
  deriving Repr, Inhabited

end ProtoScribe.Yaml
