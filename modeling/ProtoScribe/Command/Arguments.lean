import ProtoScribe.Path

/-!
# Command lines

Words are read from left to right, and the first one that does not fit makes the line a misuse. A
request for help or for the version ends the reading where it stands. Options of the program itself
may come before or after the command; after it they count instead of those before.
-/

namespace ProtoScribe.Command

/-- What to do with a schema document. -/
inductive Action where
  | generate (name : Option String) (outputDir : Option Path) (atomic : Bool)
  | print
  deriving DecidableEq, Repr, Inhabited

/-- A command that can be run. -/
structure Invocation where
  verbosity : Nat
  config : Option Path
  schema : Path
  action : Action
  deriving DecidableEq, Repr, Inhabited

/-- What help there is. -/
inductive Topic where
  | program
  | generate
  | print
  | help
  deriving DecidableEq, Repr, Inhabited

/-- What a command line asks for. -/
inductive Request where
  | run (i : Invocation)
  | help (topic : Topic)
  | version
  | misuse
  deriving DecidableEq, Repr, Inhabited

/-- The commands that take a schema. -/
inductive Verb where
  | generate
  | print
  deriving DecidableEq, Repr, Inhabited

/-- The help about a command. -/
def Verb.topic : Verb → Topic
  | .generate => .generate
  | .print => .print

/-! ## Options -/

/-- An option that takes a value. -/
inductive ValueOption where
  | config
  | schema
  | name
  | outputDir
  deriving DecidableEq, Repr, Inhabited

/-- An option that takes none. -/
inductive FlagOption where
  | verbose
  | help
  | version
  | atomic
  deriving DecidableEq, Repr, Inhabited

/-- The options that a level of the line knows: that of the program, or that of a command. -/
def valueOption? (verb : Option Verb) (name : String) : Option ValueOption :=
  if name = "config" then some .config
  else if verb.isSome ∧ name = "schema" then some .schema
  else if verb = some .generate ∧ name = "name" then some .name
  else if verb = some .generate ∧ name = "output-dir" then some .outputDir
  else none

/-- The options without a value that a level knows. -/
def flagOption? (verb : Option Verb) (name : String) : Option FlagOption :=
  if name = "verbose" then some .verbose
  else if name = "help" then some .help
  else if verb.isNone ∧ name = "version" then some .version
  else if verb = some .generate ∧ name = "atomic" then some .atomic
  else none

/-- The options of one letter that a level knows. -/
def shortOption? (verb : Option Verb) (c : Char) : Option FlagOption :=
  if c = 'v' then some .verbose
  else if c = 'h' then some .help
  else if verb.isNone ∧ c = 'V' then some .version
  else none

/-- What a level of the line has set. -/
structure Settings where
  verbose : Nat := 0
  config : Option Path := none
  schema : Option Path := none
  name : Option String := none
  outputDir : Option Path := none
  atomic : Bool := false
  deriving Repr, Inhabited

/-- Sets an option. Paths may not be empty, and no option can be set twice. -/
def Settings.set (s : Settings) (o : ValueOption) (value : String) : Option Settings :=
  let path (old : Option Path) : Option Path := if old.isSome ∨ value = "" then none else some ⟨value⟩
  match o with
  | .config => (path s.config).map fun p => { s with config := some p }
  | .schema => (path s.schema).map fun p => { s with schema := some p }
  | .outputDir => (path s.outputDir).map fun p => { s with outputDir := some p }
  | .name => if s.name.isSome then none else some { s with name := some value }

/-- How reading goes on after an option. -/
inductive Continuation where
  | settings (s : Settings)
  | request (r : Request)

/-- The largest count of an option that can be repeated. -/
def countLimit : Nat := 255

/-- Takes an option without a value. -/
def Settings.flag (s : Settings) (verb : Option Verb) : FlagOption → Continuation
  | .verbose => .settings { s with verbose := min (s.verbose + 1) countLimit }
  | .help => .request (.help (verb.elim .program Verb.topic))
  | .version => .request .version
  | .atomic => if s.atomic then .request .misuse else .settings { s with atomic := true }

/-- Takes the letters of a word of short options. -/
def Settings.letters (s : Settings) (verb : Option Verb) : List Char → Continuation
  | [] => .settings s
  | c :: cs =>
    match shortOption? verb c with
    | none => .request .misuse
    | some o =>
      match s.flag verb o with
      | .settings s => s.letters verb cs
      | .request r => .request r

/-! ## Words -/

/-- What a word looks like. -/
inductive Word where
  /-- Two dashes, after which no word is an option. -/
  | dashes
  /-- A long option, with the value that an equals sign attaches to it. -/
  | long (name : String) (value : Option String)
  | short (letters : List Char)
  | plain
  deriving Repr

/-- A long option's name and value. -/
def longOption (cs : List Char) : Word :=
  let name := String.ofList (cs.takeWhile (· ≠ '='))
  match cs.dropWhile (· ≠ '=') with
  | [] => .long name none
  | _ :: value => .long name (some (String.ofList value))

/-- What a word looks like; a lone dash is a plain word. -/
def Word.of (word : String) : Word :=
  match word.toList with
  | ['-', '-'] => .dashes
  | '-' :: '-' :: cs => longOption cs
  | '-' :: c :: cs => .short (c :: cs)
  | _ => .plain

/-- Whether a word can be the value of the option before it. -/
def isValue (word : String) : Bool :=
  match Word.of word with
  | .plain => true
  | _ => false

/-- What a level of the line comes to: a request, or settings and the words that are left. -/
inductive Level where
  | settings (s : Settings) (rest : List String)
  /-- The value before the words that are left cannot be set. That shows at the next option or at
  the end of the line, so a request in the words of a command comes before it. -/
  | unset (rest : List String)
  | request (r : Request)

/-- Reads the options of a level up to the first plain word or the end. -/
def readOptions (verb : Option Verb) (s : Settings) : List String → Level
  | [] => .settings s []
  | word :: words =>
    match Word.of word with
    | .plain => .settings s (word :: words)
    | .dashes => if words.isEmpty then .settings s [] else .request .misuse
    | .short letters =>
      match s.letters verb letters with
      | .settings s => readOptions verb s words
      | .request r => .request r
    | .long name attached =>
      match valueOption? verb name, flagOption? verb name, attached, words with
      | some o, _, some value, words =>
        match s.set o value with
        | some s => readOptions verb s words
        | none => .request .misuse
      | some o, _, none, value :: words =>
        if isValue value then
          match s.set o value with
          | some s => readOptions verb s words
          | none => .unset words
        else .request .misuse
      | none, some o, none, words =>
        match s.flag verb o with
        | .settings s => readOptions verb s words
        | .request r => .request r
      | _, _, _, _ => .request .misuse

/-! ## Lines -/

/-- The help that the words after the help command ask for. -/
def helpRequest : List String → Request
  | [] => .help .program
  | ["generate"] => .help .generate
  | ["print"] => .help .print
  | ["help"] => .help .help
  | _ => .misuse

/-- A command with its settings and those of the program. -/
def invocation? (verb : Verb) (program command : Settings) : Option Invocation :=
  command.schema.map fun schema =>
    { verbosity := if command.verbose = 0 then program.verbose else command.verbose
      config := command.config <|> program.config
      schema
      action := match verb with
        | .generate => .generate command.name command.outputDir command.atomic
        | .print => .print }

/-- Reads the words after a command. Without the settings of the program only a request among them
counts. -/
def readCommand (verb : Verb) (program : Option Settings) (words : List String) : Request :=
  match readOptions (some verb) {} words, program with
  | .request r, _ => r
  | .settings command [], some program => ((invocation? verb program command).map .run).getD .misuse
  | _, _ => .misuse

/-- Reads a command and the words after it. -/
def readCommandLine (program : Option Settings) : List String → Request
  | [] => .misuse
  | word :: words =>
    if word = "generate" then readCommand .generate program words
    else if word = "print" then readCommand .print program words
    else if word = "help" then helpRequest words
    else .misuse

/-- What a command line asks for. -/
def Request.ofWords (words : List String) : Request :=
  match readOptions none {} words with
  | .request r => r
  | .settings program rest => readCommandLine (some program) rest
  | .unset rest => readCommandLine none rest

end ProtoScribe.Command
