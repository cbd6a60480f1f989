import Mathlib
import ProtoScribe.Json.Parse
import ProtoScribe.Proofs.Json.Literals

/-!
# Texts are parsed into what they spell

A text that spells a datum is parsed into a sound tree of that datum, with nothing after it
(`ofText_of_spells`).

The induction is on the rules by which the text spells the datum. It says of each part of a text
that the parser, wherever it stands and whatever is open around it, gets past that part and has
added a tree of what the part spells; the offsets that it keeps do not matter.
-/

namespace ProtoScribe.Json

/-! ## Sound trees -/

/-- A literal that is read as a string, strictly and loosely. -/
structure Literal.OfString (literal : Literal String) (s : String) : Prop where
  loose : literal.loose = none
  strict : literal.strict = .ok s

mutual

/-- A sound tree and its datum. -/
inductive Tree.Of : Tree → Datum → Prop where
  | null {start stop : Nat} : Tree.Of (.null start stop) .null
  | flag {b : Bool} {start stop : Nat} : Tree.Of (.flag b start stop) (.flag b)
  | number {start : Nat} {literal : Literal Number} {n : Numeral} : literal.OfNumeral n →
    Tree.Of (.number start literal) (.number n)
  | string {start : Nat} {literal : Literal String} {s : String} : literal.OfString s →
    Tree.Of (.string start literal) (.string s)
  | array {start stop : Nat} {items : List Tree} {ds : List Datum} : List.Forall₂ Tree.Of items ds →
    Tree.Of (.array start items (.closed stop)) (.array ds)
  | object {start stop : Nat} {members : List (Member Tree)} {ms : List (String × Datum)} :
    List.Forall₂ Member.Of members ms → Tree.Of (.object start members (.closed stop)) (.object ms)

/-- A sound member of an object, with its key and the datum of its value. -/
inductive Member.Of : Member Tree → String × Datum → Prop where
  | mk {key : Literal String} {colonAt next : Nat} {value : Tree} {k : String} {d : Datum} :
    key.OfString k → Tree.Of value d → Member.Of ⟨key, colonAt, value, next⟩ (k, d)

end

namespace Tree

mutual

/-- A sound tree can be passed over. -/
theorem Of.looseFault_eq_none : ∀ {t : Tree} {d : Datum}, t.Of d → t.looseFault = none
  | _, _, .null => rfl
  | _, _, .flag => rfl
  | _, _, .number h => h.loose
  | _, _, .string h => h.loose
  | .array _ items _, _, .array h => by
    rw [looseFault, looseFaultOfItems_eq_none h]
    rfl
  | .object _ members _, _, .object h => by
    rw [looseFault, looseFaultOfMembers_eq_none h]
    rfl

theorem looseFaultOfItems_eq_none : ∀ {ts : List Tree} {ds : List Datum},
    List.Forall₂ Tree.Of ts ds → looseFaultOfItems ts = none
  | [], _, _ => rfl
  | t :: ts, _, .cons h hs => by
    rw [looseFaultOfItems, h.looseFault_eq_none, looseFaultOfItems_eq_none hs]
    rfl

theorem looseFaultOfMembers_eq_none : ∀ {members : List (Member Tree)} {ms : List (String × Datum)},
    List.Forall₂ Member.Of members ms → looseFaultOfMembers members = none
  | [], _, _ => rfl
  | ⟨_, _, value, _⟩ :: members, _, .cons (.mk hk hv) hs => by
    rw [looseFaultOfMembers, hk.loose, hv.looseFault_eq_none, looseFaultOfMembers_eq_none hs]
    rfl

end

end Tree

/-! ## Tokens -/

namespace Token

variable (length offset : Nat)

theorem isBlank_of_mem {bs : List Char} (hb : Blank bs) {c : Char} (hc : c ∈ bs) :
    isBlank c = true := by
  have hmem := hb c hc
  simp only [List.mem_cons, List.not_mem_nil, or_false] at hmem
  rcases hmem with rfl | rfl | rfl | rfl <;> rfl

theorem skipBlanks_append {bs : List Char} (hb : Blank bs) (cs : List Char) :
    skipBlanks offset (bs ++ cs) = skipBlanks (offset + bs.length) cs := by
  induction bs generalizing offset with
  | nil => rfl
  | cons b bs ih =>
    rw [List.cons_append, skipBlanks, isBlank_of_mem hb List.mem_cons_self, if_pos rfl,
      ih (offset + 1) fun c hc => hb c (List.mem_cons_of_mem _ hc), List.length_cons, Nat.add_assoc,
      Nat.add_comm 1]

/-- Blanks at the end hold no token. -/
theorem next_blank {bs : List Char} (hb : Blank bs) : next length offset bs = none := by
  rw [next, ← List.append_nil bs, skipBlanks_append offset hb]
  rfl

/-- The next token after blanks is what the character after them begins. -/
theorem next_append {bs : List Char} (hb : Blank bs) {c : Char} (hc : isBlank c = false)
    (cs : List Char) : next length offset (bs ++ c :: cs) =
      some (⟨(read length (offset + bs.length) c cs).1, offset + bs.length,
        (read length (offset + bs.length) c cs).2.1⟩,
        (read length (offset + bs.length) c cs).2.2) := by
  rw [next, skipBlanks_append offset hb, skipBlanks, hc]
  rfl

/-- The characters that are tokens by themselves. -/
def marks : List (Char × TokenKind) :=
  [('[', .openArray), (']', .closeArray), ('{', .openObject), ('}', .closeObject), (',', .comma),
    (':', .colon)]

theorem next_mark {bs : List Char} (hb : Blank bs) {c : Char} {kind : TokenKind}
    (h : (c, kind) ∈ marks) (rest : List Char) :
    ∃ t, next length offset (bs ++ c :: rest) = some (t, rest) ∧ t.kind = kind := by
  simp only [marks, List.mem_cons, Prod.mk.injEq, List.not_mem_nil, or_false] at h
  rcases h with ⟨rfl, rfl⟩ | ⟨rfl, rfl⟩ | ⟨rfl, rfl⟩ | ⟨rfl, rfl⟩ | ⟨rfl, rfl⟩ | ⟨rfl, rfl⟩ <;>
    exact ⟨_, next_append length offset hb rfl rest, rfl⟩

theorem next_string {bs cs : List Char} (hb : Blank bs) {s : String} (h : SpellsString cs s)
    (rest : List Char) : ∃ t literal, next length offset (bs ++ (cs ++ rest)) = some (t, rest) ∧
      t.kind = .string literal ∧ literal.OfString s := by
  obtain ⟨body, hbody, rfl⟩ := h
  obtain ⟨stop, hscan⟩ :=
    StringLiteral.scan_append hbody length (offset + bs.length + 1) rest
  have hnext := next_append length offset hb (show isBlank '"' = false from rfl)
    (body ++ '"' :: rest)
  simp only [read, hscan] at hnext
  rw [List.cons_append, List.cons_append, List.append_assoc]
  exact ⟨_, _, hnext, rfl, ⟨rfl, rfl⟩⟩

/-- The letters of a word are read as the word. -/
theorem next_word {bs : List Char} (hb : Blank bs) (w : Word) (rest : List Char) :
    ∃ t, next length offset (bs ++ (w.spelling.toList ++ rest)) = some (t, rest) ∧
      t.kind = .word w := by
  cases w <;> exact ⟨_, next_append length offset hb rfl _, rfl⟩

theorem next_number {bs : List Char} (hb : Blank bs) (n : Numeral) {rest : List Char}
    (hr : Ends rest) : ∃ t literal, next length offset (bs ++ (n.text ++ rest)) = some (t, rest) ∧
      t.kind = .number literal ∧ literal.OfNumeral n := by
  have hdot := Number.not_digit_exponent n.isExponent hr
  have hrest := Number.not_digit_fraction n.isFraction fun c cs h => (hdot c cs h).1
  have hspan := Number.spanDigits_append n.isWhole.digits.2 hrest
  cases hn : n.negative with
  | true =>
    obtain ⟨s, stop, hscan, hs⟩ :=
      Number.scanWhole_numeral length (offset + bs.length + 1) n hr
    rw [hn] at hscan
    have hnext := next_append length offset hb (show isBlank '-' = false from rfl)
      (n.whole ++ (n.fraction ++ (n.exponent ++ rest)))
    simp only [read, hspan, hscan] at hnext
    simp only [Numeral.text, hn, if_true, List.append_assoc, List.singleton_append]
    exact ⟨_, _, hnext, rfl, hs.literal stop⟩
  | false =>
    obtain ⟨s, stop, hscan, hs⟩ := Number.scanWhole_numeral length (offset + bs.length) n hr
    rw [hn] at hscan
    obtain ⟨c, ds, hw⟩ := List.exists_cons_of_ne_nil n.isWhole.digits.1
    have hc : c.isDigit = true := n.isWhole.digits.2 c (hw ▸ List.mem_cons_self)
    have hspan' : Number.spanDigits (ds ++ (n.fraction ++ (n.exponent ++ rest)))
        = (ds, n.fraction ++ (n.exponent ++ rest)) :=
      Number.spanDigits_append
        (fun d hd => n.isWhole.digits.2 d (hw ▸ List.mem_cons_of_mem _ hd)) hrest
    have hblank : isBlank c = false := by
      rw [← Bool.not_eq_true]
      intro hb
      simp only [isBlank, Bool.or_eq_true, decide_eq_true_eq] at hb
      rcases hb with ((rfl | rfl) | rfl) | rfl <;> exact absurd hc (by decide)
    have hnext := next_append length offset hb hblank (ds ++ (n.fraction ++ (n.exponent ++ rest)))
    rw [read] at hnext
    · simp only [hc, if_true, hspan', ← hw, hscan] at hnext
      simp only [Numeral.text, hn, Bool.false_eq_true, if_false, List.nil_append, List.append_assoc,
        hw, List.cons_append]
      exact ⟨_, _, hnext, rfl, hs.literal stop⟩
    all_goals
      rintro rfl
      exact absurd hc (by decide)

end Token

/-! ## Steps -/

/-- A token that is a value by itself is one. -/
theorem Step.value_of_leaf {t : Token} {d : Datum} (h : t.leaf.Of d) (frames : List Frame) :
    Step.value frames t = .next frames (.done t.leaf) := by
  have hloose := h.looseFault_eq_none
  rw [Step.value]
  split
  · next hk =>
    simp only [Token.leaf, hk] at h
    cases h
  · next hk =>
    simp only [Token.leaf, hk] at h
    cases h
  · rw [hloose]
    rfl

/-- Bracket tokens open frames and are no values. -/
theorem ne_close_of_leaf {t : Token} {d : Datum} (h : t.leaf.Of d) : t.kind ≠ .closeArray := by
  intro hk
  simp only [Token.leaf, hk] at h
  cases h

/-- A state in which a value goes on with `frames'` open. -/
def State.Awaits (state : State) (frames frames' : List Frame) : Prop :=
  ∀ t : Token, t.kind ≠ .closeArray → Step.of frames state t = Step.value frames' t

theorem State.awaits_value (frames : List Frame) : State.value.Awaits frames frames := by
  intro t h
  rfl

theorem State.awaits_firstItem (start : Nat) (frames : List Frame) :
    (State.firstItem start).Awaits frames (.array start [] :: frames) := by
  rintro ⟨kind, first, last⟩ h
  cases kind with
  | closeArray => exact absurd rfl h
  | _ => rfl

theorem State.awaits_nextItem (start : Nat) (before : List Tree) (frames : List Frame) :
    (State.nextItem start before).Awaits frames (.array start before :: frames) := by
  rintro ⟨kind, first, last⟩ h
  cases kind with
  | closeArray => exact absurd rfl h
  | _ => rfl

/-- A state in which an object goes on with a key. -/
def State.AwaitsKey (state : State) (frames : List Frame) (start : Nat)
    (before : List (Member Tree)) : Prop :=
  ∀ t : Token, t.kind ≠ .closeObject → Step.of frames state t = Step.key frames start before t

theorem State.awaitsKey_firstKey (start : Nat) (frames : List Frame) :
    (State.firstKey start).AwaitsKey frames start [] := by
  rintro ⟨kind, first, last⟩ h
  cases kind with
  | closeObject => exact absurd rfl h
  | _ => rfl

theorem State.awaitsKey_nextKey (start : Nat) (before : List (Member Tree)) (frames : List Frame) :
    (State.nextKey start before).AwaitsKey frames start before := by
  rintro ⟨kind, first, last⟩ h
  cases kind with
  | closeObject => exact absurd rfl h
  | _ => rfl

/-! ## Runs -/

namespace Parse

variable {length offset : Nat} {frames frames' : List Frame} {state state' : State}
  {cs bs rest : List Char} {t : Token}

theorem readFrom_next (ht : Token.next length offset cs = some (t, rest))
    (hs : Step.of frames state t = .next frames' state') :
    readFrom length offset frames state cs = readFrom length t.stop frames' state' rest := by
  rw [readFrom]
  split
  · next h =>
    rw [ht] at h
    cases h
  · next t' rest' h =>
    rw [ht] at h
    cases h
    rw [hs]

/-- Where the text ends after a value, that is the parse. -/
theorem readFrom_done {tree : Tree} (hb : Blank bs) :
    readFrom length offset [] (.done tree) bs = ⟨tree, none⟩ := by
  rw [readFrom]
  split
  · rfl
  · next h =>
    rw [Token.next_blank length offset hb] at h
    cases h

/-- A value that is one token. -/
theorem readFrom_leaf {d : Datum} (hs : state.Awaits frames frames')
    (ht : Token.next length offset cs = some (t, rest)) (h : t.leaf.Of d) :
    ∃ tree offset', tree.Of d ∧
      readFrom length offset frames state cs = readFrom length offset' frames' (.done tree) rest :=
  ⟨t.leaf, t.stop, h,
    readFrom_next ht ((hs t (ne_close_of_leaf h)).trans (Step.value_of_leaf h frames'))⟩

/-! ### Between the values -/

section Marks

variable (length offset : Nat) {start : Nat} {items : List Tree} {members : List (Member Tree)}
  (tree : Tree)

theorem readFrom_openArray (hs : state.Awaits frames frames') (hb : Blank bs)
    (rest : List Char) :
    ∃ start offset', readFrom length offset frames state (bs ++ '[' :: rest)
      = readFrom length offset' frames' (.firstItem start) rest := by
  obtain ⟨t, ht, hk⟩ :=
    Token.next_mark length offset hb (show ('[', TokenKind.openArray) ∈ _ by simp [Token.marks]) rest
  refine ⟨t.start, t.stop, readFrom_next ht ?_⟩
  rw [hs t (by rw [hk]; exact nofun), Step.value, hk]

theorem readFrom_openObject (hs : state.Awaits frames frames') (hb : Blank bs)
    (rest : List Char) :
    ∃ start offset', readFrom length offset frames state (bs ++ '{' :: rest)
      = readFrom length offset' frames' (.firstKey start) rest := by
  obtain ⟨t, ht, hk⟩ := Token.next_mark length offset hb
    (show ('{', TokenKind.openObject) ∈ _ by simp [Token.marks]) rest
  refine ⟨t.start, t.stop, readFrom_next ht ?_⟩
  rw [hs t (by rw [hk]; exact nofun), Step.value, hk]

theorem readFrom_emptyArray (hb : Blank bs)
    (rest : List Char) :
    ∃ stop, readFrom length offset frames (.firstItem start) (bs ++ ']' :: rest)
      = readFrom length stop frames (.done (.array start [] (.closed stop))) rest := by
  obtain ⟨t, ht, hk⟩ := Token.next_mark length offset hb
    (show (']', TokenKind.closeArray) ∈ _ by simp [Token.marks]) rest
  refine ⟨t.stop, readFrom_next ht ?_⟩
  rw [Step.of]
  exact hk

theorem readFrom_emptyObject (hb : Blank bs)
    (rest : List Char) :
    ∃ stop, readFrom length offset frames (.firstKey start) (bs ++ '}' :: rest)
      = readFrom length stop frames (.done (.object start [] (.closed stop))) rest := by
  obtain ⟨t, ht, hk⟩ := Token.next_mark length offset hb
    (show ('}', TokenKind.closeObject) ∈ _ by simp [Token.marks]) rest
  refine ⟨t.stop, readFrom_next ht ?_⟩
  rw [Step.of]
  exact hk

theorem readFrom_nextItem (hb : Blank bs)
    (rest : List Char) :
    ∃ offset', readFrom length offset (.array start items :: frames) (.done tree) (bs ++ ',' :: rest)
      = readFrom length offset' frames (.nextItem start (tree :: items)) rest := by
  obtain ⟨t, ht, hk⟩ := Token.next_mark length offset hb
    (show (',', TokenKind.comma) ∈ _ by simp [Token.marks]) rest
  refine ⟨t.stop, readFrom_next ht ?_⟩
  rw [Step.of, Step.after, hk]

theorem readFrom_closeArray (hb : Blank bs)
    (rest : List Char) :
    ∃ stop, readFrom length offset (.array start items :: frames) (.done tree) (bs ++ ']' :: rest)
      = readFrom length stop frames
          (.done (.array start (tree :: items).reverse (.closed stop))) rest := by
  obtain ⟨t, ht, hk⟩ := Token.next_mark length offset hb
    (show (']', TokenKind.closeArray) ∈ _ by simp [Token.marks]) rest
  refine ⟨t.stop, readFrom_next ht ?_⟩
  rw [Step.of, Step.after, hk]

variable (key : Literal String) (colonAt : Nat)

theorem readFrom_nextKey (hb : Blank bs)
    (rest : List Char) :
    ∃ next offset', readFrom length offset (.object start members key colonAt :: frames) (.done tree)
        (bs ++ ',' :: rest)
      = readFrom length offset' frames
          (.nextKey start (⟨key, colonAt, tree, next⟩ :: members)) rest := by
  obtain ⟨t, ht, hk⟩ := Token.next_mark length offset hb
    (show (',', TokenKind.comma) ∈ _ by simp [Token.marks]) rest
  refine ⟨t.start, t.stop, readFrom_next ht ?_⟩
  rw [Step.of, Step.after, hk]

theorem readFrom_closeObject (hb : Blank bs)
    (rest : List Char) :
    ∃ next stop, readFrom length offset (.object start members key colonAt :: frames) (.done tree)
        (bs ++ '}' :: rest)
      = readFrom length stop frames
          (.done (.object start (⟨key, colonAt, tree, next⟩ :: members).reverse (.closed stop)))
          rest := by
  obtain ⟨t, ht, hk⟩ := Token.next_mark length offset hb
    (show ('}', TokenKind.closeObject) ∈ _ by simp [Token.marks]) rest
  refine ⟨t.start, t.stop, readFrom_next ht ?_⟩
  rw [Step.of, Step.after, hk]

end Marks

/-- A key is taken with its colon, and its value is awaited. -/
theorem readFrom_key (length offset : Nat) {start : Nat} {members : List (Member Tree)} {k : String}
    (hs : state.AwaitsKey frames start members) (h : Padded (SpellsString · k) cs)
    (rest : List Char) : ∃ literal colonAt offset', Literal.OfString literal k ∧
      readFrom length offset frames state (cs ++ ':' :: rest)
        = readFrom length offset' (.object start members literal colonAt :: frames) .value rest := by
  obtain ⟨before, body, after, hb, hbody, ha, rfl⟩ := h
  obtain ⟨t, literal, ht, hk, hlit⟩ :=
    Token.next_string length offset hb hbody (after ++ ':' :: rest)
  have hkey : Step.of frames state t = .next frames (.colon start members literal) := by
    rw [hs t (by rw [hk]; exact nofun), Step.key, hk]
    simp only [hlit.loose, Option.isSome_none, Bool.false_eq_true, if_false]
  obtain ⟨t', ht', hk'⟩ := Token.next_mark length t.stop ha
    (show (':', TokenKind.colon) ∈ _ by simp [Token.marks]) rest
  refine ⟨literal, t'.start, t'.stop, hlit, ?_⟩
  rw [List.append_assoc, List.append_assoc, readFrom_next ht hkey]
  refine readFrom_next ht' ?_
  rw [Step.of]
  exact hk'

/-! ### Values -/

mutual

/-- Where a value is awaited, what spells one is passed and its tree added. -/
theorem readFrom_value {cs : List Char} {d : Datum} (h : Spells cs d) {state : State}
    {frames frames' : List Frame} (hs : state.Awaits frames frames') {bs : List Char}
    (hb : Blank bs) (length offset : Nat) {rest : List Char} (hr : Ends rest) :
    ∃ tree offset', tree.Of d ∧
      readFrom length offset frames state (bs ++ (cs ++ rest))
        = readFrom length offset' frames' (.done tree) rest := by
  cases h with
  | null =>
    obtain ⟨t, ht, hk⟩ := Token.next_word length offset hb .null rest
    exact readFrom_leaf hs ht (by rw [Token.leaf, hk]; exact .null)
  | yes =>
    obtain ⟨t, ht, hk⟩ := Token.next_word length offset hb .yes rest
    exact readFrom_leaf hs ht (by rw [Token.leaf, hk]; exact .flag)
  | no =>
    obtain ⟨t, ht, hk⟩ := Token.next_word length offset hb .no rest
    exact readFrom_leaf hs ht (by rw [Token.leaf, hk]; exact .flag)
  | number n =>
    obtain ⟨t, literal, ht, hk, hlit⟩ := Token.next_number length offset hb n hr
    exact readFrom_leaf hs ht (by rw [Token.leaf, hk]; exact .number hlit)
  | string hstr =>
    obtain ⟨t, literal, ht, hk, hlit⟩ := Token.next_string length offset hb hstr rest
    exact readFrom_leaf hs ht (by rw [Token.leaf, hk]; exact .string hlit)
  | @emptyArray body hbody =>
    obtain ⟨start, offset₁, hopen⟩ := readFrom_openArray length offset hs hb (body ++ ']' :: rest)
    obtain ⟨stop, hclose⟩ := readFrom_emptyArray length offset₁ hbody rest
    rw [List.cons_append, List.cons_append, List.append_assoc]
    exact ⟨_, stop, .array .nil, hopen.trans hclose⟩
  | @array body ds hitems =>
    obtain ⟨start, offset₁, hopen⟩ := readFrom_openArray length offset hs hb (body ++ ']' :: rest)
    obtain ⟨tree, stop, htree, hrun⟩ := readFrom_items hitems (State.awaits_firstItem start frames')
      .nil length offset₁ rest
    refine ⟨tree, stop, htree, ?_⟩
    rw [List.cons_append, List.cons_append, List.append_assoc]
    exact hopen.trans hrun
  | @emptyObject body hbody =>
    obtain ⟨start, offset₁, hopen⟩ := readFrom_openObject length offset hs hb (body ++ '}' :: rest)
    obtain ⟨stop, hclose⟩ := readFrom_emptyObject length offset₁ hbody rest
    rw [List.cons_append, List.cons_append, List.append_assoc]
    exact ⟨_, stop, .object .nil, hopen.trans hclose⟩
  | @object body ms hmembers =>
    obtain ⟨start, offset₁, hopen⟩ := readFrom_openObject length offset hs hb (body ++ '}' :: rest)
    obtain ⟨tree, stop, htree, hrun⟩ := readFrom_members hmembers
      (State.awaitsKey_firstKey start frames') .nil length offset₁ rest
    refine ⟨tree, stop, htree, ?_⟩
    rw [List.cons_append, List.cons_append, List.append_assoc]
    exact hopen.trans hrun

/-- In an array of which some items are read, what spells the others is passed with the bracket. -/
theorem readFrom_items {cs : List Char} {ds : List Datum} (h : SpellsItems cs ds) {state : State}
    {frames : List Frame} {start : Nat} {items : List Tree}
    (hs : state.Awaits frames (.array start items :: frames)) {ds₀ : List Datum}
    (hitems : List.Forall₂ Tree.Of items.reverse ds₀) (length offset : Nat) (rest : List Char) :
    ∃ tree offset', tree.Of (.array (ds₀ ++ ds)) ∧
      readFrom length offset frames state (cs ++ ']' :: rest)
        = readFrom length offset' frames (.done tree) rest := by
  cases h with
  | @last before body after d hbefore hbody hafter =>
    obtain ⟨tree, offset₁, htree, hrun⟩ := readFrom_value hbody hs hbefore length offset
      (ends_mark hafter (show ']' ∈ _ by decide) _)
    obtain ⟨stop, hclose⟩ := readFrom_closeArray length offset₁ tree hafter rest
    have hall : List.Forall₂ Tree.Of (tree :: items).reverse (ds₀ ++ [d]) := by
      rw [List.reverse_cons]
      exact List.rel_append hitems (.cons htree .nil)
    rw [List.append_assoc, List.append_assoc]
    exact ⟨_, stop, .array hall, hrun.trans hclose⟩
  | @cons before body after others d ds hbefore hbody hafter hothers =>
    obtain ⟨tree, offset₁, htree, hrun⟩ := readFrom_value hbody hs hbefore length offset
      (ends_mark hafter (show ',' ∈ _ by decide) _)
    obtain ⟨offset₂, hcomma⟩ := readFrom_nextItem length offset₁ tree hafter (others ++ ']' :: rest)
    have hall : List.Forall₂ Tree.Of (tree :: items).reverse (ds₀ ++ [d]) := by
      rw [List.reverse_cons]
      exact List.rel_append hitems (.cons htree .nil)
    obtain ⟨whole, stop, hwhole, hrest⟩ := readFrom_items hothers
      (State.awaits_nextItem start (tree :: items) frames) hall length offset₂ rest
    rw [List.append_assoc, List.singleton_append] at hwhole
    refine ⟨whole, stop, hwhole, ?_⟩
    rw [List.append_assoc, List.append_assoc, List.append_assoc, List.cons_append]
    exact hrun.trans (hcomma.trans hrest)

/-- In an object of which some members are read, what spells the others is passed with the brace. -/
theorem readFrom_members {cs : List Char} {ms : List (String × Datum)} (h : SpellsMembers cs ms)
    {state : State} {frames : List Frame} {start : Nat} {members : List (Member Tree)}
    (hs : state.AwaitsKey frames start members) {ms₀ : List (String × Datum)}
    (hmembers : List.Forall₂ Member.Of members.reverse ms₀) (length offset : Nat)
    (rest : List Char) :
    ∃ tree offset', tree.Of (.object (ms₀ ++ ms)) ∧
      readFrom length offset frames state (cs ++ '}' :: rest)
        = readFrom length offset' frames (.done tree) rest := by
  cases h with
  | @last key before body after k d hkey hbefore hbody hafter =>
    obtain ⟨literal, colonAt, offset₁, hlit, hcolon⟩ := readFrom_key length offset
      hs hkey (before ++ (body ++ (after ++ '}' :: rest)))
    obtain ⟨tree, offset₂, htree, hrun⟩ := readFrom_value hbody
      (State.awaits_value (.object start members literal colonAt :: frames)) hbefore length offset₁
      (ends_mark hafter (show '}' ∈ _ by decide) _)
    obtain ⟨next, stop, hclose⟩ := readFrom_closeObject length offset₂ tree literal colonAt hafter rest
    have hall : List.Forall₂ Member.Of (⟨literal, colonAt, tree, next⟩ :: members).reverse
        (ms₀ ++ [(k, d)]) := by
      rw [List.reverse_cons]
      exact List.rel_append hmembers (.cons (.mk hlit htree) .nil)
    rw [List.append_assoc, List.cons_append, List.append_assoc, List.append_assoc]
    exact ⟨_, stop, .object hall, hcolon.trans (hrun.trans hclose)⟩
  | @cons key before body after others k d ms hkey hbefore hbody hafter hothers =>
    obtain ⟨literal, colonAt, offset₁, hlit, hcolon⟩ := readFrom_key length offset
      hs hkey (before ++ (body ++ (after ++ ',' :: (others ++ '}' :: rest))))
    obtain ⟨tree, offset₂, htree, hrun⟩ := readFrom_value hbody
      (State.awaits_value (.object start members literal colonAt :: frames)) hbefore length offset₁
      (ends_mark hafter (show ',' ∈ _ by decide) _)
    obtain ⟨next, offset₃, hcomma⟩ := readFrom_nextKey length offset₂ tree literal colonAt hafter
      (others ++ '}' :: rest)
    have hall : List.Forall₂ Member.Of (⟨literal, colonAt, tree, next⟩ :: members).reverse
        (ms₀ ++ [(k, d)]) := by
      rw [List.reverse_cons]
      exact List.rel_append hmembers (.cons (.mk hlit htree) .nil)
    obtain ⟨whole, stop, hwhole, hrest⟩ := readFrom_members hothers
      (State.awaitsKey_nextKey start (⟨literal, colonAt, tree, next⟩ :: members) frames) hall
      length offset₃ rest
    rw [List.append_assoc, List.singleton_append] at hwhole
    refine ⟨whole, stop, hwhole, ?_⟩
    rw [List.append_assoc, List.cons_append, List.append_assoc, List.append_assoc,
      List.append_assoc, List.cons_append]
    exact hcolon.trans (hrun.trans (hcomma.trans hrest))

end

/-- **A text is parsed into what it spells.** -/
theorem ofText_of_spells {text : String} {d : Datum} (h : SpellsText text d) :
    ∃ tree, tree.Of d ∧ Parse.ofText text = ⟨tree, none⟩ := by
  obtain ⟨before, body, after, hbefore, hbody, hafter, htext⟩ := h
  have hends : Ends after := by
    rw [← List.append_nil after]
    exact Ends.blank hafter ends_nil
  obtain ⟨tree, offset, htree, hrun⟩ := readFrom_value hbody (State.awaits_value []) hbefore
    text.utf8ByteSize 0 hends
  refine ⟨tree, htree, ?_⟩
  rw [Parse.ofText, htext, List.append_assoc, hrun]
  exact readFrom_done hafter

end Parse

end ProtoScribe.Json
