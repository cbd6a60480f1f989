import ProtoScribe.Proofs.Yaml.Scalars
import ProtoScribe.Yaml.Lexer

/-!
# The tokens of compact JSON

The lexer takes the compact text of a JSON value apart into the tokens that one expects
(`ofGlyphs_render`). That needs the strings to go no further than `~`, and the keys to be short:
the lexer learns only at the colon that a scalar was a key, and waits no longer than `keyLength`
for it.

Between brackets nothing depends on columns, so a state is known by how many brackets are open and
which tokens there are so far (`Lexer.Stands`). Each token of JSON has a lemma that says how it
changes these, and a run over a value puts them together.
-/

namespace ProtoScribe.Json.Value

open Yaml (BelowDelete Lexer)

mutual

/-- The strings of a value go no further than `~`, and its keys are short enough for YAML. -/
def FitsFlow : Value → Prop
  | flag _ | integer _ => True
  | string s => BelowDelete s.toList
  | array items => ItemsFitFlow items
  | object members => MembersFitFlow members

/-- So it is with some values. -/
def ItemsFitFlow : List Value → Prop
  | [] => True
  | v :: vs => v.FitsFlow ∧ ItemsFitFlow vs

/-- So it is with some keys and values. -/
def MembersFitFlow : List (String × Value) → Prop
  | [] => True
  | (k, v) :: ms =>
    (BelowDelete k.toList ∧ (renderString k).length ≤ Lexer.keyLength) ∧ v.FitsFlow ∧
      MembersFitFlow ms

end

end ProtoScribe.Json.Value

namespace ProtoScribe.Yaml

open Json (Value)
open Json.Value (render renderItems renderMembers renderString)

/-! ## The text is printable -/

theorem isPrintable_renderString {s : String} (h : BelowDelete s.toList) :
    ∀ c ∈ renderString s, IsPrintable c := by
  obtain ⟨body, hbody, hrender⟩ := Json.spellsString_renderString s
  have hquote : IsPrintable '"' := by decide
  rw [hrender]
  simp only [List.cons_append, List.forall_mem_cons, List.forall_mem_append]
  exact ⟨hquote, isPrintable_of_spellsChars hbody h, hquote, List.forall_mem_nil _⟩

/-- The word of a truth value. -/
def flagWord (b : Bool) : String := if b then "true" else "false"

theorem isWordChar_flagWord (b : Bool) : ∀ c ∈ (flagWord b).toList, isWordChar c = true := by
  have hall : (flagWord b).toList.all isWordChar = true := by cases b <;> rfl
  exact List.all_eq_true.mp hall

mutual

theorem isPrintable_render : ∀ {v : Value}, v.FitsFlow → ∀ c ∈ v.render, IsPrintable c
  | .flag b, _ => fun c hc => isPrintable_of_isWordChar (isWordChar_flagWord b c hc)
  | .integer i, _ => fun c hc => isPrintable_of_isWordChar (isWordChar_toString i c hc)
  | .string _, h => isPrintable_renderString h
  | .array _, h => by
    have hbrackets : IsPrintable '[' ∧ IsPrintable ']' := by decide
    simp only [render, List.cons_append, List.forall_mem_cons, List.forall_mem_append]
    exact ⟨hbrackets.1, isPrintable_renderItems h, hbrackets.2, List.forall_mem_nil _⟩
  | .object _, h => by
    have hbraces : IsPrintable '{' ∧ IsPrintable '}' := by decide
    simp only [render, List.cons_append, List.forall_mem_cons, List.forall_mem_append]
    exact ⟨hbraces.1, isPrintable_renderMembers h, hbraces.2, List.forall_mem_nil _⟩

theorem isPrintable_renderItems : ∀ {vs : List Value}, Value.ItemsFitFlow vs →
    ∀ c ∈ renderItems vs, IsPrintable c
  | [], _ => nofun
  | [_], h => isPrintable_render h.1
  | _ :: w :: vs, h => by
    have hcomma : IsPrintable ',' := by decide
    simp only [renderItems, List.forall_mem_cons, List.forall_mem_append]
    exact ⟨isPrintable_render h.1, hcomma, isPrintable_renderItems h.2⟩

theorem isPrintable_renderMembers : ∀ {ms : List (String × Value)}, Value.MembersFitFlow ms →
    ∀ c ∈ renderMembers ms, IsPrintable c
  | [], _ => nofun
  | [(_, _)], h => by
    have hcolon : IsPrintable ':' := by decide
    simp only [renderMembers, List.forall_mem_cons, List.forall_mem_append]
    exact ⟨isPrintable_renderString h.1.1, hcolon, isPrintable_render h.2.1⟩
  | (_, _) :: m :: ms, h => by
    have hmarks : IsPrintable ':' ∧ IsPrintable ',' := by decide
    simp only [renderMembers, List.forall_mem_cons, List.forall_mem_append]
    exact ⟨⟨isPrintable_renderString h.1.1, hmarks.1, isPrintable_render h.2.1⟩, hmarks.2,
      isPrintable_renderMembers h.2.2⟩

end

/-! ## Tokens of values -/

mutual

/-- The tokens of a value between brackets. -/
def tokensOf : Value → List TokenKind
  | .flag b => [.scalar .plain (flagWord b)]
  | .integer i => [.scalar .plain (toString i)]
  | .string s => [.scalar .quoted s]
  | .array items => .flowSequence :: tokensOfItems items ++ [.flowSequenceEnd]
  | .object members => .flowMapping :: tokensOfMembers members ++ [.flowMappingEnd]

/-- The tokens of values with commas between them. -/
def tokensOfItems : List Value → List TokenKind
  | [] => []
  | [v] => tokensOf v
  | v :: vs => tokensOf v ++ .flowEntry :: tokensOfItems vs

/-- The tokens of keys and values with commas between the pairs. -/
def tokensOfMembers : List (String × Value) → List TokenKind
  | [] => []
  | [(k, v)] => [.key, .scalar .quoted k, .value] ++ tokensOf v
  | (k, v) :: ms =>
    [.key, .scalar .quoted k, .value] ++ tokensOf v ++ .flowEntry :: tokensOfMembers ms

end

namespace Lexer

/-! ## States between brackets -/

/-- The lexer has come to a place with `depth` brackets around it. No block is open, and no
candidate has to turn out to be a key. -/
structure Stands (s : Lexer) (depth : Nat) (kinds : List TokenKind) : Prop where
  indent : s.indent = none
  outer : s.outer = []
  optional : ∀ c ∈ s.candidate :: s.inner, c.any (·.required) = false
  depth : s.inner.length = depth
  kinds : s.before.reverse.map Token.kind = kinds

variable {last m : Mark} {s : Lexer} {depth : Nat} {kinds : List TokenKind} {gs : List Glyph}

theorem stands_empty : Stands {} 0 [] where
  indent := rfl
  outer := rfl
  optional := by simp
  depth := rfl
  kinds := rfl

/-- A candidate unless the text has gone too far for it. -/
def fresh? (mark : Mark) (c : Option KeyCandidate) : Option KeyCandidate :=
  c.filter (!KeyCandidate.isStale mark ·)

/-- The state without the candidates that are too far away. -/
def freshen (s : Lexer) (mark : Mark) : Lexer :=
  { s with candidate := fresh? mark s.candidate, inner := s.inner.map (fresh? mark) }

/-- The state that remembers the next token, at `mark`, if a key may start with it. -/
def marked (s : Lexer) (mark : Mark) : Lexer :=
  if s.keyAllowed then s.setCurrent (some ⟨s.before.length, false, mark⟩) else s

/-- The state in which a scalar that starts at `mark` has been read, but not yet given as a token. -/
def atScalar (s : Lexer) (mark : Mark) : Lexer :=
  { (s.freshen mark).marked mark with keyAllowed := false }

theorem fresh?_fresh? (mark : Mark) (c : Option KeyCandidate) :
    fresh? mark (fresh? mark c) = fresh? mark c := by
  simp [fresh?, Option.filter_filter]

theorem freshen_freshen (s : Lexer) (mark : Mark) :
    (s.freshen mark).freshen mark = s.freshen mark := by
  simp [freshen, fresh?_fresh?]

namespace Stands

theorem inFlow (h : s.Stands (depth + 1) kinds) : s.inFlow = true := by
  have hdepth := h.depth
  rw [Lexer.inFlow]
  cases hinner : s.inner with
  | nil => simp [hinner] at hdepth
  | cons c cs => rfl

theorem current (h : s.Stands depth kinds) : s.current.any (·.required) = false := by
  refine h.optional _ ?_
  rw [Lexer.current]
  split
  · exact List.mem_cons_self
  · next c cs hinner =>
    rw [hinner]
    exact List.mem_cons_of_mem _ List.mem_cons_self

theorem setCurrent (h : s.Stands depth kinds) {c : Option KeyCandidate}
    (hc : c.any (·.required) = false) : (s.setCurrent c).Stands depth kinds := by
  obtain ⟨hindent, houter, hoptional, hdepth, hkinds⟩ := h
  rw [List.forall_mem_cons] at hoptional
  rw [Lexer.setCurrent]
  split
  · exact ⟨hindent, houter, List.forall_mem_cons.mpr ⟨hc, hoptional.2⟩, hdepth, hkinds⟩
  · next c' cs hinner =>
    rw [hinner, List.forall_mem_cons] at hoptional
    exact ⟨hindent, houter, List.forall_mem_cons.mpr
      ⟨hoptional.1, List.forall_mem_cons.mpr ⟨hc, hoptional.2.2⟩⟩, by rw [← hdepth, hinner]; rfl,
      hkinds⟩

/-- Whether a key may start makes no difference. -/
theorem allow (h : s.Stands depth kinds) (allowed : Bool) :
    { s with keyAllowed := allowed }.Stands depth kinds :=
  ⟨h.indent, h.outer, h.optional, h.depth, h.kinds⟩

theorem push (h : s.Stands depth kinds) (kind : TokenKind) (start stop : Mark) :
    (s.push kind start stop).Stands depth (kinds ++ [kind]) where
  indent := h.indent
  outer := h.outer
  optional := h.optional
  depth := h.depth
  kinds := by
    rw [← h.kinds]
    simp [Lexer.push]

/-- No candidate that is too far away has to turn out to be a key. -/
theorem dropStale (h : s.Stands depth kinds) (mark : Mark) :
    s.dropStale mark = some (s.freshen mark) := by
  have hstale : (s.candidate :: s.inner).any
      (fun c => c.any fun c => KeyCandidate.isStale mark c && c.required) = false := by
    rw [List.any_eq_false]
    intro c hc
    have hoptional := h.optional c hc
    cases c with
    | none => simp
    | some k => simp_all
  rw [Lexer.dropStale, if_neg (by rw [hstale]; exact Bool.false_ne_true)]
  rfl

theorem freshen (h : s.Stands depth kinds) (mark : Mark) : (s.freshen mark).Stands depth kinds where
  indent := h.indent
  outer := h.outer
  optional := by
    have hfresh (c : Option KeyCandidate) (hc : c.any (·.required) = false) :
        (fresh? mark c).any (·.required) = false := by
      cases c with
      | none => rfl
      | some k =>
        rw [fresh?, Option.filter]
        split
        · exact hc
        · rfl
    have hall := List.forall_mem_cons.mp h.optional
    refine List.forall_mem_cons.mpr ⟨hfresh _ hall.1, ?_⟩
    simp only [Lexer.freshen, List.forall_mem_map]
    exact fun c hc => hfresh c (hall.2 c hc)
  depth := by rw [← h.depth, Lexer.freshen, List.length_map]
  kinds := h.kinds

theorem marked (h : s.Stands depth kinds) (mark : Mark) : (s.marked mark).Stands depth kinds := by
  rw [Lexer.marked]
  split
  · exact h.setCurrent rfl
  · exact h

theorem atScalar (h : s.Stands depth kinds) (mark : Mark) : (s.atScalar mark).Stands depth kinds :=
  ((h.freshen mark).marked mark).allow false

theorem dropCandidate (h : s.Stands depth kinds) : s.dropCandidate = some (s.setCurrent none) := by
  rw [Lexer.dropCandidate, if_neg (by simp [h.current])]

/-- A key that may start somewhere need not. -/
theorem addCandidate (h : s.Stands depth kinds) (mark : Mark) :
    s.addCandidate mark = some (s.marked mark) := by
  have htwice (c d : Option KeyCandidate) : (s.setCurrent c).setCurrent d = s.setCurrent d := by
    rw [Lexer.setCurrent.eq_def s c, Lexer.setCurrent.eq_def s d]
    split <;> simp [Lexer.setCurrent, *]
  rw [Lexer.addCandidate, h.dropCandidate, Lexer.marked]
  split
  · simp [h.indent, htwice]
  · rfl

/-- There is no block to close. -/
theorem closeBlocks (h : s.Stands depth kinds) (column : Option Nat) (mark : Mark) :
    s.closeBlocks column mark = s := by
  have hindent := h.indent
  have houter := h.outer
  rw [Lexer.closeBlocks]
  split
  · rfl
  · rw [hindent, houter, unrollBlocks]
    cases s
    simp_all

end Stands

/-! ## One step -/

/-- Printable characters that are neither a gap nor the start of a comment. -/
def StartsToken (c : Char) : Prop := IsPrintable c ∧ c ≠ ' ' ∧ c ≠ '#'

instance : DecidablePred StartsToken := fun _ => inferInstanceAs (Decidable (_ ∧ _))

theorem skipGap_of_startsToken {c : Char} (hc : StartsToken c) (s : Lexer) (m : Mark)
    (gs : List Glyph) :
    s.skipGap false (⟨c, m⟩ :: gs) = (s, ⟨c, m⟩ :: gs) := by
  obtain ⟨hprintable, hspace, hcomment⟩ := hc
  rw [skipGap]
  simp [hprintable.not_isBreak, hspace, hcomment, hprintable.ne (d := '\t') (by decide),
    hprintable.ne (d := byteOrderMark) (by decide)]

/-- The lexer goes on after a token. -/
theorem run_of_token (last : Mark) {c : Char} {next : Lexer} {count : Nat} (h : s.Stands depth kinds)
    (hc : StartsToken c) (ht : (s.freshen m).token ⟨c, m⟩ gs = some ⟨next, count⟩) :
    run last s (⟨c, m⟩ :: gs) = run last next (gs.drop (count - 1)) := by
  have hskip := skipGap_of_startsToken hc (s.freshen m) m gs
  have hfresh := h.freshen m
  rw [run, place, h.dropStale]
  simp only
  split
  · next heq =>
    rw [hskip] at heq
    cases heq
  · next heq =>
    rw [hskip] at heq
    cases heq
    rw [hfresh.dropStale, freshen_freshen]
    simp only [Option.bind_some, hfresh.closeBlocks, ht]

/-! ### Brackets and commas -/

theorem isBoundary_of_ne {g : Glyph} {c : Char} (h : g.char ≠ c) : isBoundary c (g :: gs) = false := by
  rw [isBoundary.eq_def]
  split
  · next heq =>
    obtain ⟨rfl, -⟩ := List.cons.inj heq
    simp [h]
  · rfl

/-- The brackets that open, with their tokens. -/
def openings : List (Char × TokenKind) := [('[', .flowSequence), ('{', .flowMapping)]

/-- The brackets that close, with their tokens. -/
def closings : List (Char × TokenKind) := [(']', .flowSequenceEnd), ('}', .flowMappingEnd)]

theorem run_open (last m : Mark) (gs : List Glyph) (h : s.Stands depth kinds) {c : Char}
    {kind : TokenKind} (hc : (c, kind) ∈ openings) :
    ∃ next, next.Stands (depth + 1) (kinds ++ [kind]) ∧ next.keyAllowed = true ∧
      run last s (⟨c, m⟩ :: gs) = run last next gs := by
  have hfresh := h.freshen m
  have hmarked := hfresh.marked m
  have htoken : (s.freshen m).token ⟨c, m⟩ gs = (s.freshen m).openFlow kind m := by
    simp only [openings, List.mem_cons, Prod.mk.injEq, List.not_mem_nil, or_false] at hc
    rcases hc with ⟨rfl, rfl⟩ | ⟨rfl, rfl⟩ <;> simp [token, isBoundary_of_ne]
  have hstep : (s.freshen m).openFlow kind m = some ⟨{ (s.freshen m).marked m with
      inner := none :: ((s.freshen m).marked m).inner, keyAllowed := true }.push kind m (m.skip 1),
        1⟩ := by
    rw [openFlow, hfresh.addCandidate]
    rfl
  have hstarts : StartsToken c := by
    have hall : ∀ e ∈ openings, StartsToken e.1 := by decide
    exact hall _ hc
  refine ⟨_, ?_, rfl, run_of_token last h hstarts (htoken.trans hstep)⟩
  generalize (s.freshen m).marked m = s' at hmarked
  have hopened : ({ s' with inner := none :: s'.inner } : Lexer).Stands (depth + 1) kinds := by
    obtain ⟨hindent, houter, hoptional, hdepth, hkinds⟩ := hmarked
    rw [List.forall_mem_cons] at hoptional
    exact ⟨hindent, houter, List.forall_mem_cons.mpr ⟨hoptional.1, List.forall_mem_cons.mpr
      ⟨rfl, hoptional.2⟩⟩, congrArg (· + 1) hdepth, hkinds⟩
  exact (hopened.allow true).push kind m (m.skip 1)

theorem run_close (last m : Mark) (gs : List Glyph) (h : s.Stands (depth + 1) kinds) {c : Char}
    {kind : TokenKind} (hc : (c, kind) ∈ closings) :
    ∃ next, next.Stands depth (kinds ++ [kind]) ∧
      run last s (⟨c, m⟩ :: gs) = run last next gs := by
  have hfresh := h.freshen m
  have hdropped := hfresh.setCurrent (c := none) rfl
  have htoken : (s.freshen m).token ⟨c, m⟩ gs = (s.freshen m).closeFlow kind m := by
    simp only [closings, List.mem_cons, Prod.mk.injEq, List.not_mem_nil, or_false] at hc
    rcases hc with ⟨rfl, rfl⟩ | ⟨rfl, rfl⟩ <;> simp [token, isBoundary_of_ne]
  have hstep : (s.freshen m).closeFlow kind m = some ⟨{ (s.freshen m).setCurrent none with
      inner := ((s.freshen m).setCurrent none).inner.tail, keyAllowed := false }.push kind m
        (m.skip 1), 1⟩ := by
    rw [closeFlow, hfresh.dropCandidate]
    rfl
  have hstarts : StartsToken c := by
    have hall : ∀ e ∈ closings, StartsToken e.1 := by decide
    exact hall _ hc
  refine ⟨_, ?_, run_of_token last h hstarts (htoken.trans hstep)⟩
  generalize (s.freshen m).setCurrent none = s' at hdropped
  have hclosed : ({ s' with inner := s'.inner.tail } : Lexer).Stands depth kinds := by
    obtain ⟨hindent, houter, hoptional, hdepth, hkinds⟩ := hdropped
    rw [List.forall_mem_cons] at hoptional
    exact ⟨hindent, houter, List.forall_mem_cons.mpr ⟨hoptional.1, fun c hc =>
      hoptional.2 c (List.mem_of_mem_tail hc)⟩, by rw [List.length_tail, hdepth]; rfl, hkinds⟩
  exact (hclosed.allow false).push kind m (m.skip 1)

theorem run_comma (last m : Mark) (gs : List Glyph) (h : s.Stands depth kinds) :
    ∃ next, next.Stands depth (kinds ++ [.flowEntry]) ∧ next.keyAllowed = true ∧
      run last s (⟨',', m⟩ :: gs) = run last next gs := by
  have hfresh := h.freshen m
  have htoken : (s.freshen m).token ⟨',', m⟩ gs = some
      ⟨{ (s.freshen m).setCurrent none with keyAllowed := true }.push .flowEntry m (m.skip 1), 1⟩ := by
    simp [token, isBoundary_of_ne, flowEntry, hfresh.dropCandidate, single]
  have hstarts : StartsToken ',' := by decide
  exact ⟨_, ((hfresh.setCurrent rfl).allow true).push .flowEntry m (m.skip 1), rfl,
    run_of_token last h hstarts htoken⟩

/-! ### Scalars and keys -/

/-- The text of a string is its opening quote, what spells it, and the closing quote. -/
theorem exists_body (text : String) :
    ∃ body, Json.SpellsChars body text.toList ∧ (renderString text).length = body.length + 2 ∧
      ∀ (m : Mark) (rest : List Char), spread m (renderString text ++ rest)
        = ⟨'"', m⟩ :: spread (m.skip 1) (body ++ '"' :: rest) := by
  obtain ⟨body, hbody, hrender⟩ := Json.spellsString_renderString text
  refine ⟨body, hbody, by simp [hrender], fun m rest => ?_⟩
  rw [hrender, List.append_assoc, List.cons_append, spread]
  rfl

/-- A string is one token, after which no key may start. -/
theorem run_quoted (last : Mark) (h : s.Stands depth kinds) {text : String}
    (ht : BelowDelete text.toList) (rest : List Char) :
    run last s (spread m (renderString text ++ rest))
      = run last ((s.atScalar m).push (.scalar .quoted text) m m)
        (spread (m.skip (renderString text).length) rest) := by
  obtain ⟨body, hbody, hlength, hspread⟩ := exists_body text
  have hfresh := h.freshen m
  have hscan := Quoted.scan_of_spells hbody ht (m := m.skip 1) (Nat.succ_pos m.column) rest
  have htoken : (s.freshen m).token ⟨'"', m⟩ (spread (m.skip 1) (body ++ '"' :: rest)) = some
      ⟨(s.atScalar m).push (.scalar .quoted text) m m, 1 + (body.length + 1)⟩ := by
    simp [token, isBoundary_of_ne, content, hfresh.addCandidate, hscan, atScalar]
  have hstarts : StartsToken '"' := by decide
  have hdrop := drop_spread (m.skip 1) (body ++ ['"']) rest
  rw [hspread, run_of_token last h hstarts htoken, hlength]
  simp only [List.append_assoc, List.cons_append, List.nil_append, List.length_append,
    List.length_cons, List.length_nil, Mark.skip_skip] at hdrop
  rw [Nat.add_sub_cancel_left, hdrop, show 1 + (body.length + (0 + 1)) = body.length + 2 by omega]

theorem run_string (last : Mark) (h : s.Stands depth kinds) {text : String}
    (ht : BelowDelete text.toList) (rest : List Char) :
    ∃ next, next.Stands depth (kinds ++ [.scalar .quoted text]) ∧
      run last s (spread m (renderString text ++ rest))
        = run last next (spread (m.skip (renderString text).length) rest) :=
  ⟨_, (h.atScalar m).push _ m m, run_quoted last h ht rest⟩

theorem current_setCurrent (s : Lexer) (c : Option KeyCandidate) : (s.setCurrent c).current = c := by
  rw [setCurrent]
  split <;> simp_all [current]

theorem current_freshen (s : Lexer) (mark : Mark) :
    (s.freshen mark).current = fresh? mark s.current := by
  simp only [freshen, current]
  cases s.inner <;> rfl

/-- A candidate is remembered with the place among the tokens at which its key would go. -/
theorem candidate_atScalar (hallowed : s.keyAllowed = true) (mark : Mark) :
    (s.atScalar mark).current = some ⟨(s.atScalar mark).before.length, false, mark⟩ := by
  have hmarked : (s.freshen mark).marked mark
      = (s.freshen mark).setCurrent (some ⟨s.before.length, false, mark⟩) := if_pos hallowed
  have hbefore : (s.atScalar mark).before = s.before := by
    show ((s.freshen mark).marked mark).before = s.before
    rw [hmarked, setCurrent]
    split <;> rfl
  rw [hbefore]
  show ((s.freshen mark).marked mark).current = _
  rw [hmarked, current_setCurrent]

/-- A candidate stays one as long as the text stays on its line and near enough. -/
theorem candidate_freshen {position count : Nat} {required : Bool} {mark : Mark}
    (hc : s.current = some ⟨position, required, mark⟩) (hcount : count ≤ keyLength) :
    (s.freshen (mark.skip count)).current = some ⟨position, required, mark⟩ := by
  rw [current_freshen, hc]
  simp [fresh?, KeyCandidate.isStale, hcount]

/-- A token that is put before the last one might as well have come first. -/
theorem insert_push (s : Lexer) (kind kind' : TokenKind) (start stop mark : Mark) :
    (s.push kind start stop).insert s.before.length kind' mark
      = (s.push kind' mark mark).push kind start stop := by
  simp [insert, push]

/-- The colon after the candidate makes it a key. -/
theorem value_of_candidate (h : s.Stands (depth + 1) kinds) {required : Bool} {mark : Mark}
    (hc : s.current = some ⟨s.before.length, required, mark⟩) (kind : TokenKind) (start stop : Mark) :
    (s.push kind start stop).value m =
      some ⟨{ ((s.push .key mark mark).push kind start stop).setCurrent none with
        keyAllowed := false }.push .value m (m.skip 1), 1⟩ := by
  have hcurrent : (s.push kind start stop).current = some ⟨s.before.length, required, mark⟩ := hc
  have hflow : ((s.push .key mark mark).push kind start stop).inFlow = true := h.inFlow
  rw [value, hcurrent]
  simp [insert_push, openBlock, hflow, single]

/-- A key is found to be one at its colon, if that is near enough. -/
theorem run_key (last : Mark) (h : s.Stands (depth + 1) kinds) (hallowed : s.keyAllowed = true)
    {k : String} (hk : BelowDelete k.toList) (hlength : (renderString k).length ≤ keyLength)
    (rest : List Char) :
    ∃ next, next.Stands (depth + 1) (kinds ++ [.key, .scalar .quoted k, .value]) ∧
      run last s (spread m (renderString k ++ ':' :: rest))
        = run last next (spread (m.skip ((renderString k).length + 1)) rest) := by
  let colon := m.skip (renderString k).length
  have hscalar := h.atScalar m
  have hcolon := hscalar.freshen colon
  -- the key is still a candidate at the colon
  have hcandidate : ((s.atScalar m).freshen colon).current
      = some ⟨((s.atScalar m).freshen colon).before.length, false, m⟩ :=
    candidate_freshen (candidate_atScalar hallowed m) hlength
  have hvalue := value_of_candidate (m := colon) hcolon hcandidate (.scalar .quoted k) m m
  have htoken : (((s.atScalar m).push (.scalar .quoted k) m m).freshen colon).token ⟨':', colon⟩
      (spread (colon.skip 1) rest)
        = (((s.atScalar m).freshen colon).push (.scalar .quoted k) m m).value colon := by
    have hflow : (((s.atScalar m).freshen colon).push (.scalar .quoted k) m m).inFlow = true :=
      hcolon.inFlow
    show (((s.atScalar m).freshen colon).push (.scalar .quoted k) m m).token _ _ = _
    simp [token, isBoundary_of_ne, hflow]
  have hstarts : StartsToken ':' := by decide
  have hstep := run_of_token last (hscalar.push (.scalar .quoted k) m m) hstarts
    (htoken.trans hvalue)
  have hnext := ((((hcolon.push .key m m).push (.scalar .quoted k) m m).setCurrent (c := none)
    rfl).allow false).push .value colon (colon.skip 1)
  rw [List.append_assoc, List.append_assoc] at hnext
  refine ⟨_, hnext, ?_⟩
  rw [run_quoted last h hk, spread, hstep, Mark.skip_skip]
  rfl

/-- A word starts a plain scalar, a dash at its start included. -/
theorem startsPlain_of_isWordChar {c : Char} (hc : isWordChar c = true)
    (hnext : gs.head?.any Glyph.isBlank = false) : startsPlain true ⟨c, m⟩ gs = true := by
  by_cases hdash : c = '-'
  · simp [startsPlain, hdash, hnext]
  · have hindicator : isIndicator c = false := by
      have hall : "-?:,[]\x7b\x7d#&*!|>'\"%@\x60".toList.all (fun d => d = '-' || !isWordChar d)
          = true := by rfl
      rw [isIndicator, List.contains_eq_mem, decide_eq_false_iff_not]
      intro hmem
      have hor := List.all_eq_true.mp hall c hmem
      simp [hdash, hc] at hor
    have hblank : Glyph.isBlank ⟨c, m⟩ = false := by
      rw [(isPrintable_of_isWordChar hc).isBlank_eq]
      exact decide_eq_false (ne_of_isWordChar hc rfl)
    simp [startsPlain, hblank, hindicator]

theorem token_word (h : s.Stands (depth + 1) kinds) {c : Char} (hc : isWordChar c = true)
    (hm : 0 < m.column) (hnext : atGap gs = false) : s.token ⟨c, m⟩ gs = s.plain m (⟨c, m⟩ :: gs) := by
  have hne {d : Char} (hd : isWordChar d = false) : c ≠ d := ne_of_isWordChar hc hd
  have hblank : gs.head?.any Glyph.isBlank = false := by
    cases gs with
    | nil => rfl
    | cons g gs => exact (Bool.or_eq_false_iff.mp hnext).1
  simp [token, isBoundary_of_column hm, hnext, h.inFlow, startsPlain_of_isWordChar hc hblank,
    hne (d := '%') rfl, hne (d := '[') rfl, hne (d := '{') rfl, hne (d := ']') rfl,
    hne (d := '}') rfl, hne (d := ',') rfl, hne (d := '?') rfl, hne (d := ':') rfl,
    hne (d := '*') rfl, hne (d := '&') rfl, hne (d := '!') rfl, hne (d := '\'') rfl,
    hne (d := '"') rfl]

theorem run_word (last : Mark) (h : s.Stands (depth + 1) kinds) {word : String} (hne : word ≠ "")
    (hword : ∀ c ∈ word.toList, isWordChar c = true) (hm : 0 < m.column) {d : Char}
    (hd : d ∈ [',', ']', '}']) (rest : List Char) :
    ∃ next, next.Stands (depth + 1) (kinds ++ [.scalar .plain word]) ∧
      run last s (spread m (word.toList ++ d :: rest))
        = run last next (spread (m.skip word.toList.length) (d :: rest)) := by
  have hfresh := h.freshen m
  have hmarked := hfresh.marked m
  have hscan := Plain.scan_word (((s.freshen m).marked m).indent.elim 0 (· + 1)) hword hd m rest
  cases hlist : word.toList with
  | nil => exact absurd (String.toList_eq_nil_iff.mp hlist) hne
  | cons c cs =>
    rw [hlist] at hscan hword
    obtain ⟨hc, hcs⟩ := List.forall_mem_cons.mp hword
    have htoken : (s.freshen m).token ⟨c, m⟩ (spread (m.skip 1) (cs ++ d :: rest)) = some
        ⟨(s.atScalar m).push (.scalar .plain word) m m, cs.length + 1⟩ := by
      rw [token_word hfresh hc hm (Plain.not_atGap hcs hd _ rest), plain, hfresh.addCandidate]
      rw [List.cons_append, spread] at hscan
      simp only [Option.bind_eq_bind, Option.bind_some, hmarked.inFlow, hscan]
      rfl
    have hstarts : StartsToken c :=
      ⟨isPrintable_of_isWordChar hc, ne_of_isWordChar hc rfl, ne_of_isWordChar hc rfl⟩
    refine ⟨_, (h.atScalar m).push _ m m, ?_⟩
    rw [List.cons_append, spread, run_of_token last h hstarts htoken, Nat.add_sub_cancel, drop_spread,
      Mark.skip_skip, List.length_cons, Nat.add_comm 1]

/-! ## Values -/

/-- With `depth` brackets open, `text` gives tokens of the kinds `new` where `rest` follows. A key
must be able to start before it if the text asks for that, and can start after it if it grants
that. -/
def Passes (last : Mark) (depth : Nat) (asks grants : Bool) (text rest : List Char)
    (new : List TokenKind) : Prop :=
  ∀ (s : Lexer) (kinds : List TokenKind) (m : Mark), s.Stands depth kinds →
    (asks = true → s.keyAllowed = true) → 0 < m.column →
      ∃ next : Lexer, next.Stands depth (kinds ++ new) ∧ (grants = true → next.keyAllowed = true) ∧
        run last s (spread m (text ++ rest)) = run last next (spread (m.skip text.length) rest)

namespace Passes

variable {asks grants between : Bool} {text text' rest : List Char} {new new' : List TokenKind}

theorem nil (hgrants : grants = true → asks = true) :
    Passes last depth asks grants [] rest [] := by
  intro s kinds m h hasks _
  rw [← List.append_nil kinds] at h
  exact ⟨s, h, hasks ∘ hgrants, rfl⟩

/-- One text after another. -/
theorem append (h : Passes last depth asks between text (text' ++ rest) new)
    (h' : Passes last depth between grants text' rest new') :
    Passes last depth asks grants (text ++ text') rest (new ++ new') := by
  intro s kinds m hs hasks hm
  obtain ⟨s₁, hs₁, hbetween, hrun₁⟩ := h s kinds m hs hasks hm
  obtain ⟨s₂, hs₂, hgrants, hrun₂⟩ :=
    h' s₁ _ (m.skip text.length) hs₁ hbetween (Nat.lt_add_right _ hm)
  rw [List.append_assoc] at hs₂
  refine ⟨s₂, hs₂, hgrants, ?_⟩
  rw [List.append_assoc, hrun₁, hrun₂, Mark.skip_skip, List.length_append]

theorem comma : Passes last depth false grants [','] rest [.flowEntry] := by
  intro s kinds m h _ _
  obtain ⟨next, hnext, hallowed, hrun⟩ :=
    run_comma last m (spread (m.skip 1) rest) h
  exact ⟨next, hnext, fun _ => hallowed, hrun⟩

theorem key {k : String} (hk : BelowDelete k.toList)
    (hlength : (renderString k).length ≤ keyLength) :
    Passes last (depth + 1) true false (renderString k ++ [':']) rest
      [.key, .scalar .quoted k, .value] := by
  intro s kinds m h hallowed _
  obtain ⟨next, hnext, hrun⟩ := run_key last (m := m) h (hallowed rfl) hk hlength rest
  refine ⟨next, hnext, Bool.noConfusion, ?_⟩
  rw [List.append_assoc, List.length_append]
  exact hrun

theorem string {t : String} (ht : BelowDelete t.toList) :
    Passes last depth false false (renderString t) rest [.scalar .quoted t] := by
  intro s kinds m h _ _
  obtain ⟨next, hnext, hrun⟩ := run_string last (m := m) h ht rest
  exact ⟨next, hnext, Bool.noConfusion, hrun⟩

theorem word {w : String} (hne : w ≠ "") (hw : ∀ c ∈ w.toList, isWordChar c = true) {d : Char}
    (hd : d ∈ [',', ']', '}']) :
    Passes last (depth + 1) false false w.toList (d :: rest) [.scalar .plain w] := by
  intro s kinds m h _ hm
  obtain ⟨next, hnext, hrun⟩ := run_word last h hne hw hm hd rest
  exact ⟨next, hnext, Bool.noConfusion, hrun⟩

end Passes

/-- What passes between brackets passes with them, at the start of a text too. -/
theorem run_brackets (last m : Mark) {asks : Bool} {text rest : List Char} {new : List TokenKind}
    {opening closing : Char} {openKind closeKind : TokenKind}
    (hopen : (opening, openKind) ∈ openings) (hclose : (closing, closeKind) ∈ closings)
    (h : Passes last (depth + 1) asks false text (closing :: rest) new) (hs : s.Stands depth kinds) :
    ∃ next : Lexer, next.Stands depth (kinds ++ (openKind :: new ++ [closeKind])) ∧
      run last s (spread m (opening :: text ++ [closing] ++ rest))
        = run last next (spread (m.skip (opening :: text ++ [closing]).length) rest) := by
  obtain ⟨s₁, hs₁, hallowed, hrun₁⟩ :=
    run_open last m (spread (m.skip 1) (text ++ closing :: rest)) hs hopen
  obtain ⟨s₂, hs₂, -, hrun₂⟩ := h s₁ _ (m.skip 1) hs₁ (fun _ => hallowed) (Nat.succ_pos _)
  obtain ⟨s₃, hs₃, hrun₃⟩ := run_close last ((m.skip 1).skip text.length)
    (spread (((m.skip 1).skip text.length).skip 1) rest) hs₂ hclose
  refine ⟨s₃, ?_, ?_⟩
  · simpa using hs₃
  · have hlength : (opening :: text ++ [closing]).length = 1 + text.length + 1 := by
      simp
      omega
    rw [List.append_assoc, List.cons_append, spread]
    rw [hlength, ← Mark.skip_skip, ← Mark.skip_skip]
    exact hrun₁.trans (hrun₂.trans hrun₃)

theorem mem_openings : ('[', .flowSequence) ∈ openings ∧ ('{', .flowMapping) ∈ openings := by decide

theorem mem_closings : (']', .flowSequenceEnd) ∈ closings ∧ ('}', .flowMappingEnd) ∈ closings := by
  decide

mutual

/-- **A value between brackets gives its tokens.** -/
theorem passes_value : ∀ {v : Value}, v.FitsFlow → ∀ {d : Char}, d ∈ [',', ']', '}'] →
    ∀ (depth : Nat) (rest : List Char),
      Passes last (depth + 1) false false v.render (d :: rest) (tokensOf v)
  | .flag b, _, _, hd, _, _ => .word (by cases b <;> decide) (isWordChar_flagWord b) hd
  | .integer i, _, _, hd, _, _ => .word (toString_ne_empty i) (isWordChar_toString i) hd
  | .string _, h, _, _, _, _ => .string h
  | .array _, h, _, _, _, _ => by
    intro s kinds m hs _ _
    obtain ⟨next, hnext, hrun⟩ :=
      run_brackets last m mem_openings.1 mem_closings.1 (passes_items h _ _) hs
    exact ⟨next, hnext, Bool.noConfusion, hrun⟩
  | .object _, h, _, _, _, _ => by
    intro s kinds m hs _ _
    obtain ⟨next, hnext, hrun⟩ :=
      run_brackets last m mem_openings.2 mem_closings.2 (passes_members h _ _) hs
    exact ⟨next, hnext, Bool.noConfusion, hrun⟩

theorem passes_items : ∀ {vs : List Value}, Value.ItemsFitFlow vs →
    ∀ (depth : Nat) (rest : List Char),
      Passes last (depth + 1) false false (renderItems vs) (']' :: rest) (tokensOfItems vs)
  | [], _, _, _ => .nil id
  | [_], h, depth, rest => passes_value h.1 (by decide) depth rest
  | _ :: _ :: _, h, depth, rest =>
    (passes_value h.1 (by decide) depth _).append (Passes.comma.append (passes_items h.2 depth rest))

theorem passes_members : ∀ {ms : List (String × Value)}, Value.MembersFitFlow ms →
    ∀ (depth : Nat) (rest : List Char),
      Passes last (depth + 1) true false (renderMembers ms) ('}' :: rest) (tokensOfMembers ms)
  | [], _, _, _ => .nil Bool.noConfusion
  | [(k, v)], ⟨⟨hk, hlength⟩, hv, _⟩, depth, rest => by
    have hvalue : Passes last (depth + 1) false false v.render ('}' :: rest) (tokensOf v) :=
      passes_value hv (by decide) depth rest
    have hmember := (Passes.key hk hlength).append hvalue
    rwa [List.append_assoc] at hmember
  | (k, v) :: m :: ms, ⟨⟨hk, hlength⟩, hv, hms⟩, depth, rest => by
    have hrest : Passes last (depth + 1) false false ([','] ++ renderMembers (m :: ms))
        ('}' :: rest) ([.flowEntry] ++ tokensOfMembers (m :: ms)) :=
      Passes.comma.append (passes_members hms depth rest)
    have hvalue : Passes last (depth + 1) false false v.render
        (',' :: (renderMembers (m :: ms) ++ '}' :: rest)) (tokensOf v) :=
      passes_value hv (by decide) depth _
    have hmembers := (Passes.key hk hlength).append (hvalue.append hrest)
    simpa [renderMembers, tokensOfMembers] using hmembers

end

/-- At the end of a text no bracket is open, and no block. -/
theorem run_nil (last : Mark) (h : s.Stands 0 kinds) :
    ∃ tokens, run last s [] = ⟨tokens, false⟩ ∧
      tokens.map Token.kind = kinds ++ [.streamEnd] := by
  have hfresh := h.freshen last
  -- the end moves to a line of its own
  obtain ⟨stop, hstop⟩ : ∃ stop, (s.freshen last).finish last
      = some (((s.freshen last).setCurrent none).push .streamEnd stop stop).before.reverse := by
    simp only [finish, hfresh.closeBlocks, hfresh.dropCandidate]
    exact ⟨_, rfl⟩
  refine ⟨_, ?_, ((hfresh.setCurrent (c := none) rfl).push .streamEnd stop stop).kinds⟩
  rw [run, place, h.dropStale]
  simp only
  split
  · next heq =>
    cases heq
    rw [hfresh.dropStale, freshen_freshen, Option.bind_some, hstop]
    rfl
  · next heq => cases heq

end Lexer

/-- A value with brackets around it. -/
def IsCollection : Value → Prop
  | .array _ | .object _ => True
  | _ => False

/-- **The compact text of a collection is taken apart into its tokens.** -/
theorem ofGlyphs_render {v : Value} (hv : IsCollection v) (h : v.FitsFlow) (last : Mark) :
    ∃ tokens, TokenStream.ofGlyphs (spread {} v.render) last = ⟨tokens, false⟩ ∧
      tokens.map Token.kind = tokensOf v ++ [.streamEnd] := by
  obtain ⟨s, hs, hrun⟩ : ∃ s : Lexer, s.Stands 0 ([] ++ tokensOf v) ∧
      Lexer.run last {} (spread {} (v.render ++ []))
        = Lexer.run last s (spread (Mark.skip {} v.render.length) []) := by
    match v, hv with
    | .array _, _ =>
      exact Lexer.run_brackets last {} Lexer.mem_openings.1 Lexer.mem_closings.1
        (Lexer.passes_items h _ _) Lexer.stands_empty
    | .object _, _ =>
      exact Lexer.run_brackets last {} Lexer.mem_openings.2 Lexer.mem_closings.2
        (Lexer.passes_members h _ _) Lexer.stands_empty
  obtain ⟨tokens, htokens, hkinds⟩ := Lexer.run_nil last hs
  rw [List.append_nil] at hrun
  exact ⟨tokens, hrun.trans htokens, hkinds⟩

end ProtoScribe.Yaml
