import ProtoScribe.Proofs.Json.Literals
import ProtoScribe.Proofs.Json.Render
import ProtoScribe.Proofs.Yaml.Glyphs
import ProtoScribe.Yaml.Scalar.Plain
import ProtoScribe.Yaml.Scalar.Quoted

/-!
# JSON literals as scalars

Whatever spells a string in JSON is a double-quoted scalar that means the same string, as long as
that goes no further than `~` (`Quoted.scan_of_spells`). The words and numbers of JSON are plain
scalars that end where JSON goes on with a comma or a closing bracket (`Plain.scan_word`).
-/

namespace ProtoScribe.Yaml

open Json (SpellsChars SpellsUnit IsHexDigit)

/-- Text with characters of one byte only, the last of them not included. -/
def BelowDelete (cs : List Char) : Prop := ∀ c ∈ cs, c.toNat < 0x7F

instance (cs : List Char) : Decidable (BelowDelete cs) :=
  decidable_of_iff (cs.all (·.toNat < 0x7F) = true) (by simp [BelowDelete])

/-- Documents are bounded at the start of a line only. -/
theorem isBoundary_of_column {m : Mark} (h : 0 < m.column) (kind c : Char) (gs : List Glyph) :
    isBoundary kind (⟨c, m⟩ :: gs) = false := by
  rw [isBoundary.eq_def]
  split
  · next heq =>
    obtain ⟨rfl, -⟩ := List.cons.inj heq
    simp [Nat.ne_of_gt h]
  · rfl

theorem atBoundary_of_column {m : Mark} (h : 0 < m.column) (c : Char) (gs : List Glyph) :
    atBoundary (⟨c, m⟩ :: gs) = false := by
  rw [atBoundary, isBoundary_of_column h, isBoundary_of_column h]
  rfl

/-! ## What spells a string is printable -/

theorem isPrintable_of_isHexDigit {c : Char} {value : Nat} (h : IsHexDigit c value) :
    IsPrintable c := by
  have hsmall : c.toNat < 128 := by
    refine Json.StringLiteral.toNat_toLower_lt ?_
    have hall : Json.hexDigits.all (·.toNat < 128) = true := by decide
    simpa using List.all_eq_true.mp hall _ (List.mem_of_getElem? h)
  have hall : ∀ n < 128, (Char.ofNat n).toLower ∈ Json.hexDigits → IsPrintable (Char.ofNat n) := by
    decide +kernel
  have hc := hall c.toNat hsmall
  rw [Char.ofNat_toNat] at hc
  exact hc (List.mem_of_getElem? h)

theorem isPrintable_of_spellsUnit {ds : List Char} {unit : Nat} (h : SpellsUnit ds unit) :
    ∀ d ∈ ds, IsPrintable d := by
  obtain ⟨ha, hb, hc, hd⟩ := h
  simp only [List.forall_mem_cons]
  exact ⟨isPrintable_of_isHexDigit ha, isPrintable_of_isHexDigit hb, isPrintable_of_isHexDigit hc,
    isPrintable_of_isHexDigit hd, List.forall_mem_nil _⟩

theorem isPrintable_of_mem_shortEscapes {l c : Char} (h : (l, c) ∈ Json.shortEscapes) :
    IsPrintable l := by
  have hall : ∀ e ∈ Json.shortEscapes, IsPrintable e.1 := by decide
  exact hall _ h

/-- No text below `~` has a character that needs two units. -/
theorem not_belowDelete_pair {c : Char} {s : List Char} {high low : Nat}
    (h : c.toNat = 0x10000 + high + low) : ¬BelowDelete (c :: s) := by
  intro hs
  have hc := hs c List.mem_cons_self
  omega

theorem isPrintable_of_spellsChars {body s : List Char} (h : SpellsChars body s) :
    BelowDelete s → ∀ c ∈ body, IsPrintable c := by
  have hbackslash : IsPrintable '\\' := by decide
  have hu : IsPrintable 'u' := by decide
  induction h with
  | nil => exact fun _ => nofun
  | plain _ _ hle _ ih =>
    intro hs
    obtain ⟨hc, hs⟩ := List.forall_mem_cons.mp hs
    exact List.forall_mem_cons.mpr ⟨⟨hle, Nat.le_of_lt_succ hc⟩, ih hs⟩
  | short hmem _ ih =>
    intro hs
    exact List.forall_mem_cons.mpr ⟨hbackslash, List.forall_mem_cons.mpr
      ⟨isPrintable_of_mem_shortEscapes hmem, ih (List.forall_mem_cons.mp hs).2⟩⟩
  | unit hunit _ ih =>
    intro hs
    exact List.forall_mem_cons.mpr ⟨hbackslash, List.forall_mem_cons.mpr ⟨hu,
      List.forall_mem_append.mpr
        ⟨isPrintable_of_spellsUnit hunit, ih (List.forall_mem_cons.mp hs).2⟩⟩⟩
  | pair _ _ _ _ _ _ hc => exact fun hs => absurd hs (not_belowDelete_pair hc)

/-! ## Quoted scalars -/

namespace Quoted

/-- What has been read with the gap at its end, in reverse. -/
def Partial.chars (p : Partial) : List Char := p.gap.folded ++ p.before

@[simp] theorem Partial.chars_push (p : Partial) (c : Char) (count : Nat) :
    (p.push c count).chars = c :: p.chars := rfl

@[simp] theorem Partial.count_push (p : Partial) (c : Char) (count : Nat) :
    (p.push c count).count = p.count + count := rfl

/-- A gap within a line grows by the blanks that it has. -/
theorem folded_push_space {gap : Gap} (h : gap.isBroken = false) (m : Mark) :
    (gap.push ⟨' ', m⟩).folded = ' ' :: gap.folded ∧ (gap.push ⟨' ', m⟩).isBroken = false := by
  cases gap with
  | blanks before => exact ⟨rfl, rfl⟩
  | breaks first before => cases h

variable {p : Partial} {m : Mark} {gs : List Glyph}

theorem scanFrom_space :
    scanFrom .double p (⟨' ', m⟩ :: gs)
      = scanFrom .double { p with gap := p.gap.push ⟨' ', m⟩, count := p.count + 1 } gs := by
  rw [scanFrom.eq_def]
  rfl

/-- Whatever is no space is looked at as it stands. -/
theorem scanFrom_word {c : Char} (hc : IsPrintable c) (hspace : c ≠ ' ') (hm : 0 < m.column)
    (gs : List Glyph) :
    (Glyph.isBlank ⟨c, m⟩ || Glyph.isBreak ⟨c, m⟩) = false ∧ atBoundary (⟨c, m⟩ :: gs) = false :=
  ⟨by rw [hc.isBlank_eq, hc.not_isBreak, decide_eq_false hspace]; rfl, atBoundary_of_column hm c gs⟩

theorem scanFrom_plain {c : Char} (hc : IsPrintable c) (hspace : c ≠ ' ') (hquote : c ≠ '"')
    (hbackslash : c ≠ '\\') (hm : 0 < m.column) :
    scanFrom .double p (⟨c, m⟩ :: gs) = scanFrom .double (p.push c 1) gs := by
  obtain ⟨hblank, hboundary⟩ := scanFrom_word hc hspace hm gs
  rw [scanFrom.eq_def]
  simp [hblank, hboundary, Quote.char, hquote, hbackslash]

theorem scanFrom_quote (hm : 0 < m.column) :
    scanFrom .double p (⟨'"', m⟩ :: gs) = some p.finish := by
  obtain ⟨hblank, hboundary⟩ := scanFrom_word (c := '"') (by decide) (by decide) hm gs
  rw [scanFrom.eq_def]
  simp [hblank, hboundary, Quote.char]

theorem scanFrom_short {l c : Char} (h : (l, c) ∈ Json.shortEscapes) (hm : 0 < m.column)
    (m' : Mark) :
    scanFrom .double p (⟨'\\', m⟩ :: ⟨l, m'⟩ :: gs) = scanFrom .double (p.push c 2) gs := by
  obtain ⟨hblank, hboundary⟩ :=
    scanFrom_word (c := '\\') (by decide) (by decide) hm (⟨l, m'⟩ :: gs)
  have hescaped : escaped? l = some c := by
    have hall : ∀ e ∈ Json.shortEscapes, escaped? e.1 = some e.2 := by decide
    exact hall _ h
  rw [scanFrom.eq_def]
  simp [hblank, hboundary, Quote.char, (isPrintable_of_mem_shortEscapes h).not_isBreak, hescaped]

/-- Four digits that spell the unit of a character are its code. -/
theorem codeChar?_of_spellsUnit {ds : List Char} {c : Char} (h : SpellsUnit ds c.toNat)
    (m : Mark) (cs : List Char) :
    ds.length = 4 ∧ codeChar? 4 (spread m (ds ++ cs)) = some c := by
  generalize hunit : c.toNat = unit at h
  obtain ⟨ha, hb, hc, hd⟩ := h
  have hvalid : c.toNat.isValidChar := c.valid
  refine ⟨rfl, ?_⟩
  have hn (i j k l : Nat) : (((0 * 16 + i) * 16 + j) * 16 + k) * 16 + l
      = ((i * 16 + j) * 16 + k) * 16 + l := by omega
  simp [spread, codeChar?, code?, Json.StringLiteral.hexDigit?_of_isHexDigit ha,
    Json.StringLiteral.hexDigit?_of_isHexDigit hb, Json.StringLiteral.hexDigit?_of_isHexDigit hc,
    Json.StringLiteral.hexDigit?_of_isHexDigit hd, ← hunit, hvalid]

theorem scanFrom_unit {ds : List Char} {c : Char} (h : SpellsUnit ds c.toNat) (hm : 0 < m.column)
    (m' : Mark) (cs : List Char) :
    scanFrom .double p (⟨'\\', m⟩ :: ⟨'u', m'⟩ :: spread (m'.skip 1) (ds ++ cs))
      = scanFrom .double (p.push c 6) (spread (m'.skip 5) cs) := by
  obtain ⟨hlength, hcode⟩ := codeChar?_of_spellsUnit h (m'.skip 1) cs
  obtain ⟨hblank, hboundary⟩ := scanFrom_word (c := '\\') (by decide) (by decide) hm
    (⟨'u', m'⟩ :: spread (m'.skip 1) (ds ++ cs))
  have hdrop := drop_spread (m'.skip 1) ds cs
  rw [hlength, Mark.skip_skip] at hdrop
  have hu : IsPrintable 'u' := by decide
  rw [scanFrom.eq_def]
  simp [hblank, hboundary, Quote.char, hu.not_isBreak, escaped?, codeLength?, hcode, hdrop]

/-- Reading on in what spells a string adds the string. -/
theorem scanFrom_append {body s : List Char} (h : SpellsChars body s) :
    ∀ {p : Partial} {m : Mark} (rest : List Char), BelowDelete s → 0 < m.column →
      p.gap.isBroken = false →
        scanFrom .double p (spread m (body ++ '"' :: rest))
          = some ⟨String.ofList (p.chars.reverse ++ s), p.count + body.length + 1⟩ := by
  induction h with
  | nil =>
    intro p m rest _ hm _
    rw [List.nil_append, spread, scanFrom_quote hm, List.append_nil]
    rfl
  | @plain c cs s hquote hbackslash hle _ ih =>
    intro p m rest hs hm hgap
    obtain ⟨hc, hs⟩ := List.forall_mem_cons.mp hs
    have hprintable : IsPrintable c := ⟨hle, Nat.le_of_lt_succ hc⟩
    rw [List.cons_append, spread]
    by_cases hspace : c = ' '
    · rw [hspace]
      obtain ⟨hfolded, hbroken⟩ := folded_push_space hgap m
      rw [scanFrom_space, ih rest hs (Nat.lt_succ_of_lt hm) hbroken]
      simp [Partial.chars, hfolded]
      omega
    · rw [scanFrom_plain hprintable hspace hquote hbackslash hm,
        ih rest hs (Nat.lt_succ_of_lt hm) rfl]
      simp
      omega
  | short hmem _ ih =>
    intro p m rest hs hm hgap
    rw [List.cons_append, List.cons_append, spread, spread, scanFrom_short hmem hm,
      ih rest (List.forall_mem_cons.mp hs).2 (Nat.lt_add_right 2 hm) rfl]
    simp
    omega
  | @unit ds c cs s hunit _ ih =>
    intro p m rest hs hm hgap
    have hlength := (codeChar?_of_spellsUnit hunit m cs).1
    rw [List.cons_append, List.cons_append, List.append_assoc, spread, spread,
      scanFrom_unit hunit hm, Mark.skip_skip,
      ih rest (List.forall_mem_cons.mp hs).2 (Nat.lt_add_right _ hm) rfl]
    simp only [Partial.chars_push, Partial.count_push, List.reverse_cons, List.append_assoc,
      List.cons_append, List.nil_append, List.length_cons, List.length_append, hlength]
    congr 2
    omega
  | pair _ _ _ _ _ _ hc => exact fun _ hs => absurd hs (not_belowDelete_pair hc)

/-- **What spells a string in JSON is a quoted scalar that means the string.** -/
theorem scan_of_spells {body : List Char} {s : String} (h : SpellsChars body s.toList)
    (hs : BelowDelete s.toList) {m : Mark} (hm : 0 < m.column) (rest : List Char) :
    scan .double (spread m (body ++ '"' :: rest)) = some ⟨s, body.length + 1⟩ := by
  rw [scan, scanFrom_append h rest hs hm rfl]
  simp [Partial.chars, Gap.none, Gap.folded, String.ofList_toList]

end Quoted

/-! ## Plain scalars -/

/-- Characters of names are no indicators. -/
theorem ne_of_isWordChar {c d : Char} (h : isWordChar c = true) (hd : isWordChar d = false) :
    c ≠ d := by
  rintro rfl
  rw [h] at hd
  cases hd

theorem isPrintable_of_isWordChar {c : Char} (h : isWordChar c = true) : IsPrintable c := by
  have hval : c.toNat = c.val.toNat := rfl
  simp only [isWordChar, Char.isAlphanum, Char.isAlpha, Char.isUpper, Char.isLower, Char.isDigit,
    Bool.or_eq_true, Bool.and_eq_true, decide_eq_true_eq, UInt32.le_iff_toNat_le, ge_iff_le] at h
  rcases h with (((h | h) | h) | rfl) | rfl
  · constructor <;> simp at h <;> omega
  · constructor <;> simp at h <;> omega
  · constructor <;> simp at h <;> omega
  · decide
  · decide

/-- An integer is spelled with a sign, if it has one, and its digits. -/
theorem toList_toString (i : Int) :
    (toString i).toList = (if i < 0 then ['-'] else []) ++ Nat.toDigits 10 i.natAbs := by
  rw [← Json.Numeral.text_ofInt]
  simp [Json.Numeral.text, Json.Numeral.ofInt]

theorem toString_ne_empty (i : Int) : toString i ≠ "" := by
  intro h
  have htext := toList_toString i
  rw [h, String.toList_empty, eq_comm, List.append_eq_nil_iff] at htext
  exact Nat.toDigits_ne_nil htext.2

theorem isWordChar_toString (i : Int) : ∀ c ∈ (toString i).toList, isWordChar c = true := by
  have hdigits (n : Nat) : ∀ c ∈ Nat.toDigits 10 n, isWordChar c = true := by
    intro c hc
    simp [isWordChar, Char.isAlphanum, Nat.isDigit_of_mem_toDigits (by decide) (by decide) hc]
  rw [toList_toString]
  intro c hc
  rcases List.mem_append.mp hc with hc | hc
  · have hsign : i < 0 ∧ c = '-' := by simpa using hc
    rw [hsign.2]
    rfl
  · exact hdigits _ c hc

namespace Plain

variable {indent : Nat} {p : Partial} {m : Mark} {gs : List Glyph}

theorem scanFrom_cons {c : Char} (hc : isWordChar c = true) (hgap : p.gap = .none) :
    scanFrom true indent p (⟨c, m⟩ :: gs)
      = scanFrom true indent ⟨c :: p.before, .none, p.count + 1⟩ gs := by
  have hne {d : Char} (hd : isWordChar d = false) : c ≠ d := ne_of_isWordChar hc hd
  rw [scanFrom]
  simp [Glyph.isBlank, Glyph.isBreak, isBreakChar, continues, isFlowIndicator, hgap, Gap.none,
    Gap.folded, hne (d := ' ') rfl, hne (d := '\t') rfl, hne (d := '\n') rfl,
    hne (d := '\u2028') rfl, hne (d := '\u2029') rfl, hne (d := ':') rfl, hne (d := ',') rfl,
    hne (d := '[') rfl, hne (d := ']') rfl, hne (d := '{') rfl, hne (d := '}') rfl]

/-- A scalar inside brackets ends before what may follow a value there. -/
theorem scanFrom_close {d : Char} (hd : d ∈ [',', ']', '}']) (hgap : p.gap = .none) :
    scanFrom true indent p (⟨d, m⟩ :: gs) = some p.finish := by
  simp only [List.mem_cons, List.not_mem_nil, or_false] at hd
  rw [scanFrom]
  rcases hd with rfl | rfl | rfl <;>
    simp [Glyph.isBlank, Glyph.isBreak, isBreakChar, continues, isFlowIndicator, hgap]

/-- A word goes on, or ends before what may follow a value. -/
theorem not_atGap {word : List Char} (hword : ∀ c ∈ word, isWordChar c = true) {d : Char}
    (hd : d ∈ [',', ']', '}']) (m : Mark) (rest : List Char) :
    atGap (spread m (word ++ d :: rest)) = false := by
  have hhead (c : Char) (hc : IsPrintable c) (hspace : c ≠ ' ') (cs : List Char) :
      atGap (spread m (c :: cs)) = false := by
    rw [spread, atGap, hc.isBlank_eq, hc.not_isBreak, decide_eq_false hspace]
    rfl
  cases word with
  | nil =>
    have hclose : IsPrintable d ∧ d ≠ ' ' := by
      simp only [List.mem_cons, List.not_mem_nil, or_false] at hd
      rcases hd with rfl | rfl | rfl <;> decide
    exact hhead d hclose.1 hclose.2 rest
  | cons c word =>
    have hc := hword c List.mem_cons_self
    exact hhead c (isPrintable_of_isWordChar hc) (ne_of_isWordChar hc rfl) _

theorem scanFrom_append {word : List Char} : ∀ {p : Partial} {m : Mark} {d : Char} (rest : List Char),
    (∀ c ∈ word, isWordChar c = true) → d ∈ [',', ']', '}'] → p.gap = .none →
      scanFrom true indent p (spread m (word ++ d :: rest))
        = some ⟨⟨String.ofList (p.before.reverse ++ word), false⟩, p.count + word.length⟩ := by
  induction word with
  | nil =>
    intro p m d rest _ hd hgap
    rw [List.nil_append, spread, scanFrom_close hd hgap, Partial.finish, hgap, List.append_nil]
    rfl
  | cons c word ih =>
    intro p m d rest hword hd hgap
    obtain ⟨hc, hword⟩ := List.forall_mem_cons.mp hword
    rw [List.cons_append, spread, scanFrom_cons hc hgap, ih rest hword hd rfl]
    simp
    omega

/-- **A word inside brackets is a plain scalar.** -/
theorem scan_word (indent : Nat) {word : String} (hword : ∀ c ∈ word.toList, isWordChar c = true)
    {d : Char} (hd : d ∈ [',', ']', '}']) (m : Mark) (rest : List Char) :
    scan true indent (spread m (word.toList ++ d :: rest))
      = some ⟨⟨word, false⟩, word.toList.length⟩ := by
  rw [scan, scanFrom_append rest hword hd rfl]
  simp [String.ofList_toList]

end Plain

end ProtoScribe.Yaml
