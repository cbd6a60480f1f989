import Mathlib
import ProtoScribe.Command.Run

/-!
# How often reports are asked for

A line that asks for more reports, or for fewer, asks for the same in everything else: each word
that does nothing but raise the verbosity may be replaced by any number of such words
(`Request.ofWords_respelled`). Two lines that agree on their other words therefore run the same
command (`Invocation.eq_of_ofWords`).

No such word can be the value of an option, which is why replacing one in a line that can be read
never takes a value away.
-/

namespace ProtoScribe.Command

/-! ## Words that ask for more reports -/

/-- Whether a word does nothing but raise the verbosity: `--verbose`, or a dash and some `v`s. -/
def isVoice (word : String) : Bool :=
  match Word.of word with
  | .long name none => name = "verbose"
  | .short letters => letters.all (· = 'v')
  | _ => false

/-- A line with each word that only raises the verbosity replaced by any number of such words. -/
inductive Respelled : List String → List String → Prop where
  | nil : Respelled [] []
  | word {word : String} {words words' : List String} (h : isVoice word = false)
      (rest : Respelled words words') : Respelled (word :: words) (word :: words')
  | voice {word : String} {words words' : List String} (voices : List String) (h : isVoice word)
      (hvoices : ∀ v ∈ voices, isVoice v) (rest : Respelled words words') :
      Respelled (word :: words) (voices ++ words')

/-- All these words can be left out. -/
theorem respelled_filter : ∀ words : List String,
    Respelled words (words.filter fun word => !isVoice word)
  | [] => .nil
  | word :: words => by
    cases h : isVoice word with
    | true =>
      simp only [List.filter_cons, h]
      exact .voice [] h (by simp) (respelled_filter words)
    | false =>
      simp only [List.filter_cons, h]
      exact .word h (respelled_filter words)

/-- The other words stay, and no others are added. -/
theorem Respelled.filter_eq {words words' : List String} (h : Respelled words words') :
    (words'.filter fun word => !isVoice word) = words.filter fun word => !isVoice word := by
  induction h with
  | nil => rfl
  | word h _ ih => simp only [List.filter_cons, h, ih]
  | voice voices h hvoices _ ih =>
    have hnone : (voices.filter fun word => !isVoice word) = [] :=
      List.filter_eq_nil_iff.mpr fun v hv => by simp [hvoices v hv]
    simp [List.filter_append, hnone, h, ih]

/-- The settings with another verbosity. -/
def Settings.voiced (s : Settings) (n : Nat) : Settings := { s with verbose := n }

theorem Settings.set_voiced (s : Settings) (n : Nat) (o : ValueOption) (value : String) :
    (s.voiced n).set o value = (s.set o value).map (·.voiced n) := by
  cases o with
  | name => by_cases h : s.name.isSome <;> simp [set, voiced, h]
  | config | schema | outputDir =>
    simp only [set, voiced, Option.map_map]
    rfl

theorem Settings.letters_of_voice : ∀ {letters : List Char} (s : Settings) (verb : Option Verb),
    letters.all (· = 'v') → ∃ n, s.letters verb letters = .settings (s.voiced n)
  | [], s, _, _ => ⟨s.verbose, rfl⟩
  | c :: cs, s, verb, h => by
    simp only [List.all_cons, Bool.and_eq_true, decide_eq_true_eq] at h
    obtain ⟨rfl, hcs⟩ := h
    obtain ⟨n, hn⟩ := letters_of_voice (s.voiced (min (s.verbose + 1) countLimit)) verb hcs
    exact ⟨n, hn⟩

/-- Letters that leave settings only raise the verbosity: the others make requests. -/
theorem Settings.voice_of_letters : ∀ {letters : List Char} {s s' : Settings} {verb : Option Verb},
    s.letters verb letters = .settings s' → letters.all (· = 'v') ∧ ∃ n, s' = s.voiced n
  | [], s, _, _, h => by
    cases h
    exact ⟨rfl, s.verbose, rfl⟩
  | c :: cs, s, s', verb, h => by
    by_cases hc : c = 'v'
    · subst hc
      have hrest : (s.voiced (min (s.verbose + 1) countLimit)).letters verb cs = .settings s' := h
      obtain ⟨hcs, n, hn⟩ := voice_of_letters hrest
      exact ⟨by simpa using hcs, n, hn⟩
    · simp only [letters, shortOption?, hc, if_false] at h
      split at h
      · cases h
      · next o ho =>
        split at ho
        · cases ho
          cases h
        split at ho
        · cases ho
          cases h
        · cases ho

/-- What is the value of an option is no option. -/
theorem isVoice_of_isValue {word : String} (h : isValue word) : isVoice word = false := by
  unfold isValue at h
  split at h
  · next hword => simp [isVoice, hword]
  · cases h

/-- No option that takes a value is named like the one that raises the verbosity. -/
theorem isVoice_of_valueOption? {verb : Option Verb} {word name : String} {attached : Option String}
    {o : ValueOption} (hword : Word.of word = .long name attached)
    (ho : valueOption? verb name = some o) : isVoice word = false := by
  cases attached with
  | some => simp [isVoice, hword]
  | none =>
    rw [isVoice, hword, decide_eq_false_iff_not]
    rintro rfl
    simp [valueOption?] at ho

/-- The other options without a value do the same at any verbosity. -/
theorem Settings.flag_voiced {s s' : Settings} {verb : Option Verb} {o : FlagOption}
    (ho : o ≠ .verbose) (h : s.flag verb o = .settings s') (n : Nat) :
    (s.voiced n).flag verb o = .settings (s'.voiced n) := by
  cases o with
  | verbose => exact absurd rfl ho
  | help | version => cases h
  | atomic =>
    simp only [flag] at h
    split at h
    · cases h
    · next hatomic =>
      cases h
      simp [flag, voiced, hatomic]

theorem name_of_flagOption? {verb : Option Verb} {name : String}
    (h : flagOption? verb name = some .verbose) : name = "verbose" := by
  unfold flagOption? at h
  split_ifs at h with hname <;> first | exact hname | cases h

/-! ## Options -/

/-- A word that only raises the verbosity does so at every level of the line. -/
theorem readOptions_voice {word : String} (h : isVoice word) (verb : Option Verb) (s : Settings)
    (words : List String) :
    ∃ n, readOptions verb s (word :: words) = readOptions verb (s.voiced n) words := by
  unfold isVoice at h
  split at h
  · next name hword =>
    obtain rfl : name = "verbose" := by simpa using h
    refine ⟨min (s.verbose + 1) countLimit, ?_⟩
    simp [readOptions, hword, valueOption?, flagOption?, Settings.flag, Settings.voiced]
  · next letters hword =>
    obtain ⟨n, hn⟩ := s.letters_of_voice verb h
    exact ⟨n, by simp only [readOptions, hword, hn]⟩
  · cases h

theorem readOptions_voices : ∀ {voices : List String}, (∀ v ∈ voices, isVoice v) →
    ∀ (verb : Option Verb) (s : Settings) (words : List String),
      ∃ n, readOptions verb s (voices ++ words) = readOptions verb (s.voiced n) words
  | [], _, _, s, _ => ⟨s.verbose, rfl⟩
  | v :: voices, h, verb, s, words => by
    obtain ⟨hv, hvoices⟩ := List.forall_mem_cons.mp h
    obtain ⟨k, hk⟩ := readOptions_voice hv verb s (voices ++ words)
    obtain ⟨n, hn⟩ := readOptions_voices hvoices verb (s.voiced k) words
    exact ⟨n, hk.trans hn⟩

/-- A word that is not replaced stays in front. -/
theorem Respelled.of_not_voice {word : String} {words words' : List String}
    (h : Respelled (word :: words) words') (hword : isVoice word = false) :
    ∃ rest, words' = word :: rest ∧ Respelled words rest := by
  cases h with
  | word _ hrest => exact ⟨_, rfl, hrest⟩
  | voice voices h => cases hword.symm.trans h

/-- A word that is replaced gives way to words like it. -/
theorem Respelled.of_voice {word : String} {words words' : List String}
    (h : Respelled (word :: words) words') (hword : isVoice word) :
    ∃ voices rest, words' = voices ++ rest ∧ (∀ v ∈ voices, isVoice v) ∧ Respelled words rest := by
  cases h with
  | word h => cases hword.symm.trans h
  | voice voices _ hvoices hrest => exact ⟨voices, _, rfl, hvoices, hrest⟩

/-- Options that can be read are read to the same settings but for the verbosity. -/
theorem readOptions_respelled {verb : Option Verb} {words words' : List String} {s s₁ : Settings}
    {rest : List String} (n : Nat) (h : Respelled words words')
    (hr : readOptions verb s words = .settings s₁ rest) :
    ∃ k rest', readOptions verb (s.voiced n) words' = .settings (s₁.voiced k) rest' ∧
      Respelled rest rest' := by
  -- Where the word that is read only raises the verbosity, what stands for it is read past, and the
  -- reading goes on with the verbosity that comes of it.
  fun_induction readOptions verb s words generalizing words' n with
  | case1 s =>
    cases hr
    cases h
    exact ⟨n, [], rfl, .nil⟩
  | case2 s word words hword =>
    cases hr
    obtain ⟨rest, rfl, hrest⟩ := h.of_not_voice (by simp [isVoice, hword])
    exact ⟨n, word :: rest, by simp [readOptions, hword], .word (by simp [isVoice, hword]) hrest⟩
  | case3 s word words hword hempty =>
    cases hr
    obtain ⟨rest, rfl, hrest⟩ := h.of_not_voice (by simp [isVoice, hword])
    obtain rfl := List.isEmpty_iff.mp hempty
    cases hrest
    exact ⟨n, [], by simp [readOptions, hword], .nil⟩
  | case5 s word words letters hword s' hletters ih =>
    obtain ⟨hvoice, m, rfl⟩ := Settings.voice_of_letters hletters
    obtain ⟨voices, rest, rfl, hvoices, hrest⟩ :=
      h.of_voice (by simpa [isVoice, hword] using hvoice)
    obtain ⟨k, hk⟩ := readOptions_voices hvoices verb (s.voiced n) rest
    rw [hk]
    exact ih k hrest hr
  | case7 s word name o value words hoption s' hset hword ih =>
    obtain ⟨rest, rfl, hrest⟩ := h.of_not_voice (by simp [isVoice, hword])
    have hset' : (s.voiced n).set o value = some (s'.voiced n) := by rw [s.set_voiced, hset]; rfl
    simp only [readOptions, hword, hoption, hset']
    exact ih n hrest hr
  | case9 s word name o value words hoption hvalue s' hset hword ih =>
    obtain ⟨rest, rfl, hrest⟩ := h.of_not_voice (isVoice_of_valueOption? hword hoption)
    obtain ⟨rest', rfl, hrest'⟩ := hrest.of_not_voice (isVoice_of_isValue hvalue)
    have hset' : (s.voiced n).set o value = some (s'.voiced n) := by rw [s.set_voiced, hset]; rfl
    simp only [readOptions, hword, hoption, hvalue, if_true, hset']
    exact ih n hrest' hr
  | case12 s word name o words hflag hoption s' hs' hword ih =>
    by_cases ho : o = .verbose
    · subst ho
      obtain rfl := name_of_flagOption? hflag
      cases hs'
      obtain ⟨voices, rest, rfl, hvoices, hrest⟩ := h.of_voice (by simp [isVoice, hword])
      obtain ⟨k, hk⟩ := readOptions_voices hvoices verb (s.voiced n) rest
      rw [hk]
      exact ih k hrest hr
    · have hname : name ≠ "verbose" := by
        rintro rfl
        exact ho (Option.some.inj (hflag.symm.trans (by simp [flagOption?])))
      obtain ⟨rest, rfl, hrest⟩ := h.of_not_voice (by simp [isVoice, hword, hname])
      simp only [readOptions, hword, hoption, hflag, Settings.flag_voiced ho hs']
      exact ih n hrest hr
  | case4 | case6 | case8 | case10 | case11 | case13 | case14 => cases hr

/-! ## Lines -/

theorem Settings.flag_ne_run {s : Settings} {verb : Option Verb} {o : FlagOption} {r : Request}
    (h : s.flag verb o = .request r) (i : Invocation) : r ≠ .run i := by
  cases o with
  | verbose => cases h
  | help | version =>
    cases h
    nofun
  | atomic =>
    simp only [flag] at h
    split at h
    · cases h
      nofun
    · cases h

theorem Settings.letters_ne_run : ∀ {letters : List Char} {s : Settings} {verb : Option Verb}
    {r : Request}, s.letters verb letters = .request r → ∀ i : Invocation, r ≠ .run i
  | [], _, _, _, h, _ => by cases h
  | c :: cs, s, verb, r, h, i => by
    simp only [letters] at h
    split at h
    · cases h
      nofun
    · split at h
      · exact letters_ne_run h i
      · next hflag =>
        cases h
        exact flag_ne_run hflag i

/-- What options ask for on their own is never a command to be run. -/
theorem readOptions_ne_run {verb : Option Verb} {s : Settings} {words : List String} {r : Request}
    (h : readOptions verb s words = .request r) (i : Invocation) : r ≠ .run i := by
  fun_induction readOptions verb s words with
  | case1 | case2 | case3 | case10 => cases h
  | case4 | case8 | case11 | case14 =>
    cases h
    nofun
  | case5 _ _ _ _ _ _ _ ih | case7 _ _ _ _ _ _ _ _ _ _ ih | case9 _ _ _ _ _ _ _ _ _ _ _ ih
    | case12 _ _ _ _ _ _ _ _ _ _ ih => exact ih h
  | case6 _ _ _ _ _ _ hletters =>
    cases h
    exact Settings.letters_ne_run hletters i
  | case13 _ _ _ _ _ _ _ _ hflag =>
    cases h
    exact Settings.flag_ne_run hflag i

theorem readCommand_respelled {verb : Verb} {program : Settings} {words words' : List String}
    {i : Invocation} (n : Nat) (h : Respelled words words')
    (hr : readCommand verb (some program) words = .run i) :
    ∃ k, readCommand verb (some (program.voiced n)) words' = .run { i with verbosity := k } := by
  unfold readCommand at hr
  cases hlevel : readOptions (some verb) {} words with
  | request r =>
    rw [hlevel] at hr
    exact absurd hr (readOptions_ne_run hlevel i)
  | unset rest =>
    rw [hlevel] at hr
    cases hr
  | settings command rest =>
    rw [hlevel] at hr
    cases rest with
    | cons => cases hr
    | nil =>
      obtain ⟨k, rest', hlevel', hrest⟩ := readOptions_respelled 0 h hlevel
      cases hrest
      have hread : readOptions (some verb) {} words' = .settings (command.voiced k) [] := hlevel'
      simp only [readCommand, hread]
      cases hschema : command.schema with
      | none => simp [invocation?, hschema] at hr
      | some schema =>
        simp only [invocation?, hschema, Option.map_some, Option.getD_some, Request.run.injEq] at hr
        subst hr
        exact ⟨_, by simp only [invocation?, Settings.voiced, hschema]; rfl⟩

theorem helpRequest_ne_run (words : List String) (i : Invocation) :
    helpRequest words ≠ .run i := by
  unfold helpRequest
  split <;> nofun

/-- Without the settings of the program no command is run. -/
theorem readCommandLine_none_ne_run (words : List String) (i : Invocation) :
    readCommandLine none words ≠ .run i := by
  have hcommand (verb : Verb) (words : List String) : readCommand verb none words ≠ .run i := by
    unfold readCommand
    split
    · next hlevel => exact readOptions_ne_run hlevel i
    · next hnone => cases hnone
    · nofun
  unfold readCommandLine
  split
  · nofun
  · split_ifs
    · exact hcommand _ _
    · exact hcommand _ _
    · exact helpRequest_ne_run _ i
    · nofun

/-- A line that runs a command runs the same one however often it asks for reports. -/
theorem Request.ofWords_respelled {words words' : List String} {i : Invocation}
    (h : Respelled words words') (hr : Request.ofWords words = .run i) :
    ∃ n, Request.ofWords words' = .run { i with verbosity := n } := by
  unfold Request.ofWords at hr
  cases hlevel : readOptions none {} words with
  | request r =>
    simp only [hlevel] at hr
    exact absurd hr (readOptions_ne_run hlevel i)
  | unset rest =>
    simp only [hlevel] at hr
    exact absurd hr (readCommandLine_none_ne_run rest i)
  | settings program rest =>
    simp only [hlevel] at hr
    obtain ⟨n, rest', hlevel', hrest⟩ := readOptions_respelled 0 h hlevel
    have hread : readOptions none {} words' = .settings (program.voiced n) rest' := hlevel'
    simp only [Request.ofWords, hread]
    cases rest with
    | nil => cases hr
    | cons word words =>
      simp only [readCommandLine] at hr
      split_ifs at hr with hgenerate hprint hhelp
      · obtain ⟨words', rfl, hwords⟩ := hrest.of_not_voice (by rw [hgenerate]; decide)
        simp only [readCommandLine, hgenerate, if_true]
        exact readCommand_respelled n hwords hr
      · obtain ⟨words', rfl, hwords⟩ := hrest.of_not_voice (by rw [hprint]; decide)
        rw [readCommandLine, if_neg hgenerate, if_pos hprint]
        exact readCommand_respelled n hwords hr
      · exact absurd hr (helpRequest_ne_run _ i)

/-- Lines that agree but for the words that only raise the verbosity run commands that agree but for
the verbosity. -/
theorem Invocation.eq_of_ofWords {words words' : List String} {i i' : Invocation}
    (hwords : Request.ofWords words = .run i) (hwords' : Request.ofWords words' = .run i')
    (h : words'.filter (fun word => !isVoice word) = words.filter fun word => !isVoice word) :
    i' = { i with verbosity := i'.verbosity } := by
  obtain ⟨n, hn⟩ := Request.ofWords_respelled (respelled_filter words) hwords
  obtain ⟨n', hn'⟩ := Request.ofWords_respelled (respelled_filter words') hwords'
  rw [h, hn] at hn'
  obtain ⟨_, _, _, _⟩ := i
  obtain ⟨_, _, _, _⟩ := i'
  simp_all

end ProtoScribe.Command
