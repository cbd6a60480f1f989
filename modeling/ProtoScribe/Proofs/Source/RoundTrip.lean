import ProtoScribe.Proofs.Source.Reader

/-!
# Reading what was rendered

The reader gets the schema back from its text, at any width, as long as every name is one word. So
two schemas with the same text are the same.

Each statement is the words that it is read from, joined by spaces (`words_text`), and reading
those words gives the statement (`ofWords?_words`). A block's lines, read on top of any stack, do
what handing over the finished definition does (`reads_block`, `reads_lines`). The induction is on
the message, whose inner messages are read on top of it.
-/

namespace ProtoScribe

open Source Text

namespace Source

/-! ## Words of a text -/

/-- A piece that the spaces of a line cut out. -/
structure IsPiece (s : String) : Prop where
  nonempty : s ≠ ""
  no_space : ' ' ∉ s.toList

theorem IsWord.isPiece {s : String} (h : IsWord s) : IsPiece s := ⟨h.nonempty, h.no_space⟩

instance (s : String) : Decidable (IsPiece s) :=
  decidable_of_iff (s ≠ "" ∧ ' ' ∉ s.toList) ⟨fun ⟨h₁, h₂⟩ => ⟨h₁, h₂⟩, fun ⟨h₁, h₂⟩ => ⟨h₁, h₂⟩⟩

/-- Text put around a piece, or before or behind it, leaves it one. -/
theorem IsPiece.around {s : String} (h : IsPiece s) (front back : String)
    (hf : ' ' ∉ front.toList) (hb : ' ' ∉ back.toList) : IsPiece (front ++ s ++ back) where
  nonempty := by simp [h.nonempty]
  no_space := by simp [h.no_space, hf, hb]

/-- Cutting at spaces is the inverse of joining by them. -/
theorem words_intercalate {ws : List String} (h : ∀ w ∈ ws, IsPiece w) :
    words (" ".intercalate ws) = ws := by
  rcases eq_or_ne ws [] with rfl | hne
  · decide
  · have hs : ([' '].intercalate (ws.map String.toList)).splitOn ' ' = ws.map String.toList := by
      refine List.splitOn_intercalate ' ' (fun l hl => ?_) (by simpa using hne)
      obtain ⟨w, hw, rfl⟩ := List.mem_map.mp hl
      exact (h w hw).no_space
    have hf : (ws.map String.toList).filter (· ≠ []) = ws.map String.toList := by
      refine List.filter_eq_self.mpr fun l hl => ?_
      obtain ⟨w, hw, rfl⟩ := List.mem_map.mp hl
      simpa using (h w hw).nonempty
    rw [words, String.toList_intercalate, show " ".toList = [' '] from rfl, hs, hf, List.map_map]
    simp

/-- Indentation adds no words. -/
theorem words_indented (width : Nat) (l : Line) : words (l.indented width) = words l.text := by
  unfold Line.indented spaces
  induction l.depth * width with
  | zero => simp
  | succ n ih =>
    -- A space in front cuts off an empty piece, which is no word.
    have hc : (String.ofList (List.replicate (n + 1) ' ') ++ l.text).toList
        = ([] : List Char) ++ ' ' :: (String.ofList (List.replicate n ' ') ++ l.text).toList := by
      simp [List.replicate_succ]
    rw [words, hc, List.splitOn_append_cons_self, List.splitOn_nil, List.filter_append]
    simpa [words] using ih

/-- What was put around a text is taken off again. -/
theorem between?_append (front s back : String) :
    between? front back (front ++ s ++ back) = some s := by
  have hm : (((front ++ s ++ back).toList.drop front.toList.length).reverse.drop
      back.toList.length).reverse = s.toList := by
    simp [List.append_assoc]
  simp only [between?, hm, String.ofList_toList, if_true]

theorem between?_empty (s back : String) : between? "" back (s ++ back) = some s := by
  simpa using between?_append "" s back

end Source

/-! ## Statements -/

/-- The words of a field. -/
def Field.words (f : Field) : List String :=
  f.label.keyword.toList ++ [f.typeName, f.name, "=", toString f.tag.toNat ++ ";"]

theorem Field.text_eq_intercalate (f : Field) : f.text = " ".intercalate f.words := by
  obtain ⟨label, typeName, name, tag⟩ := f
  cases label <;> simp [text, words, Label.keyword, ← String.toList_inj]

theorem Field.words_text {f : Field} (h : ∀ n ∈ f.names, IsWord n) :
    Source.words f.text = f.words := by
  obtain ⟨ht, hn⟩ : IsWord f.typeName ∧ IsWord f.name := by simpa [names] using h
  have hk : ∀ w ∈ f.label.keyword.toList, IsPiece w := by cases f.label <;> decide
  have hd : IsPiece (toString f.tag.toNat) :=
    ⟨by simp, not_mem_toString_nat (by decide) _⟩
  rw [text_eq_intercalate, words_intercalate]
  intro w hw
  simp only [words, List.mem_append, List.mem_cons, List.not_mem_nil, or_false] at hw
  rcases hw with hw | rfl | rfl | rfl | rfl
  · exact hk w hw
  · exact ht.isPiece
  · exact hn.isPiece
  · decide
  · simpa using hd.around "" ";" (by decide) (by decide)

theorem Field.tagOfWord?_repr (tag : UInt32) :
    tagOfWord? (tag.toNat.repr ++ ";") = some tag := by
  simp [tagOfWord?, between?_empty, tag.toNat_lt_size]

theorem Label.ofKeyword?_keyword {l : Label} {word : String} (h : l.keyword = some word) :
    Label.ofKeyword? word = some l := by
  cases l <;> simp_all [Label.keyword] <;> subst h <;> decide

theorem Field.ofWords?_words (f : Field) : Field.ofWords? f.words = some f := by
  obtain ⟨label, typeName, name, tag⟩ := f
  cases hk : label.keyword with
  | none =>
    have : label = .singular := by cases label <;> simp_all [Label.keyword]
    subst this
    simp [words, hk, ofWords?, ofParts?, tagOfWord?_repr]
  | some word =>
    simp [words, hk, ofWords?, ofParts?, tagOfWord?_repr, Label.ofKeyword?_keyword hk]

/-- The words of an enum value. -/
def EnumValue.words (v : EnumValue) : List String := [v.name, "=", toString v.number.toInt ++ ";"]

theorem EnumValue.words_text {v : EnumValue} (h : IsWord v.name) :
    Source.words v.text = v.words := by
  have hj : v.text = " ".intercalate v.words := by
    simp [text, words, ← String.toList_inj]
  have hd : IsPiece (toString v.number.toInt) :=
    ⟨by cases v.number.toInt <;> simp [Int.repr], not_mem_toString_int (by decide) (by decide) _⟩
  rw [hj, words_intercalate]
  intro w hw
  simp only [words, List.mem_cons, List.not_mem_nil, or_false] at hw
  rcases hw with rfl | rfl | rfl
  · exact h.isPiece
  · decide
  · simpa using hd.around "" ";" (by decide) (by decide)

theorem EnumValue.numberOfWord?_repr (number : Int32) :
    numberOfWord? (number.toInt.repr ++ ";") = some number := by
  have hl : -2147483648 ≤ number.toInt := number.minValue_le_toInt
  have hg : number.toInt ≤ Int32.maxValue.toInt := number.toInt_le
  simp [numberOfWord?, between?_empty, hl, hg]

theorem EnumValue.ofWords?_words (v : EnumValue) : EnumValue.ofWords? v.words = some v := by
  simp [words, ofWords?, numberOfWord?_repr]

/-- The words of a type in parentheses, the last with what closes it. -/
def Method.typeWords (streams : Bool) (type closing : String) : List String :=
  if streams then ["(stream", type ++ closing] else ["(" ++ type ++ closing]

/-- The words of a method. -/
def Method.words (m : Method) : List String :=
  ["rpc", m.name] ++ typeWords m.clientStreams m.input ")" ++ ["returns"]
    ++ typeWords m.serverStreams m.output ");"

theorem Method.isPiece_of_mem_typeWords {streams : Bool} {type closing : String}
    (h : IsWord type) (hc : ' ' ∉ closing.toList) :
    ∀ w ∈ typeWords streams type closing, IsPiece w := by
  cases streams with
  | false =>
    simpa [typeWords] using h.isPiece.around "(" closing (by decide) hc
  | true =>
    have := h.isPiece.around "" closing (by decide) hc
    rw [String.empty_append] at this
    simp only [typeWords, if_true, List.forall_mem_cons, List.not_mem_nil, false_imp_iff,
      implies_true, and_true]
    exact ⟨by decide, this⟩

theorem Method.text_eq_intercalate (m : Method) : m.text = " ".intercalate m.words := by
  obtain ⟨name, input, output, client, server⟩ := m
  cases client <;> cases server <;>
    simp [text, words, typeText, typeWords, ← String.toList_inj]

theorem Method.words_text {m : Method} (h : ∀ n ∈ m.names, IsWord n) :
    Source.words m.text = m.words := by
  obtain ⟨hn, hi, ho⟩ : IsWord m.name ∧ IsWord m.input ∧ IsWord m.output := by
    simpa [names] using h
  rw [text_eq_intercalate, words_intercalate]
  simp only [words, List.forall_mem_append]
  refine ⟨⟨⟨?_, isPiece_of_mem_typeWords hi (by decide)⟩, by decide⟩,
    isPiece_of_mem_typeWords ho (by decide)⟩
  simp only [List.forall_mem_cons, List.not_mem_nil, false_imp_iff, implies_true, and_true]
  exact ⟨by decide, hn.isPiece⟩

/-- A type is read with its flag. A word in parentheses is never the mark of a stream, since that
does not end as a type does. -/
theorem Method.typeOfWords?_typeWords (streams : Bool) (type : String) {closing : String}
    (hc : closing = ")" ∨ closing = ");") (rest : List String) :
    typeOfWords? closing (typeWords streams type closing ++ rest)
      = some ((streams, type), rest) := by
  cases streams with
  | true => simp [typeWords, typeOfWords?, between?_empty]
  | false =>
    -- The first word is not the mark, so the second equation of the reader applies.
    have hne : "(" ++ type ++ closing ≠ "(stream" := by
      intro he
      have hl := congrArg (·.toList.reverse.head?) he
      rcases hc with rfl | rfl <;> simp at hl
    simp only [typeWords, Bool.false_eq_true, if_false, List.cons_append, List.nil_append]
    rw [typeOfWords?, between?_append]
    · rfl
    · exact fun _ _ he => absurd he hne

theorem Method.ofWords?_words (m : Method) : Method.ofWords? m.words = some m := by
  have hi := typeOfWords?_typeWords m.clientStreams m.input (.inl rfl)
  have ho := typeOfWords?_typeWords m.serverStreams m.output (.inr rfl) []
  simp [words, ofWords?, hi, List.append_nil _ ▸ ho]

/-! ## Blocks -/

namespace Source

/-- The words of lines. -/
def lineWords (ls : List Line) : List (List String) := ls.map fun l => words l.text

@[simp] theorem lineWords_append (xs ys : List Line) :
    lineWords (xs ++ ys) = lineWords xs ++ lineWords ys := List.map_append

namespace Reader

/-- Reading the lines takes the reader from one state to the other. -/
def Reads (ls : List Line) (r r' : Reader) : Prop := (lineWords ls).foldlM step? r = some r'

theorem Reads.nil {r : Reader} : Reads [] r r := rfl

theorem Reads.append {xs ys : List Line} {a b c : Reader} (h₁ : Reads xs a b)
    (h₂ : Reads ys b c) : Reads (xs ++ ys) a c := by
  rw [Reads, lineWords_append, List.foldlM_append, show _ = some b from h₁]
  exact h₂

theorem Reads.cons {l : Line} {ls : List Line} {a b c : Reader}
    (h₁ : a.step? (words l.text) = some b) (h₂ : Reads ls b c) : Reads (l :: ls) a c := by
  rw [Reads, lineWords, List.map_cons, List.foldlM_cons, h₁]
  exact h₂

/-- A blank line between definitions adds nothing. -/
theorem reads_blank (s : Schema) : Reads [.blank] ⟨s, []⟩ ⟨s, []⟩ := .cons (by rfl) .nil

/-- A line that neither opens a block nor closes one is added to the definition that is open. -/
theorem step?_of_ne {s : Schema} {frame : Frame} {frames : List Frame} {ws : List String}
    (ho : Frame.ofWords? ws = none) (hc : ws ≠ ["\x7d"]) :
    step? ⟨s, frame :: frames⟩ ws
      = (frame.add? ws).map fun frame => ⟨s, frame :: frames⟩ := by
  simp only [step?, ho]

/-- What is read for each of several pieces is read for all, one after the other. -/
theorem reads_flatMap {α : Type} {ls : α → List Line} (state : List α → Reader) :
    ∀ (xs done : List α),
      (∀ x ∈ xs, ∀ done, Reads (ls x) (state done) (state (done ++ [x]))) →
      Reads (xs.flatMap ls) (state done) (state (done ++ xs))
  | [], done, _ => by rw [List.append_nil]; exact .nil
  | x :: xs, done, h => by
    have ih : Reads (xs.flatMap ls) (state (done ++ [x])) (state (done ++ [x] ++ xs)) :=
      reads_flatMap state xs (done ++ [x]) fun y hy => h y (List.mem_cons_of_mem _ hy)
    rw [List.append_assoc, List.singleton_append] at ih
    exact (h x List.mem_cons_self done).append ih

/-- Statements are added to the definition that is open, one after the other. -/
theorem reads_statements {α : Type} {text : α → String} {xs : List α} (frame : List α → Frame)
    (depth : Nat) (s : Schema) (frames : List Frame) (done : List α)
    (ho : ∀ x ∈ xs, Frame.ofWords? (words (text x)) = none)
    (hc : ∀ x ∈ xs, words (text x) ≠ ["\x7d"])
    (ha : ∀ x ∈ xs, ∀ done, (frame done).add? (words (text x)) = some (frame (done ++ [x]))) :
    Reads (xs.map fun x => ⟨depth, text x⟩) ⟨s, frame done :: frames⟩
      ⟨s, frame (done ++ xs) :: frames⟩ := by
  rw [List.map_eq_flatMap]
  refine reads_flatMap (fun done => ⟨s, frame done :: frames⟩) xs done fun x hx done => ?_
  refine .cons ?_ .nil
  rw [step?_of_ne (ho x hx) (hc x hx), ha x hx done]
  rfl

/-- A block is opened, read on top of what was open before, and handed over. -/
theorem reads_block {depth : Nat} {keyword name : String} {body : List Line} {r r' : Reader}
    {done : Frame} (opened : Frame) (hk : IsPiece keyword) (hn : IsWord name)
    (ho : Frame.ofWords? [keyword, name, "\x7b"] = some opened)
    (hb : Reads body ⟨r.schema, opened :: r.frames⟩ ⟨r.schema, done :: r.frames⟩)
    (hc : close? done r = some r') : Reads (block depth keyword name body) r r' := by
  have hw : words (keyword ++ " " ++ name ++ " \x7b") = [keyword, name, "\x7b"] := by
    have hj : keyword ++ " " ++ name ++ " \x7b" = " ".intercalate [keyword, name, "\x7b"] := by
      simp [← String.toList_inj]
    rw [hj, words_intercalate]
    simp only [List.forall_mem_cons, List.not_mem_nil, false_imp_iff, implies_true, and_true]
    exact ⟨hk, hn.isPiece, by decide⟩
  refine Reads.cons (b := ⟨r.schema, opened :: r.frames⟩) ?_ (hb.append (.cons ?_ .nil))
  · simp only [step?, hw, ho]
  · show step? _ (words "\x7d") = some r'
    rw [show words "\x7d" = ["\x7d"] by decide]
    exact hc

end Reader

end Source

/-! ## Definitions -/

open Source.Reader

theorem Field.frameOfWords?_words (f : Field) : Frame.ofWords? f.words = none := by
  cases h : f.label <;> simp [words, h, Label.keyword, Frame.ofWords?]

theorem Field.words_ne_close (f : Field) : f.words ≠ ["\x7d"] := by
  cases h : f.label <;> simp [words, h, Label.keyword]

/-- The third word of an enum value ends in a semicolon, so it opens no block. -/
theorem EnumValue.frameOfWords?_words (v : EnumValue) : Frame.ofWords? v.words = none := by
  have hne : toString v.number.toInt ++ ";" ≠ "\x7b" := by
    intro he
    have hl := congrArg (·.toList.reverse.head?) he
    simp at hl
  unfold words Frame.ofWords?
  split <;> simp_all

theorem Method.frameOfWords?_words (m : Method) : Frame.ofWords? m.words = none := by
  cases h₁ : m.clientStreams <;> cases h₂ : m.serverStreams <;>
    simp [words, typeWords, h₁, h₂, Frame.ofWords?]

/-- Fields are added to the message that is open. -/
theorem Field.reads_map {fs : List Field} (h : ∀ n ∈ fs.flatMap names, IsWord n) (depth : Nat)
    (s : Schema) (frames : List Frame) (name : String) :
    Reads (fs.map fun f => ⟨depth, f.text⟩) ⟨s, .message { name } :: frames⟩
      ⟨s, .message { name, fields := fs } :: frames⟩ := by
  have hw (f : Field) (hf : f ∈ fs) : Source.words f.text = f.words :=
    words_text fun n hn => h n (List.mem_flatMap.mpr ⟨f, hf, hn⟩)
  refine reads_statements (fun fields => .message { name, fields }) depth s frames []
    (fun f hf => ?_) (fun f hf => ?_) fun f hf done => ?_
  · rw [hw f hf, f.frameOfWords?_words]
  · rw [hw f hf]
    exact f.words_ne_close
  · rw [hw f hf, Frame.add?, f.ofWords?_words]
    rfl

/-- An enum is read from its lines and handed over. -/
theorem Enum.reads_lines {e : Enum} (h : ∀ n ∈ e.names, IsWord n) {depth : Nat} {r r' : Reader}
    (hc : close? (.enum e) r = some r') : Reads (e.lines depth) r r' := by
  obtain ⟨hn, hv⟩ := List.forall_mem_cons.mp h
  have hw (v : EnumValue) (hm : v ∈ e.values) : Source.words v.text = v.words :=
    v.words_text (hv _ (List.mem_map_of_mem hm))
  refine reads_block (.enum { name := e.name }) (by decide) hn rfl ?_ hc
  refine reads_statements (fun values => .enum { name := e.name, values }) (depth + 1) r.schema
    r.frames [] (fun v hm => ?_) (fun v hm => ?_) fun v hm done => ?_
  · rw [hw v hm, v.frameOfWords?_words]
  · simp [hw v hm, EnumValue.words]
  · rw [hw v hm, Frame.add?, v.ofWords?_words]
    rfl

/-- A service is read from its lines and handed over. -/
theorem Service.reads_lines {d : Service} (h : ∀ n ∈ d.names, IsWord n) {r r' : Reader}
    (hc : close? (.service d) r = some r') : Reads d.lines r r' := by
  obtain ⟨hn, hm⟩ := List.forall_mem_cons.mp h
  have hw (m : Method) (hmm : m ∈ d.methods) : Source.words m.text = m.words :=
    m.words_text fun n hn => hm n (List.mem_flatMap.mpr ⟨m, hmm, hn⟩)
  refine reads_block (.service { name := d.name }) (by decide) hn rfl ?_ hc
  refine reads_statements (fun methods => .service { name := d.name, methods }) 1 r.schema
    r.frames [] (fun m hmm => ?_) (fun m hmm => ?_) fun m hmm done => ?_
  · rw [hw m hmm, m.frameOfWords?_words]
  · simp [hw m hmm, Method.words]
  · rw [hw m hmm, Frame.add?, m.ofWords?_words]
    rfl

mutual

/-- A message is read from its lines and handed over. -/
theorem Message.reads_lines : ∀ (m : Message), (∀ n ∈ m.names, IsWord n) →
    ∀ (depth : Nat) {r r' : Reader}, close? (.message m) r = some r' →
      Reads (m.lines depth) r r'
  | ⟨name, fields, enums, messages⟩, h, depth, r, r', hc => by
    simp only [names, List.forall_mem_cons, List.forall_mem_append] at h
    obtain ⟨hn, ⟨hf, he⟩, hm⟩ := h
    refine reads_block (.message { name }) (by decide) hn rfl ?_ hc
    -- The enums are handed over to the message that has its fields, then the messages to that.
    refine ((Field.reads_map hf _ _ _ _).append ?_).append
      (Message.reads_listLines messages hm (depth + 1) name fields enums [] r.schema r.frames)
    refine reads_flatMap (fun enums => ⟨r.schema, .message { name, fields, enums } :: r.frames⟩)
      enums [] fun e hem done => ?_
    exact e.reads_lines (fun n hn => he n (List.mem_flatMap.mpr ⟨e, hem, hn⟩)) rfl

/-- Messages are read from their lines and handed over to the message that is open. -/
theorem Message.reads_listLines : ∀ (ms : List Message), (∀ n ∈ listNames ms, IsWord n) →
    ∀ (depth : Nat) (name : String) (fields : List Field) (enums : List Enum)
      (done : List Message) (s : Schema) (frames : List Frame),
      Reads (Message.listLines depth ms) ⟨s, .message ⟨name, fields, enums, done⟩ :: frames⟩
        ⟨s, .message ⟨name, fields, enums, done ++ ms⟩ :: frames⟩
  | [], _, _, _, _, _, done, _, _ => by
    rw [List.append_nil]
    exact .nil
  | m :: ms, h, depth, name, fields, enums, done, s, frames => by
    simp only [listNames, List.forall_mem_append] at h
    have ih := Message.reads_listLines ms h.2 depth name fields enums (done ++ [m]) s frames
    rw [List.append_assoc, List.singleton_append] at ih
    exact (Message.reads_lines m h.1 depth rfl).append ih

end

/-- A schema is read from its lines, definition by definition. -/
theorem Schema.reads_lines {s : Schema} (h : ∀ n ∈ s.names, IsWord n) :
    Reads s.lines {} ⟨s, []⟩ := by
  obtain ⟨messages, enums, services⟩ := s
  simp only [names, Message.listNames_eq_flatMap, List.forall_mem_append] at h
  obtain ⟨⟨hm, he⟩, hd⟩ := h
  have messagesRead : Reads (messages.flatMap fun m => m.lines 0 ++ [.blank]) {}
      ⟨⟨messages, [], []⟩, []⟩ := by
    refine reads_flatMap (fun done => ⟨⟨done, [], []⟩, []⟩) messages [] fun m hmm done => ?_
    refine Reads.append ?_ (reads_blank _)
    exact m.reads_lines (fun n hn => hm n (List.mem_flatMap.mpr ⟨m, hmm, hn⟩)) 0 rfl
  have enumsRead : Reads (enums.flatMap fun e => e.lines 0 ++ [.blank]) ⟨⟨messages, [], []⟩, []⟩
      ⟨⟨messages, enums, []⟩, []⟩ := by
    refine reads_flatMap (fun done => ⟨⟨messages, done, []⟩, []⟩) enums [] fun e hem done => ?_
    refine Reads.append ?_ (reads_blank _)
    exact e.reads_lines (fun n hn => he n (List.mem_flatMap.mpr ⟨e, hem, hn⟩)) rfl
  have servicesRead : Reads (services.flatMap fun d => d.lines ++ [.blank])
      ⟨⟨messages, enums, []⟩, []⟩ ⟨⟨messages, enums, services⟩, []⟩ := by
    refine reads_flatMap (fun done => ⟨⟨messages, enums, done⟩, []⟩) services [] fun d hdm done => ?_
    refine Reads.append ?_ (reads_blank _)
    exact d.reads_lines (fun n hn => hd n (List.mem_flatMap.mpr ⟨d, hdm, hn⟩)) rfl
  exact (messagesRead.append enumsRead).append servicesRead

/-! ## The text of a schema -/

/-- A schema is read back from its text, whatever the width of its indentation. -/
theorem Schema.ofText?_render {s : Schema} {width : Nat} {t : String}
    (h : ∀ n ∈ s.names, IsWord n) (ht : s.render width = .ok t) : ofText? t = some s := by
  have hl : (Text.lines t).map words = lineWords s.lines := by
    rw [lines_of_render (fun n hn => (h n hn).unbroken) ht, List.map_map, lineWords]
    exact List.map_congr_left fun l _ => words_indented width l
  have hr : (lineWords s.lines).foldlM step? {} = some ⟨s, []⟩ := reads_lines h
  rw [← hl, List.foldlM_map] at hr
  rw [ofText?, hr]

/-- Schemas with the same text are the same, also if the text is indented by different widths. -/
theorem Schema.eq_of_render_eq {s₁ s₂ : Schema} {w₁ w₂ : Nat} {t : String}
    (h₁ : ∀ n ∈ s₁.names, IsWord n) (h₂ : ∀ n ∈ s₂.names, IsWord n)
    (e₁ : s₁.render w₁ = .ok t) (e₂ : s₂.render w₂ = .ok t) : s₁ = s₂ := by
  have hs := ofText?_render h₂ e₂
  rw [ofText?_render h₁ e₁] at hs
  exact Option.some.inj hs

/-- Names that are words of the source themselves: a field of the type `message`, and one whose
type is called as a label is. -/
theorem Schema.eq_of_render_eq_keywords :
    let s : Schema := ⟨[⟨"\x7b", [⟨.singular, "message", "optional", 1⟩,
      ⟨.optional, "repeated", "=", 2⟩], [⟨"enum", [⟨"\x7d", -1⟩]⟩], []⟩], [],
      [⟨"rpc", [⟨"rpc", "(stream", "stream", false, true⟩]⟩]⟩
    let built : Schema := ({} : Schema).addMessage (((Message.mk "\x7b" [] [] []).addField
        (.singular "message" "optional" 1)).addField (.optional "repeated" "=" 2) |>.addEnum
        ((Enum.mk "enum" []).addValue "\x7d" (-1)))
      |>.addService ((Service.mk "rpc" []).addMethod
        ((Method.mk "rpc" "(stream" "stream" false false).streaming false true))
    let t := "message \x7b \x7b\n message optional = 1;\n optional repeated = = 2;\n enum enum \x7b\n"
      ++ "  \x7d = -1;\n \x7d\n\x7d\n\n"
      ++ "service rpc \x7b\n rpc rpc ((stream) returns (stream stream);\n\x7d\n\n"
    (∀ n ∈ s.names, IsWord n) ∧ (∀ n ∈ built.names, IsWord n) ∧
      s.render 1 = .ok t ∧ built.render 1 = .ok t ∧ s = built := by
  intro s built t
  have h₁ : ∀ n ∈ s.names, IsWord n := by decide
  have h₂ : ∀ n ∈ built.names, IsWord n := by decide
  have e₁ : s.render 1 = .ok t := by rfl
  have e₂ : built.render 1 = .ok t := by rfl
  exact ⟨h₁, h₂, e₁, e₂, eq_of_render_eq h₁ h₂ e₁ e₂⟩

end ProtoScribe
