import ProtoScribe.Proofs.Yaml.Tokens
import ProtoScribe.Yaml.Anchor

/-!
# The nodes of compact JSON

The tokens of a JSON value are put together to a node that shows the value (`Shows`): objects are
mappings with quoted keys, arrays are sequences, and no node has an anchor, a tag or an alias in it.
So linking changes nothing, and the compact text of a collection is a document whose root shows it
(`ofText?_render`).
-/

namespace ProtoScribe.Yaml

open Json (Value)

/-! ## Nodes that show values -/

mutual

/-- A node stands for a JSON value, as it is written there. -/
inductive Shows {τ : Type} : Node τ → Value → Prop where
  | flag (mark : Mark) (b : Bool) : Shows (.scalar ⟨mark, none, none⟩ .plain (flagWord b)) (.flag b)
  | integer (mark : Mark) (i : Int) :
    Shows (.scalar ⟨mark, none, none⟩ .plain (toString i)) (.integer i)
  | string (mark : Mark) (s : String) : Shows (.scalar ⟨mark, none, none⟩ .quoted s) (.string s)
  | sequence (mark : Mark) {ns : List (Node τ)} {vs : List Value} : ItemsShow ns vs →
    Shows (.sequence ⟨mark, none, none⟩ ns) (.array vs)
  | mapping (mark : Mark) {ps : List (Node τ × Node τ)} {ms : List (String × Value)} :
    PairsShow ps ms → Shows (.mapping ⟨mark, none, none⟩ ps) (.object ms)

/-- So do some nodes in order. -/
inductive ItemsShow {τ : Type} : List (Node τ) → List Value → Prop where
  | nil : ItemsShow [] []
  | cons {n : Node τ} {ns : List (Node τ)} {v : Value} {vs : List Value} : Shows n v →
    ItemsShow ns vs → ItemsShow (n :: ns) (v :: vs)

/-- So do the values of some pairs, and the keys are quoted. -/
inductive PairsShow {τ : Type} : List (Node τ × Node τ) → List (String × Value) → Prop where
  | nil : PairsShow [] []
  | cons (mark : Mark) (k : String) {n : Node τ} {ps : List (Node τ × Node τ)} {v : Value}
    {ms : List (String × Value)} : Shows n v → PairsShow ps ms →
    PairsShow ((.scalar ⟨mark, none, none⟩ .quoted k, n) :: ps) ((k, v) :: ms)

end

/-! ## From tokens to nodes -/

namespace Compose

variable {handles : Handles} {block indentless : Bool} {t next close : Token} {ts rest : List Token}

/-- The tokens that start no value in JSON. -/
def marks : List TokenKind := [.key, .value, .flowEntry, .flowSequenceEnd, .flowMappingEnd]

/-- Nothing precedes a value in JSON. -/
def IsContent : TokenKind → Prop
  | .scalar _ _ | .flowSequence | .flowMapping => True
  | _ => False

theorem head_of_content (h : IsContent t.kind) : head handles (t :: rest) = some ⟨none, 0⟩ := by
  cases rest with
  | nil => rfl
  | cons b rest =>
    rw [head]
    split <;> simp_all [IsContent]

theorem node_scalar {style : ScalarStyle} {text : String} (h : t.kind = .scalar style text) :
    node handles block indentless (t :: rest)
      = some ⟨.scalar ⟨t.start, none, none⟩ style text, 1⟩ := by
  have hhead : head handles (t :: rest) = some ⟨none, 0⟩ :=
    head_of_content (by rw [h]; exact trivial)
  obtain ⟨kind, start, stop⟩ := t
  cases h
  rw [node.eq_def]
  simp only [hhead]
  rfl

theorem node_sequence (h : t.kind = .flowSequence) {items : List NamedNode} {count : Nat}
    (hitems : flowItems handles rest = some ⟨items, count⟩) :
    node handles block indentless (t :: rest)
      = some ⟨.sequence ⟨t.start, none, none⟩ items, 1 + count⟩ := by
  have hhead : head handles (t :: rest) = some ⟨none, 0⟩ :=
    head_of_content (by rw [h]; exact trivial)
  obtain ⟨kind, start, stop⟩ := t
  cases h
  rw [node.eq_def]
  simp only [hhead]
  show (flowItems handles rest).bind _ = _
  rw [hitems]
  simp

theorem node_mapping (h : t.kind = .flowMapping) {pairs : List (NamedNode × NamedNode)} {count : Nat}
    (hpairs : flowPairs handles rest = some ⟨pairs, count⟩) :
    node handles block indentless (t :: rest)
      = some ⟨.mapping ⟨t.start, none, none⟩ pairs, 1 + count⟩ := by
  have hhead : head handles (t :: rest) = some ⟨none, 0⟩ :=
    head_of_content (by rw [h]; exact trivial)
  obtain ⟨kind, start, stop⟩ := t
  cases h
  rw [node.eq_def]
  simp only [hhead]
  show (flowPairs handles rest).bind _ = _
  rw [hpairs]
  simp

/-! ### Items -/

theorem flowItems_close (h : close.kind = .flowSequenceEnd) :
    flowItems handles (close :: rest) = some ⟨[], 1⟩ := by
  rw [flowItems.eq_def]
  simp only [h, if_true]

/-- An item that is a value, with what follows it. -/
theorem flowItems_item (ht : t.kind ∉ marks) {item : NamedNode} (next : Token)
    (hnode : node handles false false (t :: ts ++ next :: rest) = some ⟨item, ts.length + 1⟩) :
    flowItems handles (t :: ts ++ next :: rest)
      = if next.kind = .flowSequenceEnd then some ⟨[item], ts.length + 1 + 1⟩
        else if next.kind = .flowEntry then do
          let ⟨items, more⟩ ← flowItems handles rest
          return ⟨item :: items, ts.length + 1 + 1 + more⟩
        else none := by
  simp only [marks, List.mem_cons, List.not_mem_nil, or_false, not_or] at ht
  have hdrop : (t :: (ts ++ next :: rest)).drop (ts.length + 1) = next :: rest := by simp
  rw [List.cons_append] at hnode ⊢
  rw [flowItems.eq_def]
  simp only [if_neg ht.2.2.2.1, if_neg ht.1, hnode]
  split
  · next heq =>
    rw [hdrop] at heq
    cases heq
  · next heq =>
    rw [hdrop] at heq
    cases heq
    rfl

/-! ### Pairs -/

theorem nextIs_eq_false {kinds : List TokenKind} (h : t.kind ∉ kinds) :
    nextIs kinds (t :: rest) = false := by
  rw [nextIs, List.contains_eq_mem]
  exact decide_eq_false h

theorem flowValue_of_node (hnext : next.kind = .value) (ht : t.kind ∉ marks) {n : NamedNode}
    {count : Nat} (hnode : node handles false false (t :: rest) = some ⟨n, count⟩) :
    flowValue handles .flowMappingEnd (next :: t :: rest) = some ⟨n, count + 1⟩ := by
  have hstarts : t.kind ∉ [.flowEntry, .flowMappingEnd] := by
    simp only [marks, List.mem_cons, List.not_mem_nil, or_false, not_or] at ht ⊢
    exact ⟨ht.2.2.1, ht.2.2.2.2⟩
  rw [flowValue.eq_def]
  simp only [if_pos hnext, nextIs_eq_false hstarts, hnode]
  rfl

/-- A pair of a quoted key and a value. -/
theorem flowMember_of_node {a b c : Token} {k : String} (ha : a.kind = .key)
    (hb : b.kind = .scalar .quoted k) (hc : c.kind = .value) (ht : t.kind ∉ marks) {n : NamedNode}
    {count : Nat} (hnode : node handles false false (t :: rest) = some ⟨n, count⟩) :
    flowMember handles (a :: b :: c :: t :: rest)
      = some ⟨(.scalar ⟨b.start, none, none⟩ .quoted k, n), count + 3⟩ := by
  have hstarts : b.kind ∉ [.value, .flowEntry, .flowMappingEnd] := by simp [hb]
  rw [flowMember.eq_def]
  simp only [if_pos ha, nextIs_eq_false hstarts, Bool.false_eq_true, if_false, node_scalar hb,
    List.drop_one, List.tail_cons, flowValue_of_node hc ht hnode, Option.map_some]
  congr 2
  omega

theorem flowPairs_close (h : close.kind = .flowMappingEnd) :
    flowPairs handles (close :: rest) = some ⟨[], 1⟩ := by
  rw [flowPairs.eq_def]
  simp only [h, if_true]

/-- A pair with what follows it. -/
theorem flowPairs_member (ht : t.kind = .key) {pair : NamedNode × NamedNode} (next : Token)
    (hmember : flowMember handles (t :: ts ++ next :: rest) = some ⟨pair, ts.length + 1⟩) :
    flowPairs handles (t :: ts ++ next :: rest)
      = if next.kind = .flowMappingEnd then some ⟨[pair], ts.length + 1 + 1⟩
        else if next.kind = .flowEntry then do
          let ⟨pairs, more⟩ ← flowPairs handles rest
          return ⟨pair :: pairs, ts.length + 1 + 1 + more⟩
        else none := by
  have hend : ¬t.kind = .flowMappingEnd := by simp [ht]
  have hdrop : (t :: (ts ++ next :: rest)).drop (ts.length + 1) = next :: rest := by simp
  rw [List.cons_append] at hmember ⊢
  rw [flowPairs.eq_def]
  simp only [if_neg hend, hmember]
  split
  · next heq =>
    rw [hdrop] at heq
    cases heq
  · next heq =>
    rw [hdrop] at heq
    cases heq
    rfl

/-! ### Values -/

/-- The first token of a value is none that may follow one. -/
theorem exists_cons_of_tokens {v : Value} (h : ts.map Token.kind = tokensOf v) :
    ∃ t ts', ts = t :: ts' ∧ t.kind ∉ marks := by
  obtain ⟨kind, kinds, hv, hkind⟩ : ∃ kind kinds, tokensOf v = kind :: kinds ∧ kind ∉ marks := by
    cases v with
    | flag b => exact ⟨_, _, rfl, by simp [marks]⟩
    | integer i => exact ⟨_, _, rfl, by simp [marks]⟩
    | string s => exact ⟨_, _, rfl, by simp [marks]⟩
    | array vs => exact ⟨_, _, rfl, by simp [marks]⟩
    | object ms => exact ⟨_, _, rfl, by simp [marks]⟩
  obtain ⟨t, ts', rfl, rfl, -⟩ := List.map_eq_cons_iff.mp (h.trans hv)
  exact ⟨t, ts', rfl, hkind⟩

/-- The tokens of a key and a value make a pair if those of the value make a node. -/
theorem flowMember_of_tokens {k : String} {v : Value}
    (h : ts.map Token.kind = [.key, .scalar .quoted k, .value] ++ tokensOf v)
    (hnode : ∀ ts : List Token, ts.map Token.kind = tokensOf v → ∀ rest : List Token,
      ∃ n, node handles false false (ts ++ rest) = some ⟨n, ts.length⟩ ∧ Shows n v) :
    ∃ a ts', ts = a :: ts' ∧ a.kind = .key ∧ ∀ rest : List Token, ∃ mark n,
      flowMember handles (a :: ts' ++ rest)
        = some ⟨(.scalar ⟨mark, none, none⟩ .quoted k, n), ts'.length + 1⟩ ∧ Shows n v := by
  obtain ⟨a, ts, rfl, ha, h⟩ := List.map_eq_cons_iff.mp h
  obtain ⟨b, ts, rfl, hb, h⟩ := List.map_eq_cons_iff.mp h
  obtain ⟨c, ts, rfl, hc, h⟩ := List.map_eq_cons_iff.mp h
  refine ⟨a, _, rfl, ha, fun rest => ?_⟩
  obtain ⟨n, hnode, hshow⟩ := hnode ts h rest
  obtain ⟨t, ts, rfl, ht⟩ := exists_cons_of_tokens h
  exact ⟨b.start, n, flowMember_of_node ha hb hc ht hnode, hshow⟩

mutual

/-- **The tokens of a value make a node that shows it.** -/
theorem node_of_tokens : ∀ {v : Value} {ts : List Token}, ts.map Token.kind = tokensOf v →
    ∀ (block indentless : Bool) (rest : List Token),
      ∃ n, node handles block indentless (ts ++ rest) = some ⟨n, ts.length⟩ ∧ Shows n v
  | .flag b, ts, h, _, _, _ => by
    obtain ⟨t, rfl, ht⟩ := List.map_eq_singleton_iff.mp h
    exact ⟨_, node_scalar ht, .flag t.start b⟩
  | .integer i, ts, h, _, _, _ => by
    obtain ⟨t, rfl, ht⟩ := List.map_eq_singleton_iff.mp h
    exact ⟨_, node_scalar ht, .integer t.start i⟩
  | .string s, ts, h, _, _, _ => by
    obtain ⟨t, rfl, ht⟩ := List.map_eq_singleton_iff.mp h
    exact ⟨_, node_scalar ht, .string t.start s⟩
  | .array vs, ts, h, block, indentless, rest => by
    obtain ⟨t, ts, rfl, ht, h⟩ := List.map_eq_cons_iff.mp h
    obtain ⟨ts, ends, rfl, hts, hends⟩ := List.map_eq_append_iff.mp h
    obtain ⟨close, rfl, hclose⟩ := List.map_eq_singleton_iff.mp hends
    obtain ⟨items, hitems, hshow⟩ := flowItems_of_tokens hts hclose rest
    refine ⟨_, ?_, .sequence t.start hshow⟩
    rw [List.cons_append, List.append_assoc, List.singleton_append, node_sequence ht hitems]
    simp [Nat.add_comm 1]
  | .object ms, ts, h, block, indentless, rest => by
    obtain ⟨t, ts, rfl, ht, h⟩ := List.map_eq_cons_iff.mp h
    obtain ⟨ts, ends, rfl, hts, hends⟩ := List.map_eq_append_iff.mp h
    obtain ⟨close, rfl, hclose⟩ := List.map_eq_singleton_iff.mp hends
    obtain ⟨pairs, hpairs, hshow⟩ := flowPairs_of_tokens hts hclose rest
    refine ⟨_, ?_, .mapping t.start hshow⟩
    rw [List.cons_append, List.append_assoc, List.singleton_append, node_mapping ht hpairs]
    simp [Nat.add_comm 1]

theorem flowItems_of_tokens : ∀ {vs : List Value} {ts : List Token} {close : Token},
    ts.map Token.kind = tokensOfItems vs → close.kind = .flowSequenceEnd → ∀ rest : List Token,
      ∃ items, flowItems handles (ts ++ close :: rest) = some ⟨items, ts.length + 1⟩ ∧
        ItemsShow items vs
  | [], ts, close, h, hclose, rest => by
    obtain rfl := List.map_eq_nil_iff.mp h
    exact ⟨[], flowItems_close hclose, .nil⟩
  | [v], ts, close, h, hclose, rest => by
    obtain ⟨n, hnode, hshow⟩ := node_of_tokens (v := v) h false false (close :: rest)
    obtain ⟨t, ts, rfl, ht⟩ := exists_cons_of_tokens (v := v) h
    refine ⟨[n], ?_, .cons hshow .nil⟩
    rw [flowItems_item ht close hnode, if_pos hclose]
    rfl
  | v :: w :: vs, ts, close, h, hclose, rest => by
    obtain ⟨ts, more, rfl, hts, hmore⟩ := List.map_eq_append_iff.mp h
    obtain ⟨comma, others, rfl, hcomma, hothers⟩ := List.map_eq_cons_iff.mp hmore
    obtain ⟨n, hnode, hshow⟩ :=
      node_of_tokens hts false false (comma :: (others ++ close :: rest))
    obtain ⟨items, hitems, hshows⟩ := flowItems_of_tokens hothers hclose rest
    obtain ⟨t, ts, rfl, ht⟩ := exists_cons_of_tokens hts
    refine ⟨n :: items, ?_, .cons hshow hshows⟩
    have hstep := flowItems_item ht comma hnode
    rw [if_neg (by simp [hcomma]), if_pos hcomma, hitems] at hstep
    rw [List.append_assoc]
    refine hstep.trans ?_
    simp
    omega

theorem flowPairs_of_tokens : ∀ {ms : List (String × Value)} {ts : List Token} {close : Token},
    ts.map Token.kind = tokensOfMembers ms → close.kind = .flowMappingEnd → ∀ rest : List Token,
      ∃ pairs, flowPairs handles (ts ++ close :: rest) = some ⟨pairs, ts.length + 1⟩ ∧
        PairsShow pairs ms
  | [], ts, close, h, hclose, rest => by
    obtain rfl := List.map_eq_nil_iff.mp h
    exact ⟨[], flowPairs_close hclose, .nil⟩
  | [(k, v)], ts, close, h, hclose, rest => by
    obtain ⟨a, ts, rfl, ha, hmember⟩ := flowMember_of_tokens (v := v) h
      fun ts h rest => node_of_tokens h false false rest
    obtain ⟨mark, n, hmember, hshow⟩ := hmember (close :: rest)
    refine ⟨[_], ?_, .cons mark k hshow .nil⟩
    rw [flowPairs_member ha close hmember, if_pos hclose]
    rfl
  | (k, v) :: m :: ms, ts, close, h, hclose, rest => by
    obtain ⟨ts, more, rfl, hts, hmore⟩ := List.map_eq_append_iff.mp h
    obtain ⟨comma, others, rfl, hcomma, hothers⟩ := List.map_eq_cons_iff.mp hmore
    obtain ⟨a, ts, rfl, ha, hmember⟩ := flowMember_of_tokens (v := v) hts
      fun ts h rest => node_of_tokens h false false rest
    obtain ⟨mark, n, hmember, hshow⟩ := hmember (comma :: (others ++ close :: rest))
    obtain ⟨pairs, hpairs, hshows⟩ := flowPairs_of_tokens hothers hclose rest
    refine ⟨_ :: pairs, ?_, .cons mark k hshow hshows⟩
    have hstep := flowPairs_member ha comma hmember
    rw [if_neg (by simp [hcomma]), if_pos hcomma, hpairs] at hstep
    rw [List.append_assoc]
    refine hstep.trans ?_
    simp
    omega

end

/-- Between brackets a node is the root as it is. -/
theorem root_of_node (ht : t.kind = .flowSequence ∨ t.kind = .flowMapping) {n : NamedNode}
    {count : Nat} (hnode : node standardHandles true false (t :: ts) = some ⟨n, count⟩) :
    root (t :: ts) = some (some n, (t :: ts).drop count) := by
  rcases ht with ht | ht <;> simp only [root, ht, hnode, Option.map_some]

/-- The tokens of a collection make the root of a document that nothing follows. -/
theorem firstDocument_of_tokens {v : Value} (hv : IsCollection v) {tokens : List Token}
    (h : tokens.map Token.kind = tokensOf v ++ [.streamEnd]) :
    ∃ n, firstDocument ⟨tokens, false⟩ = some ⟨some n, false⟩ ∧ Shows n v := by
  obtain ⟨ts, ends, rfl, hts, hends⟩ := List.map_eq_append_iff.mp h
  obtain ⟨stop, rfl, hstop⟩ := List.map_eq_singleton_iff.mp hends
  obtain ⟨n, hnode, hshow⟩ := @node_of_tokens standardHandles _ _ hts true false [stop]
  have hroot : root (ts ++ [stop]) = some (some n, [stop]) := by
    obtain ⟨t, ts, rfl, ht⟩ : ∃ t ts', ts = t :: ts' ∧
        (t.kind = .flowSequence ∨ t.kind = .flowMapping) := by
      cases v with
      | array vs =>
        obtain ⟨t, ts, rfl, ht, -⟩ := List.map_eq_cons_iff.mp hts
        exact ⟨t, ts, rfl, .inl ht⟩
      | object ms =>
        obtain ⟨t, ts, rfl, ht, -⟩ := List.map_eq_cons_iff.mp hts
        exact ⟨t, ts, rfl, .inr ht⟩
      | _ => exact hv.elim
    rw [List.cons_append] at hnode ⊢
    rw [root_of_node ht hnode, ← List.cons_append, List.drop_left]
  refine ⟨n, ?_, hshow⟩
  rw [firstDocument, hroot]
  simp [nextIs, hstop]

end Compose

/-! ## From nodes to documents -/

section

variable (anchors : Anchors)

mutual

/-- Linking finds nothing to link in a node that shows a value. -/
theorem link_of_shows : ∀ {n : Node String} {v : Value}, Shows n v →
    ∃ n' : LinkedNode, Node.link anchors n = some ⟨n', anchors, []⟩ ∧ Shows n' v
  | _, _, .flag mark b => ⟨_, rfl, .flag mark b⟩
  | _, _, .integer mark i => ⟨_, rfl, .integer mark i⟩
  | _, _, .string mark s => ⟨_, rfl, .string mark s⟩
  | _, _, .sequence mark h => by
    obtain ⟨ns, hlink, hshow⟩ := linkItems_of_shows h
    refine ⟨_, ?_, .sequence mark hshow⟩
    rw [Node.link]
    show (linkItems anchors _).bind _ = _
    rw [hlink]
    rfl
  | _, _, .mapping mark h => by
    obtain ⟨ps, hlink, hshow⟩ := linkPairs_of_shows h
    refine ⟨_, ?_, .mapping mark hshow⟩
    rw [Node.link]
    show (linkPairs anchors _).bind _ = _
    rw [hlink]
    rfl

theorem linkItems_of_shows : ∀ {ns : List (Node String)} {vs : List Value}, ItemsShow ns vs →
    ∃ ns' : List LinkedNode, linkItems anchors ns = some ⟨ns', anchors, []⟩ ∧ ItemsShow ns' vs
  | _, _, .nil => ⟨[], rfl, .nil⟩
  | _, _, .cons hn hns => by
    obtain ⟨n, hn, hshow⟩ := link_of_shows hn
    obtain ⟨ns, hns, hshows⟩ := linkItems_of_shows hns
    refine ⟨n :: ns, ?_, .cons hshow hshows⟩
    rw [linkItems, hn]
    show (linkItems anchors _).bind _ = _
    rw [hns]
    rfl

theorem linkPairs_of_shows : ∀ {ps : List (Node String × Node String)}
    {ms : List (String × Value)}, PairsShow ps ms →
      ∃ ps' : List (LinkedNode × LinkedNode), linkPairs anchors ps = some ⟨ps', anchors, []⟩ ∧
        PairsShow ps' ms
  | _, _, .nil => ⟨[], rfl, .nil⟩
  | _, _, .cons mark k hn hps => by
    obtain ⟨n, hn, hshow⟩ := link_of_shows hn
    obtain ⟨ps, hps, hshows⟩ := linkPairs_of_shows hps
    refine ⟨_, ?_, .cons mark k hshow hshows⟩
    have hkey : Node.link anchors (.scalar ⟨mark, none, none⟩ .quoted k)
        = some ⟨.scalar ⟨mark, none, none⟩ .quoted k, anchors, []⟩ := rfl
    rw [linkPairs, hkey]
    show (Node.link anchors _).bind _ = _
    rw [hn]
    show (linkPairs anchors _).bind _ = _
    rw [hps]
    rfl

end

end

/-- **The compact text of a collection is a document whose root shows it.** -/
theorem Document.ofText?_render {v : Value} (hv : IsCollection v) (h : v.FitsFlow) :
    ∃ root : LinkedNode, Document.ofText? (String.ofList v.render)
      = some { root := some root, slots := [], more := false } ∧ Shows root v := by
  have hglyphs := @glyphs?_of_printable (String.ofList v.render)
    (by simpa using isPrintable_render h)
  obtain ⟨tokens, htokens, hkinds⟩ :=
    ofGlyphs_render hv h (Mark.skip {} (String.ofList v.render).toList.length)
  obtain ⟨n, hfirst, hshow⟩ := Compose.firstDocument_of_tokens hv hkinds
  obtain ⟨root, hlink, hroot⟩ := link_of_shows [] hshow
  refine ⟨root, ?_, hroot⟩
  rw [Document.ofText?, hglyphs, String.toList_ofList]
  rw [String.toList_ofList] at htokens
  show (Compose.firstDocument _).bind _ = _
  rw [htokens, hfirst]
  show (Node.link [] n).bind _ = _
  rw [hlink]
  rfl

end ProtoScribe.Yaml
