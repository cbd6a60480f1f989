import Mathlib
import ProtoScribe.Path

/-!
# Plain paths

A path is its segments with slashes between them, and its segments hold no slash. A plain path is
relative and has no dots among its segments, so a walk along it takes one name after the other.
Slashes may be repeated in it and at its end.

* `steps_join` — the names of a file's path are the directory's and the file's
* `of_mem_parents` — the paths above another take its first steps
* `exists_parent_of_relative` — the first path above a relative one takes its steps up to the last
  that is no dot, and above a plain one (`IsPlain.exists_parent`) all its names but the last
-/

namespace ProtoScribe.Path

/-! ## Segments -/

theorem split_eq_splitOn : ∀ cs : List Char, split cs = cs.splitOn '/'
  | [] => rfl
  | c :: cs => by
    have hne : cs.splitOn '/' ≠ [] := List.splitOn_ne_nil '/' cs
    rw [split, split_eq_splitOn cs, List.splitOn_cons_eq_if_modifyHead]
    cases h : cs.splitOn '/' with
    | nil => exact absurd h hne
    | cons s ss => by_cases hc : c = '/' <;> simp [hc]

theorem segments_ne_nil (p : Path) : p.segments ≠ [] := by
  simp [segments, split_eq_splitOn, List.splitOn_ne_nil]

/-- A slash between two texts divides their segments. -/
theorem segments_append (a b : String) :
    segments ⟨a ++ "/" ++ b⟩ = segments ⟨a⟩ ++ segments ⟨b⟩ := by
  have hl : (a ++ "/" ++ b).toList = a.toList ++ '/' :: b.toList := by simp
  simp only [segments, split_eq_splitOn, hl, List.splitOn_append_cons_self, List.map_append]

/-- A text without a slash is one segment. -/
theorem segments_of_not_mem {s : String} (h : '/' ∉ s.toList) : segments ⟨s⟩ = [s] := by
  simp [segments, split_eq_splitOn, List.splitOn_eq_singleton h]

/-- A path is its segments with slashes between them. -/
theorem text_eq_intercalate (p : Path) : p.text = "/".intercalate p.segments := by
  rw [← String.toList_inj, String.toList_intercalate, segments, split_eq_splitOn, List.map_map]
  have hm : String.toList ∘ String.ofList = id := funext fun l => String.toList_ofList
  rw [hm, List.map_id]
  exact (List.intercalate_splitOn '/').symm

/-- Texts without slashes are the segments of the path that they make. -/
theorem segments_intercalate {ss : List String} (hne : ss ≠ []) (h : ∀ s ∈ ss, '/' ∉ s.toList) :
    segments ⟨"/".intercalate ss⟩ = ss := by
  have hs : (['/'].intercalate (ss.map String.toList)).splitOn '/' = ss.map String.toList := by
    refine List.splitOn_intercalate '/' (fun l hl => ?_) (by simpa using hne)
    obtain ⟨s, hs, rfl⟩ := List.mem_map.mp hl
    exact h s hs
  rw [segments, split_eq_splitOn, String.toList_intercalate, show "/".toList = ['/'] from rfl, hs,
    List.map_map]
  simp

theorem not_mem_of_mem_split : ∀ {cs l : List Char}, l ∈ split cs → '/' ∉ l
  | [], l, h => by simp [List.mem_singleton.mp h]
  | c :: cs, l, h => by
    rw [split] at h
    split at h
    · next hs => exact absurd (split_eq_splitOn cs ▸ hs) (List.splitOn_ne_nil '/' cs)
    · next s ss hs =>
      have hrest (l : List Char) (hl : l ∈ s :: ss) : '/' ∉ l := not_mem_of_mem_split (hs ▸ hl)
      split at h
      · rcases List.mem_cons.mp h with rfl | h
        · exact List.not_mem_nil
        · exact hrest l h
      · next hc =>
        rcases List.mem_cons.mp h with rfl | h
        · rw [List.mem_cons, not_or]
          exact ⟨fun he => hc he.symm, hrest s List.mem_cons_self⟩
        · exact hrest l (List.mem_cons_of_mem s h)

/-- Segments hold no slash. -/
theorem not_mem_of_mem_segments {p : Path} {s : String} (h : s ∈ p.segments) : '/' ∉ s.toList := by
  obtain ⟨l, hl, rfl⟩ := List.mem_map.mp h
  rw [String.toList_ofList]
  exact not_mem_of_mem_split hl

/-- Only an absolute path and the empty one begin with an empty segment. -/
theorem first_ne_empty {p : Path} {first : String} {later : List String}
    (ha : p.isAbsolute = false) (hne : p.text ≠ "") (h : p.segments = first :: later) :
    first ≠ "" := by
  rintro rfl
  have ht := p.text_eq_intercalate
  rw [h] at ht
  cases later with
  | nil => exact hne (by simpa using ht)
  | cons s ss =>
    rw [String.intercalate_cons_cons] at ht
    simp [isAbsolute, ht] at ha

theorem isAbsolute_of_not_mem {s : String} (h : '/' ∉ s.toList) : isAbsolute ⟨s⟩ = false := by
  rw [isAbsolute, decide_eq_false_iff_not, List.head?_eq_some_iff]
  rintro ⟨cs, hc⟩
  simp only at hc
  exact h (hc ▸ List.mem_cons_self)

theorem isAbsolute_of_segments {p : Path} {first : String} {later : List String}
    (h : p.segments = first :: later) (hf : first ≠ "") : p.isAbsolute = false := by
  have hfs : '/' ∉ first.toList := not_mem_of_mem_segments (h ▸ List.mem_cons_self)
  obtain ⟨text⟩ := p
  have ht := text_eq_intercalate ⟨text⟩
  rw [h] at ht
  cases later with
  | nil =>
    obtain rfl : text = first := by simpa using ht
    exact isAbsolute_of_not_mem hfs
  | cons s ss =>
    obtain ⟨c, cs, hc⟩ := List.exists_cons_of_ne_nil (mt String.toList_eq_nil_iff.mp hf)
    rw [String.intercalate_cons_cons] at ht
    have hne : c ≠ '/' := fun he => hfs (by rw [hc, he]; exact List.mem_cons_self)
    simp [isAbsolute, show text = _ from ht, hc, hne]

/-- A path is absolute if a slash comes first. -/
theorem isAbsolute_iff_of_segments {p : Path} {first : String} {later : List String}
    (h : p.segments = first :: later) : p.isAbsolute = true ↔ first = "" ∧ later ≠ [] := by
  by_cases hf : first = ""
  · subst hf
    have ht := p.text_eq_intercalate
    rw [h] at ht
    cases later with
    | nil => simp [isAbsolute, ht]
    | cons s later =>
      rw [String.intercalate_cons_cons] at ht
      simp [isAbsolute, ht]
  · simp [isAbsolute_of_segments h hf, hf]

/-- A relative path without names is empty. -/
theorem steps_eq_nil_iff {p : Path} (ha : p.isAbsolute = false) : p.steps = [] ↔ p.text = "" := by
  refine ⟨fun hs => ?_, fun ht => ?_⟩
  · by_contra hne
    cases h : p.segments with
    | nil => exact p.segments_ne_nil h
    | cons first later =>
      have hf := first_ne_empty ha hne h
      simp [steps, h, hf] at hs
  · obtain ⟨text⟩ := p
    subst ht
    rfl

/-! ## Joining -/

section Join

variable {p : Path} {name : String}

/-- A slash comes between a path and a name, unless there is one or nothing to part from. -/
theorem join_cases (h : '/' ∉ name.toList) :
    p.text = "" ∧ p.join ⟨name⟩ = ⟨name⟩ ∨
      (∃ a, p.text = a ++ "/" ∧ p.join ⟨name⟩ = ⟨a ++ "/" ++ name⟩) ∨
      p.text ≠ "" ∧ p.join ⟨name⟩ = ⟨p.text ++ "/" ++ name⟩ := by
  unfold join
  rw [if_neg (by simp [isAbsolute_of_not_mem h])]
  by_cases ht : p.text = ""
  · exact .inl ⟨ht, by simp [ht]⟩
  by_cases hs : p.endsInSlash
  · rw [endsInSlash, decide_eq_true_eq, List.getLast?_eq_some_iff] at hs
    obtain ⟨cs, hc⟩ := hs
    have ht' : p.text = String.ofList cs ++ "/" := by rw [← String.toList_inj]; simpa using hc
    refine .inr (.inl ⟨_, ht', ?_⟩)
    rw [if_pos (.inr (by simp [endsInSlash, hc])), ht']
  · exact .inr (.inr ⟨ht, by rw [if_neg (by simp [ht, hs])]⟩)

/-- The names of a file's path are those of its directory and its own. -/
theorem steps_join (h : '/' ∉ name.toList) (hn : name ≠ "") :
    (p.join ⟨name⟩).steps = p.steps ++ [name] := by
  obtain ⟨text⟩ := p
  rcases join_cases (p := ⟨text⟩) h with ⟨rfl, hj⟩ | ⟨a, rfl, hj⟩ | ⟨-, hj⟩ <;> rw [hj]
  · simp [steps, segments_of_not_mem h, hn, show segments ⟨""⟩ = [""] from rfl]
  · have ha := segments_append a ""
    rw [String.append_empty] at ha
    simp [steps, segments_append, segments_of_not_mem h, hn, ha, show segments ⟨""⟩ = [""] from rfl]
  · simp [steps, segments_append, segments_of_not_mem h, hn]

theorem isAbsolute_join (h : '/' ∉ name.toList) : (p.join ⟨name⟩).isAbsolute = p.isAbsolute := by
  obtain ⟨text⟩ := p
  rcases join_cases (p := ⟨text⟩) h with ⟨rfl, hj⟩ | ⟨a, rfl, hj⟩ | ⟨ht, hj⟩ <;> rw [hj]
  · exact isAbsolute_of_not_mem h
  · simp [isAbsolute, List.head?_append]
  · obtain ⟨c, cs, hc⟩ := List.exists_cons_of_ne_nil (mt String.toList_eq_nil_iff.mp ht)
    simp [isAbsolute, hc]

theorem endsInSlash_join (h : '/' ∉ name.toList) (hn : name ≠ "") :
    (p.join ⟨name⟩).endsInSlash = false := by
  have last (front : String) : endsInSlash ⟨front ++ name⟩ = false := by
    rw [endsInSlash, decide_eq_false_iff_not, String.toList_append,
      List.getLast?_append_of_ne_nil _ (mt String.toList_eq_nil_iff.mp hn)]
    exact fun he => h (List.mem_of_getLast? he)
  rcases join_cases (p := p) h with ⟨-, hj⟩ | ⟨a, -, hj⟩ | ⟨-, hj⟩ <;> rw [hj]
  · simpa using last ""
  · exact last _
  · exact last _

/-- The path of a file begins with its directory's. -/
theorem isPrefix_join (h : '/' ∉ name.toList) :
    p.text.toList <+: (p.join ⟨name⟩).text.toList := by
  obtain ⟨text⟩ := p
  rcases join_cases (p := ⟨text⟩) h with ⟨rfl, hj⟩ | ⟨a, rfl, hj⟩ | ⟨-, hj⟩ <;> rw [hj]
  · exact List.nil_prefix
  · simp only [String.toList_append]
    exact List.prefix_append _ _
  · simp only [String.toList_append, List.append_assoc]
    exact List.prefix_append _ _

end Join

/-! ## Plain paths -/

/-- A step that is taken to the entry of that name. -/
structure IsStepName (s : String) : Prop where
  nonempty : s ≠ ""
  ne_dot : s ≠ "."
  ne_up : s ≠ ".."

instance (s : String) : Decidable (IsStepName s) :=
  decidable_of_iff (s ≠ "" ∧ s ≠ "." ∧ s ≠ "..")
    ⟨fun ⟨h₁, h₂, h₃⟩ => ⟨h₁, h₂, h₃⟩, fun ⟨h₁, h₂, h₃⟩ => ⟨h₁, h₂, h₃⟩⟩

/-- A relative path all of whose steps are names. -/
structure IsPlain (p : Path) : Prop where
  relative : p.isAbsolute = false
  names : ∀ s ∈ p.steps, IsStepName s

instance (p : Path) : Decidable p.IsPlain :=
  decidable_of_iff (p.isAbsolute = false ∧ ∀ s ∈ p.steps, IsStepName s)
    ⟨fun ⟨h₁, h₂⟩ => ⟨h₁, h₂⟩, fun ⟨h₁, h₂⟩ => ⟨h₁, h₂⟩⟩

/-- A file in the directory of a plain path has a plain path. -/
theorem IsPlain.join {p : Path} (hp : p.IsPlain) {name : String} (h : '/' ∉ name.toList)
    (hn : IsStepName name) : (p.join ⟨name⟩).IsPlain where
  relative := by rw [isAbsolute_join h, hp.relative]
  names := by
    rw [steps_join h hn.nonempty, List.forall_mem_append]
    exact ⟨hp.names, by simpa using hn⟩

/-! ## Parents -/

theorem parentsOf_dropWhile (first : String) : ∀ later : List String,
    parentsOf first (later.dropWhile isIdle) = parentsOf first later
  | [] => rfl
  | s :: later => by
    rw [List.dropWhile_cons]
    split
    · next hi => rw [parentsOf_dropWhile first later, parentsOf, if_pos hi]
    · rfl

theorem ofSegments_eq {first : String} (hf : first ≠ "") (later : List String) :
    ofSegments first later = ⟨"/".intercalate (first :: (later.dropWhile isIdle).reverse)⟩ := by
  rw [ofSegments]
  split
  · next h => simp [h, hf]
  · rfl

/-- Of idle segments, the dots are taken as steps. -/
theorem forall_mem_filter_isIdle {idle : List String} (h : ∀ s ∈ idle, isIdle s = true) :
    ∀ s ∈ idle.filter (· ≠ ""), s = "." := by
  intro s hs
  obtain ⟨hmem, hne⟩ := List.mem_filter.mp hs
  have hs := h s hmem
  rw [isIdle, Bool.or_eq_true, decide_eq_true_eq, decide_eq_true_eq] at hs
  exact hs.resolve_left (of_decide_eq_true hne)

/-- A path begins with what its first segments make. -/
theorem isPrefix_intercalate (first : String) (xs ys : List String) :
    ("/".intercalate (first :: xs)).toList <+: ("/".intercalate (first :: (xs ++ ys))).toList := by
  cases ys with
  | nil => rw [List.append_nil]
  | cons y ys =>
    rw [← List.cons_append, String.intercalate_append_of_ne_nil (by simp) (by simp),
      String.toList_append, String.toList_append, List.append_assoc]
    exact List.prefix_append _ _

section OfSegments

variable {first : String} (hf : first ≠ "") (hfs : '/' ∉ first.toList) {later : List String}

include hf hfs

theorem segments_ofSegments (h : ∀ s ∈ later, '/' ∉ s.toList) :
    segments (ofSegments first later) = first :: (later.dropWhile isIdle).reverse := by
  rw [ofSegments_eq hf, segments_intercalate (by simp)]
  refine List.forall_mem_cons.mpr ⟨hfs, fun s hs => ?_⟩
  exact h s ((List.dropWhile_suffix _).subset (List.mem_reverse.mp hs))

/-- What is above a path made of segments is above the segments. -/
theorem parents_ofSegments (h : ∀ s ∈ later, '/' ∉ s.toList) :
    (ofSegments first later).parents = parentsOf first later := by
  rw [parents, segments_ofSegments hf hfs h]
  simp only [List.reverse_reverse, parentsOf_dropWhile]

/-- A path made of segments takes their steps, but for dots at their end. -/
theorem steps_ofSegments (h : ∀ s ∈ later, '/' ∉ s.toList) :
    ∃ dots : List String, (∀ s ∈ dots, s = ".") ∧
      (first :: later.reverse).filter (· ≠ "") = (ofSegments first later).steps ++ dots := by
  refine ⟨(later.takeWhile isIdle).reverse.filter (· ≠ ""),
    forall_mem_filter_isIdle fun s hs => List.mem_takeWhile_imp (List.mem_reverse.mp hs), ?_⟩
  conv_lhs => rw [← List.takeWhile_append_dropWhile (p := isIdle) (l := later), List.reverse_append,
    ← List.cons_append, List.filter_append]
  rw [steps, segments_ofSegments hf hfs h]

/-- It takes no dot as its last step, unless there is no other. -/
theorem steps_ofSegments_ne (h : ∀ s ∈ later, '/' ∉ s.toList) (front : List String) (s : String) :
    (ofSegments first later).steps ≠ front ++ [s, "."] := by
  rw [steps, segments_ofSegments hf hfs h, List.filter_cons_of_pos (by simpa using hf)]
  have hhead := List.head?_dropWhile_not isIdle later
  cases hl : later.dropWhile isIdle with
  | nil => exact fun he => by simpa using congrArg List.length he
  | cons x outer =>
    rw [hl, List.head?_cons] at hhead
    obtain ⟨hx, hdot⟩ : x ≠ "" ∧ x ≠ "." := by simpa [isIdle] using hhead
    rw [List.reverse_cons, List.filter_append, List.filter_cons_of_pos (by simpa using hx),
      List.filter_nil, ← List.cons_append, List.append_cons front s]
    exact fun he => hdot (List.append_inj_right' he rfl |> List.singleton_inj.mp)

omit hfs in
/-- What they make with all that is dropped begins with it. -/
theorem isPrefix_ofSegments :
    (ofSegments first later).text.toList <+: ("/".intercalate (first :: later.reverse)).toList := by
  have hr : later.reverse
      = (later.dropWhile isIdle).reverse ++ (later.takeWhile isIdle).reverse := by
    rw [← List.reverse_append, List.takeWhile_append_dropWhile]
  rw [ofSegments_eq hf, hr]
  exact isPrefix_intercalate _ _ _

/-- The first path above some segments takes their steps up to the last that is no dot, but for dots
in front of that. -/
theorem exists_parentsOf (h : ∀ s ∈ later, '/' ∉ s.toList) :
    ∃ (q : Path) (before after : List String) (s : String),
      parentsOf first later = q :: q.parents ∧ q.isAbsolute = false ∧
      (∀ front x, q.steps ≠ front ++ [x, "."]) ∧
      (first :: later.reverse).filter (· ≠ "") = q.steps ++ before ++ s :: after ∧
      (∀ d ∈ before, d = ".") ∧ (∀ d ∈ after, d = ".") ∧ (s = "." → q.steps ++ before = []) ∧
      q.text.toList <+: ("/".intercalate (first :: later.reverse)).toList := by
  have hidle : ∀ d ∈ (later.takeWhile isIdle).reverse.filter (· ≠ ""), d = "." :=
    forall_mem_filter_isIdle fun s hs => List.mem_takeWhile_imp (List.mem_reverse.mp hs)
  have hsplit : first :: later.reverse
      = (first :: (later.dropWhile isIdle).reverse) ++ (later.takeWhile isIdle).reverse := by
    rw [List.cons_append, ← List.reverse_append, List.takeWhile_append_dropWhile]
  have hhead := List.head?_dropWhile_not isIdle later
  rw [← parentsOf_dropWhile first later]
  cases hl : later.dropWhile isIdle with
  | nil =>
    -- Nothing but dots comes after the first step.
    have hnone : steps ⟨""⟩ = [] := rfl
    refine ⟨⟨""⟩, [], _, first, by rw [parentsOf, if_neg hf]; rfl, rfl, ?_, ?_, by simp, hidle,
      fun _ => rfl, List.nil_prefix⟩
    · exact fun front x he => by simpa [hnone] using congrArg List.length he
    · rw [hsplit, hl, List.filter_append]
      simp [hf, hnone]
  | cons s outer =>
    rw [hl, List.head?_cons] at hhead
    have hs : isIdle s = false := by simpa using hhead
    obtain ⟨hne, hdot⟩ : s ≠ "" ∧ s ≠ "." := by simpa [isIdle] using hs
    have hslash : ∀ x ∈ outer, '/' ∉ x.toList := fun x hx =>
      h x ((List.dropWhile_suffix isIdle).subset (hl ▸ List.mem_cons_of_mem s hx))
    obtain ⟨before, hbefore, hsteps⟩ := steps_ofSegments hf hfs hslash
    refine ⟨ofSegments first outer, before, _, s, ?_, ?_, steps_ofSegments_ne hf hfs hslash, ?_,
      hbefore, hidle, fun he => absurd he hdot, ?_⟩
    · rw [parentsOf, if_neg (by simp [hs]), parents_ofSegments hf hfs hslash]
    · exact isAbsolute_of_segments (segments_ofSegments hf hfs hslash) hf
    · rw [hsplit, hl, List.filter_append, List.reverse_cons, ← List.cons_append, List.filter_append,
        hsteps, List.filter_cons_of_pos (by simpa using hne), List.filter_nil, List.append_assoc,
        List.singleton_append]
    · rw [hsplit, hl, List.reverse_cons, List.cons_append, List.append_assoc]
      exact (isPrefix_ofSegments hf).trans (isPrefix_intercalate _ _ _)

end OfSegments

/-- A path above some segments is empty, or has all of them up to one. -/
theorem exists_of_mem_parentsOf {q : Path} {first : String} : ∀ {later : List String},
    q ∈ parentsOf first later → q = ⟨""⟩ ∨ ∃ s l, s :: l <:+ later ∧ q = ofSegments first l
  | [], h => by
    rw [parentsOf] at h
    split at h
    · cases h
    · exact .inl (List.mem_singleton.mp h)
  | s :: later, h => by
    have hlater (h : q ∈ parentsOf first later) :
        q = ⟨""⟩ ∨ ∃ s' l, s' :: l <:+ s :: later ∧ q = ofSegments first l := by
      rcases exists_of_mem_parentsOf h with hq | ⟨s', l, hsuffix, hq⟩
      · exact .inl hq
      · exact .inr ⟨s', l, hsuffix.trans (List.suffix_cons s later), hq⟩
    rw [parentsOf] at h
    split at h
    · exact hlater h
    · rcases List.mem_cons.mp h with hq | hq
      · exact .inr ⟨s, later, List.suffix_refl _, hq⟩
      · exact hlater hq

/-- A path made of segments is the root, or it has them but for idle ones at their end. -/
theorem ofSegments_cases {first : String} {later : List String} (hfs : '/' ∉ first.toList)
    (h : ∀ s ∈ later, '/' ∉ s.toList) :
    ofSegments first later = ⟨"/"⟩ ∨
      (ofSegments first later).segments = first :: (later.dropWhile isIdle).reverse ∧
        (first = "" → later.dropWhile isIdle ≠ []) := by
  by_cases hf : first = ""
  · rw [ofSegments]
    cases hl : later.dropWhile isIdle with
    | nil => exact .inl (by simp [hf])
    | cons s l =>
      refine .inr ⟨?_, fun _ => List.cons_ne_nil s l⟩
      rw [segments_intercalate (List.cons_ne_nil _ _)]
      refine List.forall_mem_cons.mpr ⟨hfs, fun x hx => ?_⟩
      rw [← hl] at hx
      exact h x ((List.dropWhile_suffix _).subset (List.mem_reverse.mp hx))
  · exact .inr ⟨segments_ofSegments hf hfs h, fun he => absurd he hf⟩

/-- A path above another takes no step, or the first ones of its. -/
theorem of_mem_parents {p q : Path} (h : q ∈ p.parents) :
    q.steps = [] ∨ q.isAbsolute = p.isAbsolute ∧ q.steps <+: p.steps := by
  obtain ⟨first, later, hp⟩ := List.exists_cons_of_ne_nil p.segments_ne_nil
  have hslash (s : String) (hs : s ∈ first :: later) : '/' ∉ s.toList :=
    not_mem_of_mem_segments (hp ▸ hs)
  rw [parents, hp] at h
  rcases exists_of_mem_parentsOf h with rfl | ⟨s, l, hsuffix, rfl⟩
  · exact .inl rfl
  have hlater : l.reverse ++ [s] <+: later := by
    simpa using List.reverse_prefix.mpr hsuffix
  have hfront : l.reverse <+: later := (List.prefix_append _ _).trans hlater
  have hne : later ≠ [] := fun hnil => by simp [hnil] at hlater
  have hl (x : String) (hx : x ∈ l) : '/' ∉ x.toList :=
    hslash x (List.mem_cons_of_mem _ (hfront.subset (List.mem_reverse.mpr hx)))
  rcases ofSegments_cases (hslash first List.mem_cons_self) hl with hroot | ⟨hq, hdrop⟩
  · rw [hroot]
    exact .inl rfl
  refine .inr ⟨?_, ?_⟩
  · rw [Bool.eq_iff_iff, isAbsolute_iff_of_segments hq, isAbsolute_iff_of_segments hp]
    simpa [hne] using hdrop
  · rw [steps, steps, hq, hp]
    refine List.IsPrefix.filter _ (List.cons_prefix_cons.mpr ⟨rfl, ?_⟩)
    exact (List.reverse_prefix.mpr (List.dropWhile_suffix _)).trans hfront

/-- The first path above a relative one is where that begins. It takes its steps up to the last that
is no dot, but for dots in front of that. It takes no dot itself as its last step, unless there is no
other. -/
theorem exists_parent_of_relative {p : Path} (ha : p.isAbsolute = false) (hne : p.text ≠ "") :
    ∃ (q : Path) (before after : List String) (s : String),
      p.parents = q :: q.parents ∧ q.isAbsolute = false ∧
      (∀ front x, q.steps ≠ front ++ [x, "."]) ∧ p.steps = q.steps ++ before ++ s :: after ∧
      (∀ d ∈ before, d = ".") ∧ (∀ d ∈ after, d = ".") ∧ (s = "." → q.steps ++ before = []) ∧
      q.text.toList <+: p.text.toList := by
  obtain ⟨first, later, hs⟩ := List.exists_cons_of_ne_nil p.segments_ne_nil
  have hslash (s : String) (h : s ∈ first :: later) : '/' ∉ s.toList :=
    not_mem_of_mem_segments (hs ▸ h)
  have hlater (s : String) (h : s ∈ later.reverse) : '/' ∉ s.toList :=
    hslash s (List.mem_cons_of_mem _ (List.mem_reverse.mp h))
  obtain ⟨q, before, after, s, hq, hrel, htrim, hsteps, hbefore, hafter, hdot, hprefix⟩ :=
    exists_parentsOf (first_ne_empty ha hne hs) (hslash first List.mem_cons_self) hlater
  rw [List.reverse_reverse, ← hs] at hsteps hprefix
  refine ⟨q, before, after, s, ?_, hrel, htrim, hsteps, hbefore, hafter, hdot, ?_⟩
  · rw [parents, hs]
    exact hq
  · rw [p.text_eq_intercalate]
    exact hprefix

/-- The first path above a plain one has all its names but the last, and it is plain too. -/
theorem IsPlain.exists_parent {p : Path} (hp : p.IsPlain) (hne : p.text ≠ "") :
    ∃ q : Path, p.parents = q :: q.parents ∧ q.IsPlain ∧ q.steps = p.steps.dropLast ∧
      q.text.toList <+: p.text.toList := by
  obtain ⟨q, before, after, s, hq, hrel, -, hsteps, hbefore, hafter, -, hprefix⟩ :=
    exists_parent_of_relative hp.relative hne
  -- There are no dots to be left out.
  have hnil {dots : List String} (hdots : ∀ d ∈ dots, d = ".") (hsub : dots ⊆ p.steps) :
      dots = [] := by
    refine List.eq_nil_iff_forall_not_mem.mpr fun d hd => ?_
    exact (hp.names d (hsub hd)).ne_dot (hdots d hd)
  obtain rfl := hnil hbefore (by rw [hsteps]; simp)
  obtain rfl := hnil hafter (by rw [hsteps]; simp)
  rw [List.append_nil] at hsteps
  refine ⟨q, hq, ⟨hrel, fun x hx => hp.names x ?_⟩, ?_, hprefix⟩
  · rw [hsteps]
    exact List.mem_append_left _ hx
  · rw [hsteps, List.dropLast_concat]

end ProtoScribe.Path
