import ProtoScribe.Proofs.Write.Verdict

/-!
# Writes one after the other

Sequences of writes into a tree without links. Two writes that follow each other may be swapped if
neither file has a place on the other's way: both return the same as before, so do all that follow,
and the tree holds the same in the end. Whether the directories that both need are missing, and
whether either write fails, makes no difference. And a file that has been written holds what the
last successful write has put there.

Both are properties of what requests say they return and leave (`Request.error?`,
`Request.leaves`): what one leaves is, for an independent one, as clear as it was
(`front_leaves`), so the two effects can be put on top of each other in either order
(`leaves_comm`). A run of all requests is a fold of these effects (`writeAll_eq`).
-/

namespace ProtoScribe

namespace Path

/-! ## Components of plain paths -/

/-- Names are the components that they make. -/
theorem filterMap_component? : ∀ {segments : List String},
    (∀ s ∈ segments, s ≠ "" → IsStepName s) →
    segments.filterMap component? = (segments.filter (· ≠ "")).map .name
  | [], _ => rfl
  | s :: segments, h => by
    obtain ⟨hs, hrest⟩ := List.forall_mem_cons.mp h
    have ih := filterMap_component? hrest
    by_cases he : s = ""
    · have hidle : component? s = none := by simp [component?, isIdle, he]
      rw [List.filterMap_cons_none hidle, ih, List.filter_cons_of_neg (by simpa using he)]
    · have hname := hs he
      have hsome : component? s = some (.name s) := by
        simp [component?, isIdle, hname.nonempty, hname.ne_dot, hname.ne_up]
      rw [List.filterMap_cons_some hsome, ih, List.filter_cons_of_pos (by simpa using he),
        List.map_cons]

/-- The components of a plain path are its names. -/
theorem components_of_isPlain {p : Path} (hp : p.IsPlain) :
    p.components = p.steps.map .name := by
  have hnames (s : String) (hs : s ∈ p.segments) (hne : s ≠ "") : IsStepName s :=
    hp.names s (List.mem_filter.mpr ⟨hs, by simpa using hne⟩)
  obtain ⟨first, later, hsegments⟩ := List.exists_cons_of_ne_nil p.segments_ne_nil
  have hdot : first ≠ "." := by
    rintro rfl
    exact (hnames "." (by simp [hsegments]) (by decide)).ne_dot rfl
  rw [steps, ← filterMap_component? hnames, components, hsegments, hp.relative]
  simp only [Bool.false_eq_true, if_false, if_neg hdot]
  cases hc : component? first with
  | none => rw [List.filterMap_cons_none hc]; rfl
  | some c => rw [List.filterMap_cons_some hc]; rfl

end Path

namespace Request

open Holdings ProtoScribe.Path

variable {g : Holdings} {cwd : Location} {r x y : Request}

/-! ## Requests that are independent -/

/-- Neither file is the other, or has the other's directory, or a place on the way there. -/
structure Independent (x y : Request) : Prop where
  target : x.target.components ≠ y.target.components
  left : ¬x.target.components <+: y.dir.components
  right : ¬y.target.components <+: x.dir.components

theorem Independent.symm (h : x.Independent y) : y.Independent x := ⟨h.target.symm, h.right, h.left⟩

theorem components_target (hp : r.dir.IsPlain) (hname : '/' ∉ r.name.toList) :
    r.target.components = (r.dir.steps ++ [protoFileName r.name]).map .name := by
  have hplain := hp.join (slash_mem_protoFileName.not.mpr hname) (isStepName_protoFileName r.name)
  rw [target, components_of_isPlain hplain, steps_target hname]

/-- Files of different paths have different places. -/
theorem place_eq_iff (hx : x.dir.IsPlain) (hy : y.dir.IsPlain) (hxname : '/' ∉ x.name.toList)
    (hyname : '/' ∉ y.name.toList) :
    x.place cwd = y.place cwd ↔ x.target.components = y.target.components := by
  rw [components_target hx hxname, components_target hy hyname, place, place, List.append_assoc,
    List.append_assoc, List.append_cancel_left_eq]
  exact (List.map_injective_iff.mpr fun _ _ => Component.name.inj).eq_iff.symm

/-- The file's place is not on the way to a directory that its path is no part of. -/
theorem ne_place_of_prefix (hx : x.dir.IsPlain) (hy : y.dir.IsPlain)
    (hname : '/' ∉ x.name.toList) (h : ¬x.target.components <+: y.dir.components)
    {q : List String} (hq : q <+: y.dir.steps) : cwd ++ q ≠ x.place cwd := by
  rw [place, List.append_assoc, ne_eq, List.append_cancel_left_eq]
  rintro rfl
  rw [components_target hx hname, components_of_isPlain hy] at h
  exact h (hq.map _)

/-! ## What a write leaves to another -/

theorem isPrefix_made_front (g : Holdings) (cwd : Location) (r : Request) :
    r.made g cwd <+: g.front cwd r.dir.steps := by
  unfold made
  split
  · exact List.prefix_refl _
  · exact List.nil_prefix

theorem isPrefix_made (g : Holdings) (cwd : Location) (r : Request) :
    r.made g cwd <+: r.dir.steps :=
  (isPrefix_made_front g cwd r).trans (isPrefix_front g cwd r.dir.steps)

/-- Elsewhere than at its own place, a write leaves directories on its way and nothing else. -/
theorem leaves_of_ne {l : Location} (h : l ≠ r.place cwd) :
    r.leaves g cwd l = if r.IsOnWay g cwd l then some .directory else g l := by
  rw [leaves, if_neg]
  exact fun hplace => h hplace.2

/-- A name on the way of another write is as clear after a write as before. -/
theorem isClear_leaves {q : List String} {s : String} (h : cwd ++ q ++ [s] ≠ x.place cwd) :
    IsClear (x.leaves g cwd) (cwd ++ q) s ↔ g.IsClear (cwd ++ q) s := by
  have hleaves := leaves_of_ne (g := g) h
  split at hleaves
  · next hon =>
    -- A directory that has been made now was clear before.
    obtain ⟨-, q', hq', hl⟩ := hon
    rw [List.append_assoc, List.append_cancel_left_eq] at hl
    subst hl
    have hclear := isClear_of_front (hq'.trans (isPrefix_made_front g cwd x))
    exact ⟨fun _ => hclear, fun _ => ⟨hclear.size, .inr hleaves⟩⟩
  · refine ⟨fun ⟨h₁, h₂⟩ => ⟨h₁, ?_⟩, fun ⟨h₁, h₂⟩ => ⟨h₁, ?_⟩⟩
    · rwa [hleaves] at h₂
    · rwa [hleaves]

/-- The directory that paths start from stays one. -/
theorem leaves_cwd (hcwd : g cwd = some .directory) : r.leaves g cwd cwd = some .directory := by
  rw [leaves_of_ne (by simp [place])]
  split
  · rfl
  · exact hcwd

/-- A write that does not succeed at its place leaves the file that is there. -/
theorem leaves_of_file {content : List UInt8} {l : Location} (hcwd : g cwd = some .directory)
    (hfile : g l = some (.file content)) (h : r.error? g cwd = none → l ≠ r.place cwd) :
    r.leaves g cwd l = some (.file content) := by
  rw [leaves, if_neg fun hplace => h hplace.1 hplace.2, if_neg, hfile]
  -- On the way there are only directories, and places for them.
  rintro ⟨-, q, hq, rfl⟩
  rcases List.eq_nil_or_concat' q with rfl | ⟨q, s, rfl⟩
  · rw [List.append_nil, hcwd] at hfile
    cases hfile
  · have hplace := (isClear_of_front (hq.trans (isPrefix_made_front g cwd r))).place
    rw [List.append_assoc, hfile] at hplace
    rcases hplace with hnone | hdir
    · cases hnone
    · cases hdir

section Independent

variable (hx : x.dir.IsPlain) (hy : y.dir.IsPlain) (h : x.Independent y)

include hx hy h

/-- The way of an independent write is clear as far as it was. -/
theorem front_leaves :
    front (x.leaves g cwd) cwd y.dir.steps = g.front cwd y.dir.steps := by
  cases hpremature : x.premature? with
  | some e => rw [leaves_of_premature? hpremature]
  | none =>
    have hname := slash_of_premature? hpremature
    refine front_congr fun q s hq => isClear_leaves ?_
    rw [List.append_assoc]
    exact ne_place_of_prefix hx hy hname h.left hq

theorem made_leaves : y.made (x.leaves g cwd) cwd = y.made g cwd := by
  unfold made
  rw [front_leaves hx hy h]

theorem directoryFault?_leaves :
    y.directoryFault? (x.leaves g cwd) cwd = y.directoryFault? g cwd := by
  unfold directoryFault? obstacle?
  rw [front_leaves hx hy h]

/-- What has the file's place is what had it before. -/
theorem leaves_place (hyname : '/' ∉ y.name.toList) :
    x.leaves g cwd (y.place cwd) = g (y.place cwd) := by
  cases hpremature : x.premature? with
  | some e => rw [leaves_of_premature? hpremature]
  | none =>
    have hxname := slash_of_premature? hpremature
    rw [leaves_of_ne, if_neg]
    · rintro ⟨-, q, hq, hl⟩
      exact ne_place_of_prefix hy hx hyname h.right (hq.trans (isPrefix_made g cwd x)) hl.symm
    · intro hplace
      exact h.target ((place_eq_iff hy hx hyname hxname).mp hplace).symm

/-- An independent write fails after another as it would have before, or does not. -/
theorem error?_leaves : y.error? (x.leaves g cwd) cwd = y.error? g cwd := by
  cases hpremature : y.premature? with
  | some e => rw [error?_of_premature? hpremature, error?_of_premature? hpremature]
  | none =>
    unfold error?
    rw [directoryFault?_leaves hx hy h, leaves_place hx hy h (slash_of_premature? hpremature)]

theorem result_leaves : y.result (x.leaves g cwd) cwd = y.result g cwd := by
  rw [result, result, error?_leaves hx hy h]

theorem isOnWay_leaves {l : Location} :
    y.IsOnWay (x.leaves g cwd) cwd l ↔ y.IsOnWay g cwd l := by
  unfold IsOnWay
  rw [made_leaves hx hy h]

/-- What an independent write leaves after another, by what was there before both. -/
theorem leaves_leaves (l : Location) :
    y.leaves (x.leaves g cwd) cwd l =
      if y.error? g cwd = none ∧ l = y.place cwd then some (.file y.bytes)
      else if y.IsOnWay g cwd l then some .directory
      else x.leaves g cwd l := by
  rw [leaves, error?_leaves hx hy h]
  simp only [isOnWay_leaves hx hy h]

/-- At the place of the first file it does not matter which write is first. -/
theorem leaves_comm_place (hxname : '/' ∉ x.name.toList) :
    y.leaves (x.leaves g cwd) cwd (x.place cwd) = x.leaves (y.leaves g cwd) cwd (x.place cwd) := by
  rw [leaves_place hy hx h.symm hxname, leaves_leaves hy hx h.symm,
    leaves_place hy hx h.symm hxname, leaves]

/-- Independent writes leave the same in either order. -/
theorem leaves_comm : y.leaves (x.leaves g cwd) cwd = x.leaves (y.leaves g cwd) cwd := by
  cases hxpremature : x.premature? with
  | some e => rw [leaves_of_premature? hxpremature, leaves_of_premature? hxpremature]
  | none =>
    cases hypremature : y.premature? with
    | some e => rw [leaves_of_premature? hypremature, leaves_of_premature? hypremature]
    | none =>
      funext l
      by_cases hlx : l = x.place cwd
      · rw [hlx, leaves_comm_place hx hy h (slash_of_premature? hxpremature)]
      by_cases hly : l = y.place cwd
      · rw [hly, leaves_comm_place hy hx h.symm (slash_of_premature? hypremature)]
      -- Everywhere else there are only directories to be made.
      rw [leaves_of_ne hly, leaves_of_ne hlx, leaves_of_ne hlx, leaves_of_ne hly]
      simp only [isOnWay_leaves hx hy h, isOnWay_leaves hy hx h.symm]
      by_cases hon : x.IsOnWay g cwd l
      · simp [hon]
      · simp [hon]

end Independent

/-! ## Runs -/

/-- A request with what comes of it. -/
abbrev Record : Type := Request × Except WriteError Path

/-- What the tree holds after the requests. -/
def leavesAll (cwd : Location) (g : Holdings) (rs : List Request) : Holdings :=
  rs.foldl (fun g r => r.leaves g cwd) g

/-- Each request with what comes of it. -/
def log (cwd : Location) : Holdings → List Request → List Record
  | _, [] => []
  | g, r :: rs => (r, r.result g cwd) :: log cwd (r.leaves g cwd) rs

theorem log_append (cwd : Location) : ∀ (g : Holdings) (rs rs' : List Request),
    log cwd g (rs ++ rs') = log cwd g rs ++ log cwd (leavesAll cwd g rs) rs'
  | _, [], _ => rfl
  | g, r :: rs, rs' => by
    rw [List.cons_append, log, log, log_append cwd (r.leaves g cwd) rs rs']
    rfl

theorem leavesAll_append (cwd : Location) (g : Holdings) (rs rs' : List Request) :
    leavesAll cwd g (rs ++ rs') = leavesAll cwd (leavesAll cwd g rs) rs' :=
  List.foldl_append

/-- From any entry of a log on, it is the log of that request and those that follow. -/
theorem log_eq_append {later : List Record}
    {outcome : Except WriteError Path} :
    ∀ {g : Holdings} {rs : List Request} {before : List Record},
    g cwd = some .directory → log cwd g rs = before ++ (r, outcome) :: later →
    ∃ g' rs', r ∈ rs ∧ g' cwd = some .directory ∧ outcome = r.result g' cwd ∧
      later = log cwd (r.leaves g' cwd) rs' ∧
      leavesAll cwd g rs = leavesAll cwd (r.leaves g' cwd) rs'
  | g, [], before, _, h => by simp [log] at h
  | g, x :: rs, [], hcwd, h => by
    obtain ⟨hx, rfl⟩ := List.cons.inj h
    cases hx
    exact ⟨g, rs, List.mem_cons_self, hcwd, rfl, rfl, rfl⟩
  | g, x :: rs, b :: before, hcwd, h => by
    obtain ⟨-, hrest⟩ := List.cons.inj h
    obtain ⟨g', rs', hr, hcwd', hstep⟩ := log_eq_append (leaves_cwd hcwd) hrest
    exact ⟨g', rs', List.mem_cons_of_mem x hr, hcwd', hstep⟩

theorem result_eq_ok_iff {p : Path} :
    r.result g cwd = .ok p ↔ r.error? g cwd = none ∧ p = r.target := by
  unfold result
  cases r.error? g cwd with
  | none => simp [eq_comm]
  | some e => simp

/-- A file stays what it is until another write to its place succeeds. -/
theorem leavesAll_of_file {content : List UInt8} {l : Location} :
    ∀ {g : Holdings} {rs : List Request}, g cwd = some .directory → g l = some (.file content) →
    (∀ r p, (r, .ok p) ∈ log cwd g rs → l ≠ r.place cwd) →
    leavesAll cwd g rs l = some (.file content)
  | g, [], _, hfile, _ => hfile
  | g, r :: rs, hcwd, hfile, h => by
    have hstays : r.leaves g cwd l = some (.file content) := by
      refine leaves_of_file hcwd hfile fun herror => h r r.target ?_
      rw [log, (result_eq_ok_iff).mpr ⟨herror, rfl⟩]
      exact List.mem_cons_self
    show leavesAll cwd (r.leaves g cwd) rs l = _
    refine leavesAll_of_file (leaves_cwd hcwd) hstays fun r' p hr' => h r' p ?_
    exact List.mem_cons_of_mem _ hr'

end Request

namespace World

open FileTree Holdings Request ProtoScribe.Path

variable {w : World} {rs : List Request}

/-- Does what is asked for, one request after the other, and tells what comes of each. -/
def writeAll (rs : List Request) : StateM World (List Record) :=
  rs.mapM fun r => return (r, ← r.write)

theorem writeAll_nil : writeAll [] w = ([], w) := rfl

theorem writeAll_cons (r : Request) :
    writeAll (r :: rs) w
      = ((r, (r.write w).1) :: (writeAll rs (r.write w).2).1, (writeAll rs (r.write w).2).2) := by
  unfold writeAll
  rw [List.mapM_cons]
  generalize r.write = action
  rfl

/-- A world without links, whose working directory is there. -/
structure IsLinkFree (w : World) : Prop where
  noLinks : w.tree.NoLinks
  cwd : w.tree.get? w.cwd = some .directory

/-- Writes make no links. -/
theorem IsLinkFree.write {r : Request} (h : w.IsLinkFree) (hp : r.dir.IsPlain) :
    (r.write w).2.IsLinkFree := by
  obtain ⟨-, hcwd, hget⟩ := write_eq h.noLinks h.cwd hp
  refine ⟨fun l target hlink => ?_, ?_⟩
  · rw [hget, leaves] at hlink
    split at hlink
    · cases hlink
    split at hlink
    · cases hlink
    · exact h.noLinks l target hlink
  · rw [hget, hcwd]
    exact leaves_cwd h.cwd

/-- A run of requests gives their log, and leaves what they leave one after the other. -/
theorem writeAll_eq (h : w.IsLinkFree) (hp : ∀ r ∈ rs, r.dir.IsPlain) :
    (writeAll rs w).1 = log w.cwd w.tree.get? rs ∧
      (writeAll rs w).2.tree.get? = leavesAll w.cwd w.tree.get? rs ∧
      (writeAll rs w).2.IsLinkFree := by
  induction rs generalizing w with
  | nil => exact ⟨rfl, rfl, h⟩
  | cons r rs ih =>
    obtain ⟨hr, hrs⟩ := List.forall_mem_cons.mp hp
    obtain ⟨hresult, hcwd, hget⟩ := write_eq h.noLinks h.cwd hr
    obtain ⟨hlog, hget', hlinkFree⟩ := ih (h.write hr) hrs
    rw [hcwd, hget] at hlog hget'
    rw [writeAll_cons]
    refine ⟨?_, hget', hlinkFree⟩
    rw [hlog, hresult]
    rfl

/-- Requests that follow each other and are independent may be swapped. -/
theorem writeAll_swap {x y : Request} {before after : List Request} (h : w.IsLinkFree)
    (hp : ∀ r ∈ before ++ x :: y :: after, r.dir.IsPlain) (hxy : x.Independent y) :
    ∃ a b rest, (writeAll (before ++ x :: y :: after) w).1
        = (writeAll before w).1 ++ (x, a) :: (y, b) :: rest ∧
      (writeAll (before ++ y :: x :: after) w).1
        = (writeAll before w).1 ++ (y, b) :: (x, a) :: rest ∧
      (writeAll (before ++ y :: x :: after) w).2.tree.get?
        = (writeAll (before ++ x :: y :: after) w).2.tree.get? := by
  have hx := hp x (by simp)
  have hy := hp y (by simp)
  have hp' : ∀ r ∈ before ++ y :: x :: after, r.dir.IsPlain := by
    intro r hr
    refine hp r ?_
    simp only [List.mem_append, List.mem_cons] at hr ⊢
    rcases hr with hr | rfl | rfl | hr <;> simp [*]
  obtain ⟨hbefore, -⟩ := writeAll_eq h fun r hr => hp r (List.mem_append_left _ hr)
  obtain ⟨hlog, hget, -⟩ := writeAll_eq h hp
  obtain ⟨hlog', hget', -⟩ := writeAll_eq h hp'
  let g := leavesAll w.cwd w.tree.get? before
  refine ⟨x.result g w.cwd, y.result g w.cwd,
    log w.cwd (y.leaves (x.leaves g w.cwd) w.cwd) after, ?_, ?_, ?_⟩
  · rw [hlog, hbefore, log_append, log, log, result_leaves hx hy hxy]
  · rw [hlog', hbefore, log_append, log, log, result_leaves hy hx hxy.symm,
      leaves_comm hx hy hxy]
  · rw [hget, hget', leavesAll_append, leavesAll_append]
    show leavesAll w.cwd (x.leaves (y.leaves g w.cwd) w.cwd) after = _
    rw [← leaves_comm hx hy hxy]
    rfl

/-- What has succeeded has done so on some state of the tree. -/
theorem exists_error?_eq_none {z : Request} {p : Path} (h : w.IsLinkFree)
    (hp : ∀ r ∈ rs, r.dir.IsPlain) (hz : (z, .ok p) ∈ (writeAll rs w).1) :
    z.dir.IsPlain ∧ ∃ g, z.error? g w.cwd = none := by
  obtain ⟨before, after, hlog⟩ := List.append_of_mem hz
  rw [(writeAll_eq h hp).1] at hlog
  obtain ⟨g, -, hmem, -, hresult, -⟩ := log_eq_append h.cwd hlog
  exact ⟨hp z hmem, g, (result_eq_ok_iff.mp hresult.symm).1⟩

/-- The last request that succeeds at a place decides what is there. -/
theorem get?_of_last {x : Request} {p : Path}
    {before after : List Record} (h : w.IsLinkFree)
    (hp : ∀ r ∈ rs, r.dir.IsPlain) (hlog : (writeAll rs w).1 = before ++ (x, .ok p) :: after)
    (hlast : ∀ y q, (y, .ok q) ∈ after → x.place w.cwd ≠ y.place w.cwd) :
    (writeAll rs w).2.tree.get? (x.place w.cwd) = some (.file x.bytes) := by
  obtain ⟨hall, hget, -⟩ := writeAll_eq h hp
  rw [hall] at hlog
  obtain ⟨g, rs', -, hcwd, hresult, rfl, hleaves⟩ := log_eq_append h.cwd hlog
  rw [hget, hleaves]
  refine leavesAll_of_file (leaves_cwd hcwd) ?_ hlast
  rw [leaves_of_none (result_eq_ok_iff.mp hresult.symm).1, if_pos rfl]

/-- **Independent writes commute, and the last write to a target wins.** Requests that follow each
other and are independent may be swapped: each returns what it returned before, as do all others,
and the tree holds the same in the end. And whatever path a successful write has returned leads to
a file in the end, which holds what the last successful write to it has put there. -/
theorem writeAll_commutes_and_last_wins (h : w.IsLinkFree) (hp : ∀ r ∈ rs, r.dir.IsPlain) :
    (∀ (before : List Request) (x y : Request) (after : List Request),
      rs = before ++ x :: y :: after → x.Independent y →
      ∃ (a b : Except WriteError Path) (rest : List Record),
        (writeAll rs w).1 = (writeAll before w).1 ++ (x, a) :: (y, b) :: rest ∧
        (writeAll (before ++ y :: x :: after) w).1
          = (writeAll before w).1 ++ (y, b) :: (x, a) :: rest ∧
        ∀ l : Location, (writeAll (before ++ y :: x :: after) w).2.tree.get? l
          = (writeAll rs w).2.tree.get? l) ∧
    ∀ (before : List Record) (x : Request) (p : Path) (after : List Record),
      (writeAll rs w).1 = before ++ (x, .ok p) :: after →
      (∀ (y : Request) (q : Path), (y, .ok q) ∈ after →
        y.target.components ≠ x.target.components) →
      ∀ (z : Request) (q : Path), (z, .ok q) ∈ (writeAll rs w).1 →
        z.target.components = x.target.components →
        (writeAll rs w).2.tree.entryAt? w.cwd z.target = some (.file x.bytes) := by
  refine ⟨?_, ?_⟩
  · rintro before x y after rfl hxy
    obtain ⟨a, b, rest, hlog, hlog', hget⟩ := writeAll_swap h hp hxy
    exact ⟨a, b, rest, hlog, hlog', congrFun hget⟩
  · intro before x p after hlog hlast z q hz hsame
    have hx : (x, .ok p) ∈ (writeAll rs w).1 := by rw [hlog]; simp
    obtain ⟨hxplain, gx, hxerror⟩ := exists_error?_eq_none h hp hx
    obtain ⟨hzplain, gz, hzerror⟩ := exists_error?_eq_none h hp hz
    have hxname := slash_of_premature? (error?_eq_none_iff.mp hxerror).1
    have hzname := slash_of_premature? (error?_eq_none_iff.mp hzerror).1
    have hfile := get?_of_last h hp hlog fun y q hy hplace => by
      have hmem : (y, .ok q) ∈ (writeAll rs w).1 := by rw [hlog]; simp [hy]
      obtain ⟨hyplain, gy, hyerror⟩ := exists_error?_eq_none h hp hmem
      have hyname := slash_of_premature? (error?_eq_none_iff.mp hyerror).1
      exact hlast y q hy ((place_eq_iff hxplain hyplain hxname hyname).mp hplace).symm
    rw [← (place_eq_iff hzplain hxplain hzname hxname).mpr hsame] at hfile
    have hfits := fits_target_of_error? hzplain hzerror
    have hsteps : z.target.steps = z.dir.steps ++ [protoFileName z.name] := steps_target hzname
    refine (entryAt?_eq_some_iff (writeAll_eq h hp).2.2.noLinks hfits.toIsPlain).mpr
      ⟨text_ne_empty_of_steps hfits.toIsPlain hsteps, hfits, ?_, fun hslash => ?_⟩
    · rw [hsteps, ← List.append_assoc]
      exact hfile
    · cases (endsInSlash_target hzname).symm.trans hslash

/-- A new file, one that is written in place of it under another spelling of its path, and between
them a file in a directory around it, which is missing at first. -/
theorem writeAll_commutes_and_last_wins_new_directories :
    let w : World := {}
    let x : Request := ⟨.atomic, "a", ⟨"out//gen"⟩, [0x61]⟩
    let y : Request := ⟨.truncate, "b", ⟨"out"⟩, [0x62]⟩
    let z : Request := ⟨.truncate, "a.proto", ⟨"out/gen/"⟩, [0x63]⟩
    (writeAll [x, y, z] w).1
        = [(x, .ok ⟨"out//gen/a.proto"⟩), (y, .ok ⟨"out/b.proto"⟩), (z, .ok ⟨"out/gen/a.proto"⟩)] ∧
      (writeAll [y, x, z] w).1
        = [(y, .ok ⟨"out/b.proto"⟩), (x, .ok ⟨"out//gen/a.proto"⟩), (z, .ok ⟨"out/gen/a.proto"⟩)] ∧
      (∀ l, (writeAll [y, x, z] w).2.tree.get? l = (writeAll [x, y, z] w).2.tree.get? l) ∧
      (writeAll [x, y, z] w).2.tree.entryAt? w.cwd ⟨"out//gen/a.proto"⟩ = some (.file [0x63]) := by
  intro w x y z
  have h : w.IsLinkFree := ⟨noLinks_default, by decide⟩
  have hp : ∀ r ∈ [x, y, z], r.dir.IsPlain := by decide
  have hxy : x.Independent y := ⟨by decide, by decide, by decide⟩
  have hlog : (writeAll [x, y, z] w).1 = [(x, .ok ⟨"out//gen/a.proto"⟩),
      (y, .ok ⟨"out/b.proto"⟩), (z, .ok ⟨"out/gen/a.proto"⟩)] := by
    rw [(writeAll_eq h hp).1]
    decide
  have hx : (x, .ok ⟨"out//gen/a.proto"⟩) ∈ (writeAll [x, y, z] w).1 := by
    rw [hlog]
    exact List.mem_cons_self
  have htarget : x.target = ⟨"out//gen/a.proto"⟩ := by decide
  have hsame : x.target.components = z.target.components := by decide
  obtain ⟨hswap, hlast⟩ := writeAll_commutes_and_last_wins h hp
  obtain ⟨a, b, rest, hfirst, hsecond, hget⟩ := hswap [] x y [z] rfl hxy
  simp only [writeAll_nil, List.nil_append] at hfirst hsecond hget
  have hfile := hlast [_, _] z _ [] hlog nofun x _ hx hsame
  rw [htarget] at hfile
  cases hlog.symm.trans hfirst
  exact ⟨hlog, hsecond, hget, hfile⟩

end World

end ProtoScribe
