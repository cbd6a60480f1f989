import ProtoScribe.Proofs.Command.Stages
import ProtoScribe.Proofs.Storage.Names
import ProtoScribe.Proofs.Text.Utf8

/-!
# Where the default configuration is

Without a path for it, the configuration is looked for in the working directory. In a tree without
links it is found exactly where that directory has a file of its name, if the path to it is one
that the system takes (`isFile_fallback_iff`). Where it has none, a command needs no more than the
file of its schema (`finds_of_name`).
-/

namespace ProtoScribe

open FileTree

/-- A place whose names are those that directories can have. -/
def Location.IsProper (l : Location) : Prop := ∀ s ∈ l, Path.IsStepName s ∧ '/' ∉ s.toList

theorem Location.steps_path {l : Location} (h : l.IsProper) : l.path.steps = l := by
  rcases eq_or_ne l [] with rfl | hne
  · decide
  have hsegments : l.path.segments = "" :: l := by
    rw [Location.path, show "/" ++ "/".intercalate l = "" ++ "/" ++ "/".intercalate l by simp,
      Path.segments_append, Path.segments_intercalate hne fun s hs => (h s hs).2]
    rfl
  rw [Path.steps, hsegments, List.filter_cons_of_neg (by simp), List.filter_eq_self]
  intro s hs
  simpa using (h s hs).1.nonempty

theorem Location.isAbsolute_path (l : Location) : l.path.isAbsolute = true := by
  simp [Location.path, Path.isAbsolute]

/-! ## The default configuration -/

/-- The place of the default configuration. -/
def Location.defaultConfig (cwd : Location) : Location := cwd ++ [Config.defaultFile.text]

/-- A working directory whose default configuration has a path that the system takes. -/
structure Location.FitsDefault (cwd : Location) : Prop where
  path : (cwd.path.join Config.defaultFile).IsUsable
  names : ∀ s ∈ cwd.defaultConfig, FitsStep s

namespace FileTree

variable {t : FileTree} {cwd : Location} {content : List UInt8} (hcwd : cwd.IsProper)

include hcwd

theorem follow_fallback (hfits : cwd.FitsDefault) {e : Entry}
    (he : t.get? cwd.defaultConfig = some e) (hlink : ∀ target, e ≠ .link target) :
    t.follow cwd (cwd.path.join Config.defaultFile) = .ok cwd.defaultConfig := by
  have hslash : '/' ∉ Config.defaultFile.text.toList := by decide
  refine follow_eq_ok_iff.mpr ⟨?_, hfits.path, ?_⟩
  · intro hempty
    have hsteps := Path.steps_join (p := cwd.path) hslash (by decide)
    rw [show cwd.path.join ⟨Config.defaultFile.text⟩ = ⟨""⟩ by rw [← hempty]] at hsteps
    exact absurd hsteps.symm (by simp [Path.steps, show Path.segments ⟨""⟩ = [""] from rfl])
  · rw [show Config.defaultFile = ⟨Config.defaultFile.text⟩ from rfl, Path.isAbsolute_join hslash,
      cwd.isAbsolute_path, if_pos rfl, Path.walkSteps_join hslash (by decide),
      Location.steps_path hcwd]
    exact walk_of_entry hfits.names he hlink

/-- The path of the default configuration leads nowhere else. -/
theorem of_follow_fallback (hl : t.NoLinks) {l : Location}
    (h : t.follow cwd (cwd.path.join Config.defaultFile) = .ok l) :
    l = cwd.defaultConfig ∧ cwd.FitsDefault := by
  have hslash : '/' ∉ Config.defaultFile.text.toList := by decide
  obtain ⟨-, hu, hwalk⟩ := follow_eq_ok_iff.mp h
  obtain ⟨left, hwalks⟩ := walks_of_walk hwalk
  rw [show Config.defaultFile = ⟨Config.defaultFile.text⟩ from rfl, Path.isAbsolute_join hslash,
    cwd.isAbsolute_path, if_pos rfl, Path.walkSteps_join hslash (by decide),
    Location.steps_path hcwd] at hwalks
  obtain ⟨rfl, hnames⟩ := hwalks.along_names hl <| List.forall_mem_append.mpr
    ⟨fun s hs => (hcwd s hs).1, by decide⟩
  exact ⟨rfl, hu, hnames⟩

end FileTree

namespace World

open ProtoScribe.Command

/-- A schema is loaded from the file of its name. -/
theorem loadSchema_of_name {w : World} {name text : String} {format : Format} {s : Schema}
    (hslash : '/' ∉ name.toList) (hnul : '\x00' ∉ name.toList) (hname : FitsStep name)
    (hformat : Path.format? ⟨name⟩ = some format)
    (hfile : w.tree.get? (w.cwd ++ [name]) = some (.file (Utf8.encode text)))
    (hread : Schema.read format text = .ok s) : (host.loadSchema ⟨name⟩ w).1 = .ok s := by
  rw [hostLoadSchema_apply, hformat, readBytes_of_name hslash hnul hname hfile, textOf,
    Utf8.decode_encode]
  exact hread

variable {w w' : World} (hcwd : w.cwd.IsProper) (hl : w.tree.NoLinks)

include hcwd hl

/-- The default configuration is found where there is a file, and its bytes are read. -/
theorem isFile_fallback_iff : (host.isFile (w.cwd.path.join Config.defaultFile) w).1 = true ↔
    w.cwd.FitsDefault ∧ ∃ content, w.tree.get? w.cwd.defaultConfig = some (.file content) := by
  rw [isFile_iff]
  constructor
  · rintro ⟨content, he⟩
    rw [entryAt?] at he
    cases hf : w.tree.follow w.cwd (w.cwd.path.join Config.defaultFile) with
    | error e =>
      rw [hf] at he
      cases he
    | ok l =>
      obtain ⟨rfl, hfits⟩ := of_follow_fallback hcwd hl hf
      rw [hf] at he
      exact ⟨hfits, content, he⟩
  · rintro ⟨hfits, content, he⟩
    refine ⟨content, ?_⟩
    rw [entryAt?, follow_fallback hcwd hfits he (by simp)]
    exact he

/-- Without such a file there is the empty configuration. -/
theorem discoverConfig_of_noFile
    (hno : ∀ content, w.tree.get? w.cwd.defaultConfig ≠ some (.file content)) :
    host.discoverConfig none w.cwd.path w = (.ok {}, w) := by
  rw [discoverConfig_none, if_neg]
  rw [isFile_fallback_iff hcwd hl]
  rintro ⟨-, content, he⟩
  exact hno content he

/-- Two worlds with the same file there, or with none, have the same configuration. -/
theorem discoverConfig_none_congr (hcwd' : w'.cwd = w.cwd) (hl' : w'.tree.NoLinks)
    (hsame : ∀ content, w'.tree.get? w.cwd.defaultConfig = some (.file content) ↔
      w.tree.get? w.cwd.defaultConfig = some (.file content)) :
    (host.discoverConfig none w'.cwd.path w').1 = (host.discoverConfig none w.cwd.path w).1 := by
  have hproper' : w'.cwd.IsProper := hcwd' ▸ hcwd
  by_cases hfile : w.cwd.FitsDefault ∧
    ∃ content, w.tree.get? w.cwd.defaultConfig = some (.file content)
  · obtain ⟨hfits, content, he⟩ := hfile
    have he' := (hsame content).mpr he
    have hread : w'.tree.readBytes w'.cwd (w'.cwd.path.join Config.defaultFile)
        = w.tree.readBytes w.cwd (w.cwd.path.join Config.defaultFile) := by
      rw [hcwd', readBytes, readBytes, follow_fallback hcwd hfits he (by simp),
        follow_fallback hcwd hfits he' (by simp)]
      simp only [bind, Except.bind, he, he']
    rw [discoverConfig_none, discoverConfig_none,
      if_pos ((isFile_fallback_iff hcwd hl).mpr ⟨hfits, content, he⟩),
      if_pos ((isFile_fallback_iff hproper' hl').mpr (by rw [hcwd']; exact ⟨hfits, content, he'⟩)),
      readConfig_apply, readConfig_apply, hread, hcwd']
  · have hfile' : ¬(w'.cwd.FitsDefault ∧
        ∃ content, w'.tree.get? w'.cwd.defaultConfig = some (.file content)) := by
      rw [hcwd']
      simpa only [hsame] using hfile
    rw [discoverConfig_none, discoverConfig_none, if_neg ((isFile_fallback_iff hcwd hl).not.mpr hfile),
      if_neg ((isFile_fallback_iff hproper' hl').not.mpr hfile')]

/-- A command that is given no configuration finds its schema in the file of that name. -/
theorem finds_of_name {i : Invocation} {name text : String} {format : Format} {s : Schema}
    (hconfig : i.config = none)
    (hno : ∀ content, w.tree.get? w.cwd.defaultConfig ≠ some (.file content))
    (hschema : i.schema = ⟨name⟩) (hslash : '/' ∉ name.toList) (hnul : '\x00' ∉ name.toList)
    (hname : FitsStep name) (hformat : Path.format? ⟨name⟩ = some format)
    (hfile : w.tree.get? (w.cwd ++ [name]) = some (.file (Utf8.encode text)))
    (hread : Schema.read format text = .ok s) : Finds w i {} s where
  config := by rw [hconfig, discoverConfig_of_noFile hcwd hl hno]
  schema := hschema ▸ loadSchema_of_name hslash hnul hname hformat hfile hread

end World

end ProtoScribe
