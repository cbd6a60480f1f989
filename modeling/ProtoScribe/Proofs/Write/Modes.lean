import ProtoScribe.Proofs.Write.Ends

/-!
# Either mode will do

A write in place and a write beside the target have the same outcome, in any tree that may hold
links: both put the content at the target and return its path, or both fail, and then they leave the
same tree (`writeBytes_modes`). They may fail at different steps. A name that is too long or has a NUL
is not opened in place, and is only found when the new file is renamed to it.

Name, content and directory are the same for both, so only the last step has to be compared, from
what the directory's has left. What the directory has to offer there does not depend on the mode
(`Admits.of_mode`), as long as neither a link nor a device has the target's place and the new file's
path is short enough.
-/

namespace ProtoScribe.World

open FileTree ProtoScribe.Path

variable {w : World} {name : String} {dir : Path} {bytes : List UInt8}

/-- What is there when the file is written: the directory has been made, as far as that goes. -/
def prepared (w : World) (dir : Path) : World := (host.ensureDirectory dir w).2

/-- A write whose mode makes no difference. Storage keeps the file that is written; what the target's
path leads to is the target's place; and the path of the new file keeps the limit of the system. -/
structure SuitsBothModes (w : World) (name : String) (dir : Path) : Prop where
  temporary : (temporaryPath w.cwd dir (temporaryName 0)).text.utf8ByteSize < pathLimit
  noLink : ∀ d, (w.prepared dir).tree.Leads w.cwd dir d → ∀ target,
    (w.prepared dir).tree.get? (d ++ [protoFileName name]) ≠ some (.link target)
  noDevice : ∀ d, (w.prepared dir).tree.Leads w.cwd dir d → ∀ full,
    (w.prepared dir).tree.get? (d ++ [protoFileName name]) ≠ some (.device full)

/-! ## The file -/

/-- What one mode finds in the directory the other finds as well. -/
theorem Admits.of_mode {mode mode' : WriteMode} {d : Location} {s : String}
    (h : w.Admits mode dir d s)
    (htemporary : (temporaryPath w.cwd dir (temporaryName 0)).text.utf8ByteSize < pathLimit)
    (hdevice : ∀ full, w.tree.get? (d ++ [s]) ≠ some (.device full)) :
    w.Admits mode' dir d s where
  name := h.name
  path := h.path
  place := h.place
  noDevice _ := hdevice
  temporary _ := htemporary

/-- The file is written in both modes, which leave the same, or in none, and nothing changes. -/
theorem writeFile_modes (hname : '/' ∉ name.toList)
    (htemporary : (temporaryPath w.cwd dir (temporaryName 0)).text.utf8ByteSize < pathLimit)
    (hlink : ∀ d, w.tree.Leads w.cwd dir d → ∀ target,
      w.tree.get? (d ++ [protoFileName name]) ≠ some (.link target))
    (hdevice : ∀ d, w.tree.Leads w.cwd dir d → ∀ full,
      w.tree.get? (d ++ [protoFileName name]) ≠ some (.device full))
    (hleads : dir.text ≠ "" → ∃ d, w.tree.Leads w.cwd dir d) (bytes : List UInt8) :
    (∃ w', ∀ mode, host.writeFile mode dir (dir.join ⟨protoFileName name⟩) bytes w = (.ok (), w')) ∨
      ∀ mode, ∃ e,
        host.writeFile mode dir (dir.join ⟨protoFileName name⟩) bytes w = (.error e, w) := by
  by_cases hok : ∃ mode w',
      host.writeFile mode dir (dir.join ⟨protoFileName name⟩) bytes w = (.ok (), w')
  · -- One mode has written the file, so the directory admits it to the other mode too.
    obtain ⟨mode, w', hrun⟩ := hok
    obtain ⟨d, hd⟩ := exists_leads_of_writeFile hname hleads hrun
    have hadmits := admits_of_writeFile hd hname (hlink d hd) hrun
    refine .inl ⟨{ w with tree := w.tree.put d (protoFileName name) (.file bytes) }, ?_⟩
    intro mode'
    exact writeFile_of_admits hd hname (hlink d hd) (hadmits.of_mode htemporary (hdevice d hd)) bytes
  · refine .inr fun mode => ?_
    cases hrun : host.writeFile mode dir (dir.join ⟨protoFileName name⟩) bytes w with
    | mk outcome w' =>
      cases outcome with
      | ok => exact absurd ⟨mode, w', hrun⟩ hok
      | error e =>
        obtain rfl := writeFile_of_error hname hrun
        exact ⟨e, rfl⟩

/-! ## The whole write -/

/-- Both modes pass the checks and steps of a write, or both stop and leave the same. -/
theorem persist_modes (h : w.SuitsBothModes name dir) (bytes : List UInt8) :
    ∃ w', (∀ mode, host.persist mode (protoFileName name) dir (dir.join ⟨protoFileName name⟩) bytes w
        = (.ok (), w')) ∨
      ∀ mode, ∃ e, host.persist mode (protoFileName name) dir (dir.join ⟨protoFileName name⟩) bytes w
        = (.error e, w') := by
  by_cases hname : '/' ∈ name.toList
  · have hf := not_isFileName_of_slash hname
    exact ⟨w, .inr fun mode => ⟨_, persist_of_not_fileName _ hf⟩⟩
  have hf := isFileName_protoFileName_iff.mpr hname
  cases hdecode : Utf8.decode bytes with
  | error fault => exact ⟨w, .inr fun mode => ⟨_, persist_of_not_text _ hf hdecode⟩⟩
  | ok text =>
    have hpersist (mode : WriteMode) : host.persist mode (protoFileName name) dir
        (dir.join ⟨protoFileName name⟩) bytes w = (host.ensureDirectory dir >>= fun _ =>
          host.writeFile mode dir (dir.join ⟨protoFileName name⟩) bytes) w :=
      persist_of_text _ hf hdecode
    rcases (ends_ensureDirectory w dir).cases with
      ⟨_, w₁, hrun, hgrows, hleads⟩ | ⟨e, w₁, hrun, -⟩
    · obtain ⟨htemporary, hlink, hdevice⟩ := h
      simp only [prepared, hrun] at hlink hdevice
      rw [← hgrows.cwd] at htemporary hlink hdevice hleads
      rcases writeFile_modes hname htemporary hlink hdevice hleads bytes with ⟨w', hok⟩ | herror
      · refine ⟨w', .inl fun mode => ?_⟩
        rw [hpersist, bind_of_ok hrun, hok]
      · refine ⟨w₁, .inr fun mode => ?_⟩
        obtain ⟨e, he⟩ := herror mode
        exact ⟨e, by rw [hpersist, bind_of_ok hrun, he]⟩
    · refine ⟨w₁, .inr fun mode => ⟨e, ?_⟩⟩
      rw [hpersist]
      exact bind_of_error hrun

/-- **The modes are interchangeable.** From the same tree, both modes return the target's path, or
both fail; and whichever it is, they leave the same tree. -/
theorem writeBytes_modes (h : w.SuitsBothModes name dir) (bytes : List UInt8) :
    ((∀ mode, (host.writeBytes mode name dir bytes w).1 = .ok (dir.join ⟨protoFileName name⟩)) ∨
      ∀ mode, ∃ e, (host.writeBytes mode name dir bytes w).1 = .error e) ∧
    (host.writeBytes .truncate name dir bytes w).2.tree
      = (host.writeBytes .atomic name dir bytes w).2.tree := by
  obtain ⟨w', hok | herror⟩ := persist_modes h bytes
  · refine ⟨.inl fun mode => (writeBytes_of_ok (hok mode)).1, ?_⟩
    rw [(writeBytes_of_ok (hok .truncate)).2, (writeBytes_of_ok (hok .atomic)).2]
  · refine ⟨.inr fun mode => ?_, ?_⟩
    · obtain ⟨e, he⟩ := herror mode
      exact ⟨e, (writeBytes_of_error he).1⟩
    · obtain ⟨e, he⟩ := herror .truncate
      obtain ⟨e', he'⟩ := herror .atomic
      rw [(writeBytes_of_error he).2, (writeBytes_of_error he').2]

/-! ## A directory behind a link -/

/-- A directory with a file in it, and a link that leads to it. -/
def linkedWay : World where
  tree := (((default : FileTree).put [] "real" .directory).put ["real"] "a.proto"
    (.file [0x6F])).put [] "way" (.link ⟨"./real"⟩)

theorem leads_linkedWay : linkedWay.tree.Leads linkedWay.cwd ⟨"way/."⟩ ["real"] where
  follow := by
    rw [if_neg (by decide)]
    have hreal : linkedWay.tree.Walks 39 [] [".", "real", "."] 39 ["real"] := by
      refine .idle (by decide) (.inr rfl) ?_
      refine .enter (e := .directory) (by decide) ⟨by decide, by decide⟩ (by decide) nofun ?_
      exact .idle (by decide) (.inr rfl) .done
    have hwalks : linkedWay.tree.Walks linkLimit [] ["way", "."] 39 ["real"] :=
      .link (by decide) ⟨by decide, by decide⟩
        (show linkedWay.tree.get? ["way"] = some (.link ⟨"./real"⟩) by decide) hreal
    exact follow_eq_ok_iff.mpr ⟨by decide, by decide, hwalks.walk_eq⟩
  directory := by decide

/-- Through the link and a dot, either mode replaces the file. -/
theorem writeBytes_modes_linkedWay :
    linkedWay.SuitsBothModes "a" ⟨"way/."⟩ ∧
      (∀ mode, (host.writeBytes mode "a" ⟨"way/."⟩ [0x6E] linkedWay).1 = .ok ⟨"way/./a.proto"⟩) ∧
      (host.writeBytes .truncate "a" ⟨"way/."⟩ [0x6E] linkedWay).2.tree
        = (host.writeBytes .atomic "a" ⟨"way/."⟩ [0x6E] linkedWay).2.tree := by
  obtain ⟨w', hrun, hcwd, htree⟩ := ensureDirectory_of_leads leads_linkedWay
  have hprepared : (linkedWay.prepared ⟨"way/."⟩).tree = linkedWay.tree := by
    rw [prepared, hrun, htree]
  have hfile : linkedWay.tree.get? (["real"] ++ [protoFileName "a"]) = some (.file [0x6F]) := by
    decide
  have hlink (target : Path) :
      linkedWay.tree.get? (["real"] ++ [protoFileName "a"]) ≠ some (.link target) := by
    rw [hfile]
    exact nofun
  have hdevice (full : Bool) :
      linkedWay.tree.get? (["real"] ++ [protoFileName "a"]) ≠ some (.device full) := by
    rw [hfile]
    exact nofun
  have hsuits : linkedWay.SuitsBothModes "a" ⟨"way/."⟩ := by
    refine ⟨by decide, fun d hd => ?_, fun d hd => ?_⟩ <;> rw [hprepared] at hd ⊢ <;>
      rw [hd.unique leads_linkedWay]
    · exact hlink
    · exact hdevice
  have hadmits : linkedWay.Admits .truncate ⟨"way/."⟩ ["real"] (protoFileName "a") :=
    ⟨by decide, by decide, by decide, fun _ => hdevice, nofun⟩
  have hok := (writeText_of_admits (by decide) leads_linkedWay hlink hadmits "n").1
  obtain ⟨hall | herror, hsame⟩ := writeBytes_modes hsuits [0x6E]
  · exact ⟨hsuits, hall, hsame⟩
  · obtain ⟨e, he⟩ := herror .truncate
    cases hok.symm.trans he

end ProtoScribe.World
