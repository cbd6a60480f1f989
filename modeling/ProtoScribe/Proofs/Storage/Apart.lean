import ProtoScribe.Proofs.Storage.Beside
import ProtoScribe.Proofs.Storage.Mirrors

/-!
# Worlds that differ at one place

A host over two worlds that are the same beside a place answers alike as long as the paths do not
pass the place (`mirrorsReads_apart`), and what it does to files leaves worlds that are the same
beside it (`mirrorsWrites_apart`). What has not passed the place before a command does not do so
after it, since commands send walks to no other places; only where a file has been put in place of
another nothing more is known of paths, and none is taken any more.
-/

namespace ProtoScribe

open FileTree

namespace World

variable {w v : World} {place : Location} {clear clear' : Bool → Path → Prop}

/-- Two worlds that are the same beside a place. -/
structure SameBeside (place : Location) (w v : World) : Prop where
  tree : w.tree.SameBeside v.tree place
  cwd : v.cwd = w.cwd
  events : v.events = w.events

/-- Two worlds that are apart at a place only, which some paths do not pass, be it that they are
asked for or that directories are made on their way. -/
structure Apart (place : Location) (clear : Bool → Path → Prop) (w v : World) : Prop where
  tree : w.tree.Apart v.tree place
  cwd : v.cwd = w.cwd
  events : v.events = w.events
  beside : w.cwd.Beside place
  clear : ∀ making p, clear making p → place ∉ w.tree.passed making w.cwd p

namespace Apart

theorem sameBeside (h : w.Apart place clear v) : w.SameBeside place v :=
  ⟨h.tree.get?, h.cwd, h.events⟩

theorem mono (h : w.Apart place clear v) (hclear : ∀ making p, clear' making p → clear making p) :
    w.Apart place clear' v :=
  { h with clear := fun making p hp => h.clear making p (hclear making p hp) }

theorem report (h : w.Apart place clear v) (e : Event) :
    Mirrors (Apart place clear) (host.report e) w (host.report e) v :=
  ⟨rfl, { h with events := congrArg (· ++ [e]) h.events }⟩

/-- A command that has the same outcome on both sides leaves worlds that are apart at the place
only. -/
theorem change {α : Type} {g : FileTree → Location → Except Errno (α × FileTree)}
    (h : w.Apart place clear v) (hsame : SameOutcome place (g w.tree w.cwd) (g v.tree w.cwd))
    (hmono : ∀ making p, clear' making p → clear making p)
    (hclear : ∀ a u, g w.tree w.cwd = .ok (a, u) → ∀ making p, clear' making p →
      place ∉ u.passed making w.cwd p) :
    Mirrors (Apart place clear') (World.change fun w => g w.tree w.cwd) w
      (World.change fun w => g w.tree w.cwd) v := by
  rcases hsame with ⟨e, hw, hv⟩ | ⟨a, u, u', hw, hv, hu⟩
  · rw [← h.cwd] at hv
    rw [Mirrors, change_of_error hw, change_of_error hv]
    exact ⟨rfl, h.mono hmono⟩
  · rw [← h.cwd] at hv
    rw [Mirrors, change_of_ok hw, change_of_ok hv]
    exact ⟨rfl, hu, h.cwd, h.events, h.beside, hclear a u hw⟩

end Apart

/-- What is read by paths that do not pass the place is read alike. -/
theorem mirrorsReads_apart (place : Location) (clear : Bool → Path → Prop) :
    host.MirrorsReads (Apart place clear) (clear false) (fun _ => True) host where
  workingDirectory h := ⟨congrArg Location.path h.cwd.symm, h⟩
  isFile {p w v} hp h := by
    have he := h.tree.entryAt? h.beside (h.clear false p hp)
    refine ⟨?_, h⟩
    rw [Bool.eq_iff_iff, isFile_iff, isFile_iff, h.cwd, he]
  readBytes {p w v} hp h := by
    have hread := h.tree.readBytes h.beside (h.clear false p hp)
    refine ⟨?_, h⟩
    show w.tree.readBytes w.cwd p = v.tree.readBytes v.cwd p
    rw [h.cwd, hread]
  report e _ _ _ h := h.report e

section Writes

variable {writes : Path → Prop}

/-- The paths on whose way directories may be made. -/
def Making (writes : Path → Prop) (making : Bool) (p : Path) : Prop := making ∧ writes p

namespace Apart

/-- Who may make what is missing looks at whatever one looks at who may not. -/
theorem not_passed (h : w.Apart place (Making writes) v) {p : Path} (hp : writes p) :
    place ∉ w.tree.passed false w.cwd p :=
  fun hmem => h.clear true p ⟨rfl, hp⟩ ((narrows_of_not_making true w.tree).passed_subset _ _ hmem)

/-- A command after which walks get no further. -/
theorem change_of_narrows {α : Type} {g : FileTree → Location → Except Errno (α × FileTree)}
    (h : w.Apart place (Making writes) v)
    (hsame : SameOutcome place (g w.tree w.cwd) (g v.tree w.cwd))
    (hnarrows : ∀ a u, g w.tree w.cwd = .ok (a, u) → Narrows true true w.tree u) :
    Mirrors (Apart place (Making writes)) (World.change fun w => g w.tree w.cwd) w
      (World.change fun w => g w.tree w.cwd) v := by
  refine h.change hsame (fun _ _ => id) fun a u hg making p hp hmem => ?_
  obtain ⟨rfl, -⟩ := id hp
  exact h.clear true p hp ((hnarrows a u hg).passed_subset _ _ hmem)

/-- The paths above one that does not pass the place do not pass it either. -/
theorem around (h : w.Apart place clear v) :
    w.Apart place (Making fun q => ∃ p, clear true p ∧ q ∈ p :: p.parents) v := by
  refine { h with clear := ?_ }
  rintro making q ⟨rfl, p, hp, hq⟩ hmem
  refine h.clear true p hp ?_
  rcases List.mem_cons.mp hq with rfl | hq
  · exact hmem
  · exact passed_subset_of_mem_parents hq hmem

end Apart

/-- What is done to files by paths that do not pass the place is done alike. Once a file has been
put in place of another, other paths may pass the place, but no more are taken. -/
theorem mirrorsWrites_apart (place : Location) (writes : Path → Prop) :
    host.MirrorsWrites (Apart place (Making writes)) (Apart place fun _ _ => False) writes
      (fun f => f.location.Beside place) (fun _ => True) host where
  weaken h := h.mono nofun
  isDirectory {p w v} hp h := by
    have he := h.tree.entryAt? h.beside (h.not_passed hp)
    refine ⟨?_, h⟩
    show decide (w.tree.entryAt? w.cwd p = some .directory) = decide (v.tree.entryAt? v.cwd p = _)
    rw [h.cwd, he]
  leads {p w v} hp h := by
    have he := h.tree.entryAt? h.beside (h.not_passed hp)
    refine ⟨?_, h⟩
    show (w.tree.entryAt? w.cwd p).isSome = (v.tree.entryAt? v.cwd p).isSome
    rw [h.cwd, he]
  makeDirectory {p w v} hp h :=
    h.change_of_narrows (g := fun t cwd => do return ((), ← t.makeDirectory cwd p))
      (h.tree.makeDirectory h.beside (h.not_passed hp))
      fun _ _ hok => narrows_of_makeDirectory (of_command_eq_ok hok)
  create {p w v} hp h := by
    obtain ⟨hsame, hbeside⟩ := h.tree.create h.beside (h.not_passed hp)
    refine ⟨h.change_of_narrows (g := fun t cwd => t.create cwd p) hsame
      fun _ _ hok => narrows_of_create hok, fun f hf => ?_⟩
    obtain ⟨u, hu⟩ := exists_of_change_eq_ok hf
    exact hbeside f u hu
  createTemporary {p w v} hp h := by
    obtain ⟨hsame, hbeside⟩ := h.tree.createTemporary h.beside (h.not_passed hp)
    refine ⟨h.change_of_narrows (g := fun t cwd => t.createTemporary cwd p) hsame
      fun _ _ hok => narrows_of_createTemporary hok, fun f hf => ?_⟩
    obtain ⟨u, hu⟩ := exists_of_change_eq_ok hf
    exact hbeside f u hu
  append {f bytes w v} hf h :=
    h.change_of_narrows (g := fun t _ => do return ((), ← t.append f bytes))
      (h.tree.append hf bytes) fun _ _ hok => narrows_of_append (of_command_eq_ok hok)
  flush _ h := .pure _ h
  sync {f w v} hf h := ⟨(h.tree.sync hf).symm, h⟩
  rename {f p w v} hf hp h :=
    h.change (g := fun t cwd => do return ((), ← t.rename cwd f p))
      (h.tree.rename h.beside (h.not_passed hp) hf) nofun nofun
  discard {f w v} hf h := ⟨rfl, h.tree.remove hf, h.cwd, h.events, h.beside, nofun⟩
  report e _ _ _ h := h.report e
  conclude e _ _ _ h := h.report e

end Writes

end World

end ProtoScribe
