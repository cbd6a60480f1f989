import ProtoScribe.Proofs.Command.Mirrors

/-!
# What hears fewer events does the same

A host that keeps events below a verbosity to itself does in every other respect what the host does.
Runs over both end alike, in worlds with the same files; what has been reported to one of them are
the events of the other that matter at the verbosity (`start_eq`).

The same comparison of a host with itself tells which levels the stages of a command report at:
everything below the command itself tells details only.
-/

namespace ProtoScribe

open Command

theorem Event.reported_append (verbosity : Nat) (es fs : List Event) :
    Event.reported verbosity (es ++ fs)
      = Event.reported verbosity es ++ Event.reported verbosity fs :=
  List.filter_append ..

/-- The events of a level, in order. -/
def Event.ofLevel (level : Level) (events : List Event) : List Event :=
  events.filter (·.level = level)

/-- Two worlds with the same files, and events that are related. -/
structure World.Alike (E : List Event → List Event → Prop) (w v : World) : Prop where
  tree : w.tree = v.tree
  cwd : w.cwd = v.cwd
  events : E w.events v.events

namespace World

variable {α : Type} {E : List Event → List Event → Prop} {tells : Level → Prop} {w v : World}

theorem Alike.eq (h : w.Alike E v) : w = { v with events := w.events } := by
  obtain ⟨tree, cwd, es⟩ := w
  obtain ⟨rfl, rfl, -⟩ := h
  rfl

/-- What asks about files alone has one answer. -/
theorem Alike.answer {f : World → α} (hf : ∀ (w : World) es, f { w with events := es } = f w)
    (h : w.Alike E v) :
    Mirrors (Alike E) (fun w => (f w, w) : StateM World α) w (fun w => (f w, w)) v := by
  refine ⟨?_, h⟩
  rw [h.eq]
  exact hf v w.events

/-- What changes files alone changes them alike. -/
theorem Alike.change {f : World → Except Errno (α × FileTree)}
    (hf : ∀ (w : World) es, f { w with events := es } = f w) (h : w.Alike E v) :
    Mirrors (Alike E) (World.change f) w (World.change f) v := by
  have hfiles : f w = f v := by
    rw [h.eq]
    exact hf v w.events
  cases hv : f v with
  | ok made =>
    rw [Mirrors, change_of_ok (hfiles.trans hv), change_of_ok hv]
    exact ⟨rfl, rfl, h.cwd, h.events⟩
  | error e =>
    rw [Mirrors, change_of_error (hfiles.trans hv), change_of_error hv]
    exact ⟨rfl, h⟩

variable (verbosity : Nat)
  (hE : ∀ e es fs, tells e.level → E es fs → E (es ++ Event.reported verbosity [e]) (fs ++ [e]))

include hE

/-- What is reported to a listening host is what matters of it. -/
theorem Alike.report {e : Event} (he : tells e.level) (h : w.Alike E v) :
    Mirrors (Alike E) ((host.listening verbosity).report e) w (host.report e) v := by
  have hevents := hE e _ _ he h.events
  show Mirrors (Alike E) (if e.level.isReported verbosity then host.report e else pure ()) w
    (host.report e) v
  by_cases hlevel : e.level.isReported verbosity
  · have hone : Event.reported verbosity [e] = [e] := by simp [Event.reported, hlevel]
    rw [hone] at hevents
    rw [if_pos hlevel]
    exact ⟨rfl, h.tree, h.cwd, hevents⟩
  · have hnone : Event.reported verbosity [e] = [] := by simp [Event.reported, hlevel]
    rw [hnone, List.append_nil] at hevents
    rw [if_neg hlevel]
    exact ⟨rfl, h.tree, h.cwd, hevents⟩

/-- A listening host answers what the host answers. -/
theorem mirrorsReads_listening :
    (host.listening verbosity).MirrorsReads (Alike E) (fun _ => True) tells host where
  workingDirectory h := h.answer (f := fun w => w.cwd.path) fun _ _ => rfl
  isFile _ h := h.answer fun _ _ => rfl
  readBytes _ h := h.answer fun _ _ => rfl
  report _ _ _ he h := h.report verbosity hE he

/-- A listening host does to files what the host does. -/
theorem mirrorsWrites_listening :
    (host.listening verbosity).MirrorsWrites (Alike E) (Alike E) (fun _ => True) (fun _ => True)
      tells host where
  weaken h := h
  isDirectory _ h := h.answer fun _ _ => rfl
  leads _ h := h.answer fun _ _ => rfl
  makeDirectory _ h := h.change fun _ _ => rfl
  create _ h := ⟨h.change fun _ _ => rfl, fun _ _ => trivial⟩
  createTemporary _ h := ⟨h.change fun _ _ => rfl, fun _ _ => trivial⟩
  append _ h := h.change fun _ _ => rfl
  flush _ h := .pure _ h
  sync _ h := h.answer fun _ _ => rfl
  rename _ _ h := h.change fun _ _ => rfl
  discard {f} _ _ _ h := ⟨rfl, congrArg (·.remove f.dir f.name) h.tree, h.cwd, h.events⟩
  report _ _ _ he h := h.report verbosity hE he
  conclude _ _ _ he h := h.report verbosity hE he

end World

/-! ## Commands -/

section Commands

open World

variable {w v : World} {i : Invocation}

/-- The events of a world are those of another that matter at a verbosity. -/
def World.Overhears (verbosity : Nat) : World → World → Prop :=
  Alike fun es fs => es = Event.reported verbosity fs

theorem overhears_report (verbosity : Nat) (e : Event) (es fs : List Event)
    (h : es = Event.reported verbosity fs) :
    es ++ Event.reported verbosity [e] = Event.reported verbosity (fs ++ [e]) := by
  rw [h, Event.reported_append]

/-- A command does the same whoever listens. -/
theorem mirrors_invoke_listening (verbosity : Nat) (i : Invocation) (h : w.Overhears verbosity v) :
    Mirrors (Overhears verbosity) (invoke (host.listening verbosity) i) w (invoke host i) v := by
  have reads : (host.listening verbosity).MirrorsReads (Overhears verbosity) (fun _ => True)
      (fun _ => True) host :=
    mirrorsReads_listening verbosity fun e es fs _ => overhears_report verbosity e es fs
  have writes : (host.listening verbosity).MirrorsWrites (Overhears verbosity) (Overhears verbosity)
      (fun _ => True) (fun _ => True) (fun _ => True) host :=
    mirrorsWrites_listening verbosity fun e es fs _ => overhears_report verbosity e es fs
  refine mirrors_invoke (reads.readInputs trivial ?_ ?_ trivial h) (fun inputs w' v' _ h => ?_) id
    fun f _ _ h => writes.conclude _ trivial h
  · exact fun _ _ => trivial
  · exact fun _ _ => trivial
  · exact writes.act trivial trivial (fun _ _ _ _ _ _ => ⟨fun _ _ => trivial, trivial⟩) h

/-- A program that is started does what its command does, and what matters of the events has been
reported. -/
theorem start_eq {words : List String} (hwords : Request.ofWords words = .run i) (tree : FileTree)
    (cwd : Location) :
    (start host words { tree, cwd }).1 = (invoke host i { tree, cwd }).1 ∧
      (start host words { tree, cwd }).2.tree = (invoke host i { tree, cwd }).2.tree ∧
      (start host words { tree, cwd }).2.events
        = Event.reported i.verbosity (invoke host i { tree, cwd }).2.events := by
  have hstart : start host words = invoke (host.listening i.verbosity) i := by
    simp only [start, run, hwords, respond, Request.verbosity]
  have hsame : World.Overhears i.verbosity { tree, cwd } { tree, cwd } := ⟨rfl, rfl, rfl⟩
  obtain ⟨houtcome, htree, -, hevents⟩ := mirrors_invoke_listening i.verbosity i hsame
  rw [hstart]
  exact ⟨houtcome, htree, hevents⟩

end Commands

/-! ## Kinds of events -/

/-- Events that are those of before and some of a kind behind them. -/
def Adds (kind : Event → Prop) (before after : List Event) : Prop :=
  ∃ new, after = before ++ new ∧ ∀ e ∈ new, kind e

namespace Adds

variable {kind : Event → Prop} {before during after : List Event}

theorem refl (kind : Event → Prop) (before : List Event) : Adds kind before before :=
  ⟨[], by simp, by simp⟩

theorem trans (h : Adds kind before during) (h' : Adds kind during after) :
    Adds kind before after := by
  obtain ⟨new, rfl, hnew⟩ := h
  obtain ⟨new', rfl, hnew'⟩ := h'
  exact ⟨new ++ new', List.append_assoc .., List.forall_mem_append.mpr ⟨hnew, hnew'⟩⟩

theorem report (h : Adds kind before after) {e : Event} (he : kind e) :
    Adds kind before (after ++ [e]) :=
  h.trans ⟨[e], rfl, by simpa using he⟩

/-- What follows a step that has not failed adds to what that has added. -/
theorem bind {α β ε : Type} {x : ExceptT ε (StateM World) α} {f : α → ExceptT ε (StateM World) β}
    {w : World} (hx : Adds kind w.events (x w).2.events)
    (hf : ∀ a w', Adds kind w'.events (f a w').2.events) :
    Adds kind w.events ((x >>= f) w).2.events := by
  cases hrun : x w with
  | mk outcome w' =>
    rw [hrun] at hx
    cases outcome with
    | error e =>
      rw [bind_of_error hrun]
      exact hx
    | ok a =>
      rw [bind_of_ok hrun]
      exact hx.trans (hf a w')

end Adds

/-! ## Details -/

/-- Events that are those of before and details behind them. -/
def Quietly (before after : List Event) : Prop :=
  ∃ quiet, after = before ++ quiet ∧ ∀ e ∈ quiet, e.level = .debug

namespace Quietly

variable {before during after : List Event}

theorem refl (before : List Event) : Quietly before before := Adds.refl _ before

theorem trans (h : Quietly before during) (h' : Quietly during after) : Quietly before after :=
  Adds.trans h h'

theorem report (h : Quietly before after) {e : Event} (he : e.level = .debug) :
    Quietly before (after ++ [e]) :=
  Adds.report h he

/-- Details are of no level but their own. -/
theorem ofLevel_reported_eq_nil (h : Quietly [] during) (level : Level) (hlevel : level ≠ .debug)
    (verbosity : Nat) : Event.ofLevel level (Event.reported verbosity during) = [] := by
  obtain ⟨quiet, rfl, hquiet⟩ := h
  refine List.filter_eq_nil_iff.mpr fun e he => ?_
  have hdebug := hquiet e (by simpa using List.mem_of_mem_filter he)
  simpa [hdebug] using hlevel.symm

/-- So what is said of another level is said behind them. -/
theorem ofLevel_reported (h : Quietly [] during) (level : Level) (hlevel : level ≠ .debug)
    (verbosity : Nat) (last : List Event) :
    Event.ofLevel level (Event.reported verbosity (during ++ last))
      = Event.ofLevel level (Event.reported verbosity last) := by
  rw [Event.reported_append, Event.ofLevel, List.filter_append]
  exact (congrArg (· ++ _) (h.ofLevel_reported_eq_nil level hlevel verbosity)).trans
    (List.nil_append _)

end Quietly

section Details

open World

variable {w : World} {before : List Event}

/-- A world that has only heard details since. -/
def World.Calm (before : List Event) : World → World → Prop := Alike fun _ fs => Quietly before fs

theorem calm_report (before : List Event) (e : Event) (_ fs : List Event) (he : e.level = .debug)
    (h : Quietly before fs) : Quietly before (fs ++ [e]) := h.report he

theorem World.Calm.self (h : Quietly before w.events) : w.Calm before w := ⟨rfl, rfl, h⟩

theorem mirrorsReads_calm (before : List Event) :
    (host.listening 0).MirrorsReads (Calm before) (fun _ => True) (· = .debug) host :=
  mirrorsReads_listening 0 (calm_report before)

theorem mirrorsWrites_calm (before : List Event) :
    (host.listening 0).MirrorsWrites (Calm before) (Calm before) (fun _ => True) (fun _ => True)
      (· = .debug) host :=
  mirrorsWrites_listening 0 (calm_report before)

theorem quietly_readInputs (i : Invocation) (w : World) :
    Quietly w.events ((readInputs host i).run w).2.events :=
  ((mirrorsReads_calm w.events).readInputs rfl (fun _ _ => trivial) (fun _ _ => trivial) trivial
    (.self (.refl _))).2.events

theorem quietly_render (g : Generator) (s : Schema) (w : World) :
    Quietly w.events (host.render g s w).2.events :=
  ((mirrorsWrites_calm w.events).render rfl g s (.self (.refl _))).2.events

/-- Up to its last report a write tells details only. -/
theorem quietly_persist (mode : WriteMode) (fileName : String) (dir target : Path)
    (bytes : List UInt8) (w : World) :
    Quietly w.events ((host.persist mode fileName dir target bytes).run w).2.events :=
  ((mirrorsWrites_calm w.events).persist rfl mode fileName (fun _ _ => trivial) trivial
    (.self (.refl _))).2.events

end Details

end ProtoScribe
