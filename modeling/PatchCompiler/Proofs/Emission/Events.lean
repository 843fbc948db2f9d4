import PatchCompiler.Proofs.Emission.Growth

/-! # The events of a run

A run records an event for each form it writes, for each library function it needs for the first
time, and for each array it lays out. So the order in which these things happened can be read off
the events, and the forms and library functions of a module are the ones that were recorded. -/

namespace PatchCompiler

namespace Event

/-- The form that an event writes. -/
def form? : Event → Option Form
  | .form f => some f
  | _ => none

/-- The library function that an event asks for. -/
def snippet? : Event → Option Snippet
  | .included snippet => some snippet
  | _ => none

end Event

namespace State

variable (s : State)

/-! ## Declaring a scope -/

/-- Declaring a binding writes at most a form, and records it. -/
theorem log_declareEntry (entry : Slot × Binding) : ∃ written : List Form,
    (s.declareEntry entry).forms = s.forms ++ written ∧
      (s.declareEntry entry).log = s.log ++ written.map .form := by
  by_cases hself : entry.2.isVariable = true → entry.1 ∈ s.declared
  · rw [declareEntry_eq_self hself]
    exact ⟨[], (List.append_nil _).symm, (List.append_nil _).symm⟩
  · obtain ⟨hvariable, hnew⟩ := Classical.not_imp.1 hself
    rw [declareEntry_eq hvariable hnew]
    simp only
    split
    · exact ⟨[_], rfl, rfl⟩
    · exact ⟨[], (List.append_nil _).symm, (List.append_nil _).symm⟩

/-- Declaring a scope writes forms, and records them. -/
theorem log_declareScope (frame : Frame) : ∃ written : List Form,
    (s.declareScope frame).forms = s.forms ++ written ∧
      (s.declareScope frame).log = s.log ++ written.map .form := by
  rw [declareScope_eq]
  generalize frame.slots = entries
  induction entries generalizing s with
  | nil => exact ⟨[], (List.append_nil _).symm, (List.append_nil _).symm⟩
  | cons entry rest ih =>
    obtain ⟨first, hforms, hlog⟩ := s.log_declareEntry entry
    obtain ⟨others, hforms', hlog'⟩ := ih (s.declareEntry entry)
    refine ⟨first ++ others, ?_, ?_⟩
    · rw [List.foldl_cons, hforms', hforms, List.append_assoc]
    · rw [List.foldl_cons, hlog', hlog, List.map_append, List.append_assoc]

/-- Opening a function records it, and then the forms that its scope writes. -/
theorem log_beginFunction (header : Emit.Header) (params : List (String × ValType)) :
    ∃ written : List Form, (s.beginFunction header params).forms = s.forms ++ written ∧
      (s.beginFunction header params).log
        = s.log ++ .function header.name header.params.length :: written.map .form := by
  unfold beginFunction
  obtain ⟨_, hmarks⟩ := markAll_eq ((s.record
    (.function header.name header.params.length)).takeLocals.2.enter header.frame)
    (header.params.map header.frame.slot)
  simp only [hmarks]
  obtain ⟨written, hforms, hlog⟩ := log_declareScope (recordSignature _ header.name
    (params.map Prod.snd)) header.frame
  -- the event of the function itself comes before the forms of its scope
  refine ⟨written, hforms, hlog.trans ?_⟩
  rw [List.append_cons]
  rfl

/-! ## Events that write no form -/

section Events

variable {α : Type} {f : Event → Option α} (hf : ∀ form, f (.form form) = none)

include hf

/-- Forms contribute nothing to events of another sort. -/
theorem filterMap_forms (written : List Form) : (written.map Event.form).filterMap f = [] := by
  rw [List.filterMap_map]
  exact List.filterMap_eq_nil_iff.2 fun form _ => hf form

/-- Declaring a scope records none of the events that are looked at. -/
theorem events_declareScope (frame : Frame) :
    (s.declareScope frame).log.filterMap f = s.log.filterMap f := by
  obtain ⟨written, _, hlog⟩ := s.log_declareScope frame
  rw [hlog, List.filterMap_append, filterMap_forms hf, List.append_nil]

/-- Beginning a function records none of the events that are looked at, if functions are not. -/
theorem events_beginFunction (hfunction : ∀ name params, f (.function name params) = none)
    (header : Emit.Header) (params : List (String × ValType)) :
    (s.beginFunction header params).log.filterMap f = s.log.filterMap f := by
  obtain ⟨written, _, hlog⟩ := s.log_beginFunction header params
  rw [hlog, List.filterMap_append, List.filterMap_cons, hfunction, filterMap_forms hf,
    List.append_nil]

/-- Ending a function records none of the events that are looked at. -/
theorem events_endFunction (header : Emit.Header) (saved : Locals) (g : Func) :
    (s.endFunction header saved g).log.filterMap f = s.log.filterMap f := by
  show (s.log ++ [Event.form (.func g)]).filterMap f = s.log.filterMap f
  rw [List.filterMap_append, List.filterMap_cons, hf, List.filterMap_nil, List.append_nil]

end Events

/-- Asking for a library function contributes nothing to events of another sort. -/
theorem events_require {α : Type} {f : Event → Option α}
    (hf : ∀ snippet, f (.included snippet) = none) (snippet : Snippet) :
    (s.require snippet).log.filterMap f = s.log.filterMap f := by
  unfold require
  split
  · rfl
  · show (s.log ++ [Event.included snippet]).filterMap f = s.log.filterMap f
    rw [List.filterMap_append, List.filterMap_cons, hf, List.filterMap_nil, List.append_nil]

/-! ## Forms and library functions -/

/-- The forms and the library functions of a state are the ones that were recorded, in order. -/
structure Recorded (s : State) : Prop where
  /-- Forms. -/
  forms : s.forms = s.log.filterMap Event.form?
  /-- Library functions. -/
  includes : s.includes = s.log.filterMap Event.snippet?

namespace Recorded

variable {s}

/-- A state stays recorded when a library function is asked for. -/
theorem require (h : s.Recorded) (snippet : Snippet) : (s.require snippet).Recorded := by
  refine ⟨?_, ?_⟩
  · rw [forms_require, h.forms, events_require s fun _ => rfl]
  · unfold State.require
    split
    · exact h.includes
    · show s.includes ++ [snippet] = (s.log ++ [Event.included snippet]).filterMap Event.snippet?
      rw [h.includes, List.filterMap_append]
      rfl

/-- Forms that are written and recorded, after an event of no account. -/
theorem append {t : State} (h : s.Recorded) (events : List Event) (written : List Form)
    (hforms : t.forms = s.forms ++ written) (hincludes : t.includes = s.includes)
    (hlog : t.log = s.log ++ (events ++ written.map .form))
    (hevents : events.filterMap Event.form? = [] ∧ events.filterMap Event.snippet? = []) :
    t.Recorded := by
  refine ⟨?_, ?_⟩
  · rw [hforms, h.forms, hlog, List.filterMap_append, List.filterMap_append, hevents.1,
      List.filterMap_map]
    exact congrArg _ (List.filterMap_some).symm
  · rw [hincludes, h.includes, hlog, List.filterMap_append, List.filterMap_append, hevents.2,
      filterMap_forms fun _ => rfl, List.append_nil, List.append_nil]

/-- A state stays recorded when a scope is entered and declared. -/
theorem enter (h : s.Recorded) (frame : Frame) :
    ((s.enter frame).declareScope frame).Recorded := by
  obtain ⟨written, hforms, hlog⟩ := (s.enter frame).log_declareScope frame
  exact h.append [] written hforms (by simp [State.enter]) hlog ⟨rfl, rfl⟩

/-- A state stays recorded when a function is begun. -/
theorem beginFunction (h : s.Recorded) (header : Emit.Header) (params : List (String × ValType)) :
    (s.beginFunction header params).Recorded := by
  obtain ⟨written, hforms, hlog⟩ := s.log_beginFunction header params
  exact h.append [.function header.name header.params.length] written hforms (by simp) hlog
    ⟨rfl, rfl⟩

/-- A state stays recorded when a function is ended. -/
theorem endFunction (h : s.Recorded) (header : Emit.Header) (saved : Locals) (f : Func) :
    (s.endFunction header saved f).Recorded :=
  h.append (t := s.endFunction header saved f) [] [.func f] rfl rfl rfl ⟨rfl, rfl⟩

end Recorded

end State

/-- A run records the forms it writes and the library functions it needs. -/
theorem Emits.recorded {s s' : State} {task : Task} {codes : List Code}
    (h : Emits s task codes s') (hs : s.Recorded) : s'.Recorded := by
  induction h with
  | floatLit | intLit | ident | negInt | negFloat | listNil | argsNil | fixed | membersNil =>
    exact hs
  | statements _ ih | sequence _ ih | function _ ih | call _ ih | opposite _ _ _ _ ih
  | difference _ _ _ _ ih | binary _ _ ih | compare _ ih | step _ _ _ ih | compound _ _ _ ih
  | length _ _ ih | assignFunction _ _ ih | assignName _ _ _ _ _ _ ih | operand _ ih
  | computed _ ih | memberInt _ _ ih | memberInts _ ih | memberReserve _ ih => exact ih hs
  -- the array is an event without a form, and is recorded before its members are compiled
  | @array s _ _ layout _ base _ _ _ span _ _ _ _ _ _ ih =>
    exact ih (hs.append [.array span base (.ofNat (Member.total layout))] []
      (List.append_nil _).symm rfl rfl ⟨rfl, rfl⟩)
  | @block s _ _ frame _ _ _ _ _ ih =>
    -- leaving a scope changes neither the forms nor the library functions
    have hblock := ih (hs.enter frame)
    exact ⟨hblock.forms, hblock.includes⟩
  | @definition s _ s₂ header _ _ params _ _ _ _ _ ihfirst ihsecond =>
    exact (ihsecond (ihfirst (hs.beginFunction header params))).endFunction header s.table _
  | clampInt _ _ _ _ ihv ihh ihl => exact ihl (ihh (ihv ((hs.require _).require _)))
  | assignPart _ _ _ _ _ _ ihv ihb ihi ihn => exact ihn (ihi (ihb ((ihv hs).require _)))
  | clampFloat _ _ _ _ ihv ihh ihl => exact ihl (ihh (ihv hs))
  | loop _ _ ihc ihb =>
    have hloop := ihb (ihc ⟨hs.forms, hs.includes⟩)
    exact ⟨hloop.forms, hloop.includes⟩
  | listCons _ _ ihe ihrest | argsFree _ _ ihe ihrest | argsCons _ _ ihe ihrest
  | memberValue _ _ _ ihe ihrest => exact ihrest (ihe hs)
  | pairInt _ _ _ ihl ihr | pairFloat _ _ _ ihl ihr => exact ihr (ihl hs)

end PatchCompiler
