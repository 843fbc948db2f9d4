import PatchCompiler.Proofs.Emission.Rules

/-! # What a step does to each part of the state

Every update of the state touches a few of its fields and leaves the others alone. The lemmas here
say so field by field; proofs about runs use them in place of the definitions. -/

namespace PatchCompiler

namespace State

variable (s : State)

/-! ## Scopes -/

/-- An event is recorded in the same scopes. -/
@[simp] theorem scopes_record (event : Event) : (s.record event).scopes = s.scopes := rfl

/-- A scope that is entered comes first. -/
@[simp] theorem scopes_enter (frame : Frame) : (s.enter frame).scopes = frame :: s.scopes := rfl

/-- The innermost scope is left. -/
@[simp] theorem scopes_leave : s.leave.scopes = s.scopes.tail := rfl

/-- Noting bindings as declared does nothing else. -/
theorem markAll_eq (slots : List Slot) :
    ∃ declared, s.markAll slots = { s with declared := declared } := by
  unfold markAll
  refine List.foldlRecOn (motive := fun t : State => ∃ declared, t = { s with declared := declared })
    slots _ ⟨s.declared, rfl⟩ ?_
  rintro t ⟨declared, rfl⟩ slot _
  unfold mark
  split
  · exact ⟨declared, rfl⟩
  · exact ⟨slot :: declared, rfl⟩

/-- A mark changes only which slots are declared. -/
theorem mark_eq (slot : Slot) : ∃ declared, s.mark slot = { s with declared := declared } :=
  s.markAll_eq [slot]

/-- Slots are marked in the same scopes. -/
@[simp] theorem scopes_markAll (slots : List Slot) : (s.markAll slots).scopes = s.scopes := by
  obtain ⟨_, h⟩ := s.markAll_eq slots
  rw [h]

/-- A form is written in the same scopes. -/
@[simp] theorem scopes_pushForm (form : Form) : (s.pushForm form).scopes = s.scopes := rfl

/-- A function is written in the same scopes. -/
@[simp] theorem scopes_pushFunction (origin : FuncOrigin) (f : Func) :
    (s.pushFunction origin f).scopes = s.scopes := rfl

/-- The state with other forms, local variables, declared bindings and events. -/
abbrev withDeclarations (forms : List Form) (table : Locals) (declared : List Slot)
    (log : List Event) : State :=
  { s with
    forms := forms, locals := table.declarations, localNames := table.names
    declared := declared, log := log }

/-- Declaring a binding writes a form or adds a local variable. -/
theorem declare_eq (slot : Slot) (binding : Binding) : ∃ forms table declared log,
    s.declare slot binding = s.withDeclarations forms table declared log := by
  by_cases hself : (decide (binding.info.kind = .function) || s.isDeclared slot) = true
  · exact ⟨s.forms, s.table, s.declared, s.log, by rw [declare, if_pos hself]; rfl⟩
  · rw [declare, if_neg hself]
    obtain ⟨declared, hmark⟩ := s.mark_eq slot
    simp only [hmark]
    split
    · exact ⟨_, s.table, _, _, rfl⟩
    · split
      · exact ⟨_, s.table, _, _, rfl⟩
      · exact ⟨_, ⟨_, _⟩, _, _, rfl⟩

/-- Declaring a scope writes forms and adds local variables. -/
theorem declareScope_frame (frame : Frame) : ∃ forms table declared log,
    s.declareScope frame = s.withDeclarations forms table declared log := by
  unfold declareScope
  refine List.foldlRecOn (motive := fun t : State => ∃ forms table declared log,
    t = s.withDeclarations forms table declared log)
    frame.slots _ ⟨s.forms, s.table, s.declared, s.log, rfl⟩ ?_
  rintro t ⟨forms, table, declared, log, rfl⟩ ⟨slot, binding⟩ _
  simp only
  split
  · exact ⟨forms, table, declared, log, rfl⟩
  · obtain ⟨forms, table, declared, log, h⟩ := declare_eq _ slot binding
    exact ⟨forms, table, declared, log, h⟩

/-- A scope is declared in the same scopes. -/
@[simp] theorem scopes_declareScope (frame : Frame) :
    (s.declareScope frame).scopes = s.scopes := by
  obtain ⟨_, _, _, _, h⟩ := s.declareScope_frame frame
  rw [h]

/-- A signature is recorded in the same scopes. -/
@[simp] theorem scopes_recordSignature (name : String) (params : List ValType) :
    (s.recordSignature name params).scopes = s.scopes := rfl

/-- A library function is asked for in the same scopes. -/
@[simp] theorem scopes_require (snippet : Snippet) : (s.require snippet).scopes = s.scopes := by
  unfold require
  split <;> rfl

/-- A loop is entered in the same scopes. -/
@[simp] theorem scopes_enterLoop : s.enterLoop.scopes = s.scopes := rfl

/-- A loop is left in the same scopes. -/
@[simp] theorem scopes_exitLoop : s.exitLoop.scopes = s.scopes := rfl

/-- Beginning a function opens its scope and notes its signature, and then declares the scope. -/
theorem beginFunction_frame (header : Emit.Header) (params : List (String × ValType)) :
    ∃ forms table declared log, s.beginFunction header params =
      { s with
        scopes := header.frame :: s.scopes
        signatures := (header.name, params.map Prod.snd) :: s.signatures }.withDeclarations
          forms table declared log := by
  unfold beginFunction
  obtain ⟨marked, hmarks⟩ := markAll_eq ((s.record
    (.function header.name header.params.length)).takeLocals.2.enter header.frame)
    (header.params.map header.frame.slot)
  simp only [hmarks]
  obtain ⟨forms, table, declared, log, h⟩ := declareScope_frame _ header.frame
  exact ⟨forms, table, declared, log, h⟩

/-- The scope of a function comes first once the function is begun. -/
@[simp] theorem scopes_beginFunction (header : Emit.Header) (params : List (String × ValType)) :
    (s.beginFunction header params).scopes = header.frame :: s.scopes := by
  obtain ⟨_, _, _, _, h⟩ := s.beginFunction_frame header params
  rw [h]

/-- The scope of a function is left once the function is ended. -/
@[simp] theorem scopes_endFunction (header : Emit.Header) (saved : Locals) (f : Func) :
    (s.endFunction header saved f).scopes = s.scopes.tail := rfl

end State

/-! ## Names -/

/-- What names stand for is decided by the scopes. -/
theorem State.env_eq_of_scopes {s t : State} (h : s.scopes = t.scopes) : s.env = t.env := by
  funext name
  show s.scopes.findSome? _ = t.scopes.findSome? _
  rw [h]

/-- Names stand for the same variables when a library function is asked for. -/
@[simp] theorem State.env_require (s : State) (snippet : Snippet) :
    (s.require snippet).env = s.env :=
  env_eq_of_scopes (s.scopes_require snippet)

/-- Inside a scope, its own bindings come before those outside. -/
theorem State.env_of_scopes_cons {s t : State} {frame : Frame}
    (h : t.scopes = frame :: s.scopes) : t.env = s.env.enter frame := by
  funext name
  show t.scopes.findSome? _ = _
  rw [h, List.findSome?_cons]
  unfold Env.enter
  cases frame.find? name <;> rfl

/-- A task leaves the scopes as it found them. -/
theorem Emits.scopes_eq {s s' : State} {task : Task} {codes : List Code}
    (h : Emits s task codes s') : s'.scopes = s.scopes := by
  induction h with
  | block _ ih => simp [ih]
  | definition _ _ _ ihfirst ihsecond => simp [ihfirst, ihsecond]
  | clampInt _ _ _ _ ihv ihh ihl => simp [ihv, ihh, ihl]
  | array _ _ _ _ _ ih => simpa using ih
  | assignPart _ _ _ _ _ _ ihv ihb ihi ihn => simp [ihv, ihb, ihi, ihn]
  | loop _ _ ihc ihb => simp [ihc, ihb]
  | clampFloat _ _ _ _ ihv ihh ihl => rw [ihl, ihh, ihv]
  | listCons _ _ ihe ihrest => rw [ihrest, ihe]
  | argsFree _ _ ihe ihrest => rw [ihrest, ihe]
  | argsCons _ _ ihe ihrest => rw [ihrest, ihe]
  | pairInt _ _ _ ihl ihr => rw [ihr, ihl]
  | pairFloat _ _ _ ihl ihr => rw [ihr, ihl]
  | memberValue _ _ _ ihe ihrest => rw [ihrest, ihe]
  | floatLit | intLit | ident | negInt | negFloat | listNil | argsNil | fixed | membersNil => rfl
  | statements _ ih | sequence _ ih | function _ ih | call _ ih | opposite _ _ _ _ ih
  | difference _ _ _ _ ih | binary _ _ ih | compare _ ih | step _ _ _ ih | compound _ _ _ ih
  | length _ _ ih | assignFunction _ _ ih | assignName _ _ _ _ _ _ ih | operand _ ih
  | computed _ ih | memberInt _ _ ih | memberInts _ ih | memberReserve _ ih => exact ih

/-- A task leaves the meaning of names as it found it. -/
theorem Emits.env_eq {s s' : State} {task : Task} {codes : List Code}
    (h : Emits s task codes s') : s'.env = s.env :=
  State.env_eq_of_scopes h.scopes_eq

/-! ## Library functions -/

namespace State

variable (s : State)

/-- A scope is declared without asking for a library function. -/
@[simp] theorem includes_declareScope (frame : Frame) :
    (s.declareScope frame).includes = s.includes := by
  obtain ⟨_, _, _, _, h⟩ := s.declareScope_frame frame
  rw [h]

/-- A function is begun without asking for a library function. -/
@[simp] theorem includes_beginFunction (header : Emit.Header) (params : List (String × ValType)) :
    (s.beginFunction header params).includes = s.includes := by
  obtain ⟨_, _, _, _, h⟩ := s.beginFunction_frame header params
  rw [h]

/-- Asking for a library function adds it to those asked for. -/
theorem mem_includes_require {snippet other : Snippet} :
    other ∈ (s.require snippet).includes ↔ other ∈ s.includes ∨ other = snippet := by
  unfold require
  by_cases hmem : snippet ∈ s.includes
  · rw [if_pos (List.contains_iff_mem.2 hmem)]
    constructor
    · exact Or.inl
    · rintro (h | rfl)
      exacts [h, hmem]
  · simp [hmem, record]

end State

end PatchCompiler
