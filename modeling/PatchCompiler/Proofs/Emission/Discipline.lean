import PatchCompiler.Proofs.Emission.Growth
import PatchCompiler.Proofs.Locals.Distinct

/-! # Stack discipline of the state

The state is changed in place while an expression is compiled: scopes are opened and closed, loops
entered and left, local variables put aside and brought back. `State.Reachable` holds of every state
that these changes can lead to from the first one. Main statement: an expression that has been
compiled from such a state leaves scopes and loops as they were, has only added to what was gathered
before, and has declared nothing that was declared before. -/

namespace PatchCompiler

namespace State

/-! ## States that a run can reach -/

/-- States that the changes made by the compiler lead to, in whatever order they are made. Local
variables that are brought back have been put aside in a reachable state. -/
inductive Reachable : State → Prop
  | start : Reachable {}
  | record {s} (event : Event) : Reachable s → Reachable (s.record event)
  | enter {s} (frame : Frame) : Reachable s → Reachable (s.enter frame)
  | leave {s} : Reachable s → Reachable s.leave
  | mark {s} (slot : Slot) : Reachable s → Reachable (s.mark slot)
  | declare {s} (slot : Slot) (binding : Binding) : Reachable s → Reachable (s.declare slot binding)
  | takeLocals {s} : Reachable s → Reachable s.takeLocals.2
  | restoreLocals {s saved} : Reachable s → Reachable saved →
    Reachable (s.restoreLocals saved.takeLocals.1).2
  | pushFunction {s} (origin : FuncOrigin) (f : Func) : Reachable s →
    Reachable (s.pushFunction origin f)
  | recordSignature {s} (name : String) (params : List ValType) : Reachable s →
    Reachable (s.recordSignature name params)
  | require {s} (snippet : Snippet) : Reachable s → Reachable (s.require snippet)
  | enterLoop {s} : Reachable s → Reachable s.enterLoop
  | exitLoop {s} : Reachable s → Reachable s.exitLoop
  | advance {s count arena} : Reachable s → s.arena.advance count = .ok arena →
    Reachable { s with arena := arena }

/-- What holds of the lists and the memory of every reachable state. -/
structure Tidy (s : State) : Prop where
  /-- Each library function has been asked for once. -/
  includes : s.includes.Nodup
  /-- No two local variables of the running function have the same name, and the names noted are
  theirs. -/
  locals : s.table.Matched
  /-- Memory is handed out in whole slots. -/
  memory : slotBytes ∣ s.arena.cursor.toNat

/-- Declaring a binding adds at most a local variable and its name, and none whose name is taken. -/
theorem table_declare (s : State) (slot : Slot) (binding : Binding) :
    (s.declare slot binding).table = s.table ∨
      (s.declare slot binding).table
        = s.table.add (binding.name, binding.info.kind.valType) := by
  unfold declare
  split
  · exact .inl rfl
  · obtain ⟨declared, hmark⟩ := s.mark_eq slot
    simp only [hmark]
    split
    · exact .inl rfl
    · refine .inr ?_
      rw [Locals.add, names_table]
      split <;> rfl

namespace Tidy

variable {s : State}

/-- A change of other parts of the state. -/
theorem congr {t : State} (h : s.Tidy) (hincludes : t.includes = s.includes)
    (htable : t.table = s.table) (harena : t.arena = s.arena) : t.Tidy :=
  ⟨hincludes ▸ h.includes, htable ▸ h.locals, harena ▸ h.memory⟩

/-- Declaring a binding takes no name twice. -/
theorem declare (h : s.Tidy) (slot : Slot) (binding : Binding) : (s.declare slot binding).Tidy := by
  obtain ⟨forms, table, declared, log, heq⟩ := s.declare_eq slot binding
  refine ⟨by rw [heq]; exact h.includes, ?_, by rw [heq]; exact h.memory⟩
  rcases s.table_declare slot binding with htable | htable
  · rw [htable]
    exact h.locals
  · rw [htable]
    exact h.locals.add _

/-- Handing out slots keeps memory in whole slots. -/
theorem advance (h : s.Tidy) {count : UInt32} {arena : Arena}
    (hadvance : s.arena.advance count = .ok arena) : ({ s with arena := arena } : State).Tidy := by
  refine ⟨h.includes, h.locals, ?_⟩
  rw [Arena.cursor_advance hadvance]
  exact Nat.dvd_add h.memory (Nat.dvd_mul_right _ _)

end Tidy

/-- Every reachable state is tidy. -/
theorem Reachable.tidy {s : State} (h : s.Reachable) : s.Tidy := by
  induction h with
  | start => exact ⟨List.nodup_nil, .empty, Nat.dvd_zero _⟩
  | record event _ ih => exact ih.congr rfl rfl rfl
  | enter frame _ ih => exact ih.congr rfl rfl rfl
  | leave _ ih => exact ih.congr rfl rfl rfl
  | @mark s slot _ ih =>
    obtain ⟨declared, hmark⟩ := s.mark_eq slot
    exact hmark ▸ ih.congr rfl rfl rfl
  | declare slot binding _ ih => exact ih.declare slot binding
  | takeLocals _ ih => exact ⟨ih.includes, .empty, ih.memory⟩
  | restoreLocals _ _ ih ihsaved => exact ⟨ih.includes, ihsaved.locals, ih.memory⟩
  | pushFunction origin f _ ih => exact ih.congr rfl rfl rfl
  | recordSignature name params _ ih => exact ih.congr rfl rfl rfl
  | @require s snippet _ ih =>
    exact ⟨(Grows.require s snippet).nodup ih.includes, by simpa using ih.locals,
      by simpa using ih.memory⟩
  | enterLoop _ ih => exact ih.congr rfl rfl rfl
  | exitLoop _ ih => exact ih.congr rfl rfl rfl
  | advance _ hadvance ih => exact ih.advance hadvance

namespace Reachable

variable {s : State}

/-- Noting bindings as declared, one after another. -/
theorem markAll (h : s.Reachable) (slots : List Slot) : (s.markAll slots).Reachable :=
  List.foldlRecOn slots _ h fun _ ht slot _ => ht.mark slot

/-- Declaring the bindings of a scope, one after another. -/
theorem declareScope (h : s.Reachable) (frame : Frame) : (s.declareScope frame).Reachable := by
  rw [declareScope_eq]
  refine List.foldlRecOn frame.slots _ h fun t ht entry _ => ?_
  unfold declareEntry
  split
  · exact ht
  · exact ht.declare _ _

/-- Opening a function. -/
theorem beginFunction (h : s.Reachable) (header : Emit.Header) (params : List (String × ValType)) :
    (s.beginFunction header params).Reachable :=
  ((((h.record _).takeLocals.enter header.frame).markAll _).recordSignature _ _).declareScope _

/-- Writing a function, and bringing back the local variables that were put aside. -/
theorem endFunction {s₂ : State} (h : s.Reachable) (h₂ : s₂.Reachable) (header : Emit.Header)
    (f : Func) : (s₂.endFunction header s.table f).Reachable :=
  (h₂.leave.restoreLocals h).pushFunction _ f

end Reachable

end State

/-- A run leads from a reachable state to a reachable state. -/
theorem Emits.reachable {s s' : State} {task : Task} {codes : List Code}
    (h : Emits s task codes s') (hs : s.Reachable) : s'.Reachable := by
  induction h with
  | floatLit | intLit | ident | negInt | negFloat | listNil | argsNil | fixed | membersNil =>
    exact hs
  | statements _ ih | sequence _ ih | function _ ih | call _ ih | opposite _ _ _ _ ih
  | difference _ _ _ _ ih | binary _ _ ih | compare _ ih | step _ _ _ ih | compound _ _ _ ih
  | length _ _ ih | assignFunction _ _ ih | assignName _ _ _ _ _ _ ih | operand _ ih
  | computed _ ih | memberInt _ _ ih | memberInts _ ih | memberReserve _ ih => exact ih hs
  | block _ ih => exact (ih ((hs.enter _).declareScope _)).leave
  | clampInt _ _ _ _ ihv ihh ihl => exact ihl (ihh (ihv ((hs.require _).require _)))
  | clampFloat _ _ _ _ ihv ihh ihl => exact ihl (ihh (ihv hs))
  | array _ _ hopen hadvance _ ih =>
    obtain ⟨hfirst, _⟩ := Arena.advance_of_openArray hopen
    exact ih (((hs.advance hfirst).advance hadvance).record _)
  | assignPart _ _ _ _ _ _ ihv ihb ihi ihn => exact ihn (ihi (ihb ((ihv hs).require _)))
  | loop _ _ ihc ihb => exact (ihb (ihc hs.enterLoop)).exitLoop
  | listCons _ _ ihe ihrest | argsFree _ _ ihe ihrest | argsCons _ _ ihe ihrest
  | memberValue _ _ _ ihe ihrest => exact ihrest (ihe hs)
  | pairInt _ _ _ ihl ihr | pairFloat _ _ _ ihl ihr => exact ihr (ihl hs)
  | definition _ _ _ ihfirst ihsecond =>
    exact hs.endFunction (ihsecond (ihfirst (hs.beginFunction _ _))) _ _

/-! ## What a run adds -/

/-- The local or global variable that a binding is declared as. -/
def Binding.declaration (b : Binding) : String × ValType := (b.name, b.info.kind.valType)

/-- The variables declared so far: global ones, those of the functions that have been written, and
those of the running function. -/
def State.declarations (s : State) : List (String × ValType) :=
  s.globals ++ s.funcs.flatMap Func.locals ++ s.locals

/-- The declarations that one state has on top of another one. Each of them belongs to a binding of
its own of the scopes; the binding was not declared before and is now. -/
def State.DeclaresNew (entries : List (List String × Frame)) (s s' : State) : Prop :=
  ∃ new : List (Slot × Binding), (new.map Prod.fst).Nodup ∧
    (∀ entry ∈ new, entry.1 ∉ s.declared ∧ entry.1 ∈ s'.declared ∧
      ∃ scope ∈ entries, entry ∈ scope.2.slots) ∧
    s'.declarations.Perm (s.declarations ++ new.map fun entry => entry.2.declaration)

/-- What a run has gathered, apart from the signatures and the events. -/
def State.gathered (s : State) :
    List Snippet × List Form × List FuncOrigin × Locals × List Slot × Arena :=
  (s.includes, s.forms, s.functions, s.table, s.declared, s.arena)

/-- A state has all that another one has gathered, in the same order and before anything else, and
has declared bindings of some scopes. -/
structure State.Extends (entries : List (List String × Frame)) (s s' : State) : Prop where
  /-- Library functions. -/
  includes : s.includes <+: s'.includes
  /-- Global variables and functions. -/
  forms : s.forms <+: s'.forms
  /-- Functions, for the source map. -/
  functions : s.functions <+: s'.functions
  /-- Local variables of the running function. -/
  locals : s.locals <+: s'.locals
  /-- Names of the local variables of the running function. -/
  localNames : s.localNames ⊆ s'.localNames
  /-- Bindings that have been declared. -/
  declared : s.declared ⊆ s'.declared
  /-- Memory. -/
  memory : s.arena.cursor ≤ s'.arena.cursor
  /-- Nothing is declared a second time. -/
  declarations : s.DeclaresNew entries s'

namespace State

variable {s s₁ s' : State} {first second : List (List String × Frame)}

namespace DeclaresNew

/-- A state declares nothing new on top of itself. -/
theorem refl (s : State) : s.DeclaresNew [] s := ⟨[], List.nodup_nil, by simp, by simp⟩

/-- One run after another. What the first one declares is no longer new to the second one. -/
theorem append (h : DeclaresNew first s s₁) (h' : DeclaresNew second s₁ s')
    (hmono : s.declared ⊆ s₁.declared) (hmono' : s₁.declared ⊆ s'.declared) :
    DeclaresNew (first ++ second) s s' := by
  obtain ⟨new, hnodup, hnew, hperm⟩ := h
  obtain ⟨new', hnodup', hnew', hperm'⟩ := h'
  refine ⟨new ++ new', ?_, fun entry hentry => ?_, ?_⟩
  · rw [List.map_append, List.nodup_append']
    -- what the first run declares is declared when the second one begins, so no slot is in both
    -- lists
    refine ⟨hnodup, hnodup', fun slot hslot hslot' => ?_⟩
    obtain ⟨entry, hentry, rfl⟩ := List.mem_map.1 hslot
    obtain ⟨entry', hentry', heq⟩ := List.mem_map.1 hslot'
    exact (hnew' entry' hentry').1 (heq ▸ (hnew entry hentry).2.1)
  · rcases List.mem_append.1 hentry with hentry | hentry
    · obtain ⟨hbefore, hafter, scope, hscope, hmem⟩ := hnew entry hentry
      exact ⟨hbefore, hmono' hafter, scope, List.mem_append_left _ hscope, hmem⟩
    · obtain ⟨hbefore, hafter, scope, hscope, hmem⟩ := hnew' entry hentry
      exact ⟨fun h => hbefore (hmono h), hafter, scope, List.mem_append_right _ hscope, hmem⟩
  · rw [List.map_append, ← List.append_assoc]
    exact hperm'.trans (hperm.append_right _)

/-- The scopes may be given with others. -/
theorem mono (h : DeclaresNew first s s') (hsub : first ⊆ second) : DeclaresNew second s s' := by
  obtain ⟨new, hnodup, hnew, hperm⟩ := h
  refine ⟨new, hnodup, fun entry hentry => ?_, hperm⟩
  obtain ⟨hbefore, hafter, scope, hscope, hmem⟩ := hnew entry hentry
  exact ⟨hbefore, hafter, scope, hsub hscope, hmem⟩

/-- A run from or to a state with the same declarations. -/
theorem congr {t t' : State} (h : DeclaresNew first t t') (hdeclared : t.declared = s.declared)
    (hdeclarations : t.declarations = s.declarations) (hdeclared' : s'.declared = t'.declared)
    (hdeclarations' : s'.declarations = t'.declarations) : DeclaresNew first s s' := by
  obtain ⟨new, hnodup, hnew, hperm⟩ := h
  rw [hdeclarations, ← hdeclarations'] at hperm
  exact ⟨new, hnodup, hdeclared ▸ hdeclared' ▸ hnew, hperm⟩

/-- Declaring a binding that is new writes a global variable, or adds a local variable unless its
name is taken. -/
theorem declareEntry (s : State) (params : List String) {frame : Frame} {entry : Slot × Binding}
    (hentry : entry ∈ frame.slots) : s.DeclaresNew [(params, frame)] (s.declareEntry entry) := by
  by_cases hself : entry.2.isVariable = true → entry.1 ∈ s.declared
  · rw [declareEntry_eq_self hself]
    exact (refl s).mono (List.nil_subset _)
  · obtain ⟨hvariable, hnew⟩ := Classical.not_imp.1 hself
    have hglobals := globals_declareEntry (s := s) fun _ => hnew
    have hlocals := congrArg Locals.declarations (table_declareEntry (s := s) fun _ => hnew)
    rw [declarations_table] at hlocals
    -- in the two cases that add a variable, the binding itself is what is new
    have hone : (s.declareEntry entry).declarations.Perm (s.declarations ++ [entry.2.declaration]) →
        s.DeclaresNew [(params, frame)] (s.declareEntry entry) := fun hperm =>
      ⟨[entry], List.nodup_singleton _, List.forall_mem_singleton.2
        ⟨hnew, mem_declared_declareEntry.2 (.inr ⟨hvariable, rfl⟩), _, List.mem_singleton_self _,
          hentry⟩, hperm⟩
    by_cases hglobal : entry.2.info.isGlobal = true
    · refine hone ?_
      simp only [declarations, hglobals, hlocals, funcs_declareEntry, declarations_table,
        Binding.isLocal, hvariable, hglobal, Bool.not_true, Bool.and_false, Bool.and_true, Bool.false_eq_true, if_true, if_false,
        List.append_assoc]
      exact (List.perm_append_comm.trans (.of_eq (List.append_assoc ..))).append_left _
    · simp only [hglobal, Bool.and_false, Bool.false_eq_true, if_false, List.append_nil] at hglobals
      simp only [Binding.isLocal, hvariable, hglobal, Bool.not_false, Bool.and_true,
        if_true] at hlocals
      by_cases htaken : entry.2.name ∈ s.table.names
      -- a local variable of that name is there already and stands for this binding too
      · rw [Locals.add_of_mem htaken] at hlocals
        exact ⟨[], List.nodup_nil, by simp, by
          simp [declarations, hglobals, hlocals, funcs_declareEntry]⟩
      · rw [Locals.add_of_not_mem htaken] at hlocals
        refine hone ?_
        simp only [declarations, hglobals, hlocals, funcs_declareEntry, declarations_table,
          List.append_assoc]
        exact .refl _

end DeclaresNew

namespace Extends

/-- A state extends itself. -/
theorem refl (s : State) : s.Extends [] s :=
  ⟨List.prefix_rfl, List.prefix_rfl, List.prefix_rfl, List.prefix_rfl, List.Subset.refl _,
    List.Subset.refl _, UInt32.le_refl _, .refl s⟩

/-- One run after another. -/
theorem append (h : Extends first s s₁) (h' : Extends second s₁ s') :
    Extends (first ++ second) s s' :=
  ⟨h.includes.trans h'.includes, h.forms.trans h'.forms, h.functions.trans h'.functions,
    h.locals.trans h'.locals, List.Subset.trans h.localNames h'.localNames,
    List.Subset.trans h.declared h'.declared, UInt32.le_trans h.memory h'.memory, h.declarations.append h'.declarations h.declared h'.declared⟩

/-- The scopes may be given with others. -/
theorem mono (h : Extends first s s') (hsub : first ⊆ second) : Extends second s s' :=
  { h with declarations := h.declarations.mono hsub }

/-- Asking for a library function. -/
theorem require (s : State) (snippet : Snippet) : s.Extends [] (s.require snippet) := by
  unfold State.require
  split
  · exact refl s
  · exact { refl s with
      includes := List.prefix_append _ _
      declarations := (DeclaresNew.refl s).congr rfl rfl rfl rfl }

/-- Declaring a binding of a scope. -/
theorem declareEntry (s : State) (params : List String) {frame : Frame} {entry : Slot × Binding}
    (hentry : entry ∈ frame.slots) : s.Extends [(params, frame)] (s.declareEntry entry) := by
  have hdeclarations := DeclaresNew.declareEntry s params hentry
  by_cases hself : entry.2.isVariable = true → entry.1 ∈ s.declared
  · rw [declareEntry_eq_self hself]
    exact (refl s).mono (List.nil_subset _)
  · obtain ⟨hvariable, hnew⟩ := Classical.not_imp.1 hself
    rw [declareEntry_eq hvariable hnew] at hdeclarations ⊢
    simp only at hdeclarations ⊢
    split at hdeclarations
    · rename_i hglobal
      rw [if_pos hglobal]
      exact { refl s with
        forms := List.prefix_append _ _
        declared := List.subset_cons_self _ _
        declarations := hdeclarations }
    · rename_i hglobal
      rw [if_neg hglobal]
      exact { refl s with
        locals := (s.table.extends_add _).1
        localNames := (s.table.extends_add _).2
        declared := List.subset_cons_self _ _
        declarations := hdeclarations }

/-- Declaring the bindings of a scope. -/
theorem declareScope (s : State) (params : List String) (frame : Frame) :
    s.Extends [(params, frame)] (s.declareScope frame) := by
  rw [declareScope_eq]
  refine List.foldlRecOn frame.slots _ ((refl s).mono (List.nil_subset _)) fun t ht entry hentry => ?_
  -- the scope is listed once, however many of its bindings are declared
  exact (ht.append (declareEntry t params hentry)).mono (by simp)

/-- A run from or to a state that has gathered the same. -/
theorem congr {t t' : State} (h : Extends first t t') (hbefore : t.gathered = s.gathered)
    (hafter : s'.gathered = t'.gathered) : Extends first s s' := by
  simp only [gathered, Prod.mk.injEq] at hbefore hafter
  obtain ⟨hincludes, hforms, hfunctions, htable, hdeclared, harena⟩ := hbefore
  obtain ⟨hincludes', hforms', hfunctions', htable', hdeclared', harena'⟩ := hafter
  obtain ⟨hlocals, hnames⟩ := Locals.mk.inj htable
  obtain ⟨hlocals', hnames'⟩ := Locals.mk.inj htable'
  refine ⟨hincludes ▸ hincludes' ▸ h.includes, hforms ▸ hforms' ▸ h.forms,
    hfunctions ▸ hfunctions' ▸ h.functions, hlocals ▸ hlocals' ▸ h.locals,
    hnames ▸ hnames' ▸ h.localNames,
    hdeclared ▸ hdeclared' ▸ h.declared, harena ▸ harena' ▸ h.memory,
    h.declarations.congr hdeclared ?_ hdeclared' ?_⟩
  · simp only [State.declarations, globals, funcs, hforms, hlocals]
  · simp only [State.declarations, globals, funcs, hforms', hlocals']

/-- Opening a block. -/
theorem enter (s : State) (frame : Frame) :
    s.Extends [([], frame)] ((s.enter frame).declareScope frame) :=
  (declareScope (s.enter frame) [] frame).congr rfl rfl

/-- Laying out an array. -/
theorem array {arena₁ arena₂ : Arena} {base count : UInt32} (event : Event)
    (hopen : s.arena.openArray = .ok (base, arena₁)) (hadvance : arena₁.advance count = .ok arena₂) :
    s.Extends [] ({ s with arena := arena₂ }.record event) := by
  have hfirst := Arena.cursor_advance (Arena.advance_of_openArray hopen).1
  have hsecond := Arena.cursor_advance hadvance
  exact { refl s with
    memory := UInt32.le_iff_toNat_le.2 (by show _ ≤ arena₂.cursor.toNat; omega)
    declarations := (DeclaresNew.refl s).congr rfl rfl rfl rfl }

/-- Noting bindings as declared. -/
theorem markAll (s : State) (slots : List Slot) : s.Extends [] (s.markAll slots) := by
  have hmem : ∀ slot ∈ s.declared, slot ∈ (s.markAll slots).declared :=
    fun slot hslot => mem_declared_markAll.2 (.inl hslot)
  obtain ⟨declared, hmarks⟩ := s.markAll_eq slots
  rw [hmarks] at hmem ⊢
  exact { refl s with
    declared := hmem
    declarations := ⟨[], List.nodup_nil, by simp, by
      rw [List.map_nil, List.append_nil]
      exact .refl _⟩ }

/-- Opening a function: it starts without local variables, and its parameters need no declaration. -/
theorem beginFunction (s : State) (header : Emit.Header) (params : List (String × ValType)) :
    Extends [(header.params, header.frame)] s.takeLocals.2
      (s.beginFunction header params) := by
  -- the state when the scope is open, and when the parameters have been noted
  let opened :=
    (s.record (.function header.name header.params.length)).takeLocals.2.enter header.frame
  let noted := (opened.markAll (header.params.map header.frame.slot)).recordSignature header.name
    (params.map Prod.snd)
  have hnoted : Extends [] s.takeLocals.2 noted := (markAll opened _).congr rfl rfl
  exact hnoted.append (declareScope noted header.params header.frame)

/-- Writing a function: its local variables are those of the state, and the ones that were put aside
come back. -/
theorem endFunction (h : Extends first s.takeLocals.2 s') (header : Emit.Header) {f : Func}
    (hf : f.locals = s'.locals) : Extends first s (s'.endFunction header s.table f) := by
  obtain ⟨new, hnodup, hnew, hperm⟩ := h.declarations
  refine ⟨h.includes, h.forms.trans (List.prefix_append _ _),
    h.functions.trans (List.prefix_append _ _), List.prefix_rfl, List.Subset.refl _, h.declared,
    h.memory, new, hnodup, hnew, ?_⟩
  have hwritten : (s'.endFunction header s.table f).declarations = s'.declarations ++ s.locals := by
    simp only [State.declarations, globals_endFunction, funcs_endFunction, List.flatMap_append,
      List.flatMap_singleton, hf, List.append_assoc]
    rfl
  rw [hwritten]
  refine (hperm.append_right _).trans ?_
  -- the local variables that were put aside stand behind the new ones
  have hbefore : s.declarations = s.takeLocals.2.declarations ++ s.locals := by
    simp [State.declarations, globals, funcs, takeLocals]
  rw [hbefore, List.append_assoc, List.append_assoc]
  exact List.perm_append_comm.append_left _

end Extends

end State

/-- A run adds to what was gathered before, and declares bindings of its scopes that are new. -/
theorem Emits.extends {s s' : State} {task : Task} {codes : List Code} (h : Emits s task codes s') :
    State.Extends task.scopes s s' := by
  induction h with
  | floatLit | intLit | ident | negInt | negFloat | listNil | argsNil | fixed | membersNil =>
    exact .refl _
  | statements _ ih | sequence _ ih | call _ ih | opposite _ _ _ _ ih | difference _ _ _ _ ih
  | binary _ _ ih | compare _ ih | compound _ _ _ ih | operand _ ih | computed _ ih
  | memberInts _ ih | memberReserve _ ih => exact ih
  | step _ _ _ ih => exact ih
  | function _ ih =>
    simp only [Task.scopes, Expr.scopes, Node.scopes, Expr.scopesOption_eq]
    exact ih
  | @block s _ _ frame _ _ _ _ _ ih => exact ((State.Extends.enter s frame).append ih).congr rfl rfl
  | clampInt _ _ _ _ ihv ihh ihl =>
    exact ((State.Extends.require _ _).append (.require _ _)).append (ihv.append (ihh.append ihl))
  | clampFloat _ _ _ _ ihv ihh ihl => exact ihv.append (ihh.append ihl)
  | array hlayout _ hopen hadvance _ ih =>
    simp only [Task.scopes, Expr.scopes, Node.scopes, ← scopes_of_classified hlayout]
    exact (State.Extends.array _ hopen hadvance).append ih
  | length _ _ ih => simpa [Task.scopes, Expr.scopes, Node.scopes, Expr.scopesOption] using ih
  | assignFunction _ _ ih => simpa [Task.scopes, Expr.scopes, Node.scopes] using ih
  | assignName _ _ _ _ _ _ ih => simpa [Task.scopes, Expr.scopes, Node.scopes] using ih
  | assignPart hp _ _ _ _ _ ihv ihb ihi ihn =>
    simp only [Task.scopes, Expr.scopes, Node.scopes, scopes_of_position hp]
    -- the scopes of the array are opened twice and listed once
    refine (ihv.append (((State.Extends.require _ _).append ihb).append (ihi.append ihn))).mono ?_
    simp [Task.scopes]
  | loop _ _ ihc ihb => exact (ihc.append ihb).congr rfl rfl
  | listCons _ _ ihe ihrest | argsFree _ _ ihe ihrest | argsCons _ _ ihe ihrest
  | memberValue _ _ _ ihe ihrest => exact ihe.append ihrest
  | pairInt _ _ _ ihl ihr | pairFloat _ _ _ ihl ihr => exact ihl.append ihr
  | @memberInt _ _ _ _ operand _ _ _ hv _ ih =>
    obtain ⟨⟨node, ty, span⟩, emitted⟩ := operand
    cases hv
    exact ih
  | @definition s s₁ s₂ header prologue body params _ _ _ _ _ ihfirst ihsecond =>
    exact ((State.Extends.beginFunction s header params).append
      (ihfirst.append ihsecond)).endFunction header rfl

/-! ## Loops -/

namespace State

/-- A scope is declared at the same depth of loops. -/
@[simp] theorem loopDepth_declareScope (s : State) (frame : Frame) :
    (s.declareScope frame).loopDepth = s.loopDepth := by
  obtain ⟨_, _, _, _, h⟩ := s.declareScope_frame frame
  rw [h]

/-- A library function is asked for at the same depth of loops. -/
@[simp] theorem loopDepth_require (s : State) (snippet : Snippet) :
    (s.require snippet).loopDepth = s.loopDepth := by
  unfold require
  split <;> rfl

/-- A function is begun at the same depth of loops. -/
@[simp] theorem loopDepth_beginFunction (s : State) (header : Emit.Header)
    (params : List (String × ValType)) :
    (s.beginFunction header params).loopDepth = s.loopDepth := by
  obtain ⟨_, _, _, _, h⟩ := s.beginFunction_frame header params
  rw [h]

end State

/-- A task leaves as many loops as it enters. -/
theorem Emits.loopDepth_eq {s s' : State} {task : Task} {codes : List Code}
    (h : Emits s task codes s') : s'.loopDepth = s.loopDepth := by
  induction h with
  | floatLit | intLit | ident | negInt | negFloat | listNil | argsNil | fixed | membersNil => rfl
  | statements _ ih | sequence _ ih | function _ ih | call _ ih | opposite _ _ _ _ ih
  | difference _ _ _ _ ih | binary _ _ ih | compare _ ih | step _ _ _ ih | compound _ _ _ ih
  | length _ _ ih | assignFunction _ _ ih | assignName _ _ _ _ _ _ ih | operand _ ih
  | computed _ ih | memberInt _ _ ih | memberInts _ ih | memberReserve _ ih => exact ih
  | block _ ih => exact ih.trans (State.loopDepth_declareScope _ _)
  | clampInt _ _ _ _ ihv ihh ihl =>
    rw [ihl, ihh, ihv, State.loopDepth_require, State.loopDepth_require]
  | clampFloat _ _ _ _ ihv ihh ihl => rw [ihl, ihh, ihv]
  | array _ _ _ _ _ ih => exact ih
  | assignPart _ _ _ _ _ _ ihv ihb ihi ihn =>
    rw [ihn, ihi, ihb, State.loopDepth_require, ihv]
  | @loop s s₁ s₂ _ _ _ _ _ _ _ _ _ ihc ihb =>
    show s₂.loopDepth - 1 = s.loopDepth
    rw [ihb, ihc]
    -- the depth may wrap around, and is the same again all the same
    exact UInt32.add_sub_cancel _ _
  | listCons _ _ ihe ihrest | argsFree _ _ ihe ihrest | argsCons _ _ ihe ihrest
  | memberValue _ _ _ ihe ihrest => exact ihrest.trans ihe
  | pairInt _ _ _ ihl ihr | pairFloat _ _ _ ihl ihr => exact ihr.trans ihl
  | definition _ _ _ ihfirst ihsecond =>
    exact ihsecond.trans (ihfirst.trans (State.loopDepth_beginFunction _ _ _))

/-! ## Expressions -/

/-- A function definition brings the local variables of the enclosing function and their names
back. -/
theorem Emits.locals_of_function {s s' : State} {e : Expr Frame} {name : Option String}
    {codes : List Code} (h : Emits s (.expr e name) codes s') (he : e.isFunction = true) :
    s'.locals = s.locals ∧ s'.localNames = s.localNames := by
  obtain ⟨node, ty, span⟩ := e
  cases node with
  | function params result prologue body frame =>
    cases h with
    | function h =>
      cases h with
      | definition => exact ⟨rfl, rfl⟩
  | _ => cases he

/-- An expression that is compiled in a reachable state leaves the scopes and the loops as they were.
All that has been gathered is still there, in front of what is new, and each new declaration belongs
to a binding of its own that was not declared before. The lists stay free of repetitions, the names
noted are those of the local variables, and the memory consists of whole slots. A function definition
changes nothing of the local variables of the function it stands in, nor of their names. -/
theorem Expr.emit_disciplined {e : Expr Frame} {name : Option String} {s s' : State} {code : Code}
    (hs : s.Reachable) (h : e.emit name s = .ok code s') :
    s'.scopes = s.scopes ∧ s'.loopDepth = s.loopDepth ∧ State.Extends e.scopes s s' ∧ s'.Tidy ∧
      (∀ x, x ∈ s'.localNames ↔ ∃ type, (x, type) ∈ s'.locals) ∧
      (e.isFunction = true → s'.locals = s.locals ∧ s'.localNames = s.localNames) := by
  have hemits : Emits s (.expr e name) [code] s' := e.emits_of_emit name s code s' h
  have htidy := (hemits.reachable hs).tidy
  refine ⟨hemits.scopes_eq, hemits.loopDepth_eq, hemits.extends, htidy, fun x => ?_,
    hemits.locals_of_function⟩
  exact htidy.locals.mem_names_iff.trans (by simp)

/-- The scope of a function that binds an integer `n`, and the name of a function. -/
def Frame.outer : Frame :=
  ⟨[], ⟨[⟨"n", { kind := .int, storage := .localVar }⟩,
    ⟨"f", { kind := .function, storage := .globalVar }⟩]⟩⟩

/-- A function definition: a loop in it counts the parameter down, and a block binds a pointer and an
integer `n` of its own. -/
def Expr.countdown : Expr Frame :=
  .function ["a"] none none
    (.plain (.loop (.plain (.compare .gt (.plain (.ident "a")) (.int 0)))
      (.plain (.block
        (.plain (.statements [.plain (.step .decrement (.plain (.ident "a"))),
          .plain (.assign (.plain (.ident "p")) (.array [.int 1, .int 2]))]))
        ⟨[1, 1], ⟨[⟨"p", { kind := .pointer, storage := .globalVar }⟩,
          ⟨"n", { kind := .int, storage := .localVar }⟩]⟩⟩))))
    ⟨[1], ⟨[⟨"a", { kind := .int, storage := .parameter }⟩]⟩⟩

/-- The function is compiled inside another one that has a local variable `n`: the scopes and the
loops of that one, its local variables and their names are the same afterwards. -/
theorem Expr.countdown_disciplined : ∃ code s',
    countdown.emit (some "f") ((State.enter {} .outer).declareScope .outer) = .ok code s' ∧
      s'.scopes = [.outer] ∧ s'.loopDepth = 0 ∧ s'.locals = [("n", .i32)] ∧
      s'.localNames = ["n"] ∧ s'.declarations = [("p", .i32), ("n", .i32), ("n", .i32)] ∧ s'.Tidy := by
  obtain ⟨hscopes, hdepth, _, htidy, _, hlocals⟩ := @emit_disciplined countdown (some "f") _ _ _
    ((State.Reachable.start.enter .outer).declareScope .outer) rfl
  exact ⟨_, _, rfl, hscopes, hdepth, (hlocals rfl).1, (hlocals rfl).2, rfl, htidy⟩

end PatchCompiler
