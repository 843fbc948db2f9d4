import PatchCompiler.Proofs.Locals.Marks

/-! # The functions and global variables that a run writes

The functions that a run adds to the module are those of `Task.outlines`, with the parameters, the
local variables and the occurrences given there, in that order. The global variables are those of
the scopes it opens. -/

namespace PatchCompiler

/-- What the outline of a function tells about its text: its name, its parameters, its result, its
local variables, and the names it reads and writes. -/
abbrev Summary :=
  String × List (String × ValType) × Option ValType × List (String × ValType) × List String

/-- The summary of a function. -/
def Func.summary (f : Func) : Summary := (f.name, f.params, f.result, f.locals, f.body.localNames)

/-- The summary of an outline. -/
def Outline.summary (o : Outline) : Summary :=
  (o.name, o.params, o.result.map Kind.valType, o.locals, o.occurrences.map Prod.fst)

/-! ## Scopes that are new, and scopes that are not -/

/-- Scopes that have all been declared, if the compiler meets them again, and none of them
otherwise. -/
def Fresh (again : Bool) (entries : List (List String × Frame)) (declared : List Slot) : Prop :=
  match again with
  | true => ∀ entry ∈ entries, ∀ slot ∈ entry.2.declares, slot ∈ declared
  | false => (entries.map fun entry => entry.2.site).Nodup ∧
      ∀ slot ∈ declared, ∀ entry ∈ entries, slot.site ≠ entry.2.site

namespace Fresh

variable {again : Bool} {first second : List (List String × Frame)} {d d₁ : List Slot}

/-- The scopes that come first. -/
theorem left (h : Fresh again (first ++ second) d) : Fresh again first d := by
  cases again with
  | true => exact fun entry hentry => h entry (List.mem_append_left _ hentry)
  | false =>
    obtain ⟨hnodup, hnew⟩ := h
    rw [List.map_append] at hnodup
    exact ⟨hnodup.of_append_left,
      fun slot hslot entry hentry => hnew slot hslot entry (List.mem_append_left _ hentry)⟩

/-- The scopes that come second, after the first ones have been opened. -/
theorem right (h : Fresh again (first ++ second) d) (hmarks : Marks first d d₁) :
    Fresh again second d₁ := by
  cases again with
  | true =>
    exact fun entry hentry slot hslot =>
      hmarks.mono slot (h entry (List.mem_append_right _ hentry) slot hslot)
  | false =>
    obtain ⟨hnodup, hnew⟩ := h
    rw [List.map_append, List.nodup_append'] at hnodup
    refine ⟨hnodup.2.1, fun slot hslot entry hentry hsite => ?_⟩
    -- a place that is declared by now was declared before, or belongs to one of the first scopes
    rcases hmarks.added slot hslot with hslot | ⟨entry', hentry', hsite'⟩
    · exact hnew slot hslot entry (List.mem_append_right _ hentry) hsite
    · refine hnodup.2.2 (List.mem_map_of_mem hentry') ?_
      rw [← hsite', hsite]
      exact List.mem_map_of_mem hentry

end Fresh

/-- Every parameter is bound as such in the scope of its function. -/
def Proper (entries : List (List String × Frame)) : Prop :=
  ∀ entry ∈ entries, ∀ x ∈ entry.1, ∃ v, entry.2.find? x = some v ∧ v.storage = .parameter

/-- If all scopes are proper, the first ones are. -/
theorem Proper.left {first second : List (List String × Frame)} (h : Proper (first ++ second)) :
    Proper first := fun entry hentry => h entry (List.mem_append_left _ hentry)

/-- If all scopes are proper, the last ones are. -/
theorem Proper.right {first second : List (List String × Frame)} (h : Proper (first ++ second)) :
    Proper second := fun entry hentry => h entry (List.mem_append_right _ hentry)

/-! ## What a run writes -/

/-- A run writes global variables and adds local variables to the running function, unless it meets
them again, and writes functions. -/
structure Writes (again : Bool) (globals added : List (String × ValType))
    (outlines : List Outline) (s s' : State) : Prop where
  /-- The global variables of the module. -/
  globals : s'.globals = s.globals ++ if again then [] else globals
  /-- The local variables of the running function. -/
  table : s'.table = if again then s.table else s.table.addAll added
  /-- The functions of the module. -/
  funcs : s'.funcs.map Func.summary = s.funcs.map Func.summary ++ outlines.map Outline.summary

namespace Writes

variable {again : Bool} {g g₁ g₂ v v₁ v₂ : List (String × ValType)} {o o₁ o₂ : List Outline}
  {s s₁ s' : State}

/-- A state writes nothing to itself. -/
theorem refl : Writes again [] [] [] s s := by
  refine ⟨?_, ?_, (List.append_nil _).symm⟩
  · cases again <;> exact (List.append_nil _).symm
  · cases again <;> rfl

/-- One run after another. -/
theorem append (h : Writes again g₁ v₁ o₁ s s₁) (h' : Writes again g₂ v₂ o₂ s₁ s') :
    Writes again (g₁ ++ g₂) (v₁ ++ v₂) (o₁ ++ o₂) s s' := by
  refine ⟨?_, ?_, by rw [h'.funcs, h.funcs, List.map_append, List.append_assoc]⟩
  · rw [h'.globals, h.globals]
    cases again <;> simp
  · rw [h'.table, h.table]
    cases again with
    | true => rfl
    | false => exact (Locals.addAll_append _ _ _).symm

/-- A run that meets its scopes again adds no variable. -/
theorem again_true (h : Writes true g v o s s') : Writes again [] [] o s s' := by
  refine ⟨?_, ?_, h.funcs⟩
  · rw [h.globals]
    cases again <;> rfl
  · cases again <;> exact h.table

/-- A run from or to a state with the same forms and local variables. -/
theorem congr {t t' : State} (h : Writes again g v o t t') (hforms : t.forms = s.forms)
    (htable : t.table = s.table) (hforms' : s'.forms = t'.forms)
    (htable' : s'.table = t'.table) : Writes again g v o s s' := by
  refine ⟨?_, ?_, ?_⟩
  · have hglobals := h.globals
    simp only [State.globals, hforms, hforms'] at hglobals ⊢
    exact hglobals
  · rw [htable', h.table, htable]
  · have hfuncs := h.funcs
    simp only [State.funcs, hforms, hforms'] at hfuncs ⊢
    exact hfuncs

end Writes

namespace State

variable (s : State)

/-- Asking for a library function adds no local variable. -/
@[simp] theorem table_require (snippet : Snippet) : (s.require snippet).table = s.table := by
  unfold require
  split <;> rfl

/-- Asking for a library function writes no form. -/
@[simp] theorem forms_require (snippet : Snippet) : (s.require snippet).forms = s.forms := by
  unfold require
  split <;> rfl

/-- A scope that is new adds its variables, one that has been declared adds none. -/
theorem writes_declareScope {again : Bool} {t : State} {params : List String} {frame : Frame}
    (hfresh : Fresh again [(params, frame)] s.declared) (hproper : Proper [(params, frame)])
    (hmem : ∀ slot, slot ∈ t.declared ↔ slot ∈ s.declared ∨ slot ∈ params.map frame.slot) :
    Writes again frame.scope.globals frame.scope.variables [] t (t.declareScope frame) := by
  cases again with
  | true =>
    rw [declareScope_eq_self]
    · exact ⟨(List.append_nil _).symm, rfl, (List.append_nil _).symm⟩
    · exact fun slot hslot => (hmem slot).2 (.inl (hfresh _ (List.mem_singleton_self _) slot hslot))
  | false =>
    -- an old place is at another site, and a parameter's place is none that is declared
    have hnew : ∀ slot ∈ frame.declares, slot ∉ t.declared := ?_
    · refine ⟨globals_declareScope hnew, table_declareScope hnew, ?_⟩
      rw [funcs_declareScope, List.map_nil, List.append_nil]
    intro slot hslot hdeclared
    rcases (hmem slot).1 hdeclared with hold | hparam
    · refine hfresh.2 slot hold _ (List.mem_singleton_self _) ?_
      obtain ⟨entry, hentry, rfl⟩ := List.mem_map.1 hslot
      obtain ⟨_, _, rfl⟩ := List.mem_map.1 (List.mem_filter.1 hentry).1
      rfl
    · obtain ⟨x, hx, rfl⟩ := List.mem_map.1 hparam
      obtain ⟨v, hv, hstorage⟩ := hproper _ (List.mem_singleton_self _) x hx
      exact slot_not_mem_declares hv hstorage hslot

end State

/-! ## Local variables and functions of what is compiled -/

/-- The variables of a list are those of its expressions, one after another. -/
theorem Expr.variablesList_eq_flatMap (es : List (Expr Frame)) :
    Expr.variablesList es = es.flatMap Expr.variables := by
  induction es with
  | nil => rfl
  | cons e rest ih => rw [Expr.variablesList, ih, List.flatMap_cons]

/-- The functions of a list are those of its expressions, one after another. -/
theorem Expr.outlinesList_eq_flatMap (env : Env) (again : Bool) (es : List (Expr Frame)) :
    Expr.outlinesList env again es = es.flatMap (Expr.outlines env again none) := by
  induction es with
  | nil => rfl
  | cons e rest ih => rw [Expr.outlinesList, ih, List.flatMap_cons]

/-- The functions of an optional expression are those of the list of it. -/
theorem Expr.outlinesOption_eq (env : Env) (again : Bool) (e : Option (Expr Frame)) :
    Expr.outlinesOption env again e = Expr.outlinesList env again e.toList := by
  cases e with
  | none => rfl
  | some e => exact (List.append_nil _).symm

section

variable {env : Env} {members : List (Expr Frame)} {layout : List Member}

/-- The local variables of an array literal are those of its layout. -/
theorem variables_of_classified
    (h : List.Forall₂ (fun e m => Member.ofOperand (e.kind env) ⟨e, e.emit⟩ = .ok m)
      members layout) :
    Expr.variablesList (Member.exprs layout) = Expr.variablesList members := by
  rw [Expr.variablesList_eq_flatMap, Expr.variablesList_eq_flatMap]
  exact Member.flatMap_exprs _ (fun e he => by cases he <;> rfl) h

/-- The functions of an array literal are those of its layout. -/
theorem outlines_of_classified (env' : Env) (again : Bool)
    (h : List.Forall₂ (fun e m => Member.ofOperand (e.kind env) ⟨e, e.emit⟩ = .ok m)
      members layout) :
    Expr.outlinesList env' again (Member.exprs layout) = Expr.outlinesList env' again members := by
  rw [Expr.outlinesList_eq_flatMap, Expr.outlinesList_eq_flatMap]
  exact Member.flatMap_exprs _ (fun e he => by cases he <;> rfl) h

end

section

variable {target array value : Expr Frame} {p : Position} {ty : Option Kind} {span : Span}

/-- The local variables of an element store. -/
theorem variables_of_position (h : target.position? = some (array, p)) :
    (Expr.mk (.assign target value) ty span).variables
      = value.variables ++ (array.variables ++ Task.variables (.position p)) := by
  cases Expr.locates_of_position h with
  | element => rfl
  | field => simp [Expr.variables, Task.variables]

/-- The functions of an element store: those of the array are written twice. -/
theorem outlines_of_position {env : Env} {again : Bool} {name : Option String}
    (h : target.position? = some (array, p)) :
    (Expr.mk (.assign target value) ty span).outlines env again name
      = value.outlines env again none ++ (array.outlines env again none
        ++ (Task.outlines env again (.position p) ++ array.outlines env true none)) := by
  cases Expr.locates_of_position h with
  | element => simp [Expr.outlines, Task.outlines]
  | field => simp [Expr.outlines, Task.outlines]

end

/-- Parameters that have types are bound by their frame. -/
theorem Emit.Header.paramTypes_eq {header : Header} {params : List (String × ValType)}
    (h : header.types? = some params) : header.frame.paramTypes header.params = params := by
  unfold types? at h
  unfold Frame.paramTypes
  generalize header.params = names at h ⊢
  induction names generalizing params with
  | nil => cases h; rfl
  | cons x rest ih =>
    rw [List.mapM_cons] at h
    obtain ⟨param, hparam, h⟩ := Option.bind_eq_some_iff.1 h
    obtain ⟨others, hothers, h⟩ := Option.bind_eq_some_iff.1 h
    cases h
    rw [List.filterMap_cons, hparam, ih hothers]

/-- Bringing a body to the type of the result reads and writes no variable. -/
@[simp] theorem Emit.Header.localNames_fit (header : Header) (kind : Option Kind) (code : Code) :
    (header.fit kind code).localNames = code.localNames := by
  unfold fit
  split
  · split
    · rfl
    · exact Code.localNames_apply _ code
  · rfl

/-- The summary of a function that is written. -/
theorem Emit.Header.summary_func (header : Header) (params locals : List (String × ValType))
    (first : List Code) (kind : Option Kind) (second : Code) :
    (header.func params locals first.flatten (header.fit kind second)).summary
      = (header.name, params, header.result.map Kind.valType, locals,
        first.flatMap Code.localNames ++ second.localNames) := by
  simp [Func.summary, func, Op.localName?]

/-- Ending a function writes it. -/
@[simp] theorem State.funcs_endFunction (s : State) (header : Emit.Header) (saved : Locals)
    (f : Func) : (s.endFunction header saved f).funcs = s.funcs ++ [f] := by
  simp [State.funcs, State.endFunction, State.pushFunction, State.pushForm, State.record,
    State.restoreLocals, State.leave, Form.func?]

/-- Ending a function writes no global variable. -/
@[simp] theorem State.globals_endFunction (s : State) (header : Emit.Header) (saved : Locals)
    (f : Func) : (s.endFunction header saved f).globals = s.globals := by
  simp [State.globals, State.endFunction, State.pushFunction, State.pushForm, State.record,
    State.restoreLocals, State.leave, Form.global?]

/-! ## The functions of a run -/

/-- What a run writes that opens scopes, whether it meets them for the first time or again. -/
def Adds (entries : List (List String × Frame)) (added : List (String × ValType))
    (outlines : Bool → List Outline) (s s' : State) : Prop :=
  ∀ again, Fresh again entries s.declared → Proper entries →
    Writes again (entries.flatMap fun entry => entry.2.scope.globals) added (outlines again) s s'

namespace Adds

variable {e e₁ e₂ : List (List String × Frame)} {v v₁ v₂ : List (String × ValType)}
  {o o₁ o₂ : Bool → List Outline} {s s₁ s' : State}

/-- A state adds nothing to itself. -/
theorem refl : Adds [] [] (fun _ => []) s s := fun _ _ _ => .refl

/-- One run after another. -/
theorem append (h : Adds e₁ v₁ o₁ s s₁) (hmarks : Marks e₁ s.declared s₁.declared)
    (h' : Adds e₂ v₂ o₂ s₁ s') :
    Adds (e₁ ++ e₂) (v₁ ++ v₂) (fun again => o₁ again ++ o₂ again) s s' := by
  intro again hfresh hproper
  have hfirst := h again hfresh.left hproper.left
  have hsecond := h' again (hfresh.right hmarks) hproper.right
  rw [List.flatMap_append]
  exact hfirst.append hsecond

/-- A run from or to a state with the same declarations, forms and local variables. -/
theorem congr {t t' : State} (h : Adds e v o t t') (hdeclared : t.declared = s.declared)
    (hforms : t.forms = s.forms) (htable : t.table = s.table) (hforms' : s'.forms = t'.forms)
    (htable' : s'.table = t'.table) : Adds e v o s s' := by
  intro again hfresh hproper
  rw [← hdeclared] at hfresh
  exact (h again hfresh hproper).congr hforms htable hforms' htable'

/-- A library function that is asked for first. -/
theorem of_require {snippet : Snippet} (h : Adds e v o (s.require snippet) s') : Adds e v o s s' :=
  h.congr (by simp) (by simp) (by simp) rfl rfl

end Adds

/-- Opening a block adds its local variables. -/
theorem State.adds_enter (s : State) (frame : Frame) :
    Adds [([], frame)] frame.scope.variables (fun _ => []) s
      ((s.enter frame).declareScope frame) := by
  intro again hfresh hproper
  have hscope := s.writes_declareScope (t := s.enter frame) hfresh hproper
    fun slot => by simp [State.enter]
  rw [List.flatMap_singleton]
  exact hscope.congr rfl rfl rfl rfl

/-- Opening a function starts its local variables with those of its scope. -/
theorem State.adds_beginFunction (s : State) (header : Emit.Header)
    (params : List (String × ValType)) :
    Adds [(header.params, header.frame)] header.frame.scope.variables (fun _ => [])
      s.takeLocals.2 (s.beginFunction header params) := by
  intro again hfresh hproper
  have hscope : Writes again header.frame.scope.globals header.frame.scope.variables [] _
      (s.beginFunction header params) :=
    s.writes_declareScope hfresh hproper fun _ => mem_declared_markAll
  rw [List.flatMap_singleton]
  exact hscope.congr (forms_markAll _ _) (table_markAll _ _) rfl rfl

/-- The local variables and the functions that a run writes are those of its task. -/
theorem Emits.adds {s s' : State} {task : Task} {codes : List Code} (h : Emits s task codes s') :
    Adds task.scopes task.variables (task.outlines s.env) s s' := by
  induction h with
  | floatLit | intLit | ident | negInt | negFloat | listNil | argsNil | fixed | membersNil =>
    exact .refl
  | statements _ ih | sequence _ ih | call _ ih | opposite _ _ _ _ ih | difference _ _ _ _ ih
  | binary _ _ ih | compare _ ih | compound _ _ _ ih | operand _ ih | computed _ ih
  | memberInts _ ih | memberReserve _ ih => exact ih
  | step _ _ _ ih => exact ih
  | function _ ih =>
    simp only [Task.scopes, Expr.scopes, Node.scopes, Expr.scopesOption_eq, Task.outlines,
      Expr.outlines, Expr.outlinesOption_eq]
    exact ih
  | @block s s' body frame code ty span name _ ih =>
    -- the body is compiled in the environment of the block, which is the one `outlines` uses
    rw [@State.env_of_scopes_cons s _ frame (by simp)] at ih
    have hmarks : Marks [([], frame)] s.declared ((s.enter frame).declareScope frame).declared :=
      .scope fun slot => by simp [State.enter]
    exact ((s.adds_enter frame).append hmarks ih).congr rfl rfl rfl rfl rfl
  | clampInt _ hv hh _ ihv ihh ihl =>
    have hmarks := hv.marks
    rw [State.declared_require, State.declared_require] at hmarks
    rw [hh.env_eq] at ihl
    rw [hv.env_eq] at ihh ihl
    rw [State.env_require, State.env_require] at ihv ihh ihl
    exact ihv.of_require.of_require.append hmarks (ihh.append hh.marks ihl)
  | clampFloat _ hv hh _ ihv ihh ihl =>
    rw [hh.env_eq] at ihl
    rw [hv.env_eq] at ihh ihl
    exact ihv.append hv.marks (ihh.append hh.marks ihl)
  | array hlayout _ _ _ _ ih =>
    simp only [Task.scopes, Expr.scopes, Node.scopes, ← scopes_of_classified hlayout,
      Task.variables, Expr.variables, ← variables_of_classified hlayout, Task.outlines,
      Expr.outlines, ← outlines_of_classified _ _ hlayout]
    exact ih.congr rfl rfl rfl rfl rfl
  | length _ _ ih =>
    simp only [Task.scopes, Expr.scopes, Node.scopes, Expr.scopesOption, List.append_nil]
    exact ih
  | assignFunction hf _ ih =>
    simp only [Task.scopes, Expr.scopes, Node.scopes, List.append_nil, Task.outlines,
      Expr.outlines, hf, if_true]
    exact ih
  | assignName hf _ _ _ _ _ ih =>
    simp only [Task.scopes, Expr.scopes, Node.scopes, List.append_nil, Task.outlines,
      Expr.outlines, hf, if_false, Bool.false_eq_true]
    exact ih
  | assignPart hp hv hb hi _ _ ihv ihb ihi ihn =>
    simp only [Task.scopes, Expr.scopes, Node.scopes, scopes_of_position hp, Task.variables,
      variables_of_position hp, Task.outlines, outlines_of_position hp]
    intro again hfresh hproper
    have hmarks := hb.marks
    rw [State.declared_require] at hmarks
    rw [hi.env_eq] at ihn
    rw [hb.env_eq] at ihi ihn
    rw [State.env_require] at ihb ihi ihn
    rw [hv.env_eq] at ihb ihi ihn
    have hfirst := ihv.append hv.marks (ihb.of_require.append hmarks ihi) again hfresh hproper
    -- by the time of the second run the scopes of the array have been declared
    have hagain := ihn true
      (fun entry hentry slot hslot => hi.marks.mono slot (hmarks.complete entry hentry slot hslot))
      hproper.right.left
    have hboth := hfirst.append hagain.again_true
    simp only [List.append_nil, List.append_assoc] at hboth
    exact hboth
  | loop hc _ ihc ihb =>
    rw [hc.env_eq] at ihb
    exact (ihc.append hc.marks ihb).congr rfl rfl rfl rfl rfl
  | listCons he _ ihe ihrest =>
    rw [he.env_eq] at ihrest
    exact ihe.append he.marks ihrest
  | argsFree he _ ihe ihrest =>
    rw [he.env_eq] at ihrest
    exact ihe.append he.marks ihrest
  | argsCons he _ ihe ihrest =>
    rw [he.env_eq] at ihrest
    exact ihe.append he.marks ihrest
  | pairInt _ hl _ ihl ihr =>
    rw [hl.env_eq] at ihr
    exact ihl.append hl.marks ihr
  | pairFloat _ hl _ ihl ihr =>
    rw [hl.env_eq] at ihr
    exact ihl.append hl.marks ihr
  | @memberInt _ _ _ _ operand _ _ _ hv _ ih =>
    obtain ⟨⟨node, ty, span⟩, emitted⟩ := operand
    cases hv
    exact ih
  | memberValue _ he _ ihe ihrest =>
    rw [he.env_eq] at ihrest
    exact ihe.append he.marks ihrest
  | @definition s s₁ s₂ header prologue body params first second hparams hf hs ihf ihs =>
    intro again hfresh hproper
    have hnames := hf.localNames_eq
    have hnames' := hs.localNames_eq
    -- prologue and body see the scope of the function first; their names are those of its outline
    rw [hf.env_eq] at ihs hnames'
    rw [@State.env_of_scopes_cons s _ header.frame (by simp)] at ihf ihs hnames hnames'
    have hbody := (s.adds_beginFunction header params).append (s.marks_beginFunction header params)
      (ihf.append hf.marks ihs) again hfresh hproper
    refine ⟨(State.globals_endFunction ..).trans hbody.globals, by cases again <;> rfl, ?_⟩
    rw [State.funcs_endFunction, List.map_append, List.map_singleton, Emit.Header.summary_func,
      hnames, hbody.funcs, State.locals_eq_addLocals hbody.table rfl]
    have hnames' : second.localNames = _ := (List.append_nil _).symm.trans hnames'
    rw [hnames']
    cases again <;>
      simp [Task.outlines, Task.occurrences, Task.variables, Outline.summary, Outline.ofFunction,
        Outline.locals, Emit.Header.paramTypes_eq hparams, State.funcs, State.takeLocals]

end PatchCompiler
