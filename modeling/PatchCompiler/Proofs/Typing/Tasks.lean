import Mathlib.Data.List.Nodup
import PatchCompiler.Proofs.Typing.Forms

/-! # What is claimed of a task

`Task.Sound` says what holds of a task and of the codes that the compiler gives for it: wherever the
task is allowed, the codes have the types that belong to it, and the functions written on the way are
accepted. `Sited` ties what surrounds the task in the program to the state of the compiler and to
what the code may refer to. -/

namespace PatchCompiler

open Validation

/-! ## Programs and modules -/

/-- The functions of a program are there in a module with their types. -/
structure Linked (i : Interface) (functions : List Outline) : Prop where
  /-- Functions have different names. -/
  names : (functions.map Outline.name).Nodup
  /-- The module has each function with its type. -/
  signature : ∀ o ∈ functions,
    i.functions.lookup o.name = some (o.params.map Prod.snd, o.result.map Kind.valType)
  /-- No function is written a second time. -/
  once : ∀ o ∈ functions, o.again = false
  /-- The parameters and local variables of a function have different names. -/
  locals : ∀ o ∈ functions, ((o.params ++ o.bound).map Prod.fst).Nodup

/-- What a state has gathered goes into a module. -/
structure State.Within (s : State) (i : Interface) (functions : List Outline) : Prop where
  /-- Library functions are there. -/
  includes : ∀ snippet ∈ s.includes,
    i.functions.lookup snippet.name = some ([.i32, .i32], some .i32)
  /-- Functions that have been written are those of the program. -/
  funcs : ∀ f ∈ s.funcs, ∃ o ∈ functions, f.summary = o.summary
  /-- Functions that have been begun are those of the program. -/
  signatures : ∀ entry ∈ s.signatures, ∃ o ∈ functions, o.entry = entry
  /-- Memory is there if some has been handed out. -/
  memory : s.arena.cursor ≠ 0 → i.memory = true

/-- What goes into a module at some point has been on its way before. -/
theorem State.Within.of_grows {s s' : State} {i : Interface} {functions : List Outline}
    (h : s'.Within i functions) (hgrows : s.Grows s') : s.Within i functions where
  includes snippet hmem := h.includes snippet (hgrows.includes hmem)
  funcs f hmem := h.funcs f (hgrows.funcs hmem)
  signatures entry hmem := h.signatures entry (hgrows.signatures hmem)
  memory hcursor := h.memory (hgrows.memory hcursor)

/-- A function of the program is written with the parameters and local variables that it binds. -/
theorem Linked.context_eq {header : Emit.Header} {w : Setting} {i : Interface} {again : Bool}
    {prologue : Option (Expr Frame)} {body : Expr Frame} {f : Func} (hlinked : Linked i w.functions)
    (hlisted : Outline.ofFunction w.env again header.name header.params header.result header.frame
      prologue body ∈ w.functions)
    (hf : ∃ o ∈ w.functions, f.summary = o.summary) (hname : f.name = header.name) :
    f.params ++ f.locals = (w.inside header.params header.frame prologue body).locals ∧
      ((f.params ++ f.locals).map Prod.fst).Nodup := by
  obtain ⟨o, ho, hsummary⟩ := hf
  simp only [Func.summary, Outline.summary, Prod.mk.injEq] at hsummary
  obtain ⟨hname', hparams, _, hlocals, _⟩ := hsummary
  -- names of functions differ, so the outline of this name is the one at hand
  cases List.inj_on_of_nodup_map hlinked.names ho hlisted (hname'.symm.trans hname)
  have hnodup := hlinked.locals _ hlisted
  have honce : again = false := hlinked.once _ hlisted
  have hbound : f.locals = (Outline.ofFunction w.env again header.name header.params header.result
      header.frame prologue body).bound := by
    rw [hlocals, Outline.locals, if_neg (by rw [Outline.ofFunction, honce]; exact Bool.false_ne_true),
      addLocals_of_nodup]
    · rfl
    · rw [List.map_append] at hnodup
      exact hnodup.of_append_right
  rw [hparams, hbound]
  exact ⟨rfl, hnodup⟩

/-- An expression is compiled in a state, for code that refers to a context: what surrounds the
expression in the program is what the state and the context hold. -/
structure Sited (w : Setting) (known : List String) (c : Context) (s : State) : Prop where
  /-- Names stand for the same variables. -/
  env : w.env = s.env
  /-- The functions of the program are there. -/
  linked : Linked c.interface w.functions
  /-- The global variables of the program are there. -/
  globals : ∀ v ∈ w.globals, c.interface.globals.lookup v.1 = some v.2
  /-- The variables of the running function are there. -/
  locals : ∀ v ∈ w.locals, c.locals.lookup v.1 = some v.2
  /-- Memory is there if the program holds an array literal. -/
  memory : c.interface.memory = w.memory
  /-- The functions that are known have been begun. -/
  known : ∀ name ∈ known, ∃ params, (name, params) ∈ s.signatures

namespace Sited

variable {w : Setting} {known : List String} {c : Context} {s s' : State}

/-- A later state in the same surroundings. -/
theorem later (h : Sited w known c s) (henv : s'.env = s.env)
    (hsignatures : s.signatures ⊆ s'.signatures) : Sited w known c s' where
  env := h.env.trans henv.symm
  linked := h.linked
  globals := h.globals
  locals := h.locals
  memory := h.memory
  known name hname := by
    obtain ⟨params, hmem⟩ := h.known name hname
    exact ⟨params, hsignatures hmem⟩

/-- After a task, its functions are known. -/
theorem after {task : Task} {codes : List Code} (h : Sited w known c s)
    (hemits : Emits s task codes s') :
    Sited w ((task.outlines w.env false).map Outline.name ++ known) c s' := by
  have hlater := h.later hemits.env_eq hemits.grows.signatures
  refine ⟨hlater.env, hlater.linked, hlater.globals, hlater.locals, hlater.memory, ?_⟩
  intro name hname
  -- functions of the task have just been recorded, the others were before
  rcases List.mem_append.1 hname with hnew | hold
  · obtain ⟨o, ho, rfl⟩ := List.mem_map.1 hnew
    rw [h.env] at ho
    exact ⟨_, (hemits.mem_signatures false o.entry).2 (.inr ⟨o, ho, rfl⟩)⟩
  · exact hlater.known name hold

/-- Asking for a library function changes nothing. -/
theorem require (h : Sited w known c s) (snippet : Snippet) :
    Sited w known c (s.require snippet) :=
  h.later (by simp) (by simp)

/-- Inside a loop there is one more label. -/
theorem enterLoop (h : Sited w known c s) (label : Label) :
    Sited w known (c.enter label) s.enterLoop :=
  ⟨h.env, h.linked, h.globals, h.locals, h.memory, h.known⟩

/-- Inside a block. -/
theorem enter (h : Sited w known c s) (frame : Frame) :
    Sited (w.enter frame) known c ((s.enter frame).declareScope frame) where
  env := by
    rw [@State.env_of_scopes_cons s _ frame (by simp), ← h.env]
    rfl
  linked := h.linked
  globals := h.globals
  locals := h.locals
  memory := h.memory
  known name hname := by
    obtain ⟨params, hmem⟩ := h.known name hname
    exact ⟨params, by simpa [State.enter] using hmem⟩

/-- Inside a function its own name is known, and its own variables are the local ones. -/
theorem inside {header : Emit.Header} {prologue : Option (Expr Frame)} {body : Expr Frame} {f : Func}
    (params : List (String × ValType)) (h : Sited w known c s)
    (hlocals : f.params ++ f.locals = (w.inside header.params header.frame prologue body).locals)
    (hnodup : ((f.params ++ f.locals).map Prod.fst).Nodup) :
    Sited (w.inside header.params header.frame prologue body) (header.name :: known)
      (f.context c.interface) (s.beginFunction header params) where
  env := by
    rw [@State.env_of_scopes_cons s _ header.frame (by simp), ← h.env]
    rfl
  linked := h.linked
  globals := h.globals
  locals v hv := by
    rw [← hlocals] at hv
    exact lookup_of_nodup hnodup hv
  memory := h.memory
  known name hname := by
    rw [State.signatures_beginFunction]
    rcases List.mem_cons.1 hname with rfl | hname
    · exact ⟨_, List.mem_cons_self⟩
    · obtain ⟨types, hmem⟩ := h.known name hname
      exact ⟨types, List.mem_cons_of_mem _ hmem⟩

/-- A variable that an expression refers to is declared. -/
theorem declares (h : Sited w known c s) {x : String} {v : Variable} (hrefers : w.Refers x)
    (hv : s.lookup x = some v) (hkind : v.kind ≠ .function) :
    v.kind ≠ .range ∧ c.Declares x v := by
  have henv : w.env x = some v := by
    rw [h.env]
    exact hv
  obtain ⟨hrange, hmem⟩ := (hrefers v henv).resolve_left hkind
  refine ⟨hrange, ?_⟩
  unfold Context.Declares
  cases hglobal : v.isGlobal with
  | true =>
    rw [hglobal] at hmem
    exact h.globals _ hmem
  | false =>
    rw [hglobal] at hmem
    exact h.locals _ hmem

/-- A function of the program is found under its name. -/
theorem function?_eq (h : Sited w known c s) {o : Outline} (ho : o ∈ w.functions) :
    w.function? o.name = some o := by
  cases hfound : w.function? o.name with
  | none =>
    have hne := List.find?_eq_none.1 hfound o ho
    simp at hne
  | some o' =>
    have hname : o'.name = o.name := by simpa using List.find?_some hfound
    rw [List.inj_on_of_nodup_map h.linked.names (List.mem_of_find?_eq_some hfound) ho hname]

/-- The compiler finds the parameters of a function which has been begun. -/
theorem signature?_eq (h : Sited w known c s) (hs : s.Within c.interface w.functions) {o : Outline}
    (ho : o ∈ w.functions) (hknown : o.name ∈ known) :
    s.signature? o.name = some (o.params.map Prod.snd) := by
  obtain ⟨params, hmem⟩ := h.known o.name hknown
  have hparams : ∀ params, (o.name, params) ∈ s.signatures → params = o.params.map Prod.snd := by
    intro params hmem
    obtain ⟨o', ho', hentry⟩ := hs.signatures _ hmem
    obtain ⟨hname, rfl⟩ := Prod.mk.inj hentry
    rw [List.inj_on_of_nodup_map h.linked.names ho' ho hname]
  rw [hparams params hmem] at hmem
  exact lookup_eq_some_of_mem hmem hparams

/-- A call that fits a function which has been begun finds its signature. -/
theorem signature_of_fits (h : Sited w known c s) (hs : s.Within c.interface w.functions)
    {callee : String} {args : Nat} {ty : Option Kind} (hknown : callee ∈ known)
    (hfits : w.Fits callee args ty) :
    ∃ types, s.signature? callee = some types ∧ types.length = args ∧
      ∃ result, (Op.call callee).signature? c = some (types, result) ∧
        w.hasResult callee = result.isSome ∧ (result.isSome = true → result = ty.map Kind.valType) := by
  obtain ⟨o, ho, rfl, hlength, hty⟩ := hfits
  refine ⟨o.params.map Prod.snd, h.signature?_eq hs ho hknown, by rw [List.length_map, hlength],
    o.result.map Kind.valType, h.linked.signature o ho, ?_, ?_⟩
  · rw [Setting.hasResult, h.function?_eq ho, Option.isSome_map]
    rfl
  · intro hresult
    obtain ⟨kind, hkind⟩ := Option.isSome_iff_exists.1 (by simpa using hresult)
    rw [hkind, hty kind hkind]

end Sited

/-! ## What is asked of a task -/

namespace Task

/-- Names, calls and annotations of a task are used as declared. -/
def Regular (w : Setting) (known : List String) : Task → Prop
  | .expr e name => e.Regular w known name
  | .operand e _ => e.Regular w known none
  | .list es => Expr.RegularList w known es
  | .args _ es => Expr.RegularList w known es
  | .pair _ left right =>
    left.Regular w known none ∧ right.Regular w (left.defines w.env ++ known) none
  | .position (.computed index) => index.Regular w known none
  | .position (.fixed _) => True
  | .members _ _ layout => Expr.RegularList w known (Member.exprs layout)
  | .definition header prologue body =>
    Expr.RegularList (w.inside header.params header.frame prologue body) (header.name :: known)
        prologue.toList ∧
      body.Regular (w.inside header.params header.frame prologue body)
        ((Expr.outlinesList (w.env.enter header.frame) false prologue.toList).map Outline.name
          ++ header.name :: known) none

/-- Operands in a task leave the values that their instructions take. -/
def Disciplined (w : Setting) : Task → Prop
  | .expr e _ => e.Disciplined w
  | .operand e _ => e.Disciplined w ∧ (e.leaves w).value = true
  | .list es => Expr.DisciplinedList w es
  | .args _ es => Expr.DisciplinedList w es ∧ Expr.Operands w es
  | .pair _ left right =>
    left.Disciplined w ∧ right.Disciplined w ∧ Expr.Operands w [left, right]
  | .position (.computed index) => index.Disciplined w ∧ index.leaves w = .single
  | .position (.fixed _) => True
  | .members _ _ layout =>
    Expr.DisciplinedList w (Member.exprs layout) ∧
      ∀ e ∈ Member.exprs layout, e.leaves w = .single
  | .definition header prologue body =>
    Expr.DisciplinedList (w.inside header.params header.frame prologue body) prologue.toList ∧
      body.Disciplined (w.inside header.params header.frame prologue body) ∧
      (header.result.isSome = true →
        (body.leaves (w.inside header.params header.frame prologue body)).value = true)

/-- A task is allowed: its functions are those of the program, and it is regular and disciplined. -/
structure Allowed (task : Task) (w : Setting) (known : List String) (again : Bool) : Prop where
  /-- Its functions are those of the program. -/
  listed : ∀ o ∈ task.outlines w.env again, o ∈ w.functions
  /-- It is regular. -/
  regular : task.Regular w known
  /-- It is disciplined. -/
  disciplined : task.Disciplined w

/-- Codes have the types that belong to a task. -/
def Typed (w : Setting) (c : Context) : Task → List Code → Prop
  | .expr e _, [code] => code.Typed c (e.kind w.env) (e.leaves w)
  | .operand e type, [code] =>
    ∃ beneath, beneath.length = (e.leaves w).beneath ∧ code.Pushes c (type :: beneath)
  | .list es, codes =>
    List.Forall₂ (fun e code => Code.Typed c code (e.kind w.env) (e.leaves w)) es codes
  | .args types es, codes =>
    types.length = es.length →
      -- what the first argument leaves beneath its value is all there is beneath
      (∃ beneath, beneath.length = Expr.beneathFirst w es ∧
        Code.PushAll c codes (types.reverse ++ beneath)) ∧ ∀ code ∈ codes, code ≠ []
  | .pair ops left right, [code] =>
    ops.float ≠ .neg →
      ∃ beneath, beneath.length = (left.leaves w).beneath ∧
        code.Pushes c ((if Kind.arithmetic [left.kind w.env, right.kind w.env] = .int then .i32
          else ops.float.resultType) :: beneath)
  | .position _, [code] => code.Pushes c [.i32]
  | .members .., codes => c.interface.memory = true → ∀ code ∈ codes, code.Pushes c []
  -- a function leaves nothing, and no other task has another number of codes
  | _, _ => True

end Task

/-- All functions that have been written are accepted. -/
def State.Accepted (s : State) (i : Interface) : Prop := ∀ f ∈ s.funcs, f.Accepted i

/-- Wherever a task is allowed, its codes have the types that belong to it, and the functions written
on the way are accepted. -/
def Task.Sound (task : Task) (codes : List Code) (s s' : State) : Prop :=
  ∀ (w : Setting) (known : List String) (c : Context) (again : Bool), Sited w known c s →
    s'.Within c.interface w.functions → task.Allowed w known again →
    task.Typed w c codes ∧ (s.Accepted c.interface → s'.Accepted c.interface)

/-- The kind of a node other than a call is the one that its form implies. -/
theorem Node.Annotated.kind_eq {env : Env} {node : Node Frame} {ty : Option Kind} {span : Span}
    (h : node.Annotated env ty span) (hcall : node.isCall = false) :
    (Expr.mk node ty span).kind env = (Expr.mk node none span).kind env := by
  cases ty with
  | none => rfl
  | some kind =>
    cases node with
    | call callee args => cases hcall
    | floatLit | intLit | ident => rfl
    | _ => exact (h rfl kind rfl).symm

/-- A member that is stored as a number is no range. -/
theorem Member.kind_ne_range {kind : Option Kind} {operand stored : Operand}
    (h : ofOperand kind operand = .ok (.value stored)) : kind ≠ some .range := by
  rintro rfl
  simp only [ofOperand, ofRange] at h
  split at h
  · split at h
    · split at h <;> cases h
    · cases h
    · cases h
  · cases h

section Members

variable {w : Setting} {members : List (Expr Frame)} {layout : List Member}

/-- The layout of a regular array literal is regular: fixed ranges define no functions. -/
theorem regularList_of_classified {known : List String}
    (h : List.Forall₂ (fun e m => Member.ofOperand (e.kind w.env) ⟨e, e.emit⟩ = .ok m)
      members layout) (hregular : Expr.RegularList w known members) :
    Expr.RegularList w known (Member.exprs layout) := by
  induction h generalizing known with
  | nil => exact trivial
  | @cons e m members layout hm _ ih =>
    -- only members that are stored as numbers are in the layout
    rcases Member.ofOperand_cases hm with rfl | ⟨hrange, hne⟩
    · exact ⟨hregular.1, ih hregular.2⟩
    · have hdefines : e.defines w.env = [] := by cases hrange <;> rfl
      have hrest := hregular.2
      rw [hdefines] at hrest
      cases m with
      | value operand => exact absurd rfl (hne operand)
      | ints | reserve => exact ih hrest

/-- The members of a disciplined array literal that are stored as numbers leave single values. -/
theorem disciplinedList_of_classified
    (h : List.Forall₂ (fun e m => Member.ofOperand (e.kind w.env) ⟨e, e.emit⟩ = .ok m)
      members layout) (hdisciplined : Expr.DisciplinedList w members)
    (hsingle : ∀ e ∈ members, e.kind w.env ≠ some .range → e.leaves w = .single) :
    Expr.DisciplinedList w (Member.exprs layout) ∧
      ∀ e ∈ Member.exprs layout, e.leaves w = .single := by
  induction h with
  | nil => exact ⟨trivial, by simp [Member.exprs]⟩
  | @cons e m members layout hm _ ih =>
    rw [List.forall_mem_cons] at hsingle
    obtain ⟨hrest, hsingles⟩ := ih hdisciplined.2 hsingle.2
    rcases Member.ofOperand_cases hm with rfl | ⟨_, hne⟩
    · exact ⟨⟨hdisciplined.1, hrest⟩,
        List.forall_mem_cons.2 ⟨hsingle.1 (Member.kind_ne_range hm), hsingles⟩⟩
    · cases m with
      | value operand => exact absurd rfl (hne operand)
      | ints | reserve => exact ⟨hrest, hsingles⟩

end Members

section Position

variable {w : Setting} {target array value : Expr Frame} {p : Position} {ty : Option Kind}
  {span : Span}

/-- What is regular in an element store. -/
theorem regular_of_position {known : List String} {name : Option String}
    (h : target.position? = some (array, p))
    (hregular : (Expr.mk (.assign target value) ty span).Regular w known name) :
    value.Regular w known none ∧ array.Regular w (value.defines w.env ++ known) none ∧
      Task.Regular w (array.defines w.env ++ (value.defines w.env ++ known)) (.position p) := by
  -- the target is no name, so a function defined in the value gets none either
  have hident : target.ident? = none := by
    cases Expr.locates_of_position h <;> rfl
  cases Expr.locates_of_position h with
  | element =>
    obtain ⟨_, hvalue, _, htarget⟩ := hregular
    rw [hident, ite_self] at hvalue
    exact ⟨hvalue, htarget⟩
  | field =>
    obtain ⟨_, hvalue, _, htarget⟩ := hregular
    rw [hident, ite_self] at hvalue
    exact ⟨hvalue, htarget, trivial⟩

/-- What is disciplined in an element store; it leaves nothing. -/
theorem disciplined_of_position (h : target.position? = some (array, p))
    (hdisciplined : (Expr.mk (.assign target value) ty span).Disciplined w) :
    w.memory = true ∧ (value.Disciplined w ∧ value.leaves w = .single) ∧
      (array.Disciplined w ∧ array.leaves w = .single) ∧ Task.Disciplined w (.position p) ∧
      (Expr.mk (.assign target value) ty span).leaves w = .nothing := by
  cases Expr.locates_of_position h with
  | @element _ index =>
    obtain ⟨⟨hmemory, harray, hindex, _⟩, hvalue, _, hsingle⟩ := hdisciplined
    have hsingle := hsingle (List.cons_ne_nil _ _)
    exact ⟨hmemory, ⟨hvalue, hsingle value (by simp)⟩,
      ⟨harray, hsingle array (by simp [Expr.parts])⟩,
      ⟨hindex, hsingle index (by simp [Expr.parts])⟩, rfl⟩
  | field =>
    obtain ⟨⟨hmemory, hobject⟩, hvalue, _, hsingle⟩ := hdisciplined
    have hsingle := hsingle (List.cons_ne_nil _ _)
    exact ⟨hmemory, ⟨hvalue, hsingle value (by simp)⟩,
      ⟨hobject, hsingle _ (by simp [Expr.parts])⟩, trivial, rfl⟩

end Position

/-- Operands after the first one are operands themselves, and leave nothing beneath. -/
theorem Expr.Operands.tail {w : Setting} {e : Expr Frame} {es : List (Expr Frame)}
    (h : Expr.Operands w (e :: es)) :
    Expr.Operands w es ∧ Expr.beneathFirst w es = 0 := by
  cases es with
  | nil => exact ⟨trivial, rfl⟩
  | cons next rest =>
    have hnext : next.leaves w = .single := h.2 next List.mem_cons_self
    have hrest : ∀ other ∈ rest, other.leaves w = .single := fun other hother =>
      h.2 other (List.mem_cons_of_mem _ hother)
    refine ⟨⟨Leaving.value_of_single hnext, hrest⟩, ?_⟩
    show (next.leaves w).beneath = 0
    rw [hnext]
    rfl

end PatchCompiler
