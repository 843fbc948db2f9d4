import PatchCompiler.Proofs.Locals.Occurrence
import PatchCompiler.Proofs.Locals.Scopes

/-! # The functions of an expression

`Expr.outlines` lists the functions that an expression makes the compiler write, in the order they
are written: their parameters, results and local variables, and the occurrences of local variables
in their code.

The array of an element that is assigned to is compiled twice. Its scopes have been declared by the
time of the second run, so that a function written then declares no local variable at all; the
parameter `again` tells the two apart. -/

namespace PatchCompiler

/-- What is known of a function that is written, apart from its code. -/
structure Outline where
  /-- Name of the function. -/
  name : String
  /-- Parameters in call order. -/
  params : List (String × ValType)
  /-- Kind of the result, if there is one. -/
  result : Option Kind
  /-- Local variables that its scope and its blocks bind, in the order they are opened. -/
  bound : List (String × ValType)
  /-- Whether it has been written before. -/
  again : Bool
  /-- Occurrences of local variables, in the order of the code. -/
  occurrences : List Occurrence

/-- Local variables that a function declares: the first one of each name, and none at all if it has
been written before. -/
def Outline.locals (o : Outline) : List (String × ValType) :=
  if o.again then [] else addLocals [] o.bound

/-- The parameters that a frame binds, with their types. -/
def Frame.paramTypes (frame : Frame) (params : List String) : List (String × ValType) :=
  params.filterMap fun x => (frame.find? x).map fun v => (x, v.kind.paramType)

mutual

/-- Local variables that the blocks of an expression add to the running function, in the order they
are declared. -/
def Expr.variables : Expr Frame → List (String × ValType)
  | .mk (.statements items) _ _ => Expr.variablesList items
  | .mk (.sequence items) _ _ => Expr.variablesList items
  | .mk (.floatLit _) _ _ => []
  | .mk (.intLit _) _ _ => []
  | .mk (.ident _) _ _ => []
  | .mk (.function ..) _ _ => []
  | .mk (.block body frame) _ _ => frame.scope.variables ++ body.variables
  | .mk (.call _ args) _ _ => Expr.variablesList args
  | .mk (.neg operand) _ _ => operand.variables
  | .mk (.binary _ left right) _ _ => left.variables ++ right.variables
  | .mk (.compare _ left right) _ _ => left.variables ++ right.variables
  | .mk (.step _ target) _ _ => target.variables
  | .mk (.compound _ target value) _ _ => target.variables ++ value.variables
  | .mk (.clamp value (.mk (.range (some low) (some high)) _ _)) _ _ =>
    value.variables ++ (high.variables ++ low.variables)
  | .mk (.clamp ..) _ _ => []
  | .mk (.range ..) _ _ => []
  | .mk (.array members) _ _ => Expr.variablesList members
  | .mk (.index array none) _ _ => array.variables
  | .mk (.index _ (some _)) _ _ => []
  | .mk (.field ..) _ _ => []
  | .mk (.assign (.mk (.index array (some index)) _ _) value) _ _ =>
    value.variables ++ (array.variables ++ index.variables)
  | .mk (.assign (.mk (.field object _) _ _) value) _ _ => value.variables ++ object.variables
  | .mk (.assign _ value) _ _ => value.variables
  | .mk (.loop cond body) _ _ => cond.variables ++ body.variables

/-- Local variables that the blocks of a list of expressions add. -/
def Expr.variablesList : List (Expr Frame) → List (String × ValType)
  | [] => []
  | e :: rest => e.variables ++ Expr.variablesList rest

end

/-- The outline of a function in an environment. -/
def Outline.ofFunction (env : Env) (again : Bool) (name : String) (params : List String)
    (result : Option Kind) (frame : Frame) (prologue : Option (Expr Frame)) (body : Expr Frame) :
    Outline :=
  { name := name
    params := frame.paramTypes params
    result := result
    bound := frame.scope.variables ++ (Expr.variablesList prologue.toList ++ body.variables)
    again := again
    occurrences :=
      Expr.occurrencesList (env.enter frame) prologue.toList
        ++ body.occurrences (env.enter frame) }

mutual

/-- Outlines of the functions that an expression makes the compiler write. The name is given to the
expression if it is a function definition. -/
def Expr.outlines (env : Env) (again : Bool) : Option String → Expr Frame → List Outline
  | _, .mk (.statements items) _ _ => Expr.outlinesList env again items
  | _, .mk (.sequence items) _ _ => Expr.outlinesList env again items
  | _, .mk (.floatLit _) _ _ => []
  | _, .mk (.intLit _) _ _ => []
  | _, .mk (.ident _) _ _ => []
  | none, .mk (.function ..) _ _ => []
  | some name, .mk (.function params result prologue body frame) _ _ =>
    Expr.outlinesOption (env.enter frame) again prologue
      ++ (body.outlines (env.enter frame) again none
        ++ [.ofFunction env again name params result frame prologue body])
  | _, .mk (.block body frame) _ _ => body.outlines (env.enter frame) again none
  | _, .mk (.call _ args) _ _ => Expr.outlinesList env again args
  | _, .mk (.neg operand) _ _ => operand.outlines env again none
  | _, .mk (.binary _ left right) _ _ =>
    left.outlines env again none ++ right.outlines env again none
  | _, .mk (.compare _ left right) _ _ =>
    left.outlines env again none ++ right.outlines env again none
  | _, .mk (.step _ target) _ _ => target.outlines env again none
  | _, .mk (.compound _ target value) _ _ =>
    target.outlines env again none ++ value.outlines env again none
  | _, .mk (.clamp value (.mk (.range (some low) (some high)) _ _)) _ _ =>
    value.outlines env again none
      ++ (high.outlines env again none ++ low.outlines env again none)
  | _, .mk (.clamp ..) _ _ => []
  | _, .mk (.range ..) _ _ => []
  | _, .mk (.array members) _ _ => Expr.outlinesList env again members
  | _, .mk (.index array none) _ _ => array.outlines env again none
  | _, .mk (.index _ (some _)) _ _ => []
  | _, .mk (.field ..) _ _ => []
  | _, .mk (.assign (.mk (.index array (some index)) _ _) value) _ _ =>
    value.outlines env again none
      ++ (array.outlines env again none
        ++ (index.outlines env again none ++ array.outlines env true none))
  | _, .mk (.assign (.mk (.field object _) _ _) value) _ _ =>
    value.outlines env again none
      ++ (object.outlines env again none ++ object.outlines env true none)
  | _, .mk (.assign (.mk (.ident x) _ _) value) _ _ =>
    value.outlines env again (if value.isFunction then some x else none)
  | _, .mk (.assign _ value) _ _ => value.outlines env again none
  | _, .mk (.loop cond body) _ _ =>
    cond.outlines env again none ++ body.outlines env again none

/-- Outlines of the functions of a list of expressions. -/
def Expr.outlinesList (env : Env) (again : Bool) : List (Expr Frame) → List Outline
  | [] => []
  | e :: rest => e.outlines env again none ++ Expr.outlinesList env again rest

/-- Outlines of the functions of an expression that may be missing. -/
def Expr.outlinesOption (env : Env) (again : Bool) : Option (Expr Frame) → List Outline
  | none => []
  | some e => e.outlines env again none

end

/-! ## Tasks -/

/-- The scopes that a task opens. -/
def Task.scopes : Task → List (List String × Frame)
  | .expr e _ => e.scopes
  | .operand e _ => e.scopes
  | .list es => Expr.scopesList es
  | .args _ es => Expr.scopesList es
  | .pair _ left right => left.scopes ++ right.scopes
  | .position (.computed index) => index.scopes
  | .position (.fixed _) => []
  | .members _ _ layout => Expr.scopesList (Member.exprs layout)
  | .definition header prologue body =>
    (header.params, header.frame) :: (Expr.scopesList prologue.toList ++ body.scopes)

/-- Local variables that the blocks of a task add to the running function. -/
def Task.variables : Task → List (String × ValType)
  | .expr e _ => e.variables
  | .operand e _ => e.variables
  | .list es => Expr.variablesList es
  | .args _ es => Expr.variablesList es
  | .pair _ left right => left.variables ++ right.variables
  | .position (.computed index) => index.variables
  | .position (.fixed _) => []
  | .members _ _ layout => Expr.variablesList (Member.exprs layout)
  | .definition .. => []

/-- Outlines of the functions that a task makes the compiler write. -/
def Task.outlines (env : Env) (again : Bool) : Task → List Outline
  | .expr e name => e.outlines env again name
  | .operand e _ => e.outlines env again none
  | .list es => Expr.outlinesList env again es
  | .args _ es => Expr.outlinesList env again es
  | .pair _ left right => left.outlines env again none ++ right.outlines env again none
  | .position (.computed index) => index.outlines env again none
  | .position (.fixed _) => []
  | .members _ _ layout => Expr.outlinesList env again (Member.exprs layout)
  | .definition header prologue body =>
    Expr.outlinesList (env.enter header.frame) again prologue.toList
      ++ (body.outlines (env.enter header.frame) again none
        ++ [.ofFunction env again header.name header.params header.result header.frame prologue
          body])

/-! ## Functions that are written again -/

/-- Each function of a list is one of another list that is written for the first time. -/
def Outline.Covers (first os : List Outline) : Prop :=
  ∀ o ∈ os, ∃ o' ∈ first, o'.name = o.name ∧ o'.again = false

namespace Outline.Covers

variable {first first' os os' : List Outline}

/-- Nothing has to be covered where there are no functions. -/
theorem nil : Covers first [] := fun _ ho => absurd ho List.not_mem_nil

/-- More functions cover what some of them do. -/
theorem mono (h : Covers first os) (hsub : first ⊆ first') : Covers first' os := fun o ho => by
  obtain ⟨o', ho', heq⟩ := h o ho
  exact ⟨o', hsub ho', heq⟩

/-- Lists side by side. -/
theorem append (h : Covers first os) (h' : Covers first' os') :
    Covers (first ++ first') (os ++ os') := fun o ho =>
  (List.mem_append.1 ho).elim (h.mono (List.subset_append_left _ _) o)
    (h'.mono (List.subset_append_right _ _) o)

/-- What is covered twice is covered. -/
theorem again (h : Covers first os) (h' : Covers first os') : Covers first (os ++ os') :=
  fun o ho => (List.mem_append.1 ho).elim (h o) (h' o)

end Outline.Covers

mutual

/-- A function that is written again has been written before. -/
theorem Expr.covers_outlines : ∀ (e : Expr Frame) (env : Env) (again : Bool) (name : Option String),
    Outline.Covers (e.outlines env false name) (e.outlines env again name)
  | .mk (.statements items) _ _, env, again, _ => Expr.covers_outlinesList items env again
  | .mk (.sequence items) _ _, env, again, _ => Expr.covers_outlinesList items env again
  | .mk (.floatLit _) _ _, _, _, _ => .nil
  | .mk (.intLit _) _ _, _, _, _ => .nil
  | .mk (.ident _) _ _, _, _, _ => .nil
  | .mk (.function ..) _ _, _, _, none => .nil
  | .mk (.function _ _ prologue body frame) _ _, env, again, some _ =>
    (Expr.covers_outlinesOption prologue (env.enter frame) again).append
      ((body.covers_outlines (env.enter frame) again none).append fun o ho => by
        rw [List.mem_singleton.1 ho]
        exact ⟨_, List.mem_cons_self, rfl, rfl⟩)
  | .mk (.block body frame) _ _, env, again, _ => body.covers_outlines (env.enter frame) again none
  | .mk (.call _ args) _ _, env, again, _ => Expr.covers_outlinesList args env again
  | .mk (.neg operand) _ _, env, again, _ => operand.covers_outlines env again none
  | .mk (.binary _ left right) _ _, env, again, _ =>
    (left.covers_outlines env again none).append (right.covers_outlines env again none)
  | .mk (.compare _ left right) _ _, env, again, _ =>
    (left.covers_outlines env again none).append (right.covers_outlines env again none)
  | .mk (.step _ target) _ _, env, again, _ => target.covers_outlines env again none
  | .mk (.compound _ target value) _ _, env, again, _ =>
    (target.covers_outlines env again none).append (value.covers_outlines env again none)
  | .mk (.clamp value range) _ _, env, again, _ => by
    obtain ⟨node, ty, span⟩ := range
    cases node with
    | range start stop =>
      rcases start with _ | low
      · exact .nil
      · rcases stop with _ | high
        · exact .nil
        · exact (value.covers_outlines env again none).append
            ((high.covers_outlines env again none).append (low.covers_outlines env again none))
    | _ => exact .nil
  | .mk (.range ..) _ _, _, _, _ => .nil
  | .mk (.array members) _ _, env, again, _ => Expr.covers_outlinesList members env again
  | .mk (.index array none) _ _, env, again, _ => array.covers_outlines env again none
  | .mk (.index _ (some _)) _ _, _, _, _ => .nil
  | .mk (.field ..) _ _, _, _, _ => .nil
  | .mk (.assign target value) _ _, env, again, _ => by
    have hvalue := fun name => value.covers_outlines env again name
    obtain ⟨node, ty, span⟩ := target
    cases node with
    | index array index =>
      rcases index with _ | index
      · exact hvalue none
      · -- what the second run of the array writes is covered by the first one
        refine (hvalue none).append (.again ?_ (.again ?_ ?_))
        · exact (array.covers_outlines env again none).mono (by simp)
        · exact (index.covers_outlines env again none).mono (by simp)
        · exact (array.covers_outlines env true none).mono (by simp)
    | field object field =>
      refine (hvalue none).append (.again ?_ ?_)
      · exact (object.covers_outlines env again none).mono (by simp)
      · exact (object.covers_outlines env true none).mono (by simp)
    | ident x => exact hvalue _
    | _ => exact hvalue none
  | .mk (.loop cond body) _ _, env, again, _ =>
    (cond.covers_outlines env again none).append (body.covers_outlines env again none)

/-- The same for a list of expressions. -/
theorem Expr.covers_outlinesList : ∀ (es : List (Expr Frame)) (env : Env) (again : Bool),
    Outline.Covers (Expr.outlinesList env false es) (Expr.outlinesList env again es)
  | [], _, _ => .nil
  | e :: rest, env, again =>
    (e.covers_outlines env again none).append (Expr.covers_outlinesList rest env again)

/-- The same for an expression that may be missing. -/
theorem Expr.covers_outlinesOption : ∀ (e : Option (Expr Frame)) (env : Env) (again : Bool),
    Outline.Covers (Expr.outlinesOption env false e) (Expr.outlinesOption env again e)
  | none, _, _ => .nil
  | some e, env, again => e.covers_outlines env again none

end

end PatchCompiler
