import PatchCompiler.Proofs.Typing.Effects
import PatchCompiler.Proofs.Typing.Tasks

/-! # Code is accepted as its tree says

The code that the compiler gives for a task does to the stack what the effect of the task says, also
where it is refused. Main statement: a run adds functions all of which are accepted exactly if the
function definitions that it comes to lead to their results. -/

namespace PatchCompiler

open Validation

/-! ## Code of each form -/

/-- Types of a floating-point instruction. -/
def FloatOp.signature (op : FloatOp) : Signature :=
  if op = .neg then ([.f64], some .f64) else ([.f64, .f64], some op.resultType)

/-- The types of a floating-point instruction do not depend on what it may refer to. -/
theorem FloatOp.signature?_float (c : Context) (op : FloatOp) :
    (Op.float op).signature? c = some op.signature := by
  cases op <;> rfl

namespace Code

variable {c : Context} {code first second array index again value : Code} {f g h : Effect}

/-- A variable that is declared is read. -/
theorem Does.read {x : String} {v : Variable} (hdeclared : c.Declares x v) :
    (Emit.read x v).Does c (.push v.valType) := by
  refine .constant ?_
  unfold Context.Declares at hdeclared
  cases hglobal : v.isGlobal with
  | true =>
    rw [hglobal, if_pos rfl] at hdeclared
    exact Op.signature?_getGlobal hdeclared
  | false =>
    rw [hglobal, if_neg Bool.false_ne_true] at hdeclared
    exact Op.signature?_getLocal hdeclared


/-- A variable that is declared is written and read back. -/
theorem Does.store {x : String} {v : Variable} {kind : Option Kind} (hdeclared : c.Declares x v)
    (h : code.Does c f) :
    (Emit.store x v code kind).Does c (f.andThen (.store (some v) kind)) := by
  have hread := Does.read hdeclared
  have hvalue := doAll_singleton.2 (h.apply (.fit v.valType kind))
  rw [Effect.store, ← Effect.andThen_assoc]
  unfold Context.Declares at hdeclared
  unfold Emit.store
  cases hglobal : v.isGlobal with
  | true =>
    rw [hglobal, if_pos rfl] at hdeclared
    -- the value that is written is taken from the stack, and read back
    have hset := (Does.one (Op.signature?_setGlobal hdeclared) hvalue).append_code hread
    have heffect : (Effect.ofSignature ([v.valType], none)).andThen (.push v.valType)
        = .ofSignature ([v.valType], some v.valType) := by
      funext types
      simp only [Effect.ofSignature, Effect.andThen]
      cases Effect.take _ types <;> rfl
    rw [Effect.andThen_assoc, heffect] at hset
    exact hset
  | false =>
    rw [hglobal, if_neg Bool.false_ne_true] at hdeclared
    exact .one (Op.signature?_teeLocal hdeclared) hvalue

/-- The test of a loop. -/
theorem Does.testOf (h : code.Does c f) (kind : Option Kind) :
    (Emit.testOf kind code).Does c (f.test kind) := by
  have hne : (Op.float .ne).signature? c = some ([.f64, .f64], some .i32) := rfl
  unfold Emit.testOf Effect.test
  split
  · exact .one hne (.pair h (.float _))
  · exact h

variable {fac : Facilities}

/-- An instruction on memory. -/
theorem Does.onMemory {op : Op} {signature : Signature} {operands : List Code}
    (hmemory : c.interface.memory = fac.memory) (hplain : op.isPlain = true)
    (hop : op.signature? c = if c.interface.memory then some signature else none)
    (h : DoAll c operands f) :
    (Code.one op operands).Does c (f.andThen (fac.onMemory signature)) := by
  have heffect : op.effect c = fac.onMemory signature := by
    rw [Op.effect, hop, hmemory, Facilities.onMemory]
    cases fac.memory <;> rfl
  rw [← heffect]
  exact .plain hplain h

/-- The length of an array is loaded from memory. -/
theorem Does.loadLength (hmemory : c.interface.memory = fac.memory) (h : array.Does c f) :
    (Emit.loadLength array).Does c (f.andThen fac.loadLength) := by
  have hsub : (Op.int .sub).signature? c = some ([.i32, .i32], some .i32) := rfl
  rw [Facilities.loadLength, ← Effect.andThen_assoc, ← Effect.andThen_assoc]
  exact .onMemory hmemory rfl rfl (doAll_singleton.2 (.one hsub (.pair h (.int _))))

/-- The code of an array literal stores its length in front of its members and leaves its address. -/
theorem Does.arrayOf (hmemory : c.interface.memory = true) (base : UInt32) (total : Nat)
    {stores : List Code} (h : DoAll c stores f) :
    (Emit.arrayOf base total stores).Does c (f.andThen (.push .i32)) := by
  have hop : Op.storeInt.signature? c = some ([.i32, .i32], none) := if_pos hmemory
  have hlength : (Code.one .storeInt
      [Emit.address (base.toNat - slotBytes), Emit.address total]).Does c .skip :=
    .one hop (.pair (.int _) (.int _))
  exact DoAll.join (.cons hlength (h.append (doAll_singleton.2 (.int _)))) .space

/-- An array element is written to memory. -/
theorem Does.writeElement (hmemory : c.interface.memory = fac.memory)
    (hsnippet : (Op.call Snippet.index.name).signature? c = some ([.i32, .i32], some .i32))
    (harray : array.Does c f) (hindex : index.Does c g) (hagain : again.Does c f)
    (hvalue : value.Does c h) :
    (Emit.writeElement array index again value).Does c (fac.storeElement f g h) := by
  have hint : ∀ op, (Op.int op).signature? c = some ([.i32, .i32], some .i32) := fun _ => rfl
  have hwrapped := Does.one hsnippet (.pair hindex (hagain.loadLength hmemory))
  have hoffset := Does.one (hint .shl) (.pair hwrapped (.int 3))
  have haddress := Does.one (hint .add) (.pair harray hoffset)
  have hstore : (Emit.writeElement array index again value).Does c
      (Effect.andThen _ (fac.onMemory ([.i32, .f64], none))) :=
    .onMemory hmemory rfl rfl (.pair haddress hvalue)
  simp only [Facilities.storeElement, ← Effect.andThen_assoc] at hstore ⊢
  exact hstore

end Code

/-! ## Tasks -/

namespace Facilities

/-- Constants are stored, as many as are given. -/
def storeConstants (f : Facilities) : Nat → Effect
  | 0 => .skip
  | count + 1 => (f.storeNumber (.push .f64)).andThen (f.storeConstants count)

/-- What the members of an array literal do as they are laid out. -/
def storeLayout (f : Facilities) (env : Env) : List Member → Effect
  | [] => .skip
  | .value operand :: rest =>
    (f.storeNumber ((operand.expr.effect f env).brought .f64 (operand.expr.kind env))).andThen
      (f.storeLayout env rest)
  | .ints low high :: rest =>
    (f.storeConstants (Member.intRange low high).length).andThen (f.storeLayout env rest)
  | .reserve _ :: rest => f.storeLayout env rest

/-- Where there is memory, constants can be stored. -/
theorem storeConstants_eq_skip {f : Facilities} (h : f.memory = true) (count : Nat) :
    f.storeConstants count = .skip := by
  induction count with
  | zero => rfl
  | succ count ih =>
    have hone : f.storeNumber (.push .f64) = .skip := by
      rw [storeNumber, onMemory, if_pos h]
      rfl
    rw [storeConstants, hone, ih, Effect.skip_andThen]

/-- Where there is memory, what the members of an array literal do can be read off its layout. -/
theorem storeLayout_of_classified {f : Facilities} (hmemory : f.memory = true) {env : Env}
    {members : List (Expr Frame)} {layout : List Member}
    (h : List.Forall₂ (fun e m => Member.ofOperand (e.kind env) ⟨e, e.emit⟩ = .ok m)
      members layout) :
    f.storeLayout env layout = Expr.effectMembers f env members := by
  induction h with
  | nil => rfl
  | @cons e m _ _ hm _ ih =>
    rw [Expr.effectMembers, ← ih]
    rcases Member.ofOperand_cases hm with rfl | ⟨_, hne⟩
    · rw [if_neg (Member.kind_ne_range hm), storeLayout]
    · -- only ranges are laid out in another way than as a number
      have hkind : e.kind env = some .range := by
        cases hkind : e.kind env with
        | none => rw [hkind] at hm; cases hm
        | some k =>
          rw [hkind] at hm
          cases k with
          | range => rfl
          | int | float => cases hm; exact absurd rfl (hne _)
          | pointer | function => cases hm
      rw [if_pos hkind, Effect.skip_andThen]
      cases m with
      | value operand => exact absurd rfl (hne operand)
      | ints low high => rw [storeLayout, storeConstants_eq_skip hmemory, Effect.skip_andThen]
      | reserve count => rw [storeLayout]

end Facilities

namespace Task

variable (f : Facilities) (env : Env)

/-- What the codes of a task do to the stack. -/
def effect : Task → Effect
  | .expr e _ => e.effect f env
  | .operand e type => (e.effect f env).brought type (e.kind env)
  | .list es => Expr.effectList f env es
  | .args types es => Expr.effectArgs f env types es
  | .pair ops left right =>
    .pair ops.float.signature (left.kind env) (right.kind env) (left.effect f env)
      (right.effect f env)
  | .position (.computed index) => (index.effect f env).brought .i32 (index.kind env)
  | .position (.fixed _) => .push .i32
  | .members _ _ layout => f.storeLayout env layout
  | .definition .. => .skip

/-- Whether the function leads to its result, if the task is one. -/
def leads : Task → Bool
  | .definition header prologue body =>
    (f.run (env.enter header.frame) header.result prologue body []).isSome
  | _ => true

/-- The function definitions that the compiler comes to in a task lead to their results. -/
def BodiesTyped (task : Task) : Prop :=
  (∀ v ∈ task.visits env, v.isTyped f = true) ∧ task.leads f env = true

variable {f env}

/-- In a task that is no function definition, only the nodes matter that the compiler comes to. -/
theorem bodiesTyped_iff {task : Task} (h : task.leads f env = true) :
    BodiesTyped f env task ↔ ∀ v ∈ task.visits env, v.isTyped f = true := and_iff_left h

/-- A task in which the compiler comes to the nodes of two others in turn. -/
theorem bodiesTyped_append {task first second : Task} (h : task.leads f env = true)
    (h₁ : first.leads f env = true) (h₂ : second.leads f env = true)
    (hvisits : task.visits env = first.visits env ++ second.visits env) :
    BodiesTyped f env first ∧ BodiesTyped f env second ↔ BodiesTyped f env task := by
  rw [bodiesTyped_iff h, bodiesTyped_iff h₁, bodiesTyped_iff h₂, hvisits, List.forall_mem_append]

/-- The function definitions in a node other than a function definition are those below it. -/
theorem bodiesTyped_mk {node : Node Frame} {ty : Option Kind} {span : Span} {name : Option String}
    (h : (Expr.mk node ty span).isFunction = false) :
    BodiesTyped f env (.expr (.mk node ty span) name) ↔ ∀ v ∈ node.visits env, v.isTyped f = true := by
  have htyped : Visit.isTyped f ⟨env, name, .mk node ty span⟩ = true := by
    cases node with
    | function => cases h
    | _ => rfl
  rw [bodiesTyped_iff rfl]
  show (∀ v ∈ Visit.with ⟨env, name, .mk node ty span⟩ (node.visits env), _) ↔ _
  rw [Visit.with, h, if_neg Bool.false_ne_true, List.forall_mem_cons]
  exact and_iff_right htyped

/-- A node below which the compiler comes to the nodes of a task. -/
theorem bodiesTyped_node {node : Node Frame} {ty : Option Kind} {span : Span} {name : Option String}
    {task : Task} {inner : Env} (h : (Expr.mk node ty span).isFunction = false)
    (htask : task.leads f inner = true) (hvisits : node.visits env = task.visits inner) :
    BodiesTyped f inner task ↔ BodiesTyped f env (.expr (.mk node ty span) name) := by
  rw [bodiesTyped_mk h, bodiesTyped_iff htask, hvisits]

/-- The function definitions in a function definition are those below it and the function itself. -/
theorem bodiesTyped_function {params : List String} {result : Option Kind}
    {prologue : Option (Expr Frame)} {body : Expr Frame} {frame : Frame} {ty : Option Kind}
    {span : Span} {x : String} :
    BodiesTyped f env (.expr (.mk (.function params result prologue body frame) ty span) (some x)) ↔
      BodiesTyped f env (.definition ⟨x, params, result, frame, span, .function⟩ prologue body) := by
  have hbelow : Node.visits env (.function params result prologue body frame)
      = Task.visits env (.definition ⟨x, params, result, frame, span, .function⟩ prologue body) := by
    show Expr.visitsOption _ prologue ++ _ = Expr.visitsList _ prologue.toList ++ _
    rw [Expr.visitsOption_eq]
  -- the function itself comes last
  rw [bodiesTyped_iff rfl, BodiesTyped, ← hbelow]
  exact List.forall_mem_append.trans (and_congr_right' List.forall_mem_singleton)

/-- The function definitions in a clamp are in the number and in the bounds. -/
theorem bodiesTyped_clamp {value low high : Expr Frame} {ty rangeTy : Option Kind}
    {span rangeSpan : Span} {name : Option String} :
    BodiesTyped f env (.expr value none) ∧ BodiesTyped f env (.expr high none) ∧
        BodiesTyped f env (.expr low none) ↔
      BodiesTyped f env (.expr (.mk (.clamp value
        (.mk (.range (some low) (some high)) rangeTy rangeSpan)) ty span) name) := by
  rw [bodiesTyped_mk rfl, bodiesTyped_iff rfl, bodiesTyped_iff rfl, bodiesTyped_iff rfl]
  show _ ↔ ∀ v ∈ value.visits env none
    ++ (⟨env, none, .mk (.range (some low) (some high)) rangeTy rangeSpan⟩
      :: (high.visits env none ++ low.visits env none)), v.isTyped f = true
  rw [List.forall_mem_append, List.forall_mem_cons, List.forall_mem_append]
  exact and_congr_right' (and_iff_right rfl).symm

/-- The function definitions in an assignment to a variable are in the value. -/
theorem bodiesTyped_assign {value : Expr Frame} {x : String} {given : Option String}
    {ty targetTy : Option Kind} {span targetSpan : Span} {name : Option String}
    (hgiven : (if value.isFunction then some x else none) = given) :
    BodiesTyped f env (.expr value given) ↔ BodiesTyped f env
      (.expr (.mk (.assign (.mk (.ident x) targetTy targetSpan) value) ty span) name) := by
  rw [bodiesTyped_mk rfl, bodiesTyped_iff rfl, ← hgiven]
  show _ ↔ ∀ v ∈ value.visits env _ ++ [⟨env, none, .mk (.ident x) targetTy targetSpan⟩],
    v.isTyped f = true
  rw [List.forall_mem_append, List.forall_mem_singleton]
  exact (and_iff_left rfl).symm

/-- The function definitions in an array literal are in the members that are stored as numbers. -/
theorem bodiesTyped_of_classified {members : List (Expr Frame)} {layout : List Member}
    (h : List.Forall₂ (fun e m => Member.ofOperand (e.kind env) ⟨e, e.emit⟩ = .ok m)
      members layout) :
    (∀ v ∈ Expr.visitsList env (Member.exprs layout), v.isTyped f = true) ↔
      ∀ v ∈ Expr.visitsList env members, v.isTyped f = true := by
  have hfilter (es : List (Expr Frame)) : (∀ v ∈ Expr.visitsList env es, v.isTyped f = true) ↔
      es.flatMap (fun e => (e.visits env none).filter (!·.isTyped f)) = [] := by
    rw [Expr.visitsList_eq_flatMap, List.forall_mem_flatMap]
    simp
  rw [hfilter, hfilter, Member.flatMap_exprs _ ?_ h]
  intro e he
  cases he <;> rfl

/-- The function definitions in an element store are in the number, in the array and in the index. -/
theorem bodiesTyped_of_position {target array value : Expr Frame} {p : Position} {ty : Option Kind}
    {span : Span} {name : Option String} (h : target.position? = some (array, p)) :
    BodiesTyped f env (.expr (.mk (.assign target value) ty span) name) ↔
      BodiesTyped f env (.operand value .f64) ∧ BodiesTyped f env (.expr array none) ∧
        BodiesTyped f env (.position p) := by
  -- the array is visited twice, and the target itself is no function
  have hvisits : ∃ v : Visit, v.isTyped f = true ∧ Node.visits env (.assign target value)
      = value.visits env none ++ ((v :: (array.visits env none ++ Task.visits env (.position p)))
        ++ array.visits env none) := by
    cases Expr.locates_of_position h with
    | @element _ index targetTy targetSpan =>
      refine ⟨⟨env, none, .mk (.index array (some index)) targetTy targetSpan⟩, rfl, ?_⟩
      exact congrArg (fun given => value.visits env given ++ _) (ite_self none)
    | @field _ field index targetTy targetSpan =>
      refine ⟨⟨env, none, .mk (.field array field) targetTy targetSpan⟩, rfl, ?_⟩
      have hfixed : Task.visits env (.position (.fixed index)) = [] := rfl
      rw [hfixed, List.append_nil]
      exact congrArg (fun given => value.visits env given ++ _) (ite_self none)
  obtain ⟨v, hv, hvisits⟩ := hvisits
  have hposition : leads f env (.position p) = true := rfl
  rw [bodiesTyped_mk rfl, hvisits, List.forall_mem_append, List.forall_mem_append,
    List.forall_mem_cons, List.forall_mem_append, bodiesTyped_iff rfl, bodiesTyped_iff rfl,
    bodiesTyped_iff hposition]
  constructor
  · rintro ⟨hvalue, ⟨_, harray, hindex⟩, _⟩
    exact ⟨hvalue, harray, hindex⟩
  · rintro ⟨hvalue, harray, hindex⟩
    exact ⟨hvalue, ⟨hv, harray, hindex⟩, harray⟩

end Task

/-! ## Expressions without code -/

/-- Codes that are put together hold no instruction exactly if none of them does. -/
theorem Code.join_eq_nil {gap : Gap} {codes : List Code} :
    Code.join gap codes = [] ↔ ∀ code ∈ codes, code = [] := by
  induction codes with
  | nil => simp [Code.join]
  | cons code rest ih =>
    rw [Code.join, List.forall_mem_cons, ← ih]
    cases code with
    | nil => exact ⟨fun h => ⟨rfl, h⟩, fun h => h.2⟩
    | cons i code => simp [Code.append]

/-- Codes of a task hold no instruction exactly if its expressions are silent. -/
def Task.Silent (env : Env) : Task → List Code → Prop
  | .expr e _, [code] => code = [] ↔ e.isSilent env = true
  | .list es, codes => (∀ code ∈ codes, code = []) ↔ Expr.areSilent env es = true
  | .pair .., [code] => code ≠ []
  | _, _ => True

/-- The code of a store is not empty. -/
theorem Emit.store_ne_nil (x : String) (v : Variable) (code : Code) (kind : Option Kind) :
    Emit.store x v code kind ≠ [] := by
  unfold Emit.store
  cases v.isGlobal <;> exact List.cons_ne_nil _ _

/-- The code of an expression that is not silent is not empty. -/
theorem Task.Silent.of_ne {env : Env} {e : Expr Frame} {name : Option String} {code : Code}
    (hcode : code ≠ []) (hsilent : e.isSilent env = false) : Silent env (.expr e name) [code] := by
  rw [Silent, hsilent]
  exact ⟨fun h => absurd h hcode, fun h => by cases h⟩

/-- An expression has no code exactly if it only defines or names functions. -/
theorem Emits.silent {s s' : State} {task : Task} {codes : List Code} (h : Emits s task codes s') :
    task.Silent s.env codes := by
  induction h with
  | statements _ ih => exact Code.join_eq_nil.trans ih
  | sequence _ ih => exact Code.join_eq_nil.trans ih
  | @ident s x v ty span name hv =>
    have henv : s.env x = some v := hv
    by_cases hfunction : v.kind = .function
    · simp [Task.Silent, Expr.isSilent, henv, hfunction]
    · simp [Task.Silent, Expr.isSilent, henv, hfunction, Emit.read, Code.one]
  | function => simp [Task.Silent, Expr.isSilent]
  | @block s s' body frame code ty span name _ ih =>
    rw [@State.env_of_scopes_cons s _ frame (by simp)] at ih
    exact ih
  | binary _ _ ih => exact .of_ne ih rfl
  | compare _ ih => exact .of_ne ih rfl
  | step => exact .of_ne (Emit.store_ne_nil _ _ _ _) rfl
  | compound => exact .of_ne (Emit.store_ne_nil _ _ _ _) rfl
  | array => exact .of_ne (fun h => absurd (Code.join_eq_nil.1 h _ List.mem_cons_self)
      (List.cons_ne_nil _ _)) rfl
  | @assignFunction s s' x targetTy targetSpan value code ty span name hf _ ih =>
    obtain ⟨node, valueTy, valueSpan⟩ := value
    cases node with
    | function => exact ih
    | _ => cases hf
  | assignName hf => exact .of_ne (Emit.store_ne_nil _ _ _ _) hf
  | assignPart hp =>
    refine .of_ne (List.cons_ne_nil _ _) ?_
    cases Expr.locates_of_position hp <;> rfl
  | listNil => simp [Task.Silent, Expr.areSilent]
  | listCons he _ ihe ihes =>
    rw [he.env_eq] at ihes
    rw [Task.Silent, List.forall_mem_cons, Expr.areSilent, Bool.and_eq_true]
    exact and_congr ihe ihes
  | pairInt => exact List.cons_ne_nil _ _
  | pairFloat => exact List.cons_ne_nil _ _
  | floatLit | intLit | call | negInt | negFloat | opposite | difference | clampInt | clampFloat
  | length | loop => exact .of_ne (List.cons_ne_nil _ _) rfl
  | operand | argsNil | argsFree | argsCons | computed | fixed | membersNil | memberInt | memberValue
  | memberInts | memberReserve | definition => exact trivial

/-- A task is placed in its surroundings: its functions are those of the program, and its names, calls
and annotations are used as declared. -/
structure Task.Placed (task : Task) (w : Setting) (known : List String) (again : Bool) : Prop where
  /-- Its functions are those of the program. -/
  listed : ∀ o ∈ task.outlines w.env again, o ∈ w.functions
  /-- It is regular. -/
  regular : task.Regular w known

/-- What every expression may use in some surroundings. -/
def Setting.facilities (w : Setting) : Facilities := ⟨w.functions, w.memory⟩

/-- Wherever a task is placed, its codes do what its effect says, and the functions written on the way
are accepted exactly if their definitions lead to their results. -/
def Task.Exact (task : Task) (codes : List Code) (s s' : State) : Prop :=
  ∀ (w : Setting) (known : List String) (c : Context) (again : Bool), Sited w known c s →
    s'.Within c.interface w.functions → task.Placed w known again →
    Code.DoAll c codes (task.effect w.facilities w.env) ∧
      (s'.Accepted c.interface ↔
        s.Accepted c.interface ∧ task.BodiesTyped w.facilities w.env)

namespace Task.Exact

variable {s s₁ s₂ s₃ s' : State} {code l r v h b n test content : Code} {codes : List Code}
  {e left right value low high operand array cond body : Expr Frame} {es items : List (Expr Frame)}
  {ty : Option Kind} {span : Span} {name : Option String} {type : ValType}

/-- One task after another, where the second one knows the functions of the first. -/
theorem both {t₁ t₂ : Task} {codes₁ codes₂ : List Code} {w : Setting} {known : List String}
    {c : Context} {again : Bool} (h₁ : Emits s t₁ codes₁ s₁) (h₂ : Emits s₁ t₂ codes₂ s')
    (ih₁ : t₁.Exact codes₁ s s₁) (ih₂ : t₂.Exact codes₂ s₁ s') (hsited : Sited w known c s)
    (hwithin : s'.Within c.interface w.functions) (hplaced₁ : t₁.Placed w known again)
    (hplaced₂ : t₂.Placed w ((t₁.outlines w.env false).map Outline.name ++ known) again) :
    Code.DoAll c codes₁ (t₁.effect w.facilities w.env) ∧
      Code.DoAll c codes₂ (t₂.effect w.facilities w.env) ∧
      (s'.Accepted c.interface ↔ s.Accepted c.interface ∧
        t₁.BodiesTyped w.facilities w.env ∧ t₂.BodiesTyped w.facilities w.env) := by
  obtain ⟨hdo₁, haccepted₁⟩ := ih₁ w known c again hsited (hwithin.of_grows h₂.grows) hplaced₁
  obtain ⟨hdo₂, haccepted₂⟩ := ih₂ w _ c again (hsited.after h₁) hwithin hplaced₂
  exact ⟨hdo₁, hdo₂, by rw [haccepted₂, haccepted₁, and_assoc]⟩

/-- A task without functions whose code does not depend on what has been compiled. -/
theorem constant {task : Task}
    (hdo : ∀ (c : Context) (f : Facilities) (env : Env), Code.DoAll c codes (task.effect f env))
    (hbodies : ∀ (f : Facilities) (env : Env), task.BodiesTyped f env) : task.Exact codes s s :=
  fun w _ c _ _ _ _ => ⟨hdo c _ _, (and_iff_left (hbodies w.facilities w.env)).symm⟩

/-! ### Lists -/

/-- A list of expressions: the first one, and the others. -/
theorem listCons (he : Emits s (.expr e none) [code] s₁) (hes : Emits s₁ (.list es) codes s')
    (ihe : Exact (.expr e none) [code] s s₁) (ihes : Exact (.list es) codes s₁ s') :
    Exact (.list (e :: es)) (code :: codes) s s' := by
  intro w known c again hsited hwithin ⟨hlisted, hregular⟩
  obtain ⟨hlisted₁, hlisted₂⟩ := List.forall_mem_append.1 hlisted
  obtain ⟨hfirst, hrest, haccepted⟩ := both he hes ihe ihes hsited hwithin
    ⟨hlisted₁, hregular.1⟩ ⟨hlisted₂, hregular.2⟩
  refine ⟨.cons (Code.doAll_singleton.1 hfirst) hrest, haccepted.trans ?_⟩
  exact and_congr_right' (bodiesTyped_append rfl rfl rfl rfl)

/-- Arguments: the first one is brought to the type of its parameter. -/
theorem argsCons {types : List ValType} (he : Emits s (.operand e type) [code] s₁)
    (hes : Emits s₁ (.args types es) codes s') (ihe : Exact (.operand e type) [code] s s₁)
    (ihes : Exact (.args types es) codes s₁ s') :
    Exact (.args (type :: types) (e :: es)) (code :: codes) s s' := by
  intro w known c again hsited hwithin ⟨hlisted, hregular⟩
  obtain ⟨hlisted₁, hlisted₂⟩ := List.forall_mem_append.1 hlisted
  obtain ⟨hfirst, hrest, haccepted⟩ := both he hes ihe ihes hsited hwithin
    ⟨hlisted₁, hregular.1⟩ ⟨hlisted₂, hregular.2⟩
  refine ⟨.cons (Code.doAll_singleton.1 hfirst) hrest, haccepted.trans ?_⟩
  exact and_congr_right' (bodiesTyped_append rfl rfl rfl rfl)

/-- Arguments beyond the parameters that are known. -/
theorem argsFree (he : Emits s (.expr e none) [code] s₁) (hes : Emits s₁ (.args [] es) codes s')
    (ihe : Exact (.expr e none) [code] s s₁) (ihes : Exact (.args [] es) codes s₁ s') :
    Exact (.args [] (e :: es)) (code :: codes) s s' := by
  intro w known c again hsited hwithin ⟨hlisted, hregular⟩
  obtain ⟨hlisted₁, hlisted₂⟩ := List.forall_mem_append.1 hlisted
  obtain ⟨hfirst, hrest, haccepted⟩ := both he hes ihe ihes hsited hwithin
    ⟨hlisted₁, hregular.1⟩ ⟨hlisted₂, hregular.2⟩
  refine ⟨.cons (Code.doAll_singleton.1 hfirst) hrest, haccepted.trans ?_⟩
  exact and_congr_right' (bodiesTyped_append rfl rfl rfl rfl)

/-- A value is brought to the machine type that is asked for. -/
theorem operandOf (h : Exact (.expr e none) [code] s s') :
    Exact (.operand e type) [(Coercion.toType type (e.kind s.env)).apply code] s s' := by
  intro w known c again hsited hwithin ⟨hlisted, hregular⟩
  obtain ⟨hdo, haccepted⟩ := h w known c again hsited hwithin ⟨hlisted, hregular⟩
  rw [← hsited.env]
  exact ⟨Code.doAll_singleton.2 ((Code.doAll_singleton.1 hdo).apply _), haccepted⟩

/-- Statements do what they do in turn. -/
theorem statements (ih : Exact (.list items) codes s s') :
    Exact (.expr (.mk (.statements items) ty span) name) [.join .newline codes] s s' := by
  intro w known c again hsited hwithin ⟨hlisted, ⟨_, hregular⟩⟩
  obtain ⟨hdo, haccepted⟩ := ih w known c again hsited hwithin ⟨hlisted, hregular⟩
  refine ⟨Code.doAll_singleton.2 (hdo.join .newline), haccepted.trans ?_⟩
  exact and_congr_right' (bodiesTyped_node rfl rfl rfl)

/-- The members of a sequence do what they do in turn. -/
theorem sequence (ih : Exact (.list items) codes s s') :
    Exact (.expr (.mk (.sequence items) ty span) name) [.join .space codes] s s' := by
  intro w known c again hsited hwithin ⟨hlisted, ⟨_, hregular⟩⟩
  obtain ⟨hdo, haccepted⟩ := ih w known c again hsited hwithin ⟨hlisted, hregular⟩
  refine ⟨Code.doAll_singleton.2 (hdo.join .space), haccepted.trans ?_⟩
  exact and_congr_right' (bodiesTyped_node rfl rfl rfl)

/-! ### Names, blocks and calls -/

/-- A name is read, unless it is that of a function. -/
theorem ident {x : String} {v : Variable} (hv : s.lookup x = some v) :
    Exact (.expr (.mk (.ident x) ty span) name)
      [if v.kind = .function then [] else Emit.read x v] s s := by
  intro w known c again hsited hwithin ⟨_, ⟨_, hrefers⟩⟩
  have henv : w.env x = some v := by
    rw [hsited.env]
    exact hv
  refine ⟨Code.doAll_singleton.2 ?_, ?_⟩
  · rw [Task.effect, Expr.effect_ident henv]
    by_cases hfunction : v.kind = .function
    · simp only [hfunction, if_true]
      exact .nil
    · simp only [hfunction, if_false]
      exact .read (hsited.declares hrefers hv hfunction).2
  · rw [bodiesTyped_mk rfl]
    exact (and_iff_left (List.forall_mem_nil _)).symm

/-- A block does what its body does. -/
theorem block {frame : Frame}
    (ih : Exact (.expr body none) [code] ((s.enter frame).declareScope frame) s') :
    Exact (.expr (.mk (.block body frame) ty span) name) [code] s s'.leave := by
  intro w known c again hsited hwithin ⟨hlisted, ⟨_, hregular⟩⟩
  obtain ⟨hdo, haccepted⟩ := ih (w.enter frame) known c again (hsited.enter frame)
    ⟨hwithin.includes, hwithin.funcs, hwithin.signatures, hwithin.memory⟩ ⟨hlisted, hregular⟩
  refine ⟨hdo, ?_⟩
  -- opening a scope writes no function
  have hfuncs : State.Accepted ((s.enter frame).declareScope frame) c.interface ↔
      s.Accepted c.interface := by
    rw [State.Accepted, State.funcs_declareScope]
    rfl
  rw [hfuncs] at haccepted
  refine haccepted.trans ?_
  exact and_congr_right' (bodiesTyped_node rfl rfl rfl)

/-- A call brings its arguments to the types of the parameters and takes them. -/
theorem call {callee : String} {args : List (Expr Frame)}
    (hargs : Emits s (.args ((s.signature? callee).getD []) args) codes s')
    (ih : Exact (.args ((s.signature? callee).getD []) args) codes s s') :
    Exact (.expr (.mk (.call callee args) ty span) name)
      [.one (.call callee) (codes.filter (!·.isEmpty))] s s' := by
  intro w known c again hsited hwithin ⟨hlisted, ⟨_, hknown, hfits, hregular⟩⟩
  obtain ⟨hdo, haccepted⟩ := ih w known c again hsited hwithin ⟨hlisted, hregular⟩
  obtain ⟨o, ho, rfl, _⟩ := hfits
  -- the compiler and the program agree on the types of the function
  have hsignature : w.facilities.signature o.name
      = (o.params.map Prod.snd, o.result.map Kind.valType) := by
    have hfound : w.facilities.functions.find? (·.name = o.name) = some o := hsited.function?_eq ho
    rw [Facilities.signature, hfound]
  rw [hsited.signature?_eq (hwithin.of_grows hargs.grows) ho hknown, Option.getD_some] at hdo
  refine ⟨Code.doAll_singleton.2 ?_, haccepted.trans ?_⟩
  · show Code.Does c _ ((Expr.effectArgs w.facilities w.env (w.facilities.signature o.name).1
      args).andThen (.ofSignature (w.facilities.signature o.name)))
    rw [hsignature]
    have hop : (Op.call o.name).signature? c
        = some (o.params.map Prod.snd, o.result.map Kind.valType) := hsited.linked.signature o ho
    refine .one hop fun types => ?_
    rw [Code.checkOperands_filter]
    exact hdo types
  · exact and_congr_right' (bodiesTyped_node rfl rfl rfl)

/-! ### Arithmetic -/

/-- An operator on two integers. -/
theorem pairInt {ops : Emit.Instructions} (hl : Emits s (.expr left none) [l] s₁)
    (hr : Emits s₁ (.expr right none) [r] s')
    (hall : Kind.allInt [left.kind s.env, right.kind s.env])
    (ihl : Exact (.expr left none) [l] s s₁) (ihr : Exact (.expr right none) [r] s₁ s') :
    Exact (.pair ops left right) [.one (.int ops.int) [l, r]] s s' := by
  intro w known c again hsited hwithin ⟨hlisted, hregular⟩
  obtain ⟨hlisted₁, hlisted₂⟩ := List.forall_mem_append.1 hlisted
  obtain ⟨hdl, hdr, haccepted⟩ := both hl hr ihl ihr hsited hwithin
    ⟨hlisted₁, hregular.1⟩ ⟨hlisted₂, hregular.2⟩
  refine ⟨Code.doAll_singleton.2 ?_, haccepted.trans ?_⟩
  · rw [← hsited.env] at hall
    have hop : (Op.int ops.int).signature? c = some ([.i32, .i32], some .i32) := rfl
    rw [Task.effect, Effect.pair, if_pos (Kind.arithmetic_of_allInt hall)]
    exact .one hop (.pair (Code.doAll_singleton.1 hdl) (Code.doAll_singleton.1 hdr))
  · exact and_congr_right' (bodiesTyped_append rfl rfl rfl rfl)

/-- An operator on two floating-point numbers. -/
theorem pairFloat {ops : Emit.Instructions} (hl : Emits s (.operand left .f64) [l] s₁)
    (hr : Emits s₁ (.operand right .f64) [r] s')
    (hall : ¬ Kind.allInt [left.kind s.env, right.kind s.env])
    (ihl : Exact (.operand left .f64) [l] s s₁) (ihr : Exact (.operand right .f64) [r] s₁ s') :
    Exact (.pair ops left right) [.one (.float ops.float) [l, r]] s s' := by
  intro w known c again hsited hwithin ⟨hlisted, hregular⟩
  obtain ⟨hlisted₁, hlisted₂⟩ := List.forall_mem_append.1 hlisted
  obtain ⟨hdl, hdr, haccepted⟩ := both hl hr ihl ihr hsited hwithin
    ⟨hlisted₁, hregular.1⟩ ⟨hlisted₂, hregular.2⟩
  refine ⟨Code.doAll_singleton.2 ?_, haccepted.trans ?_⟩
  · rw [← hsited.env] at hall
    rw [Task.effect, Effect.pair, if_neg (by rw [Kind.arithmetic_of_not_allInt hall]; decide)]
    exact .one (FloatOp.signature?_float c ops.float)
      (.pair (Code.doAll_singleton.1 hdl) (Code.doAll_singleton.1 hdr))
  · exact and_congr_right' (bodiesTyped_append rfl rfl rfl rfl)

/-- An arithmetic operator. -/
theorem binary {op : BinaryOp} {ops : Emit.Instructions}
    (hops : Emit.binaryInstructions? op = some ops)
    (ih : Exact (.pair ops left right) [code] s s') :
    Exact (.expr (.mk (.binary op left right) ty span) name) [code] s s' := by
  intro w known c again hsited hwithin ⟨hlisted, ⟨_, hregular⟩⟩
  obtain ⟨hdo, haccepted⟩ := ih w known c again hsited hwithin ⟨hlisted, hregular⟩
  -- only operators with two operands are among these
  have hsignature : ops.float.signature = ([.f64, .f64], some .f64) := by
    cases op <;> cases hops <;> rfl
  rw [Task.effect, hsignature] at hdo
  refine ⟨hdo, haccepted.trans ?_⟩
  exact and_congr_right' (bodiesTyped_node rfl rfl rfl)

/-- A comparison. -/
theorem compare {op : CompareOp}
    (ih : Exact (.pair (Emit.compareInstructions op) left right) [code] s s') :
    Exact (.expr (.mk (.compare op left right) ty span) name) [code] s s' := by
  intro w known c again hsited hwithin ⟨hlisted, ⟨_, hregular⟩⟩
  obtain ⟨hdo, haccepted⟩ := ih w known c again hsited hwithin ⟨hlisted, hregular⟩
  have hsignature : (Emit.compareInstructions op).float.signature = ([.f64, .f64], some .i32) := by
    cases op <;> rfl
  rw [Task.effect, hsignature] at hdo
  refine ⟨hdo, haccepted.trans ?_⟩
  exact and_congr_right' (bodiesTyped_node rfl rfl rfl)

/-- The opposite of a decimal number. -/
theorem opposite (hkind : operand.kind s.env = some .float)
    (ih : Exact (.expr operand none) [code] s s') :
    Exact (.expr (.mk (.neg operand) ty span) name) [.one (.float .neg) [code]] s s' := by
  intro w known c again hsited hwithin ⟨hlisted, ⟨_, hregular⟩⟩
  obtain ⟨hdo, haccepted⟩ := ih w known c again hsited hwithin ⟨hlisted, hregular⟩
  rw [← hsited.env] at hkind
  refine ⟨Code.doAll_singleton.2 ?_, haccepted.trans ?_⟩
  · show Code.Does c _ (if operand.kind w.env = some .float then _ else _)
    rw [if_pos hkind]
    exact .one (FloatOp.signature?_float c .neg) hdo
  · exact and_congr_right' (bodiesTyped_node rfl rfl rfl)

/-- The opposite of anything else is its difference from zero. -/
theorem difference (hkind : operand.kind s.env ≠ some .float)
    (ih : Exact (.expr operand none) [code] s s') :
    Exact (.expr (.mk (.neg operand) ty span) name) [.one (.int .sub) [.int 0, code]] s s' := by
  intro w known c again hsited hwithin ⟨hlisted, ⟨_, hregular⟩⟩
  obtain ⟨hdo, haccepted⟩ := ih w known c again hsited hwithin ⟨hlisted, hregular⟩
  rw [← hsited.env] at hkind
  refine ⟨Code.doAll_singleton.2 ?_, haccepted.trans ?_⟩
  · have hop : (Op.int .sub).signature? c = some ([.i32, .i32], some .i32) := rfl
    show Code.Does c _ (if operand.kind w.env = some .float then _ else _)
    rw [if_neg hkind]
    exact .one hop (.pair (.int 0) (Code.doAll_singleton.1 hdo))
  · exact and_congr_right' (bodiesTyped_node rfl rfl rfl)

/-- Three tasks one after another. -/
theorem three {t₁ t₂ t₃ : Task} {w : Setting} {known : List String} {c : Context} {again : Bool}
    (h₁ : Emits s t₁ [l] s₁) (h₂ : Emits s₁ t₂ [r] s₂) (h₃ : Emits s₂ t₃ [v] s')
    (ih₁ : t₁.Exact [l] s s₁) (ih₂ : t₂.Exact [r] s₁ s₂) (ih₃ : t₃.Exact [v] s₂ s')
    (hsited : Sited w known c s) (hwithin : s'.Within c.interface w.functions)
    (hplaced₁ : t₁.Placed w known again)
    (hplaced₂ : t₂.Placed w ((t₁.outlines w.env false).map Outline.name ++ known) again)
    (hplaced₃ : t₃.Placed w ((t₂.outlines w.env false).map Outline.name
      ++ ((t₁.outlines w.env false).map Outline.name ++ known)) again) :
    l.Does c (t₁.effect w.facilities w.env) ∧ r.Does c (t₂.effect w.facilities w.env) ∧
      v.Does c (t₃.effect w.facilities w.env) ∧
      (s'.Accepted c.interface ↔ s.Accepted c.interface ∧ t₁.BodiesTyped w.facilities w.env ∧
        t₂.BodiesTyped w.facilities w.env ∧ t₃.BodiesTyped w.facilities w.env) := by
  obtain ⟨hdo₁, haccepted₁⟩ := ih₁ w known c again hsited
    (hwithin.of_grows (h₂.grows.trans h₃.grows)) hplaced₁
  obtain ⟨hdo₂, hdo₃, haccepted₂⟩ := both h₂ h₃ ih₂ ih₃ (hsited.after h₁) hwithin hplaced₂ hplaced₃
  refine ⟨Code.doAll_singleton.1 hdo₁, Code.doAll_singleton.1 hdo₂, Code.doAll_singleton.1 hdo₃, ?_⟩
  rw [haccepted₂, haccepted₁, and_assoc]

/-- A clamp of integers calls library functions. -/
theorem clampInt {rangeTy : Option Kind} {rangeSpan : Span}
    (hall : Kind.allInt [value.kind s.env, low.kind s.env, high.kind s.env])
    (hv : Emits ((s.require .max).require .min) (.expr value none) [v] s₁)
    (hh : Emits s₁ (.expr high none) [h] s₂) (hl : Emits s₂ (.expr low none) [l] s')
    (ihv : Exact (.expr value none) [v] ((s.require .max).require .min) s₁)
    (ihh : Exact (.expr high none) [h] s₁ s₂) (ihl : Exact (.expr low none) [l] s₂ s') :
    Exact (.expr (.mk (.clamp value (.mk (.range (some low) (some high)) rangeTy rangeSpan)) ty
      span) name) [.one (.call Snippet.max.name) [.one (.call Snippet.min.name) [v, h], l]] s s' := by
  intro w known c again hsited hwithin ⟨hlisted, ⟨_, hrv, _, hrh, hrl⟩⟩
  obtain ⟨hlisted₁, hlisted⟩ := List.forall_mem_append.1 hlisted
  obtain ⟨hlisted₂, hlisted₃⟩ := List.forall_mem_append.1 hlisted
  obtain ⟨hdv, hdh, hdl, haccepted⟩ := three hv hh hl ihv ihh ihl
    ((hsited.require .max).require .min) hwithin ⟨hlisted₁, hrv⟩ ⟨hlisted₂, hrh⟩ ⟨hlisted₃, hrl⟩
  -- what the operands asked for includes what the clamp asked for first
  have hincludes := (hv.grows.trans (hh.grows.trans hl.grows)).includes
  have hmax : (Op.call Snippet.max.name).signature? c = some ([.i32, .i32], some .i32) :=
    hwithin.includes _ (hincludes ((State.mem_includes_require _).2
      (.inl ((State.mem_includes_require _).2 (.inr rfl)))))
  have hmin : (Op.call Snippet.min.name).signature? c = some ([.i32, .i32], some .i32) :=
    hwithin.includes _ (hincludes ((State.mem_includes_require _).2 (.inr rfl)))
  refine ⟨Code.doAll_singleton.2 ?_, ?_⟩
  · rw [← hsited.env] at hall
    show Code.Does c _ (if Kind.arithmetic _ = .int then _ else _)
    rw [if_pos (Kind.arithmetic_of_allInt hall)]
    exact .one hmax (.pair (.one hmin (.pair hdv hdh)) hdl)
  · have hfuncs : State.Accepted ((s.require .max).require .min) c.interface ↔
        s.Accepted c.interface := by
      simp [State.Accepted, State.funcs]
    rw [haccepted, hfuncs]
    exact and_congr_right' bodiesTyped_clamp

/-- A clamp of decimal numbers. -/
theorem clampFloat {rangeTy : Option Kind} {rangeSpan : Span}
    (hall : ¬ Kind.allInt [value.kind s.env, low.kind s.env, high.kind s.env])
    (hv : Emits s (.operand value .f64) [v] s₁) (hh : Emits s₁ (.operand high .f64) [h] s₂)
    (hl : Emits s₂ (.operand low .f64) [l] s') (ihv : Exact (.operand value .f64) [v] s s₁)
    (ihh : Exact (.operand high .f64) [h] s₁ s₂) (ihl : Exact (.operand low .f64) [l] s₂ s') :
    Exact (.expr (.mk (.clamp value (.mk (.range (some low) (some high)) rangeTy rangeSpan)) ty
      span) name) [.one (.float .max) [.one (.float .min) [v, h], l]] s s' := by
  intro w known c again hsited hwithin ⟨hlisted, ⟨_, hrv, _, hrh, hrl⟩⟩
  obtain ⟨hlisted₁, hlisted⟩ := List.forall_mem_append.1 hlisted
  obtain ⟨hlisted₂, hlisted₃⟩ := List.forall_mem_append.1 hlisted
  obtain ⟨hdv, hdh, hdl, haccepted⟩ := three hv hh hl ihv ihh ihl hsited hwithin ⟨hlisted₁, hrv⟩
    ⟨hlisted₂, hrh⟩ ⟨hlisted₃, hrl⟩
  have hmin : (Op.float .min).signature? c = some ([.f64, .f64], some .f64) := rfl
  have hmax : (Op.float .max).signature? c = some ([.f64, .f64], some .f64) := rfl
  refine ⟨Code.doAll_singleton.2 ?_, ?_⟩
  · rw [← hsited.env] at hall
    show Code.Does c _ (if Kind.arithmetic _ = .int then _ else _)
    rw [if_neg (by rw [Kind.arithmetic_of_not_allInt hall]; decide)]
    exact .one hmax (.pair (.one hmin (.pair hdv hdh)) hdl)
  · exact haccepted.trans (and_congr_right' bodiesTyped_clamp)

/-! ### Stores -/

/-- The code of a compound assignment stores the result of the operator. -/
theorem compoundOf {op : CompoundOp} {x : String} {v : Variable} {targetTy : Option Kind}
    {targetSpan : Span} {w : Setting} {known : List String} {c : Context} (again : Bool)
    (hv : s.lookup x = some v) (hfunction : v.kind ≠ .function) (hsited : Sited w known c s)
    (hwithin : s'.Within c.interface w.functions)
    (hlisted : ∀ o ∈ value.outlines w.env again none, o ∈ w.functions)
    (htarget : (Expr.mk (.ident x) targetTy targetSpan).Regular w known none)
    (hregular : value.Regular w known none)
    (ih : Exact (.pair (Emit.compoundInstructions op) (.mk (.ident x) targetTy targetSpan) value)
      [code] s s') :
    (Emit.store x v code (some (.arithmetic [v.storedKind, value.kind s.env]))).Does c
        ((Expr.plain (.compound op (.mk (.ident x) targetTy targetSpan) value)).effect
          w.facilities w.env) ∧
      (s'.Accepted c.interface ↔ s.Accepted c.interface ∧ BodiesTyped w.facilities w.env
        (.pair (Emit.compoundInstructions op) (.mk (.ident x) targetTy targetSpan) value)) := by
  obtain ⟨hdo, haccepted⟩ := ih w known c again hsited hwithin ⟨hlisted, ⟨htarget, hregular⟩⟩
  have henv : w.env x = some v := by
    rw [hsited.env]
    exact hv
  have hsignature : (Emit.compoundInstructions op).float.signature = ([.f64, .f64], some .f64) := by
    cases op <;> rfl
  have hstored : (Expr.mk (.ident x) targetTy targetSpan).kind w.env = some v.storedKind := by
    show (w.env x).map Variable.storedKind = _
    rw [henv]
    rfl
  refine ⟨?_, haccepted⟩
  have hvalue := Code.doAll_singleton.1 hdo
  rw [Task.effect, hsignature, hstored] at hvalue
  show Code.Does c _ (Effect.andThen
    (.pair _ ((Expr.mk (.ident x) targetTy targetSpan).kind w.env) _ _ _)
    (.store (w.env x) (some (.arithmetic
      [(Expr.mk (.ident x) targetTy targetSpan).kind w.env, _]))))
  rw [hstored, henv, ← hsited.env]
  exact .store (hsited.declares htarget.2 hv hfunction).2 hvalue

/-- A step is a compound assignment of one. -/
theorem step {op : StepOp} {x : String} {v : Variable} {targetTy : Option Kind} {targetSpan : Span}
    (hv : s.lookup x = some v) (hfunction : v.kind ≠ .function)
    (ih : Exact (.pair (Emit.compoundInstructions op.compound)
      (.mk (.ident x) targetTy targetSpan) (.int 1)) [code] s s') :
    Exact (.expr (.mk (.step op (.mk (.ident x) targetTy targetSpan)) ty span) name)
      [Emit.store x v code (some (.arithmetic [v.storedKind, some .int]))] s s' := by
  intro w known c again hsited hwithin ⟨_, ⟨_, hregular⟩⟩
  have hone : (Expr.int 1 : Expr Frame).Regular w known none := ⟨fun _ _ h => h, trivial⟩
  have hlisted : ∀ o ∈ (Expr.int 1 : Expr Frame).outlines w.env again none, o ∈ w.functions :=
    fun _ ho => absurd ho List.not_mem_nil
  obtain ⟨hdo, haccepted⟩ :=
    compoundOf again hv hfunction hsited hwithin hlisted hregular hone ih
  refine ⟨Code.doAll_singleton.2 hdo, haccepted.trans ?_⟩
  -- neither the variable nor the literal is a function
  have hpair : BodiesTyped w.facilities w.env (.pair (Emit.compoundInstructions op.compound)
      (.mk (.ident x) targetTy targetSpan) (.int 1)) :=
    (bodiesTyped_iff rfl).2 (List.forall_mem_cons.2 ⟨rfl, List.forall_mem_singleton.2 rfl⟩)
  exact and_congr_right' (iff_of_true hpair
    ((bodiesTyped_mk rfl).2 (List.forall_mem_singleton.2 rfl)))

/-- A compound assignment. -/
theorem compound {op : CompoundOp} {x : String} {v : Variable} {targetTy : Option Kind}
    {targetSpan : Span} (hv : s.lookup x = some v) (hfunction : v.kind ≠ .function)
    (ih : Exact (.pair (Emit.compoundInstructions op) (.mk (.ident x) targetTy targetSpan) value)
      [code] s s') :
    Exact (.expr (.mk (.compound op (.mk (.ident x) targetTy targetSpan) value) ty span) name)
      [Emit.store x v code (some (.arithmetic [v.storedKind, value.kind s.env]))] s s' := by
  intro w known c again hsited hwithin ⟨hlisted, ⟨_, htarget, hregular⟩⟩
  obtain ⟨hdo, haccepted⟩ := compoundOf again hv hfunction hsited hwithin hlisted htarget hregular ih
  refine ⟨Code.doAll_singleton.2 hdo, haccepted.trans ?_⟩
  exact and_congr_right' (bodiesTyped_node rfl rfl rfl)

/-- A number or an array is assigned to a variable. -/
theorem assignName {x : String} {v : Variable} {targetTy : Option Kind} {targetSpan : Span}
    {kind : Kind} (hf : value.isFunction = false) (hv : s.lookup x = some v)
    (hfunction : v.kind ≠ .function) (hkind : value.kind s.env = some kind)
    (ih : Exact (.expr value none) [code] s s') :
    Exact (.expr (.mk (.assign (.mk (.ident x) targetTy targetSpan) value) ty span) name)
      [Emit.store x v code (some kind)] s s' := by
  intro w known c again hsited hwithin ⟨hlisted, ⟨_, hregular, _, hrefers⟩⟩
  simp only [Task.outlines, Expr.outlines, hf, Bool.false_eq_true, if_false] at hlisted
  simp only [hf, Bool.false_eq_true, if_false] at hregular
  obtain ⟨hdo, haccepted⟩ := ih w known c again hsited hwithin ⟨hlisted, hregular⟩
  have henv : w.env x = some v := by
    rw [hsited.env]
    exact hv
  refine ⟨Code.doAll_singleton.2 ?_, haccepted.trans ?_⟩
  · rw [← hsited.env] at hkind
    show Code.Does c _ (if value.isFunction then Effect.skip
      else (value.effect w.facilities w.env).andThen (.store (w.env x) (value.kind w.env)))
    rw [hf, if_neg Bool.false_ne_true, henv, hkind]
    exact .store (hsited.declares hrefers hv hfunction).2 (Code.doAll_singleton.1 hdo)
  · exact and_congr_right' (bodiesTyped_assign (by rw [hf, if_neg Bool.false_ne_true]))

/-- A function is assigned to its name. -/
theorem assignFunction {x : String} {targetTy : Option Kind} {targetSpan : Span}
    (hf : value.isFunction = true) (ih : Exact (.expr value (some x)) [code] s s') :
    Exact (.expr (.mk (.assign (.mk (.ident x) targetTy targetSpan) value) ty span) name)
      [code] s s' := by
  intro w known c again hsited hwithin ⟨hlisted, ⟨_, hregular, _⟩⟩
  simp only [Task.outlines, Expr.outlines, hf, if_true] at hlisted
  simp only [hf, if_true] at hregular
  obtain ⟨hdo, haccepted⟩ := ih w known c again hsited hwithin ⟨hlisted, hregular⟩
  refine ⟨?_, haccepted.trans ?_⟩
  · obtain ⟨node, valueTy, valueSpan⟩ := value
    cases node with
    | function => exact hdo
    | _ => cases hf
  · exact and_congr_right' (bodiesTyped_assign (if_pos hf))

/-! ### Arrays -/

/-- The length of an array. -/
theorem length (ih : Exact (.expr array none) [code] s s') :
    Exact (.expr (.mk (.index array none) ty span) name) [Emit.loadLength code] s s' := by
  intro w known c again hsited hwithin ⟨hlisted, ⟨_, hregular, _⟩⟩
  obtain ⟨hdo, haccepted⟩ := ih w known c again hsited hwithin ⟨hlisted, hregular⟩
  refine ⟨Code.doAll_singleton.2 ?_, haccepted.trans ?_⟩
  · exact .loadLength hsited.memory (Code.doAll_singleton.1 hdo)
  · exact and_congr_right' (bodiesTyped_node rfl rfl (List.append_nil _))

/-- An index that is computed is brought to an integer. -/
theorem computed {index : Expr Frame} (ih : Exact (.operand index .i32) [code] s s') :
    Exact (.position (.computed index)) [code] s s' := by
  intro w known c again hsited hwithin ⟨hlisted, hregular⟩
  exact ih w known c again hsited hwithin ⟨hlisted, hregular⟩

/-- A number is stored at a fixed address. -/
theorem storeSlot {w : Setting} {known : List String} {c : Context} {f : Effect}
    (hsited : Sited w known c s) (base : UInt32) (slot : Nat) (h : code.Does c f) :
    (Emit.storeSlot base slot code).Does c (w.facilities.storeNumber f) :=
  .onMemory hsited.memory rfl rfl (.pair (.int _) h)

/-- A member that is stored as a number, and the others. -/
theorem memberValue {base : UInt32} {slot : Nat} {operand : Operand} {rest : List Member}
    (he : Emits s (.operand operand.expr .f64) [code] s₁)
    (hrest : Emits s₁ (.members base (slot + 1) rest) codes s')
    (ihe : Exact (.operand operand.expr .f64) [code] s s₁)
    (ihrest : Exact (.members base (slot + 1) rest) codes s₁ s') :
    Exact (.members base slot (.value operand :: rest))
      (Emit.storeSlot base slot code :: codes) s s' := by
  intro w known c again hsited hwithin ⟨hlisted, hregular⟩
  obtain ⟨hlisted₁, hlisted₂⟩ := List.forall_mem_append.1 hlisted
  obtain ⟨hvalue, hothers, haccepted⟩ := both he hrest ihe ihrest hsited hwithin
    ⟨hlisted₁, hregular.1⟩ ⟨hlisted₂, hregular.2⟩
  refine ⟨.cons (storeSlot hsited _ _ (Code.doAll_singleton.1 hvalue)) hothers,
    haccepted.trans ?_⟩
  exact and_congr_right' (bodiesTyped_append rfl rfl rfl rfl)

/-- A member that is an integer literal is stored as a decimal number. -/
theorem memberInt {base : UInt32} {slot : Nat} {operand : Operand} {rest : List Member}
    {value : Int32} (hv : operand.expr.node = .intLit value)
    (ih : Exact (.members base (slot + 1) rest) codes s s') :
    Exact (.members base slot (.value operand :: rest))
      (Emit.storeSlot base slot (.float (.ofInt32 value)) :: codes) s s' := by
  intro w known c again hsited hwithin ⟨hlisted, hregular⟩
  obtain ⟨_, hlisted₂⟩ := List.forall_mem_append.1 hlisted
  obtain ⟨⟨node, ty, span⟩, emitted⟩ := operand
  cases hv
  -- a literal defines no function, so the rest knows what was known before
  obtain ⟨hothers, haccepted⟩ := ih w known c again hsited hwithin ⟨hlisted₂, hregular.2⟩
  refine ⟨.cons (storeSlot hsited _ _ (.float _)) hothers, haccepted.trans ?_⟩
  have hvisits : visits w.env (.members base slot (.value ⟨.mk (.intLit value) ty span, emitted⟩
      :: rest)) = ⟨w.env, none, .mk (.intLit value) ty span⟩
        :: visits w.env (.members base (slot + 1) rest) := rfl
  rw [bodiesTyped_iff rfl, bodiesTyped_iff rfl, hvisits, List.forall_mem_cons]
  exact and_congr_right' (and_iff_right rfl).symm

/-- Constants are stored one after another. -/
theorem storeConstants {w : Setting} {known : List String} {c : Context} {stores : List Code}
    (hsited : Sited w known c s)
    (h : ∀ store ∈ stores, ∃ slot base value, store = Emit.storeSlot base slot (.float value)) :
    Code.DoAll c stores (w.facilities.storeConstants stores.length) := by
  induction stores with
  | nil => exact .nil
  | cons store rest ih =>
    obtain ⟨⟨slot, base, value, rfl⟩, hrest⟩ := List.forall_mem_cons.1 h
    exact .cons (storeSlot hsited base slot (.float value)) (ih hrest)

/-- A member that is a range of integers is stored as decimal numbers. -/
theorem memberInts {base : UInt32} {slot : Nat} {first last : Int32} {rest : List Member}
    (ih : Exact (.members base (slot + (Member.intRange first last).length) rest) codes s s') :
    Exact (.members base slot (.ints first last :: rest))
      ((Member.intRange first last).zipIdx.map (fun (value, i) =>
        Emit.storeSlot base (slot + i) (.float (.ofInt32 value))) ++ codes) s s' := by
  intro w known c again hsited hwithin ⟨hlisted, hregular⟩
  obtain ⟨hothers, haccepted⟩ := ih w known c again hsited hwithin ⟨hlisted, hregular⟩
  refine ⟨.append ?_ hothers, haccepted⟩
  have hstores := @storeConstants s w known c ((Member.intRange first last).zipIdx.map
    fun (value, i) => Emit.storeSlot base (slot + i) (.float (.ofInt32 value))) hsited
    (fun store hstore => by
      obtain ⟨entry, _, rfl⟩ := List.mem_map.1 hstore
      exact ⟨_, _, _, rfl⟩)
  rw [List.length_map, List.length_zipIdx] at hstores
  exact hstores

/-- An array literal. -/
theorem arrayLit {members : List (Expr Frame)} {layout : List Member} {base : UInt32}
    {arena₁ arena₂ : Arena}
    (hlayout : List.Forall₂ (fun e m => Member.ofOperand (e.kind s.env) ⟨e, e.emit⟩ = .ok m)
      members layout)
    (hopen : s.arena.openArray = .ok (base, arena₁))
    (hadvance : arena₁.advance (.ofNat (Member.total layout)) = .ok arena₂)
    (hmembers : Emits ({ s with arena := arena₂ }.record
      (.array span base (.ofNat (Member.total layout)))) (.members base 0 layout) codes s')
    (ih : Exact (.members base 0 layout) codes ({ s with arena := arena₂ }.record
      (.array span base (.ofNat (Member.total layout)))) s') :
    Exact (.expr (.mk (.array members) ty span) name)
      [Emit.arrayOf base (Member.total layout) codes] s s' := by
  intro w known c again hsited hwithin ⟨hlisted, ⟨_, hregular⟩⟩
  rw [← hsited.env] at hlayout
  have hlisted : ∀ o ∈ Expr.outlinesList w.env again (Member.exprs layout), o ∈ w.functions := by
    rw [outlines_of_classified _ _ hlayout]
    exact hlisted
  obtain ⟨hdo, haccepted⟩ := ih w known c again (hsited.later rfl (List.Subset.refl _)) hwithin
    ⟨hlisted, regularList_of_classified hlayout hregular⟩
  -- the array itself takes memory, also if it has no members
  have hmemory : w.facilities.memory = true :=
    hsited.memory.symm.trans
      (hwithin.memory (hmembers.grows.memory (Arena.cursor_ne_zero hopen hadvance)))
  refine ⟨Code.doAll_singleton.2 ?_, haccepted.trans ?_⟩
  · show Code.Does c _ ((Expr.effectMembers w.facilities w.env members).andThen (.push .i32))
    rw [← Facilities.storeLayout_of_classified hmemory hlayout]
    exact .arrayOf (hsited.memory.trans hmemory) _ _ hdo
  · rw [bodiesTyped_mk rfl, bodiesTyped_iff rfl]
    exact and_congr_right' (bodiesTyped_of_classified hlayout)

/-- A loop tests its condition, whatever its body leaves. -/
theorem loop (hc : Emits s.enterLoop (.expr cond none) [test] s₁)
    (hb : Emits s₁ (.expr body none) [content] s₂)
    (ihc : Exact (.expr cond none) [test] s.enterLoop s₁)
    (ihb : Exact (.expr body none) [content] s₁ s₂) :
    Exact (.expr (.mk (.loop cond body) ty span) name)
      [Emit.loopOf (s.loopDepth + 1) (Emit.testOf (cond.kind s₁.env) test) content] s
      s₂.exitLoop := by
  intro w known c again hsited hwithin ⟨hlisted, ⟨_, hrc, hrb⟩⟩
  obtain ⟨hlisted₁, hlisted₂⟩ := List.forall_mem_append.1 hlisted
  have hinner := hsited.enterLoop (s.loopDepth + 1)
  obtain ⟨hdc, hdb, haccepted⟩ := both hc hb ihc ihb hinner
    ⟨hwithin.includes, hwithin.funcs, hwithin.signatures, hwithin.memory⟩
    ⟨hlisted₁, hrc⟩ ⟨hlisted₂, hrb⟩
  refine ⟨Code.doAll_singleton.2 ?_, Iff.trans haccepted ?_⟩
  · rw [← (hinner.after hc).env]
    exact .loopOf (.testOf (Code.doAll_singleton.1 hdc) _) (Code.doAll_singleton.1 hdb)
  · rw [bodiesTyped_mk rfl, bodiesTyped_iff rfl, bodiesTyped_iff rfl]
    exact and_congr_right' List.forall_mem_append.symm

/-- A function definition has no code of its own. -/
theorem function {params : List String} {result : Option Kind} {prologue : Option (Expr Frame)}
    {frame : Frame} {x : String}
    (ih : Exact (.definition ⟨x, params, result, frame, span, .function⟩ prologue body) [] s s') :
    Exact (.expr (.mk (.function params result prologue body frame) ty span) (some x)) [[]] s s' := by
  intro w known c again hsited hwithin ⟨hlisted, ⟨_, hprologue, hbody⟩⟩
  simp only [Task.outlines, Expr.outlines, Expr.outlinesOption_eq] at hlisted
  rw [Expr.outlinesOption_eq] at hbody
  have hregular : Expr.RegularList (w.inside params frame prologue body) (x :: known)
      prologue.toList := by
    cases prologue with
    | none => exact trivial
    | some e => exact ⟨hprologue, trivial⟩
  obtain ⟨_, haccepted⟩ := ih w known c again hsited hwithin ⟨hlisted, ⟨hregular, hbody⟩⟩
  exact ⟨Code.doAll_singleton.2 .nil, haccepted.trans (by rw [bodiesTyped_function])⟩

/-- A number is assigned to an array element. -/
theorem assignPart {target : Expr Frame} {p : Position} {i : Code}
    (hp : target.position? = some (array, p)) (hv : Emits s (.operand value .f64) [v] s₁)
    (hb : Emits (s₁.require .index) (.expr array none) [b] s₂)
    (hi : Emits s₂ (.position p) [i] s₃) (hn : Emits s₃ (.expr array none) [n] s')
    (ihv : Exact (.operand value .f64) [v] s s₁)
    (ihb : Exact (.expr array none) [b] (s₁.require .index) s₂)
    (ihi : Exact (.position p) [i] s₂ s₃) (ihn : Exact (.expr array none) [n] s₃ s') :
    Exact (.expr (.mk (.assign target value) ty span) name) [Emit.writeElement b i n v] s s' := by
  intro w known c again hsited hwithin ⟨hlisted, hregular⟩
  obtain ⟨hrv, hra, hrp⟩ := regular_of_position hp hregular
  have hlisted : ∀ o ∈ value.outlines w.env again none ++ (array.outlines w.env again none
      ++ (Task.outlines w.env again (.position p) ++ array.outlines w.env true none)),
      o ∈ w.functions := by
    rw [← @outlines_of_position target array value p ty span w.env again name hp]
    exact hlisted
  -- what goes into the module at the end was on its way at each step before
  have hwithin₃ := hwithin.of_grows hn.grows
  have hwithin₂ := hwithin₃.of_grows hi.grows
  have hgrows := (State.Grows.require s₁ .index).trans hb.grows
  have hsited₁ := (hsited.after hv).require .index
  have hsited₃ := hsited₁.later (hi.env_eq.trans hb.env_eq)
    (hb.grows.trans hi.grows).signatures
  obtain ⟨hdv, hav⟩ := ihv w known c again hsited (hwithin₂.of_grows hgrows)
    ⟨fun o ho => hlisted o (List.mem_append_left _ ho), hrv⟩
  have hlisted := fun o ho => hlisted o (List.mem_append_right _ ho)
  obtain ⟨hdb, hdi, habi⟩ := both hb hi ihb ihi hsited₁ hwithin₃
    ⟨fun o ho => hlisted o (List.mem_append_left _ ho), hra⟩
    ⟨fun o ho => hlisted o (List.mem_append_right _ (List.mem_append_left _ ho)), hrp⟩
  -- the second run of the array knows what the first one did
  obtain ⟨hdn, han⟩ := ihn w _ c true hsited₃ hwithin
    ⟨fun o ho => hlisted o (List.mem_append_right _ (List.mem_append_right _ ho)), hra⟩
  have hsnippet : (Op.call Snippet.index.name).signature? c = some ([.i32, .i32], some .i32) :=
    hwithin.includes _ (hn.grows.includes (hi.grows.includes
      (hb.grows.includes ((State.mem_includes_require _).2 (.inr rfl)))))
  have hmemory : c.interface.memory = w.facilities.memory := hsited.memory
  have hwrite := Code.Does.writeElement hmemory hsnippet (Code.doAll_singleton.1 hdb)
    (Code.doAll_singleton.1 hdi) (Code.doAll_singleton.1 hdn) (Code.doAll_singleton.1 hdv)
  have hfuncs : State.Accepted (s₁.require .index) c.interface ↔ s₁.Accepted c.interface := by
    simp [State.Accepted, State.funcs]
  refine ⟨Code.doAll_singleton.2 ?_, ?_⟩
  · cases Expr.locates_of_position hp with
    | element => exact hwrite
    | field => exact hwrite
  · rw [han, habi, hfuncs, hav, bodiesTyped_of_position hp]
    constructor
    · rintro ⟨⟨⟨ha, hv⟩, hb, hi⟩, _⟩
      exact ⟨ha, hv, hb, hi⟩
    · rintro ⟨ha, hv, hb, hi⟩
      exact ⟨⟨⟨ha, hv⟩, hb, hi⟩, hb⟩

/-! ### Function definitions -/

/-- What the code of a body does when it has been brought to the type of the result. -/
theorem fit {c : Context} {f : Effect} {env : Env} (header : Emit.Header) (h : code.Does c f)
    (hsilent : code = [] ↔ body.isSilent env = true) :
    (header.fit (body.kind env) code).Does c (f.andThen (body.fitted env header.result)) := by
  unfold Emit.Header.fit Expr.fitted
  cases header.result with
  | none =>
    rw [Effect.andThen_skip]
    exact h
  | some kind =>
    by_cases hcode : code = []
    · -- without code there is nothing to convert
      simp only [hsilent.1 hcode, List.isEmpty_iff, hcode, if_true, Effect.andThen_skip]
      exact hcode ▸ h
    · simp only [mt hsilent.2 hcode, List.isEmpty_iff, hcode, if_false, Bool.false_eq_true]
      exact h.apply _

/-- A function is accepted exactly if its definition leads to its result. -/
theorem definition {header : Emit.Header} {prologue : Option (Expr Frame)}
    {params : List (String × ValType)} {first : List Code} {second : Code}
    (hf : Emits (s.beginFunction header params) (.list prologue.toList) first s₁)
    (hs : Emits s₁ (.expr body none) [second] s₂)
    (ihf : Exact (.list prologue.toList) first (s.beginFunction header params) s₁)
    (ihs : Exact (.expr body none) [second] s₁ s₂) :
    Exact (.definition header prologue body) [] s
      (s₂.endFunction header s.table
        (header.func params s₂.locals first.flatten (header.fit (body.kind s₂.env) second))) := by
  intro w known c again hsited hwithin ⟨hlisted, ⟨hrprologue, hrbody⟩⟩
  refine ⟨.nil, ?_⟩
  generalize hfunc : header.func params s₂.locals first.flatten
    (header.fit (body.kind s₂.env) second) = func at hwithin ⊢
  -- the function is one of the program, so that its code may refer to what the program lets it
  obtain ⟨hlocals, hnodup⟩ := hsited.linked.context_eq
    (hlisted _ (List.mem_append_right _ (List.mem_append_right _ List.mem_cons_self)))
    (hwithin.funcs func (by rw [State.funcs_endFunction]; simp)) (by rw [← hfunc]; rfl)
  have hinner := hsited.inside params hlocals hnodup
  have hwithin₂ : s₂.Within c.interface w.functions := hwithin.of_grows (.endFunction ..)
  obtain ⟨hdf, hds, hall⟩ := both hf hs ihf ihs hinner hwithin₂
    ⟨fun o ho => hlisted o (List.mem_append_left _ ho), hrprologue⟩
    ⟨fun o ho => hlisted o (List.mem_append_right _ (List.mem_append_left _ ho)), hrbody⟩
  have henv : s₂.env = w.env.enter header.frame := ((hinner.after hf).after hs).env.symm
  have hsilent : second = [] ↔ body.isSilent s₂.env = true := by
    rw [hs.env_eq]
    exact hs.silent
  have haccepted : func.Accepted c.interface ↔
      leads w.facilities w.env (.definition header prologue body) = true := by
    have hiff := Func.accepted_iff hnodup (by rw [← hfunc]; rfl) hdf.flatten
      (fit header (Code.doAll_singleton.1 hds) hsilent)
    rw [hiff, henv, ← hfunc]
    rfl
  -- the functions up to the end of the body, and then the function itself
  rw [State.Accepted, State.funcs_endFunction, List.forall_mem_append]
  have hbegin : State.Accepted (s.beginFunction header params) c.interface ↔
      s.Accepted c.interface := by
    rw [State.Accepted, State.funcs_beginFunction]
    rfl
  have hall : (∀ f ∈ s₂.funcs, f.Accepted c.interface) ↔
      State.Accepted (s.beginFunction header params) c.interface ∧
        BodiesTyped w.facilities (w.env.enter header.frame) (.list prologue.toList) ∧
        BodiesTyped w.facilities (w.env.enter header.frame) (.expr body none) := hall
  rw [hall, hbegin, List.forall_mem_singleton, haccepted]
  rw [bodiesTyped_iff rfl, bodiesTyped_iff rfl, ← List.forall_mem_append, and_assoc]
  rfl

end Task.Exact

/-! ## Runs -/

/-- Codes do what the effect of their task says, and the functions written on the way are accepted
exactly if their definitions lead to their results. -/
theorem Emits.exact {s s' : State} {task : Task} {codes : List Code} (h : Emits s task codes s') :
    task.Exact codes s s' := by
  induction h with
  | statements _ ih => exact .statements ih
  | sequence _ ih => exact .sequence ih
  | floatLit =>
    exact .constant (fun _ _ _ => Code.doAll_singleton.2 (.float _))
      fun _ _ => (Task.bodiesTyped_mk rfl).2 (List.forall_mem_nil _)
  | intLit =>
    exact .constant (fun _ _ _ => Code.doAll_singleton.2 (.int _))
      fun _ _ => (Task.bodiesTyped_mk rfl).2 (List.forall_mem_nil _)
  | ident hv => exact .ident hv
  | function _ ih => exact .function ih
  | block _ ih => exact .block ih
  | call hargs ih => exact .call hargs ih
  | negInt =>
    -- the constant does what the difference from zero would do
    exact .constant (fun _ _ _ => Code.doAll_singleton.2 (.int _)) fun _ _ =>
      (Task.bodiesTyped_mk rfl).2 (List.forall_mem_singleton.2 rfl)
  | negFloat =>
    exact .constant (fun _ _ _ => Code.doAll_singleton.2 (.float _)) fun _ _ =>
      (Task.bodiesTyped_mk rfl).2 (List.forall_mem_singleton.2 rfl)
  | opposite _ _ hkind _ ih => exact .opposite hkind ih
  | difference _ _ hkind _ ih => exact .difference hkind ih
  | binary hops _ ih => exact .binary hops ih
  | compare _ ih => exact .compare ih
  | step hv hfunction _ ih => exact .step hv hfunction ih
  | compound hv hfunction _ ih => exact .compound hv hfunction ih
  | clampInt hall hv hh hl ihv ihh ihl => exact .clampInt hall hv hh hl ihv ihh ihl
  | clampFloat hall hv hh hl ihv ihh ihl => exact .clampFloat hall hv hh hl ihv ihh ihl
  | array hlayout _ hopen hadvance hmembers ih => exact .arrayLit hlayout hopen hadvance hmembers ih
  | length _ _ ih => exact .length ih
  | assignFunction hf _ ih => exact .assignFunction hf ih
  | assignName hf hv hfunction hkind _ _ ih => exact .assignName hf hv hfunction hkind ih
  | assignPart hp hv hb hi _ hn ihv ihb ihi ihn =>
    exact .assignPart hp hv hb hi hn ihv ihb ihi ihn
  | loop hcond hbody ihcond ihbody => exact .loop hcond hbody ihcond ihbody
  | operand _ ih => exact .operandOf ih
  | listNil =>
    exact .constant (fun _ _ _ => .nil) fun _ _ => ⟨fun _ hv => absurd hv List.not_mem_nil, rfl⟩
  | listCons he hes ihe ihes => exact .listCons he hes ihe ihes
  | @argsNil s types =>
    refine .constant (fun _ _ _ => ?_) fun _ _ => ⟨fun _ hv => absurd hv List.not_mem_nil, rfl⟩
    cases types <;> exact .nil
  | argsFree he hes ihe ihes => exact .argsFree he hes ihe ihes
  | argsCons he hes ihe ihes => exact .argsCons he hes ihe ihes
  | pairInt hall hl hr ihl ihr => exact .pairInt hl hr hall ihl ihr
  | pairFloat hall hl hr ihl ihr => exact .pairFloat hl hr hall ihl ihr
  | computed _ ih => exact .computed ih
  | fixed =>
    exact .constant (fun _ _ _ => Code.doAll_singleton.2 (.int _))
      fun _ _ => ⟨fun _ hv => absurd hv List.not_mem_nil, rfl⟩
  | membersNil =>
    exact .constant (fun _ _ _ => .nil) fun _ _ => ⟨fun _ hv => absurd hv List.not_mem_nil, rfl⟩
  | memberInt hv _ ih => exact .memberInt hv ih
  | memberValue _ he hrest ihe ihrest => exact .memberValue he hrest ihe ihrest
  | memberInts _ ih => exact .memberInts ih
  | memberReserve _ ih =>
    intro w known c again hsited hwithin hplaced
    exact ih w known c again hsited hwithin ⟨hplaced.listed, hplaced.regular⟩
  | definition _ hf hs ihf ihs => exact .definition hf hs ihf ihs

end PatchCompiler
