import PatchCompiler.Proofs.Emission.Visits
import PatchCompiler.Proofs.Memory.Arrays

/-! # What a run does besides writing code

At some nodes the compiler does more than write code in place: it asks for library functions, lays
out arrays, writes functions, and it writes the instructions that call functions and touch memory.
`Expr.actions` reads these off an expression in the order of its visits. Main statement: a run does
what is read off its task, and nothing else. -/

namespace PatchCompiler

/-! ## Actions -/

/-- A function definition that the compiler writes a function for. -/
structure FuncSource where
  /-- What is known of the function before its body is compiled. -/
  header : Emit.Header
  /-- What runs before the body. -/
  prologue : Option (Expr Frame)
  /-- The body. -/
  body : Expr Frame

namespace FuncSource

/-- What is recorded of the function. -/
def origin (d : FuncSource) : FuncOrigin := ⟨d.header.name, d.header.role, d.header.span⟩

/-- A function is what a run of the compiler writes for a definition. -/
def Yields (d : FuncSource) (f : Func) : Prop :=
  ∃ s s', Emits s (.definition d.header d.prologue d.body) [] s' ∧ s'.funcs.getLast? = some f

end FuncSource

/-- What the compiler does at a node besides writing code in place. -/
inductive Action where
  /-- Ask for a library function and call it. -/
  | request (snippet : Snippet)
  /-- Lay out an array of a number of elements, some of which are written. -/
  | array (count written : Nat)
  /-- Call a function. -/
  | call (callee : String)
  /-- Read the length of an array. -/
  | length
  /-- Write an element of an array, whose length is read before. -/
  | element
  /-- Write a function. -/
  | function (source : FuncSource)

/-- What the compiler asks for to keep a value in a range. -/
def Expr.clampActions (env : Env) (value : Expr Frame) : Expr Frame → List Action
  | .mk (.range (some low) (some high)) _ _ =>
    if Kind.arithmetic [value.kind env, low.kind env, high.kind env] = .int
    then [.request .max, .request .min] else []
  | _ => []

/-- What the compiler does at a node that it comes to. A function definition has a name wherever the
compiler accepts it. -/
def Visit.actions (v : Visit) : List Action :=
  match v.expr with
  | .mk (.array members) _ _ =>
    [.array (members.map Expr.slots).sum (members.map Expr.written).sum]
  | .mk (.call callee _) _ _ => [.call callee]
  | .mk (.clamp value range) _ _ => value.clampActions v.env range
  | .mk (.index _ none) _ _ => [.length]
  | .mk (.index _ (some _)) _ _ => [.request .index, .element]
  | .mk (.field _ _) _ _ => [.request .index, .element]
  | .mk (.function params result prologue body frame) _ span =>
    [.function ⟨⟨v.name.getD "", params, result, frame, span, .function⟩, prologue, body⟩]
  | _ => []

/-- The function that an expression calls. -/
def Expr.callee? : Expr Frame → Option String
  | .mk (.call callee _) _ _ => some callee
  | _ => none

/-- The number of elements of an array literal. -/
def Expr.count? : Expr Frame → Option Nat
  | .mk (.array members) _ _ => some (members.map Expr.slots).sum
  | _ => none

/-- Whether an expression is an array literal. -/
def Expr.isArray : Expr Frame → Bool
  | .mk (.array _) _ _ => true
  | _ => false

/-- Array literals are the expressions that have a number of elements. -/
theorem Expr.isSome_count? (e : Expr Frame) : e.count?.isSome = e.isArray := by
  obtain ⟨node, ty, span⟩ := e
  cases node <;> rfl

/-- The definition that a function is written for at a node. -/
def Visit.source? (v : Visit) : Option FuncSource :=
  match v.expr with
  | .mk (.function params result prologue body frame) _ span =>
    some ⟨⟨v.name.getD "", params, result, frame, span, .function⟩, prologue, body⟩
  | _ => none

namespace Expr

variable (env : Env)

/-- What the compiler does for an expression. -/
def actions (name : Option String) (e : Expr Frame) : List Action :=
  (e.visits env name).flatMap Visit.actions

/-- What the compiler does for a list of expressions. -/
def actionsList (es : List (Expr Frame)) : List Action :=
  (Expr.visitsList env es).flatMap Visit.actions

/-- A list of expressions does what its first one does, and then what the rest does. -/
theorem actionsList_cons (e : Expr Frame) (rest : List (Expr Frame)) :
    actionsList env (e :: rest) = e.actions env none ++ actionsList env rest :=
  List.flatMap_append

/-- The actions of a list are those of its expressions, one after another. -/
theorem actionsList_eq_flatMap (es : List (Expr Frame)) :
    actionsList env es = es.flatMap (actions env none) := by
  induction es with
  | nil => rfl
  | cons e rest ih => rw [actionsList_cons, ih, List.flatMap_cons]

/-- The actions of the nodes of an optional expression are those of the expression. -/
theorem flatMap_visitsOption (e : Option (Expr Frame)) :
    (Expr.visitsOption env e).flatMap Visit.actions = actionsList env e.toList := by
  cases e with
  | none => rfl
  | some e => exact congrArg _ (List.append_nil _).symm

end Expr

/-- What the compiler does for a task. -/
def Task.actions (env : Env) : Task → List Action
  | .expr e name => e.actions env name
  | .operand e _ => e.actions env none
  | .list es => Expr.actionsList env es
  | .args _ es => Expr.actionsList env es
  | .pair _ left right => left.actions env none ++ right.actions env none
  | .position (.computed index) => index.actions env none
  | .position (.fixed _) => []
  | .members _ _ layout => Expr.actionsList env (Member.exprs layout)
  | .definition header prologue body =>
    Expr.actionsList (env.enter header.frame) prologue.toList
      ++ (body.actions (env.enter header.frame) none ++ [.function ⟨header, prologue, body⟩])

namespace Action

/-- The library function that an action asks for. -/
def snippet? : Action → Option Snippet
  | .request snippet => some snippet
  | _ => none

/-- The number of elements of the array that an action lays out. -/
def count? : Action → Option Nat
  | .array count _ => some count
  | _ => none

/-- The function that an action calls because the program does. -/
def callee? : Action → Option String
  | .call callee => some callee
  | _ => none

/-- The definition that an action writes a function for. -/
def source? : Action → Option FuncSource
  | .function source => some source
  | _ => none

/-- The calls and memory instructions that an action writes. -/
def ops : Action → List Op
  | .request snippet => [.call snippet.name]
  | .array _ written => .storeInt :: List.replicate written .storeFloat
  | .call callee => [.call callee]
  | .length => [.loadInt]
  | .element => [.loadInt, .storeFloat]
  | .function _ => []

end Action

/-- The arrays, calls and functions at a node are its own. -/
theorem Visit.filterMap_actions (v : Visit) :
    v.actions.filterMap Action.count? = v.expr.count?.toList ∧
      v.actions.filterMap Action.callee? = v.expr.callee?.toList ∧
      v.actions.filterMap Action.source? = v.source?.toList := by
  obtain ⟨env, name, ⟨node, ty, span⟩⟩ := v
  cases node with
  | clamp value range =>
    simp only [Visit.actions, Expr.clampActions]
    split
    · split <;> exact ⟨rfl, rfl, rfl⟩
    · exact ⟨rfl, rfl, rfl⟩
  | index array index => cases index <;> exact ⟨rfl, rfl, rfl⟩
  | _ => exact ⟨rfl, rfl, rfl⟩

/-! ## Effects of code -/

/-- The instruction itself, if it calls a function or touches memory. -/
def Op.effect? : Op → Option Op
  | .call name => some (.call name)
  | .loadInt => some .loadInt
  | .storeInt => some .storeInt
  | .storeFloat => some .storeFloat
  | _ => none

/-- The calls and memory instructions of a code, in the order they are written. -/
abbrev Code.effects (code : Code) : List Op := code.pick Op.effect?

/-- Calls and memory instructions are effects wherever they stand. -/
theorem Code.mem_effects {code : Code} {op : Op} (h : op.effect? = some op) :
    op ∈ code.effects ↔ op ∈ code.heads := by
  have hself : ∀ head : Op, head.effect? = some op → head = op := by
    intro head hhead
    cases head <;> cases hhead <;> rfl
  rw [Code.effects, Code.pick, List.mem_filterMap]
  constructor
  · rintro ⟨head, hmem, heq⟩
    exact hself head heq ▸ hmem
  · exact fun hmem => ⟨op, hmem, h⟩

/-- The function that an instruction calls. -/
def Op.callee? : Op → Option String
  | .call name => some name
  | _ => none

/-- Calls are effects. -/
theorem Code.filterMap_effects (code : Code) :
    code.effects.filterMap Op.callee? = code.pick Op.callee? := by
  have hcall : ∀ op : Op, op.effect?.bind Op.callee? = op.callee? := by
    intro op
    cases op <;> rfl
  rw [Code.effects, Code.pick, List.filterMap_filterMap, funext hcall]
  rfl

/-- The functions that a function calls, one for each call. -/
def Func.calls (f : Func) : List String := f.body.pick Op.callee?

/-- An action calls the function that the program calls, or the one of the library that it asks
for. -/
theorem Action.filterMap_ops (a : Action) : a.ops.filterMap Op.callee?
    = a.callee?.toList ++ (a.snippet?.map Snippet.name).toList := by
  cases a with
  | array count written => simp [ops, Op.callee?, callee?, snippet?]
  | _ => rfl

section

attribute [local simp] Op.effect?

/-- A conversion writes no call and no memory instruction. -/
@[simp] theorem Code.effects_apply (coercion : Coercion) (code : Code) :
    (coercion.apply code).effects = code.effects := by
  cases coercion <;> simp [Coercion.apply]

/-- A variable is read without a call or a memory instruction. -/
@[simp] theorem Code.effects_read (x : String) (v : Variable) : (Emit.read x v).effects = [] := by
  unfold Emit.read
  split <;> simp

/-- A number is stored to a variable without a further call or memory instruction. -/
@[simp] theorem Code.effects_store (x : String) (v : Variable) (code : Code) (kind : Option Kind) :
    (Emit.store x v code kind).effects = code.effects := by
  unfold Emit.store
  split <;> simp

/-- A test is compared with zero without a further call or memory instruction. -/
@[simp] theorem Code.effects_testOf (kind : Option Kind) (code : Code) :
    (Emit.testOf kind code).effects = code.effects := by
  unfold Emit.testOf
  split <;> simp

/-- A body is brought to its result without a further call or memory instruction. -/
@[simp] theorem Code.effects_fit (header : Emit.Header) (kind : Option Kind) (code : Code) :
    (header.fit kind code).effects = code.effects := by
  unfold Emit.Header.fit
  split
  · split <;> simp
  · rfl

/-- An address is a constant. -/
@[simp] theorem Code.effects_address (a : Nat) : (Emit.address a).effects = [] := rfl

/-- The length of an array is read by one load. -/
@[simp] theorem Code.effects_loadLength (code : Code) :
    (Emit.loadLength code).effects = .loadInt :: code.effects := by
  simp [Emit.loadLength]

/-- An element store calls the library for its index and reads the length of the array. -/
@[simp] theorem Code.effects_writeElement (array index again value : Code) :
    (Emit.writeElement array index again value).effects
      = .storeFloat :: (array.effects ++ (.call Snippet.index.name :: (index.effects
        ++ (.loadInt :: (again.effects ++ value.effects))))) := by
  simp [Emit.writeElement]

/-- A slot is written by one store. -/
@[simp] theorem Code.effects_storeSlot (base : UInt32) (slot : Nat) (value : Code) :
    (Emit.storeSlot base slot value).effects = .storeFloat :: value.effects := by
  simp [Emit.storeSlot]

/-- The code of an array literal stores the number of elements, and what its members store. -/
@[simp] theorem Code.effects_arrayOf (base : UInt32) (count : Nat) (codes : List Code) :
    (Emit.arrayOf base count codes).effects = .storeInt :: codes.flatMap Code.effects := by
  simp [Emit.arrayOf]

/-- The stores of the integers of a range. -/
theorem effects_intRange (base : UInt32) (slot : Nat) (low high : Int32) :
    ((Member.intRange low high).zipIdx.map fun (value, i) =>
        Emit.storeSlot base (slot + i) (.float (.ofInt32 value))).flatMap Code.effects
      = List.replicate (Member.intRange low high).length .storeFloat := by
  have hone : (fun entry : Int32 × Nat => Code.effects
      (Emit.storeSlot base (slot + entry.2) (.float (.ofInt32 entry.1))))
      = fun _ => [Op.storeFloat] := by
    funext entry
    simp
  rw [List.flatMap_map, hone, ← List.map_eq_flatMap, List.map_const', List.length_zipIdx]

end

/-! ## What a run does -/

/-- Add a library function, unless it is there. -/
def Snippet.link (linked : List Snippet) (snippet : Snippet) : List Snippet :=
  if linked.contains snippet then linked else linked ++ [snippet]

/-- What has been done besides writing code in place. -/
structure Ledger where
  /-- Library functions that have been asked for. -/
  includes : List Snippet
  /-- Numbers of elements of the arrays that have been laid out. -/
  counts : List Nat
  /-- What is recorded of the functions that have been written. -/
  origins : List FuncOrigin
  /-- The functions that have been written. -/
  funcs : List Func

/-- The calls and memory instructions of the functions that have been written. -/
def Ledger.effects (l : Ledger) : List Op := l.funcs.flatMap fun f => f.body.effects

namespace State

variable (s : State)

/-- What has been done in a state. -/
def ledger : Ledger := ⟨s.includes, s.arrays.map Extent.count, s.functions, s.funcs⟩

/-- A library function that is asked for is linked, and nothing else in the ledger changes. -/
@[simp] theorem ledger_require (snippet : Snippet) : (s.require snippet).ledger
    = { s.ledger with includes := Snippet.link s.includes snippet } := by
  have hother : (s.require snippet).functions = s.functions := by
    unfold require
    split <;> rfl
  have hincludes : (s.require snippet).includes = Snippet.link s.includes snippet := by
    unfold require Snippet.link
    split <;> rfl
  rw [ledger, hincludes, hother, arrays_require, funcs, forms_require]
  rfl

/-- A scope is declared without an entry in the ledger. -/
@[simp] theorem ledger_declareScope (frame : Frame) : (s.declareScope frame).ledger = s.ledger := by
  have hother : (s.declareScope frame).functions = s.functions := by
    obtain ⟨_, _, _, _, h⟩ := s.declareScope_frame frame
    rw [h]
  rw [ledger, includes_declareScope, arrays_declareScope, hother, funcs_declareScope]
  rfl

/-- A function is begun without an entry in the ledger. -/
@[simp] theorem ledger_beginFunction (header : Emit.Header) (params : List (String × ValType)) :
    (s.beginFunction header params).ledger = s.ledger := by
  have hother : (s.beginFunction header params).functions = s.functions := by
    obtain ⟨_, _, _, _, h⟩ := s.beginFunction_frame header params
    rw [h]
  rw [ledger, includes_beginFunction, arrays_beginFunction, hother, funcs_beginFunction]
  rfl

/-- A function that is ended is entered with its origin and its code. -/
theorem ledger_endFunction (header : Emit.Header) (saved : Locals) (f : Func) :
    (s.endFunction header saved f).ledger = { s.ledger with
      origins := s.functions ++ [⟨header.name, header.role, header.span⟩]
      funcs := s.funcs ++ [f] } := by
  rw [ledger, arrays_endFunction, funcs_endFunction]
  rfl

end State

/-- Between two ledgers actions are done. The calls and memory instructions that are written
meanwhile, be it in code or in functions, are those of the actions, and stores for an array that has
been laid out before. -/
structure Acts (actions : List Action) (own written : List Op) (l l' : Ledger) : Prop where
  /-- The library functions that are asked for. -/
  includes : l'.includes = (actions.filterMap Action.snippet?).foldl Snippet.link l.includes
  /-- The arrays that are laid out. -/
  counts : l'.counts = l.counts ++ actions.filterMap Action.count?
  /-- What is recorded of functions. -/
  origins : l'.origins = l.origins ++ (actions.filterMap Action.source?).map FuncSource.origin
  /-- The functions that are written. -/
  funcs : ∃ fs, l'.funcs = l.funcs ++ fs ∧
    List.Forall₂ FuncSource.Yields (actions.filterMap Action.source?) fs
  /-- The calls and memory instructions. -/
  effects : (written ++ l'.effects).Perm (own ++ (l.effects ++ actions.flatMap Action.ops))

namespace Acts

variable {actions actions' : List Action} {own own' written written' : List Op} {l l₁ l' : Ledger}

/-- Nothing is done between a ledger and itself. -/
theorem refl (l : Ledger) : Acts [] [] [] l l :=
  ⟨rfl, by simp, by simp, ⟨[], by simp, .nil⟩, by simp⟩

/-- One run after another. -/
theorem append (h : Acts actions own written l l₁) (h' : Acts actions' own' written' l₁ l') :
    Acts (actions ++ actions') (own ++ own') (written ++ written') l l' := by
  obtain ⟨fs, hfuncs, hyields⟩ := h.funcs
  obtain ⟨fs', hfuncs', hyields'⟩ := h'.funcs
  refine ⟨?_, ?_, ?_, ⟨fs ++ fs', ?_, ?_⟩, ?_⟩
  · rw [h'.includes, h.includes, List.filterMap_append, List.foldl_append]
  · rw [h'.counts, h.counts, List.filterMap_append, List.append_assoc]
  · rw [h'.origins, h.origins, List.filterMap_append, List.map_append, List.append_assoc]
  · rw [hfuncs', hfuncs, List.append_assoc]
  · rw [List.filterMap_append]
    exact List.rel_append hyields hyields'
  · -- what the first run leaves in functions is there before the second one
    have hcount := List.perm_iff_count.1 h.effects
    have hcount' := List.perm_iff_count.1 h'.effects
    rw [List.perm_iff_count]
    intro op
    have hop := hcount op
    have hop' := hcount' op
    simp only [List.count_append, List.flatMap_append] at hop hop' ⊢
    omega

/-- The order of the instructions of a code does not matter. -/
theorem reorder (h : Acts actions own written l l') (hown : own'.Perm own)
    (hwritten : written'.Perm written) : Acts actions own' written' l l' :=
  ⟨h.includes, h.counts, h.origins, h.funcs,
    ((hwritten.append_right _).trans h.effects).trans (hown.symm.append_right _)⟩

/-- Instructions that are written for an array that has been laid out before can be left out. -/
theorem cancel (h : Acts actions own (own ++ written) l l') : Acts actions [] written l l' := by
  refine ⟨h.includes, h.counts, h.origins, h.funcs, ?_⟩
  have heffects := h.effects
  rw [List.append_assoc, List.perm_append_left_iff] at heffects
  exact heffects

/-- An instruction that is written for an array that has been laid out before. -/
theorem cons (h : Acts actions own written l l') (op : Op) :
    Acts actions (op :: own) (op :: written) l l' :=
  ⟨h.includes, h.counts, h.origins, h.funcs, h.effects.cons op⟩

/-- Instructions that are written for an array that has been laid out before. -/
theorem prepend (h : Acts actions own written l l') (ops : List Op) :
    Acts actions (ops ++ own) (ops ++ written) l l' := by
  induction ops with
  | nil => exact h
  | cons op rest ih => exact ih.cons op

/-- An action that only writes instructions. -/
theorem plain (l : Ledger) {a : Action} (hsnippet : a.snippet? = none) (hcount : a.count? = none)
    (hsource : a.source? = none) : Acts [a] [] a.ops l l := by
  refine ⟨?_, ?_, ?_, ⟨[], (List.append_nil _).symm, ?_⟩, ?_⟩
  · rw [List.filterMap_cons, hsnippet]
    rfl
  · rw [List.filterMap_cons, hcount]
    exact (List.append_nil _).symm
  · rw [List.filterMap_cons, hsource]
    exact (List.append_nil _).symm
  · rw [List.filterMap_cons, hsource]
    exact .nil
  · rw [List.flatMap_singleton]
    exact List.perm_append_comm

/-- A library function is asked for and called. -/
theorem request (l : Ledger) (snippet : Snippet) : Acts [.request snippet] []
    [.call snippet.name] l { l with includes := Snippet.link l.includes snippet } :=
  ⟨rfl, (List.append_nil _).symm, (List.append_nil _).symm, ⟨[], (List.append_nil _).symm, .nil⟩,
    List.perm_append_comm⟩

/-- An array is laid out, and its length and its numbers are stored. -/
theorem array (l : Ledger) (count stores : Nat) :
    Acts [.array count stores] [] (.storeInt :: List.replicate stores .storeFloat) l
      { l with counts := l.counts ++ [count] } := by
  refine ⟨rfl, rfl, (List.append_nil _).symm, ⟨[], (List.append_nil _).symm, .nil⟩, ?_⟩
  rw [List.flatMap_singleton]
  exact List.perm_append_comm

/-- Code that becomes a function. -/
theorem function (h : Acts actions [] written l l') {d : FuncSource} {f : Func}
    (hyields : d.Yields f) (hf : f.body.effects = written) :
    Acts (actions ++ [.function d]) [] [] l
      { l' with origins := l'.origins ++ [d.origin], funcs := l'.funcs ++ [f] } := by
  obtain ⟨fs, hfuncs, hfs⟩ := h.funcs
  refine ⟨?_, ?_, ?_, ⟨fs ++ [f], ?_, ?_⟩, ?_⟩
  · rw [List.filterMap_append]
    exact h.includes.trans (congrArg _ (List.append_nil _).symm)
  · rw [List.filterMap_append]
    exact h.counts.trans (congrArg _ (List.append_nil _).symm)
  · rw [List.filterMap_append, List.map_append, ← List.append_assoc, ← h.origins]
    rfl
  · rw [hfuncs, List.append_assoc]
  · rw [List.filterMap_append]
    exact List.rel_append hfs (.cons hyields .nil)
  -- the code becomes the body of a function: its effects move from `written` to the ledger
  · have hlast : Ledger.effects
        { l' with origins := l'.origins ++ [d.origin], funcs := l'.funcs ++ [f] }
        = l'.effects ++ written := by
      rw [Ledger.effects, List.flatMap_append, List.flatMap_singleton, hf]
      rfl
    rw [hlast, List.nil_append, List.flatMap_append]
    have hops : [Action.function d].flatMap Action.ops = [] := rfl
    rw [hops, List.append_nil]
    exact List.perm_append_comm.trans h.effects

end Acts

/-- The stores that a task writes for an array that has been laid out before. -/
def Task.owed : Task → List Op
  | .members _ _ layout => List.replicate (layout.map Member.written).sum .storeFloat
  | _ => []

/-- Asking for a library function, and calling it. -/
theorem State.acts_require (s : State) (snippet : Snippet) :
    Acts [.request snippet] [] [.call snippet.name] s.ledger (s.require snippet).ledger := by
  rw [ledger_require]
  exact .request _ snippet

/-- What is done for an array literal is read off its layout. -/
theorem actions_of_classified {env : Env} {members : List (Expr Frame)} {layout : List Member}
    (h : List.Forall₂ (fun e m => Member.ofOperand (e.kind env) ⟨e, e.emit⟩ = .ok m)
      members layout) :
    Expr.actionsList env (Member.exprs layout) = Expr.actionsList env members := by
  rw [Expr.actionsList_eq_flatMap, Expr.actionsList_eq_flatMap]
  exact Member.flatMap_exprs _ (fun e he => by cases he <;> rfl) h

/-- What is done for an assignment: the value comes first. -/
theorem Expr.actions_assign (env : Env) (name : Option String) (target value : Expr Frame)
    (ty : Option Kind) (span : Span) :
    (Expr.mk (.assign target value) ty span).actions env name
      = value.actions env (if value.isFunction then target.identifier? else none)
        ++ (target.visits env none ++ target.visitsAgain env).flatMap Visit.actions := by
  rw [actions, Expr.visits, Node.visits]
  exact List.flatMap_append

/-- What is done for the target of an element store. -/
theorem actions_of_position {env : Env} {target array : Expr Frame} {p : Position}
    (h : target.position? = some (array, p)) :
    (target.visits env none ++ target.visitsAgain env).flatMap Visit.actions
      = .request .index :: .element :: (array.actions env none ++ (Task.actions env (.position p)
        ++ array.actions env none)) := by
  cases Expr.locates_of_position h with
  | element =>
    simp [Expr.visits, Node.visits, Expr.visitsOption, Expr.visitsAgain, Visit.with,
      Expr.isFunction, Visit.actions, Task.actions, Expr.actions]
  | field =>
    simp [Expr.visits, Node.visits, Expr.visitsAgain, Visit.with, Expr.isFunction, Visit.actions,
      Task.actions, Expr.actions]

/-- An array literal: the array is laid out before its members are compiled. -/
theorem Acts.arrayLit {s s' : State} {members : List (Expr Frame)} {layout : List Member}
    {codes : List Code} {base : UInt32} {arena₁ arena₂ : Arena} {span : Span}
    (hlayout : List.Forall₂ (fun e m => Member.ofOperand (e.kind s.env) ⟨e, e.emit⟩ = .ok m)
      members layout)
    (htotal : Member.total layout < UInt32.size) (hopen : s.arena.openArray = .ok (base, arena₁))
    (hadvance : arena₁.advance (.ofNat (Member.total layout)) = .ok arena₂)
    (hvalues : ∀ e ∈ Member.exprs layout, e.isRange = false)
    (h : Acts (Expr.actionsList s.env (Member.exprs layout))
      (List.replicate (layout.map Member.written).sum .storeFloat) (codes.flatMap Code.effects)
      ({ s with arena := arena₂ }.record
        (.array span base (.ofNat (Member.total layout)))).ledger s'.ledger) :
    Acts (.array (members.map Expr.slots).sum (members.map Expr.written).sum
        :: Expr.actionsList s.env members) []
      (Emit.arrayOf base (Member.total layout) codes).effects s.ledger s'.ledger := by
  obtain ⟨hslots, hwritten⟩ := Member.counts_of_classified hlayout hvalues
    (Arena.total_lt_maxSlots htotal hopen hadvance)
  have hledger : ({ s with arena := arena₂ }.record
      (.array span base (.ofNat (Member.total layout)))).ledger
      = { s.ledger with counts := s.ledger.counts ++ [(members.map Expr.slots).sum] } := by
    have hcount : (UInt32.ofNat (Member.total layout)).toNat = (members.map Expr.slots).sum := by
      rw [UInt32.toNat_ofNat_of_lt' htotal, hslots]
    simp only [State.ledger, State.arrays, State.record, List.filterMap_append, List.map_append]
    exact congrArg (Ledger.mk _ · _ _) (congrArg _ (congrArg (List.cons · []) hcount))
  rw [actions_of_classified hlayout, hledger, hwritten] at h
  have hrun := (Acts.array s.ledger _ (members.map Expr.written).sum).append h
  -- the stores of the members are written in their code
  refine Acts.cancel (hrun.reorder (.refl _) ?_)
  rw [List.nil_append, Code.effects_arrayOf, List.cons_append]
  exact List.perm_middle

section

attribute [local simp] Task.owed Op.effect? Task.actions Expr.actions Expr.actionsList Expr.visits
  Node.visits Expr.visitsList Visit.with Expr.isFunction Visit.actions Expr.clampActions Action.ops

/-- A run does what is read off its task. -/
theorem Emits.acts {s s' : State} {task : Task} {codes : List Code} (h : Emits s task codes s') :
    Acts (task.actions s.env) task.owed (codes.flatMap Code.effects) s.ledger s'.ledger := by
  -- all premises of a rule run in the same surroundings (`env_eq`), in which the actions are read
  induction h with
  | floatLit | intLit | negInt | negFloat | listNil | argsNil | fixed | membersNil =>
    exact .refl _
  | @ident s x v _ _ _ _ =>
    have hread : Code.effects (if v.kind = .function then [] else Emit.read x v) = [] := by
      split <;> simp
    simpa [hread] using Acts.refl s.ledger
  | statements _ ih | sequence _ ih | opposite _ _ _ _ ih | difference _ _ _ _ ih
  | compound _ _ _ ih | binary _ _ ih | compare _ ih | operand _ ih | computed _ ih =>
    simpa using ih
  | step _ _ _ ih => simpa [Expr.int, Expr.plain, Expr.withKind] using ih
  | memberReserve _ ih => simpa [Member.exprs, Member.written] using ih
  | call _ ih => simpa using (Acts.plain _ (a := .call _) rfl rfl rfl).append ih
  | length _ _ ih =>
    simpa [Expr.visitsOption] using (Acts.plain _ (a := .length) rfl rfl rfl).append ih
  | @clampFloat s _ _ _ value low high _ _ _ _ _ _ _ _ hkinds hv hh _ ihv ihh ihl =>
    rw [hh.env_eq] at ihl
    rw [hv.env_eq] at ihh ihl
    simpa [Kind.arithmetic_of_not_allInt hkinds, Expr.visitsOption]
      using ihv.append (ihh.append ihl)
  | @clampInt s _ _ _ value low high _ _ _ _ _ _ _ _ hkinds hv hh _ ihv ihh ihl =>
    rw [hh.env_eq] at ihl
    rw [hv.env_eq] at ihh ihl
    simp only [State.env_require] at ihv ihh ihl
    -- the library functions are asked for before the operands are compiled
    have hrun := (s.acts_require .max).append (((s.require .max).acts_require .min).append
      (ihv.append (ihh.append ihl)))
    simpa [Kind.arithmetic_of_allInt hkinds, Expr.visitsOption] using hrun
  | assignFunction hf _ ih =>
    rw [Task.actions, Expr.actions_assign, if_pos hf]
    simpa [Expr.identifier?, Expr.visitsAgain] using ih
  | assignName hf _ _ _ _ _ ih =>
    rw [Task.actions, Expr.actions_assign, if_neg (Bool.eq_false_iff.1 hf)]
    simpa [Expr.visitsAgain] using ih
  | @assignPart s s₁ s₂ s₃ s' target array position value v b i n ty span name hp hv hb hi _ _ ihv
      ihb ihi ihn =>
    rw [hi.env_eq] at ihn
    rw [hb.env_eq] at ihi ihn
    rw [State.env_require] at ihb ihi ihn
    rw [hv.env_eq] at ihb ihi ihn
    have hrun := ihv.append ((s₁.acts_require .index).append ((Acts.plain _ (a := .element) rfl rfl
      rfl).append (ihb.append (ihi.append ihn))))
    rw [Task.actions, Expr.actions_assign, (definitions_of_position hp).1, ite_self,
      actions_of_position hp]
    -- the value is compiled first and stands last
    refine hrun.reorder (.refl _) ?_
    rw [List.perm_iff_count]
    intro op
    simp only [List.flatMap_singleton, Code.effects_writeElement, List.count_append,
      List.count_cons, List.count_nil, Action.ops]
    omega
  | listCons he _ ihe ihrest | argsFree he _ ihe ihrest | argsCons he _ ihe ihrest =>
    rw [he.env_eq] at ihrest
    simpa using ihe.append ihrest
  | pairInt _ hl _ ihl ihr | pairFloat _ hl _ ihl ihr =>
    rw [hl.env_eq] at ihr
    simpa using ihl.append ihr
  | @memberInt _ _ _ _ operand _ _ _ hv _ ih =>
    obtain ⟨⟨node, ty, span⟩, emitted⟩ := operand
    cases hv
    simpa [Member.exprs, Member.written, List.replicate_add] using ih.cons .storeFloat
  | memberValue _ he _ ihe ihrest =>
    rw [he.env_eq] at ihrest
    simpa [Member.exprs, Member.written, List.replicate_add]
      using (ihe.append ihrest).cons .storeFloat
  | @memberInts _ _ _ _ low high _ _ _ ih =>
    rw [List.flatMap_append, effects_intRange, Task.owed, List.map_cons, List.sum_cons,
      Member.written, List.replicate_add]
    exact ih.prepend _
  | array hlayout htotal hopen hadvance hmembers ih =>
    rw [List.flatMap_singleton]
    exact Acts.arrayLit hlayout htotal hopen hadvance hmembers.not_range ih
  | @block s s' body frame code ty span name _ ih =>
    rw [@State.env_of_scopes_cons s _ frame (by simp), State.ledger_declareScope] at ih
    exact ih
  | function _ ih =>
    simpa [Expr.flatMap_visitsOption] using ih
  | @loop s _ s₂ cond body _ _ _ _ _ hc _ ihc ihb =>
    rw [hc.env_eq] at ihb
    have hrun : Acts (cond.actions s.env none ++ body.actions s.env none) _ _ s.ledger
        s₂.exitLoop.ledger := ihc.append ihb
    simpa [Emit.loopOf] using hrun
  | @definition s s₁ s₂ header prologue body params first second hparams hf hs ihf ihs =>
    have hyields : FuncSource.Yields ⟨header, prologue, body⟩ (header.func params s₂.locals
        first.flatten (header.fit (body.kind s₂.env) second)) :=
      ⟨s, _, .definition hparams hf hs, by simp⟩
    rw [hf.env_eq] at ihs
    rw [@State.env_of_scopes_cons s _ header.frame (by simp)] at ihf ihs
    rw [State.ledger_beginFunction] at ihf
    -- the code of the prologue and the body leaves the task and goes into the function
    have hrun := (ihf.append ihs).function hyields (by simp [Emit.Header.func])
    rw [Task.actions, ← List.append_assoc, State.ledger_endFunction]
    exact hrun

end

/-! ## Programs -/

/-- The calls and memory instructions of the functions of a module. -/
def Module.effects (m : Module) : List Op := m.functions.flatMap fun f => f.body.effects

/-- Functions of the library neither call functions nor touch memory. -/
theorem Module.effects_eq (m : Module) : m.effects = m.funcs.flatMap fun f => f.body.effects := by
  have hsnippet : ∀ snippet : Snippet, snippet.func.body.effects = [] := by
    intro snippet
    cases snippet <;> rfl
  rw [effects, functions, List.flatMap_append, List.flatMap_map]
  simp [hsnippet]

namespace Program

variable (p : Program)

/-- What the compiler does for the top-level statements of a program. -/
def actions : List Action := p.visits.flatMap Visit.actions

/-- The library functions that the compiler asks for in a program, in order. -/
def requests : List Snippet := p.actions.filterMap Action.snippet?

/-- The functions that the calls of a program name. -/
def callees : List String := p.nodes.filterMap Expr.callee?

/-- The top-level statements of a program, as the definition of the function that a module starts
with. -/
def main : FuncSource := ⟨p.header, none, p.body.locate [0]⟩

/-- The definitions that functions are written for, in order; the top-level statements come last. -/
def sources : List FuncSource := p.visits.filterMap Visit.source? ++ [p.main]

variable {p} {m : Module} {map : SourceMap}

/-- The nodes that the compiler comes to are the nodes of the program. -/
theorem exists_visit {q : Expr Frame → Prop} :
    (∃ v ∈ p.visits, q v.expr) ↔ ∃ e ∈ p.nodes, q e := by
  constructor
  · rintro ⟨v, hv, hq⟩
    exact ⟨v.expr, Expr.mem_visits.1 ⟨v, hv, rfl⟩, hq⟩
  · rintro ⟨e, he, hq⟩
    obtain ⟨v, hv, rfl⟩ := Expr.mem_visits.2 he
    exact ⟨v, hv, hq⟩

/-- What is read off the actions of each node is read off those of the program. -/
theorem filterMap_actions {α : Type} {f : Action → Option α} {g : Visit → Option α}
    (h : ∀ v : Visit, v.actions.filterMap f = (g v).toList) :
    p.actions.filterMap f = p.visits.filterMap g := by
  rw [actions, List.filterMap_flatMap, funext h, List.filterMap_eq_flatMap_toList]

/-- A program that compiles: what was done is what is read off the program, and the function that
the module starts with comes last. -/
theorem acts_of_compile (h : p.compile.outcome = .ok (m, map)) :
    ∃ s : State, map = s.sourceMap ∧
      s.ledger = ⟨m.snippets, p.compile.arrays.map Extent.count, s.functions, m.funcs⟩ ∧
      Acts (p.actions ++ [.function p.main]) [] [] ⟨[], [], [], []⟩ s.ledger := by
  obtain ⟨s, pages, hemits, _, rfl, hmap, hlog⟩ := run_of_compile h
  refine ⟨s, hmap, ?_, hemits.acts⟩
  -- the event that comes last is that of the finished module
  have harrays : p.compile.arrays = s.arrays := by
    rw [Compilation.arrays, hlog, List.filterMap_append]
    exact List.append_nil _
  rw [harrays]
  rfl

/-- The arrays that are laid out are the array literals that the compiler comes to, in order. -/
theorem counts_of_compile (h : p.compile.outcome = .ok (m, map)) :
    p.compile.arrays.map Extent.count = p.visits.filterMap fun v => v.expr.count? := by
  obtain ⟨s, _, hledger, hacts⟩ := acts_of_compile h
  have hcounts := hacts.counts
  rw [hledger, List.filterMap_append, filterMap_actions fun v => v.filterMap_actions.1] at hcounts
  exact hcounts.trans (List.append_nil _)

/-- The definitions that functions are written for, among what the compiler does. -/
theorem filterMap_source? :
    (p.actions ++ [Action.function p.main]).filterMap Action.source? = p.sources := by
  rw [List.filterMap_append, filterMap_actions fun v => v.filterMap_actions.2.2]
  rfl

/-- The functions of a module are written for the definitions that the compiler comes to, in order,
and for the top-level statements. -/
theorem yields_of_compile (h : p.compile.outcome = .ok (m, map)) :
    List.Forall₂ FuncSource.Yields p.sources m.funcs := by
  obtain ⟨s, _, hledger, hacts⟩ := acts_of_compile h
  obtain ⟨fs, hfuncs, hyields⟩ := hacts.funcs
  rw [hledger] at hfuncs
  obtain rfl : m.funcs = fs := hfuncs
  rw [← filterMap_source?]
  exact hyields

/-- The calls and memory instructions of a module are those that are read off the program. -/
theorem effects_of_compile (h : p.compile.outcome = .ok (m, map)) :
    m.effects.Perm (p.actions.flatMap Action.ops) := by
  obtain ⟨s, _, hledger, hacts⟩ := acts_of_compile h
  have heffects := hacts.effects
  rw [hledger, List.flatMap_append] at heffects
  rw [m.effects_eq]
  exact heffects.trans (.of_eq (List.append_nil _))

/-- The calls in the functions of a module are those of the program and those of the library
functions that are asked for. -/
theorem calls_of_compile (h : p.compile.outcome = .ok (m, map)) :
    (m.funcs.flatMap Func.calls).Perm
      (p.visits.filterMap (fun v => v.expr.callee?) ++ p.requests.map Snippet.name) := by
  have hcalls : m.funcs.flatMap Func.calls = m.effects.filterMap Op.callee? := by
    rw [m.effects_eq, List.filterMap_flatMap]
    exact congrArg (List.flatMap · m.funcs) (funext fun f => f.body.filterMap_effects.symm)
  have hops : (p.actions.flatMap Action.ops).filterMap Op.callee?
      = p.actions.flatMap fun a => a.callee?.toList ++ (a.snippet?.map Snippet.name).toList := by
    rw [List.filterMap_flatMap]
    exact congrArg (List.flatMap · p.actions) (funext Action.filterMap_ops)
  have hread : p.visits.filterMap (fun v => v.expr.callee?) ++ p.requests.map Snippet.name
      = p.actions.flatMap (fun a => a.callee?.toList)
        ++ p.actions.flatMap (fun a => (a.snippet?.map Snippet.name).toList) := by
    rw [← filterMap_actions fun v => v.filterMap_actions.2.1, requests, List.map_filterMap,
      List.filterMap_eq_flatMap_toList, List.filterMap_eq_flatMap_toList]
  rw [hcalls, hread]
  refine ((effects_of_compile h).filterMap _).trans ?_
  rw [hops]
  exact (List.flatMap_append_perm _ _ _).symm

/-- A module calls a function or touches memory if the compiler does so at some node. -/
theorem mem_effects (h : p.compile.outcome = .ok (m, map)) {op : Op} :
    op ∈ m.effects ↔ ∃ v ∈ p.visits, ∃ a ∈ v.actions, op ∈ a.ops := by
  rw [(effects_of_compile h).mem_iff, actions, List.mem_flatMap]
  simp only [List.mem_flatMap]
  tauto

end Program

end PatchCompiler
