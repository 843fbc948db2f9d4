import PatchCompiler.Proofs.Emission.Derive
import PatchCompiler.Proofs.Emission.Fields
import PatchCompiler.Proofs.Tree.Enclosure

/-! # What the code of an expression depends on

The code of an expression depends on the scopes around it, the signatures that have been noted, the
loops it stands in and the memory that has been handed out, but not on what the run has gathered so
far. Two runs are followed side by side: `Emit.Alike` says of two steps that they end alike whenever
they start in states that agree on those four parts. Main statement: in two such states an
expression is compiled to the same code, or fails in the same way, and the states agree again. -/

namespace PatchCompiler

/-! ## States that agree -/

/-- Two states agree on what compiling an expression depends on. Everything that a run gathers may
differ: forms, functions, library functions, local variables and their names, declared bindings and
events. -/
structure State.Agrees (s t : State) : Prop where
  /-- The same scopes enclose the expression. -/
  scopes : s.scopes = t.scopes
  /-- The same parameter types are known of every function. -/
  signatures : ∀ name, s.signature? name = t.signature? name
  /-- The expression stands in as many loops. -/
  loopDepth : s.loopDepth = t.loopDepth
  /-- The same memory has been handed out. -/
  arena : s.arena = t.arena

namespace State

namespace Agrees

variable {s s' t t' : State}

/-- States agree in both directions. -/
theorem symm (h : s.Agrees t) : t.Agrees s :=
  ⟨h.scopes.symm, fun name => (h.signatures name).symm, h.loopDepth.symm, h.arena.symm⟩

/-- States agree in a chain. -/
theorem trans {u : State} (h : s.Agrees t) (h' : t.Agrees u) : s.Agrees u :=
  ⟨h.scopes.trans h'.scopes, fun name => (h.signatures name).trans (h'.signatures name),
    h.loopDepth.trans h'.loopDepth, h.arena.trans h'.arena⟩

/-- Each state may gather something of its own. -/
theorem gather (h : s.Agrees t) (hs : s'.Agrees s) (ht : t'.Agrees t) : s'.Agrees t' :=
  (hs.trans h).trans ht.symm

/-- In states that agree names stand for the same variables. -/
theorem env_eq (h : s.Agrees t) : s.env = t.env := env_eq_of_scopes h.scopes

/-- States agree when a scope is entered in both. -/
theorem enter (h : s.Agrees t) (frame : Frame) : (s.enter frame).Agrees (t.enter frame) :=
  ⟨congrArg (frame :: ·) h.scopes, h.signatures, h.loopDepth, h.arena⟩

/-- States agree when a scope is left in both. -/
theorem leave (h : s.Agrees t) : s.leave.Agrees t.leave :=
  ⟨congrArg List.tail h.scopes, h.signatures, h.loopDepth, h.arena⟩

/-- States agree when a loop is entered in both. -/
theorem enterLoop (h : s.Agrees t) : s.enterLoop.Agrees t.enterLoop :=
  ⟨h.scopes, h.signatures, congrArg (· + 1) h.loopDepth, h.arena⟩

/-- States agree when a loop is left in both. -/
theorem exitLoop (h : s.Agrees t) : s.exitLoop.Agrees t.exitLoop :=
  ⟨h.scopes, h.signatures, congrArg (· - 1) h.loopDepth, h.arena⟩

/-- States agree when a signature is recorded in both. -/
theorem recordSignature (h : s.Agrees t) (name : String) (params : List ValType) :
    (s.recordSignature name params).Agrees (t.recordSignature name params) := by
  refine ⟨h.scopes, fun other => ?_, h.loopDepth, h.arena⟩
  -- the latest signature of a name is found first, so one more on both sides keeps them alike
  show List.lookup other (_ :: _) = List.lookup other (_ :: _)
  rw [List.lookup_cons, List.lookup_cons]
  split
  · rfl
  · exact h.signatures other

/-- States agree when both take the same arena. -/
theorem allocate (h : s.Agrees t) (arena : Arena) :
    State.Agrees { s with arena := arena } { t with arena := arena } :=
  ⟨h.scopes, h.signatures, h.loopDepth, rfl⟩

end Agrees

/-! Changes that concern only what a run gathers. -/

variable (s : State)

/-- A recorded event is not seen by agreement. -/
theorem agrees_record (event : Event) : (s.record event).Agrees s :=
  ⟨rfl, fun _ => rfl, rfl, rfl⟩

/-- A written function is not seen by agreement. -/
theorem agrees_pushFunction (origin : FuncOrigin) (f : Func) :
    (s.pushFunction origin f).Agrees s := ⟨rfl, fun _ => rfl, rfl, rfl⟩

/-- Setting the local variables aside is not seen by agreement. -/
theorem agrees_takeLocals : s.takeLocals.2.Agrees s := ⟨rfl, fun _ => rfl, rfl, rfl⟩

/-- Bringing local variables back is not seen by agreement. -/
theorem agrees_restoreLocals (saved : Locals) : (s.restoreLocals saved).2.Agrees s :=
  ⟨rfl, fun _ => rfl, rfl, rfl⟩

/-- A marked slot is not seen by agreement. -/
theorem agrees_mark (slot : Slot) : (s.mark slot).Agrees s := by
  obtain ⟨_, h⟩ := s.mark_eq slot
  rw [h]
  exact ⟨rfl, fun _ => rfl, rfl, rfl⟩

/-- A declared scope is not seen by agreement. -/
theorem agrees_declareScope (frame : Frame) : (s.declareScope frame).Agrees s := by
  obtain ⟨_, _, _, _, h⟩ := s.declareScope_frame frame
  rw [h]
  exact ⟨rfl, fun _ => rfl, rfl, rfl⟩

/-- A library function that is asked for is not seen by agreement. -/
theorem agrees_require (snippet : Snippet) : (s.require snippet).Agrees s := by
  unfold require
  split <;> exact ⟨rfl, fun _ => rfl, rfl, rfl⟩

end State

/-! ## Steps that end alike -/

/-- Two runs end alike: with the same value or the same failure, in states that agree. -/
inductive Emit.EndAlike {α : Type} :
    EStateM.Result Failure State α → EStateM.Result Failure State α → Prop
  | ok {a : α} {s t : State} : s.Agrees t → EndAlike (.ok a s) (.ok a t)
  | error {failure : Failure} {s t : State} : s.Agrees t →
    EndAlike (.error failure s) (.error failure t)

/-- Two steps end alike when they start in states that agree. -/
def Emit.Alike {α : Type} (x y : Emit α) : Prop := ∀ s t, s.Agrees t → EndAlike (x s) (y t)

/-- A step ends alike in states that agree. -/
def Emit.Steady {α : Type} (x : Emit α) : Prop := Alike x x

namespace Emit.Alike

variable {α β : Type} {x y : Emit α}

/-- A result is alike in all states. -/
theorem pure (a : α) : Alike (pure a : Emit α) (pure a) := fun _ _ h => .ok h

/-- A failure is alike in all states. -/
theorem throw (failure : Failure) : Alike (throw failure : Emit α) (throw failure) :=
  fun _ _ h => .error h

/-- The second steps are given a value that the first ones give. -/
theorem bind_of_ok {f g : α → Emit β} (hx : Alike x y)
    (hf : ∀ s a s', x s = .ok a s' → Alike (f a) (g a)) : Alike (x >>= f) (y >>= g) := by
  intro s t h
  have hrun := hx s t h
  -- The second steps run only if both first ones gave a value, and then it is the same one.
  show EndAlike (EStateM.bind x f s) (EStateM.bind y g t)
  unfold EStateM.bind
  generalize hxs : x s = r at hrun
  generalize y t = r' at hrun
  cases hrun with
  | ok h' => exact hf _ _ _ hxs _ _ h'
  | error h' => exact .error h'

/-- Steps in turn are alike when each one is. -/
theorem bind {f g : α → Emit β} (hx : Alike x y) (hf : ∀ a, Alike (f a) (g a)) :
    Alike (x >>= f) (y >>= g) := hx.bind_of_ok fun _ a _ _ => hf a

/-- What would come after a failure does not matter. -/
theorem throw_bind (failure : Failure) {f g : α → Emit β} :
    Alike ((MonadExcept.throw failure : Emit α) >>= f) (MonadExcept.throw failure >>= g) :=
  fun _ _ h => .error h

/-- The states that are read differ, but agree. -/
theorem get_bind {f g : State → Emit β} (h : ∀ s t, s.Agrees t → Alike (f s) (g t)) :
    Alike (get >>= f) (get >>= g) := fun s t hst => h s t hst s t hst

/-- Changes of the state are alike when they keep agreement. -/
theorem modify {f g : State → State} (h : ∀ s t : State, s.Agrees t → (f s).Agrees (g t)) :
    Alike (modify f : Emit PUnit) (modify g) := fun s t hst => .ok (h s t hst)

/-- What is taken out of the states may differ. -/
theorem modifyGet_bind {f g : State → α × State} {k l : α → Emit β}
    (h : ∀ s t : State, s.Agrees t → (f s).2.Agrees (g t).2) (hk : ∀ a b, Alike (k a) (l b)) :
    Alike (modifyGet f >>= k) (modifyGet g >>= l) :=
  fun s t hst => hk (f s).1 (g t).1 _ _ (h s t hst)

/-- Steps that depend on one condition are alike when their branches are. -/
theorem ite {c : Prop} [Decidable c] {x' y' : Emit α} (hx : Alike x y) (hx' : Alike x' y') :
    Alike (if c then x else x') (if c then y else y') := by
  split
  · exact hx
  · exact hx'

end Emit.Alike

/-- The code of an operand is the same in states that agree. -/
def Operand.Steady (o : Operand) : Prop := ∀ name, Emit.Steady (o.code name)

namespace Operand

variable {o : Operand}

/-- Inferring the kind of an operand is steady. -/
theorem steady_kind (o : Operand) : Emit.Steady o.kind :=
  .get_bind fun s t h => by
    rw [h.env_eq]
    exact .pure _

/-- Looking for integers among operands is steady. -/
theorem steady_allInt (operands : List Operand) : Emit.Steady (allInt operands) :=
  .get_bind fun s t h => by
    rw [h.env_eq]
    exact .pure _

/-- Finding the kind of an operator is steady. -/
theorem steady_arithmeticKind (operands : List Operand) : Emit.Steady (arithmeticKind operands) :=
  (steady_allInt operands).bind fun _ => .pure _

/-- A steady operand stays steady when it is brought to a type. -/
theorem Steady.emitAs (h : o.Steady) (type : ValType) : Emit.Steady (o.emitAs type) :=
  o.steady_kind.bind fun _ => (h none).bind fun _ => .pure _

/-- The constant one is steady. -/
theorem steady_one : Operand.one.Steady := fun _ => .pure _

end Operand

namespace Emit

/-! ## Names and memory -/

/-- Resolving a name is steady. -/
theorem steady_resolve (x : String) (span : Span) : Steady (resolve x span) := by
  refine .get_bind fun s t h => ?_
  have hlookup : s.lookup x = t.lookup x := congrFun h.env_eq x
  rw [hlookup]
  split
  · exact .pure _
  · exact .throw _

/-- Finding a variable to store to is steady. -/
theorem steady_storable (x : String) (nameSpan span : Span) :
    Steady (storable x nameSpan span) := by
  refine (steady_resolve x nameSpan).bind fun v => ?_
  by_cases hk : v.kind = .function
  · simp only [hk, if_true]
    exact .throw_bind _
  · simp only [hk, if_false]
    exact .pure v

/-- A step of the arena is steady. -/
theorem steady_onArena {α : Type} (step : Arena → Except Limit (α × Arena)) :
    Steady (onArena step) := by
  refine .get_bind fun s t h => ?_
  rw [h.arena]
  split
  · exact Alike.bind (.modify fun _ _ hst => hst.allocate _) fun _ => .pure _
  · exact .throw _

/-! ## Lists, functions and blocks -/

/-- Steady operands are steady in turn. -/
theorem steady_all {operands : List Operand} (h : ∀ o ∈ operands, o.Steady) :
    Steady (all operands) := by
  induction operands with
  | nil => exact .pure []
  | cons o rest ih =>
    refine (h o List.mem_cons_self none).bind fun _ => ?_
    exact (ih fun o' ho' => h o' (List.mem_cons_of_mem _ ho')).bind fun _ => .pure _

/-- Declaring parameters is steady. -/
theorem steady_declareParams (frame : Frame) (span : Span) (params : List String) :
    Steady (declareParams frame span params) := by
  induction params with
  | nil => exact .pure []
  | cons x rest ih =>
    unfold declareParams
    cases frame.find? x with
    | none => exact .throw _
    | some v =>
      have hmark : Steady (modify fun s => s.mark (frame.slot x)) :=
        .modify fun s t h => h.gather (s.agrees_mark _) (t.agrees_mark _)
      exact hmark.bind fun _ => ih.bind fun _ => .pure _

/-- Bringing a body to its result is steady. -/
theorem steady_fitResult (result : Option Kind) (body : Operand) (code : Code) :
    Steady (fitResult result body code) := by
  cases result with
  | none => exact .pure code
  | some kind => exact .ite (.pure code) (body.steady_kind.bind fun _ => .pure _)

/-- A function is written with the local variables that its run has gathered, which may differ; the
code that refers to it does not. -/
theorem steady_define {header : Header} {prologue : Option Operand} {body : Operand}
    (hprologue : ∀ o, prologue = some o → o.Steady) (hbody : body.Steady) :
    Steady (define header prologue body) := by
  refine Alike.bind (.modify fun s t h => h.gather (s.agrees_record _) (t.agrees_record _))
    fun _ => ?_
  refine .modifyGet_bind (fun s t h => h.gather s.agrees_takeLocals t.agrees_takeLocals)
    fun saved saved' => ?_
  -- From here on the two runs hold different local variables, and bring these back at the end.
  refine Alike.bind (.modify fun s t h => h.enter header.frame) fun _ => ?_
  refine (steady_declareParams _ _ _).bind fun params => ?_
  refine Alike.bind (.modify fun s t h => h.recordSignature _ _) fun _ => ?_
  refine Alike.bind (.modify fun s t h =>
    h.gather (s.agrees_declareScope _) (t.agrees_declareScope _)) fun _ => ?_
  cases prologue
  case' none => refine Alike.bind (.pure []) fun first => ?_
  case' some o => refine (hprologue o rfl none).bind fun first => ?_
  all_goals
    refine (hbody none).bind fun code => ?_
    refine (steady_fitResult header.result body code).bind fun second => ?_
    refine Alike.bind (.modify fun s t h => h.leave) fun _ => ?_
    refine .modifyGet_bind (fun s t h =>
      h.gather (s.agrees_restoreLocals saved) (t.agrees_restoreLocals saved'))
      fun locals locals' => ?_
    exact .modify fun s t h => h.gather (s.agrees_pushFunction _ _) (t.agrees_pushFunction _ _)

/-- A block with a steady body is steady. -/
theorem steady_block {frame : Frame} {body : Operand} (hbody : body.Steady) :
    Steady (block frame body) := by
  have henter : Steady (modify fun s => (s.enter frame).declareScope frame) :=
    .modify fun s t h =>
      (h.enter frame).gather (State.agrees_declareScope _ _) (State.agrees_declareScope _ _)
  refine henter.bind fun _ => (hbody none).bind fun code => ?_
  exact Alike.bind (.modify fun s t h => h.leave) fun _ => .pure code

/-- Arguments that are steady are steady in turn. -/
theorem steady_arguments {types : List ValType} {operands : List Operand}
    (h : ∀ o ∈ operands, o.Steady) : Steady (arguments types operands) := by
  induction operands generalizing types with
  | nil => cases types <;> exact .pure []
  | cons o rest ih =>
    have ho := h o List.mem_cons_self
    have hrest := fun types => @ih types fun o' ho' => h o' (List.mem_cons_of_mem _ ho')
    cases types with
    | nil => exact (ho none).bind fun _ => (hrest []).bind fun _ => .pure _
    | cons type types => exact (ho.emitAs type).bind fun _ => (hrest types).bind fun _ => .pure _

/-- A call with steady arguments is steady. -/
theorem steady_call {callee : String} {args : List Operand} (h : ∀ o ∈ args, o.Steady) :
    Steady (call callee args) := by
  refine .get_bind fun s t hst => ?_
  rw [hst.signatures callee]
  exact (steady_arguments h).bind fun _ => .pure _

/-! ## Arithmetic and loops -/

/-- An operator on steady operands is steady. -/
theorem steady_pair {ops : Instructions} {left right : Operand} (hl : left.Steady)
    (hr : right.Steady) : Steady (pair ops left right) := by
  refine (Operand.steady_allInt _).bind fun ints => .ite ?_ ?_
  · exact (hl none).bind fun _ => (hr none).bind fun _ => .pure _
  · exact (hl.emitAs .f64).bind fun _ => (hr.emitAs .f64).bind fun _ => .pure _

/-- A negation of a steady operand is steady. -/
theorem steady_neg {operand : Operand} (h : operand.Steady) : Steady (neg operand) := by
  unfold neg
  split
  · exact .pure _
  · exact .pure _
  · refine operand.steady_kind.bind fun kind => .ite ?_ ?_
    · exact (h none).bind fun _ => .pure _
    · exact (h none).bind fun _ => .pure _

/-- A clamp of steady operands is steady. -/
theorem steady_clamp {value low high : Operand} (hv : value.Steady) (hl : low.Steady)
    (hh : high.Steady) : Steady (clamp value low high) := by
  refine (Operand.steady_allInt _).bind fun ints => .ite ?_ ?_
  · have hrequire : Steady (modify fun s => (s.require .max).require .min) :=
      .modify fun s t h => (h.gather (s.agrees_require _) (t.agrees_require _)).gather
        (State.agrees_require _ _) (State.agrees_require _ _)
    refine hrequire.bind fun _ => ?_
    exact (hv none).bind fun _ => (hh none).bind fun _ => (hl none).bind fun _ => .pure _
  · exact (hv.emitAs .f64).bind fun _ => (hh.emitAs .f64).bind fun _ =>
      (hl.emitAs .f64).bind fun _ => .pure _

/-- The label of a loop is the number of loops around it. -/
theorem steady_loop {cond body : Operand} (hc : cond.Steady) (hb : body.Steady) :
    Steady (loop cond body) := by
  refine Alike.bind (.modify fun s t h => h.enterLoop) fun _ => ?_
  refine .get_bind fun s t h => ?_
  rw [h.loopDepth]
  refine (hc none).bind fun test => ?_
  refine cond.steady_kind.bind fun kind => ?_
  refine (hb none).bind fun content => ?_
  exact Alike.bind (.modify fun s t h => h.exitLoop) fun _ => .pure _

/-! ## Arrays and assignments -/

/-- Classifying members is steady. -/
theorem steady_classify (operands : List Operand) : Steady (classify operands) := by
  induction operands with
  | nil => exact .pure []
  | cons o rest ih =>
    refine o.steady_kind.bind fun kind => ?_
    cases Member.ofOperand kind o with
    | error feature => exact .throw _
    | ok member => exact ih.bind fun _ => .pure _

/-- The value of a steady member is steady. -/
theorem steady_memberValue {o : Operand} (h : o.Steady) : Steady (memberValue o) := by
  unfold memberValue
  split
  · exact .pure _
  · exact h.emitAs .f64

/-- Placing members whose values are steady is steady. -/
theorem steady_placeMembers {base : UInt32} {slot : Nat} {layout : List Member}
    (h : ∀ o, .value o ∈ layout → o.Steady) : Steady (placeMembers base slot layout) := by
  induction layout generalizing slot with
  | nil => exact .pure []
  | cons m rest ih =>
    have hrest := fun slot => @ih slot fun o ho => h o (List.mem_cons_of_mem _ ho)
    cases m with
    | value o =>
      refine (steady_memberValue (h o List.mem_cons_self)).bind fun _ => ?_
      exact (hrest _).bind fun _ => .pure _
    | ints low high => exact (hrest _).bind fun _ => .pure _
    | reserve count => exact hrest _

/-- The addresses of an array are those of the memory that has not been handed out. -/
theorem steady_array {members : List Operand} {span : Span} (h : ∀ o ∈ members, o.Steady) :
    Steady (array members span) := by
  rw [array_eq]
  refine (steady_classify members).bind_of_ok fun s layout s' hclassify => ?_
  -- The members that are compiled are among the operands.
  have hlayout : ∀ o, .value o ∈ layout → o.Steady := fun o ho =>
    h o (mem_of_classified (classify_eq_ok hclassify).1 ho)
  refine .ite (.throw_bind _) ?_
  refine (steady_onArena _).bind fun base => ?_
  refine (steady_onArena _).bind fun _ => ?_
  refine Alike.bind (.modify fun s t h => h.gather (s.agrees_record _) (t.agrees_record _))
    fun _ => ?_
  exact (steady_placeMembers hlayout).bind fun _ => .pure _

/-- The length of a steady array is steady. -/
theorem steady_length {array : Operand} {span : Span} (ha : array.Steady) :
    Steady (length array span) :=
  array.steady_kind.bind fun _ => .ite ((ha none).bind fun _ => .pure _) (.throw _)

/-- The store of an element with steady operands is steady. -/
theorem steady_storeElement {array : Operand} {index : ElementIndex} {value : Code} {span : Span}
    (ha : array.Steady) (hi : Steady index.emit) :
    Steady (storeElement array index value span) := by
  have hrequire : Steady (modify fun s => s.require .index) :=
    .modify fun s t h => h.gather (s.agrees_require _) (t.agrees_require _)
  refine hrequire.bind fun _ => ?_
  exact (ha none).bind fun _ => hi.bind fun _ => (steady_length ha).bind fun _ => .pure _

/-- The operands of a part on the left of an assignment are steady. -/
def Part.Steady : Part → Prop
  | .element array index => array.Steady ∧ index.Steady
  | .field object _ _ => object.Steady
  | .length => True

/-- The operands of what stands on the left of an assignment are steady. -/
def Target.Steady : Target → Prop
  | .part place => place.Steady
  | _ => True

/-- The store of a steady part is steady. -/
theorem steady_storePart {part : Part} {value : Code} {span : Span} (hpart : part.Steady) :
    Steady (storePart part value span) := by
  cases part with
  | element array index =>
    obtain ⟨ha, hi⟩ := hpart
    exact steady_storeElement ha (hi.emitAs .i32)
  | field object field fieldSpan =>
    simp only [storePart]
    cases Numeral.int32? field with
    | some index => exact steady_storeElement hpart (Alike.pure (Code.int index))
    | none => exact .throw _
  | length => exact .throw _

/-- An assignment of a steady value to a steady target is steady. -/
theorem steady_assign {target : Target} {value : Operand} {span : Span} (htarget : target.Steady)
    (hvalue : value.Steady) : Steady (assign target value span) := by
  cases target with
  | name x nameSpan =>
    refine .ite (hvalue (some x)) ?_
    refine (steady_storable x nameSpan span).bind fun v => ?_
    refine value.steady_kind.bind fun kind => ?_
    split
    · exact .throw _
    · exact .throw _
    · exact (hvalue none).bind fun _ => .pure _
  | part part => exact (hvalue.emitAs .f64).bind fun _ => steady_storePart htarget
  | other label => exact .throw _

/-- A compound assignment with steady operands is steady. -/
theorem steady_compound {op : CompoundOp} {target : Target} {old value : Operand} {span : Span}
    (htarget : target.Steady) (hold : old.Steady) (hvalue : value.Steady) :
    Steady (compound op target old value span) := by
  refine (Operand.steady_arithmeticKind _).bind fun kind => ?_
  cases target with
  | name x nameSpan =>
    refine (steady_storable x nameSpan span).bind fun v => ?_
    exact (steady_pair hold hvalue).bind fun _ => .pure _
  | part part => exact (steady_pair hold hvalue).bind fun _ => steady_storePart htarget
  | other label => exact .throw _

end Emit

/-! ## Expressions -/

namespace Expr

/-- The target of an assignment is steady when all that stands below is. -/
theorem steady_target {e left : Expr Frame} (hleft : left.PartOf e)
    (hbelow : ∀ c, c.Below e → Operand.Steady ⟨c, c.emit⟩) : left.target.Steady := by
  have hpart : ∀ {c : Expr Frame}, c.PartOf left → Operand.Steady ⟨c, c.emit⟩ := fun hc =>
    hbelow _ (.head hc (.single hleft))
  obtain ⟨node, ty, span⟩ := left
  cases node with
  | index array index =>
    cases index with
    | none => trivial
    | some index =>
      exact ⟨hpart List.mem_cons_self, hpart (List.mem_cons_of_mem _ List.mem_cons_self)⟩
  | field object field => exact hpart List.mem_cons_self
  | _ => trivial

/-- The operands of steady expressions are steady. -/
theorem steady_operands {es : List (Expr Frame)} (h : ∀ e ∈ es, Operand.Steady ⟨e, e.emit⟩) :
    ∀ o ∈ operands es, o.Steady := by
  intro o ho
  rw [operands_eq_map] at ho
  obtain ⟨e, he, rfl⟩ := List.mem_map.1 ho
  exact h e he

/-- A clamp: its right side has to be a range with both ends. -/
theorem steady_clamp {value range : Expr Frame} {ty : Option Kind} {span : Span}
    {name : Option String} (hbelow : ∀ c, c.Below (.mk (.clamp value range) ty span) →
      Operand.Steady ⟨c, c.emit⟩) :
    Emit.Steady ((Expr.mk (.clamp value range) ty span).emit name) := by
  have hv : value.PartOf (.mk (.clamp value range) ty span) := List.mem_cons_self
  have hr : range.PartOf (.mk (.clamp value range) ty span) :=
    List.mem_cons_of_mem _ List.mem_cons_self
  obtain ⟨node, rangeTy, rangeSpan⟩ := range
  cases node with
  | range start stop =>
    cases start with
    | none => exact .throw _
    | some low =>
      cases stop with
      | none => exact .throw _
      | some high =>
        have hl : low.PartOf (.mk (.range (some low) (some high)) rangeTy rangeSpan) :=
          List.mem_cons_self
        have hh : high.PartOf (.mk (.range (some low) (some high)) rangeTy rangeSpan) :=
          List.mem_cons_of_mem _ List.mem_cons_self
        exact Emit.steady_clamp (hbelow value (.single hv)) (hbelow low (.head hl (.single hr)))
          (hbelow high (.head hh (.single hr)))
  | _ => exact .throw _

/-- Compiling an expression ends alike in states that agree. -/
theorem steady_emit (e : Expr Frame) : Operand.Steady ⟨e, e.emit⟩ := by
  -- The operands of an assignment's target are not parts of the assignment, so that the induction
  -- is on all that is below an expression.
  induction e using Expr.below_induction with
  | step e ih =>
    intro name
    have hpart : ∀ {c : Expr Frame}, c.PartOf e → Operand.Steady ⟨c, c.emit⟩ := fun hc =>
      ih _ (.single hc)
    obtain ⟨node, ty, span⟩ := e
    cases node with
    | statements items | sequence items =>
      exact (Emit.steady_all (steady_operands fun _ hc => hpart hc)).bind fun _ => .pure _
    | floatLit value => exact .pure _
    | intLit value => exact .pure _
    | ident x => exact (Emit.steady_resolve x span).bind fun _ => .pure _
    | function params result prologue body frame =>
      cases name with
      | none => exact .throw _
      | some name =>
        refine Emit.Alike.bind (Emit.steady_define ?_ ?_) fun _ => .pure _
        · intro o ho
          cases prologue with
          | none => cases ho
          | some first =>
            cases ho
            exact hpart List.mem_cons_self
        · exact hpart (List.mem_append_right _ List.mem_cons_self)
    | block body frame => exact Emit.steady_block (hpart List.mem_cons_self)
    | call callee args => exact Emit.steady_call (steady_operands fun _ hc => hpart hc)
    | neg operand => exact Emit.steady_neg (hpart List.mem_cons_self)
    | binary op left right =>
      cases op with
      | bitOr => exact .throw _
      | add | sub | mul =>
        exact Emit.steady_pair (hpart List.mem_cons_self)
          (hpart (List.mem_cons_of_mem _ List.mem_cons_self))
    | compare op left right =>
      exact Emit.steady_pair (hpart List.mem_cons_self)
        (hpart (List.mem_cons_of_mem _ List.mem_cons_self))
    | step op target =>
      have ht : target.PartOf (.mk (.step op target) ty span) := List.mem_cons_self
      exact Emit.steady_compound (steady_target ht ih) (hpart ht) Operand.steady_one
    | compound op target value =>
      have ht : target.PartOf (.mk (.compound op target value) ty span) := List.mem_cons_self
      exact Emit.steady_compound (steady_target ht ih) (hpart ht)
        (hpart (List.mem_cons_of_mem _ List.mem_cons_self))
    | clamp value range => exact steady_clamp ih
    | range start stop => exact .throw _
    | array members => exact Emit.steady_array (steady_operands fun _ hc => hpart hc)
    | index array index =>
      cases index with
      | none => exact Emit.steady_length (hpart List.mem_cons_self)
      | some index => exact .throw _
    | field object field => exact .throw _
    | assign target value =>
      have ht : target.PartOf (.mk (.assign target value) ty span) := List.mem_cons_self
      exact Emit.steady_assign (steady_target ht ih)
        (hpart (List.mem_cons_of_mem _ List.mem_cons_self))
    | loop cond body =>
      exact Emit.steady_loop (hpart List.mem_cons_self)
        (hpart (List.mem_cons_of_mem _ List.mem_cons_self))

/-- In two states that agree on the scopes, the signatures, the loops and the memory, whatever else
they have gathered, an expression fails in both with the same failure, or it is compiled in both to
the same code; and the states agree again afterwards. -/
theorem emit_of_agrees (e : Expr Frame) (name : Option String) {s t : State} (h : s.Agrees t) :
    (∃ failure s' t', e.emit name s = .error failure s' ∧ e.emit name t = .error failure t' ∧
        s'.Agrees t') ∨
      ∃ code s' t', e.emit name s = .ok code s' ∧ e.emit name t = .ok code t' ∧ s'.Agrees t' := by
  have hrun : Emit.EndAlike (e.emit name s) (e.emit name t) := steady_emit e name s t h
  generalize e.emit name s = r at hrun
  generalize e.emit name t = r' at hrun
  cases hrun with
  | ok h' => exact .inr ⟨_, _, _, rfl, rfl, h'⟩
  | error h' => exact .inl ⟨_, _, _, rfl, rfl, h'⟩

/-- A scope that binds a function `f`, an array `p` and an integer `n`. -/
def outerFrame : Frame :=
  ⟨[], ⟨[⟨"f", { kind := .function, storage := .globalVar }⟩,
    ⟨"p", { kind := .pointer, storage := .localVar }⟩,
    ⟨"n", { kind := .int, storage := .localVar }⟩]⟩⟩

/-- `f = (a) -> (g = a); p = [n -< 0..9, f(n)]`, where the function binds a global number `g`. -/
def clampedCall : Expr Frame :=
  .plain (.statements [
    .plain (.assign (.plain (.ident "f"))
      (.function ["a"] none none
        (.plain (.assign (.plain (.ident "g")) (.plain (.ident "a"))))
        ⟨[1], ⟨[⟨"a", { kind := .float, storage := .parameter }⟩,
          ⟨"g", { kind := .float, storage := .globalVar }⟩]⟩⟩)),
    .plain (.assign (.plain (.ident "p"))
      (.array [.plain (.clamp (.plain (.ident "n")) (.range (some (.int 0)) (some (.int 9)))),
        (Expr.plain (.call "f" [.plain (.ident "n")])).withKind .float]))])

/-- A run that has gathered nothing yet. -/
def freshState : State := State.enter {} outerFrame

/-- A run that has declared the global variable `g` of the function and included a library function;
its function has a local variable that is called `n` but is no integer. -/
def busyState : State :=
  { freshState with
    includes := [.max]
    forms := [.globalVar "g" .f64]
    locals := [("n", .f64)]
    localNames := ["g", "n"]
    declared := [⟨[1], 1⟩]
    functions := [⟨"h", .function, .synthetic⟩] }

/-- Both runs give the same code, though only the first one declares `g` on the way. -/
theorem clampedCall_alike : freshState.Agrees busyState ∧
    ∃ code s' t', clampedCall.emit none freshState = .ok code s' ∧
      clampedCall.emit none busyState = .ok code t' ∧ s'.Agrees t' ∧
      s'.includes = [.max, .min] ∧ t'.includes = [.max, .min] ∧
      s'.forms.length = 2 ∧ t'.forms.length = 2 := by
  have hagrees : freshState.Agrees busyState := ⟨rfl, fun _ => rfl, rfl, rfl⟩
  refine ⟨hagrees, ?_⟩
  rcases emit_of_agrees clampedCall none hagrees with
    ⟨failure, s', t', hs, _⟩ | ⟨code, s', t', hs, ht, hagrees'⟩
  · cases hs
  · refine ⟨code, s', t', hs, ht, hagrees', ?_, ?_, ?_, ?_⟩
    · cases hs; rfl
    · cases ht; rfl
    · cases hs; rfl
    · cases ht; rfl

end Expr

end PatchCompiler
