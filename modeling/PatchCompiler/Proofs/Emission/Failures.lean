import PatchCompiler.Proofs.Emission.Derive
import PatchCompiler.Proofs.Emission.Fields
import PatchCompiler.Proofs.Tree.Enclosure

/-! # Where failures point

A program that cannot be compiled is told so at one of its nodes. `Failure.PointsInto` says for each
kind of failure which nodes these are. The steps of the compiler are read as steps from the scopes
around one expression to those around the next: `Emit.Reports` says that a step which succeeds does
so, and that one which fails points into the program. Main statement: when a program does not
compile, the failure points into it. -/

namespace PatchCompiler

/-- A failure points into a program: it names a node that the program has and describes it. -/
inductive Failure.PointsInto (p : Program) : Failure → Prop
  /-- A limit belongs to no node. -/
  | limit (limit : Limit) : PointsInto p (.limitExceeded limit)
  /-- A node that has no code where it stands, with its label. -/
  | operation {scopes : List Scope} {e : Expr Scope} :
    p.Holds scopes e → PointsInto p (.unknownOperation e.label e.span)
  /-- A node that cannot be compiled yet, with its label. -/
  | feature {scopes : List Scope} {e : Expr Scope} (feature : Feature) :
    p.Holds scopes e → PointsInto p (.unimplemented feature e.label e.span)
  /-- A clamp, and what it has for a range. -/
  | clamp {scopes : List Scope} {c e : Expr Scope} :
    p.Holds scopes e → c.Below e → PointsInto p (.clampTarget (c.span.merge e.span))
  /-- An assignment. -/
  | assignment {scopes : List Scope} {e : Expr Scope} (reason : BadAssignment) :
    p.Holds scopes e → PointsInto p (.badAssignment reason e.span)
  /-- A node that needs the length of something below it. -/
  | length {scopes : List Scope} {c e : Expr Scope} :
    p.Holds scopes e → c.Below e → PointsInto p (.lengthTarget (c.span.merge e.span))
  /-- A name that no scope around it binds. -/
  | name {scopes : List Scope} {e : Expr Scope} {x : String} :
    p.Holds scopes e → e.node = .ident x → (∀ scope ∈ scopes, scope.find? x = none) →
      PointsInto p (.unresolved x e.span)
  /-- A function whose scope does not bind one of its parameters. -/
  | parameter {scopes : List Scope} {e body : Expr Scope} {params : List String}
      {result : Option Kind} {prologue : Option (Expr Scope)} {scope : Scope} {x : String} :
    p.Holds scopes e → e.node = .function params result prologue body scope → x ∈ params →
      scope.find? x = none → PointsInto p (.unresolved x e.span)

/-! ## Failures at nodes whose scopes have their places -/

namespace Program.Locates

variable {p : Program} {frames : List Frame} {e c : Expr Frame}

/-- An unknown operation is reported at the node that has it. -/
theorem operation (he : p.Locates frames e) :
    (Failure.unknownOperation e.label e.span).PointsInto p := by
  obtain ⟨site, origin, rfl, horigin⟩ := he
  simpa using Failure.PointsInto.operation horigin

/-- A feature that is missing is reported at the node that needs it. -/
theorem feature (he : p.Locates frames e) (feature : Feature) :
    (Failure.unimplemented feature e.label e.span).PointsInto p := by
  obtain ⟨site, origin, rfl, horigin⟩ := he
  simpa using Failure.PointsInto.feature feature horigin

/-- A clamp without both bounds is reported at the clamp and its part. -/
theorem clamp (he : p.Locates frames e) (hc : c.Below e) :
    (Failure.clampTarget (c.span.merge e.span)).PointsInto p := by
  obtain ⟨site, origin, rfl, horigin⟩ := he
  obtain ⟨site', c', rfl, hc'⟩ := hc.of_locate
  simpa using Failure.PointsInto.clamp horigin hc'

/-- A bad assignment is reported at the assignment. -/
theorem assignment (he : p.Locates frames e) (reason : BadAssignment) :
    (Failure.badAssignment reason e.span).PointsInto p := by
  obtain ⟨site, origin, rfl, horigin⟩ := he
  simpa using Failure.PointsInto.assignment reason horigin

/-- A length that cannot be taken is reported at the node and its part. -/
theorem length (he : p.Locates frames e) (hc : c.Below e) :
    (Failure.lengthTarget (c.span.merge e.span)).PointsInto p := by
  obtain ⟨site, origin, rfl, horigin⟩ := he
  obtain ⟨site', c', rfl, hc'⟩ := hc.of_locate
  simpa using Failure.PointsInto.length horigin hc'

/-- A name that no scope has is reported where it stands. -/
theorem name {x : String} (he : p.Locates frames e) (hx : e.node = .ident x)
    (hfind : ∀ frame ∈ frames, frame.find? x = none) :
    (Failure.unresolved x e.span).PointsInto p := by
  obtain ⟨site, origin, rfl, horigin⟩ := he
  -- the scopes around the located node are those around its origin
  have hfind' : ∀ scope ∈ frames.map Frame.scope, scope.find? x = none := by
    intro scope hscope
    obtain ⟨frame, hframe, rfl⟩ := List.mem_map.1 hscope
    exact hfind frame hframe
  simpa using Failure.PointsInto.name horigin (Expr.ident_of_locate hx) hfind'

/-- A parameter that the scope of its function lacks is reported at the function. -/
theorem parameter {params : List String} {result : Option Kind} {prologue : Option (Expr Frame)}
    {body : Expr Frame} {frame : Frame} {x : String} (he : p.Locates frames e)
    (hnode : e.node = .function params result prologue body frame) (hx : x ∈ params)
    (hfind : frame.find? x = none) : (Failure.unresolved x e.span).PointsInto p := by
  obtain ⟨site, origin, rfl, horigin⟩ := he
  obtain ⟨_, _, hnode'⟩ := Expr.function_of_locate hnode
  simpa using Failure.PointsInto.parameter horigin hnode' hx hfind

end Program.Locates

/-! ## Steps that report -/

/-- From the scopes `before` a step leads to the scopes `after`, or fails and points into the
program. -/
def Emit.Reports {α : Type} (p : Program) (before after : List Frame) (x : Emit α) : Prop :=
  ∀ s, s.scopes = before →
    match x s with
    | .ok _ s' => s'.scopes = after
    | .error failure _ => failure.PointsInto p

namespace Emit.Reports

variable {α β : Type} {p : Program} {before between after : List Frame}

/-- A result reports nothing and leaves the scopes. -/
theorem pure (a : α) : Reports p before before (pure a : Emit α) := fun _ hs => hs

/-- A failure that points into the program is a report. -/
theorem throw {failure : Failure} (h : failure.PointsInto p) :
    Reports p before after (throw failure : Emit α) := fun _ _ => h

/-- The second of two steps is given a value that the first one gives. -/
theorem bind_of_ok {x : Emit α} {f : α → Emit β} (hx : Reports p before between x)
    (hf : ∀ s a s', x s = .ok a s' → Reports p between after (f a)) :
    Reports p before after (x >>= f) := by
  intro s hs
  have hx := hx s hs
  show match EStateM.bind x f s with
    | .ok _ s' => s'.scopes = after
    | .error failure _ => failure.PointsInto p
  unfold EStateM.bind
  -- a failure of the first step is the failure of both; otherwise the second step begins where the
  -- first one ended
  cases hrun : x s with
  | error failure s' => simpa [hrun] using hx
  | ok a s' =>
    simp only [hrun] at hx
    exact hf s a s' hrun s' hx

/-- Steps report in turn when each one does. -/
theorem bind {x : Emit α} {f : α → Emit β} (hx : Reports p before between x)
    (hf : ∀ a, Reports p between after (f a)) : Reports p before after (x >>= f) :=
  hx.bind_of_ok fun _ a _ _ => hf a

/-- What would come after a failure does not matter. -/
theorem throw_bind {failure : Failure} {f : α → Emit β} (h : failure.PointsInto p) :
    Reports p before after ((MonadExcept.throw failure : Emit α) >>= f) := fun _ _ => h

/-- A step that looks at the state first has the scopes it starts with. -/
theorem get_bind {f : State → Emit β}
    (h : ∀ s : State, s.scopes = before → Reports p before after (f s)) :
    Reports p before after (get >>= f) := fun s hs => h s hs s hs

/-- A change of the state reports nothing. -/
theorem modify {f : State → State}
    (h : ∀ s, s.scopes = before → (f s).scopes = after) :
    Reports p before after (modify f : Emit PUnit) := h

/-- A change of the state with a result reports nothing. -/
theorem modifyGet {f : State → α × State}
    (h : ∀ s, s.scopes = before → (f s).2.scopes = after) :
    Reports p before after (modifyGet f : Emit α) := h

/-- A step that depends on a condition reports when both of its branches do. -/
theorem ite {c : Prop} [Decidable c] {x y : Emit α} (hx : c → Reports p before after x)
    (hy : ¬c → Reports p before after y) : Reports p before after (if c then x else y) := by
  split
  · exact hx ‹_›
  · exact hy ‹_›

end Emit.Reports

/-- The code of an operand inside scopes reports. -/
def Operand.Reports (p : Program) (frames : List Frame) (o : Operand) : Prop :=
  ∀ name, Emit.Reports p frames frames (o.code name)

namespace Operand

variable {p : Program} {frames : List Frame} {o : Operand}

/-- Inferring the kind of an operand reports nothing. -/
theorem reports_kind (o : Operand) : Emit.Reports p frames frames o.kind :=
  .get_bind fun _ _ => .pure _

/-- Looking for integers among operands reports nothing. -/
theorem reports_allInt (operands : List Operand) : Emit.Reports p frames frames (allInt operands) :=
  .get_bind fun _ _ => .pure _

/-- Finding the kind of an operator reports nothing. -/
theorem reports_arithmeticKind (operands : List Operand) :
    Emit.Reports p frames frames (arithmeticKind operands) :=
  (reports_allInt operands).bind fun _ => .pure _

/-- An operand that is brought to a type reports what the operand does. -/
theorem Reports.emitAs (h : o.Reports p frames) (type : ValType) :
    Emit.Reports p frames frames (o.emitAs type) :=
  o.reports_kind.bind fun _ => (h none).bind fun _ => .pure _

/-- The constant one reports nothing. -/
theorem reports_one : Operand.one.Reports p frames := fun _ => .pure _

end Operand

namespace Emit

variable {p : Program} {frames : List Frame}

/-! ## Names and memory -/

/-- A name that is resolved is reported only where no scope has it. -/
theorem reports_resolve {x : String} {span : Span}
    (h : (∀ frame ∈ frames, frame.find? x = none) → (Failure.unresolved x span).PointsInto p) :
    Reports p frames frames (resolve x span) := by
  refine .get_bind fun s hs => ?_
  cases hv : s.lookup x with
  | some v => exact .pure v
  | none =>
    refine .throw (h ?_)
    rw [← hs]
    exact List.findSome?_eq_none_iff.1 hv

/-- A variable to store to is reported where it stands, or at the assignment. -/
theorem reports_storable {x : String} {nameSpan span : Span}
    (hname : (∀ frame ∈ frames, frame.find? x = none) →
      (Failure.unresolved x nameSpan).PointsInto p)
    (hassign : ∀ reason, (Failure.badAssignment reason span).PointsInto p) :
    Reports p frames frames (storable x nameSpan span) := by
  refine (reports_resolve hname).bind fun v => ?_
  by_cases hk : v.kind = .function
  · simp only [hk, if_true]
    exact .throw_bind (hassign _)
  · simp only [hk, if_false]
    exact .pure v

/-- A limit of the arena is a failure without a place. -/
theorem reports_onArena {α : Type} (step : Arena → Except Limit (α × Arena)) :
    Reports p frames frames (onArena step) := by
  refine .get_bind fun s _ => ?_
  cases step s.arena with
  | error limit => exact .throw (.limit limit)
  | ok r => exact Reports.bind (.modify fun _ hs => hs) fun _ => .pure r.1

/-! ## Lists, functions and blocks -/

/-- Operands in turn report what each of them does. -/
theorem reports_all {operands : List Operand} (h : ∀ o ∈ operands, o.Reports p frames) :
    Reports p frames frames (all operands) := by
  induction operands with
  | nil => exact .pure []
  | cons o rest ih =>
    refine (h o List.mem_cons_self none).bind fun _ => ?_
    exact (ih fun o' ho' => h o' (List.mem_cons_of_mem _ ho')).bind fun _ => .pure _

/-- Parameters are reported only where the scope of their function lacks them. -/
theorem reports_declareParams {frame : Frame} {span : Span} {params : List String}
    (h : ∀ x ∈ params, frame.find? x = none → (Failure.unresolved x span).PointsInto p) :
    Reports p frames frames (declareParams frame span params) := by
  induction params with
  | nil => exact .pure []
  | cons x rest ih =>
    unfold declareParams
    cases hfind : frame.find? x with
    | none => exact .throw (h x List.mem_cons_self hfind)
    | some v =>
      have hmark : Reports p frames frames (modify fun s => s.mark (frame.slot x)) :=
        .modify fun s hs => (s.scopes_markAll [frame.slot x]).trans hs
      refine hmark.bind fun _ => ?_
      exact (ih fun x' hx' => h x' (List.mem_cons_of_mem _ hx')).bind fun _ => .pure _

/-- Bringing a body to its result reports nothing. -/
theorem reports_fitResult (result : Option Kind) (body : Operand) (code : Code) :
    Reports p frames frames (fitResult result body code) := by
  cases result with
  | none => exact .pure code
  | some kind => exact .ite (fun _ => .pure code) fun _ => body.reports_kind.bind fun _ => .pure _

/-- A function definition reports what its parameters, what runs before its body and its body do. -/
theorem reports_define {header : Header} {prologue : Option Operand} {body : Operand}
    (hparams : ∀ x ∈ header.params, header.frame.find? x = none →
      (Failure.unresolved x header.span).PointsInto p)
    (hprologue : ∀ o, prologue = some o → o.Reports p (header.frame :: frames))
    (hbody : body.Reports p (header.frame :: frames)) :
    Reports p frames frames (define header prologue body) := by
  refine Reports.bind (.modify fun s hs => hs) fun _ => ?_
  refine Reports.bind (.modifyGet fun s hs => hs) fun saved => ?_
  refine Reports.bind (.modify fun s hs => congrArg (header.frame :: ·) hs) fun _ => ?_
  refine (reports_declareParams hparams).bind fun params => ?_
  refine Reports.bind (.modify fun s hs => hs) fun _ => ?_
  refine Reports.bind (.modify fun s hs => (s.scopes_declareScope _).trans hs) fun _ => ?_
  -- with a prologue or without, the steps from the body on are the same
  cases prologue
  case' none => refine Reports.bind (.pure []) fun first => ?_
  case' some o => refine (hprologue o rfl none).bind fun first => ?_
  all_goals
    refine (hbody none).bind fun code => ?_
    refine (reports_fitResult header.result body code).bind fun second => ?_
    refine Reports.bind (.modify fun s hs => congrArg List.tail hs) fun _ => ?_
    refine Reports.bind (.modifyGet fun s hs => hs) fun locals => ?_
    exact .modify fun s hs => hs

/-- A block reports what its body does within its scope. -/
theorem reports_block {frame : Frame} {body : Operand} (hbody : body.Reports p (frame :: frames)) :
    Reports p frames frames (block frame body) := by
  have henter : Reports p frames (frame :: frames)
      (modify fun s => (s.enter frame).declareScope frame) :=
    .modify fun s hs => by simp [hs]
  refine henter.bind fun _ => ?_
  refine (hbody none).bind fun code => ?_
  exact Reports.bind (.modify fun s hs => congrArg List.tail hs) fun _ => .pure code

/-- Arguments report what each of them does. -/
theorem reports_arguments {types : List ValType} {operands : List Operand}
    (h : ∀ o ∈ operands, o.Reports p frames) :
    Reports p frames frames (arguments types operands) := by
  induction operands generalizing types with
  | nil => cases types <;> exact .pure []
  | cons o rest ih =>
    have ho := h o List.mem_cons_self
    have hrest := fun types => @ih types fun o' ho' => h o' (List.mem_cons_of_mem _ ho')
    cases types with
    | nil => exact (ho none).bind fun _ => (hrest []).bind fun _ => .pure _
    | cons type types => exact (ho.emitAs type).bind fun _ => (hrest types).bind fun _ => .pure _

/-- A call reports what its arguments do. -/
theorem reports_call {callee : String} {args : List Operand}
    (h : ∀ o ∈ args, o.Reports p frames) : Reports p frames frames (call callee args) :=
  .get_bind fun _ _ => (reports_arguments h).bind fun _ => .pure _

/-! ## Arithmetic and loops -/

/-- An operator on two numbers reports what its operands do. -/
theorem reports_pair {ops : Instructions} {left right : Operand} (hl : left.Reports p frames)
    (hr : right.Reports p frames) : Reports p frames frames (pair ops left right) := by
  refine (Operand.reports_allInt _).bind fun ints => .ite (fun _ => ?_) fun _ => ?_
  · exact (hl none).bind fun _ => (hr none).bind fun _ => .pure _
  · exact (hl.emitAs .f64).bind fun _ => (hr.emitAs .f64).bind fun _ => .pure _

/-- A negation reports what its operand does. -/
theorem reports_neg {operand : Operand} (h : operand.Reports p frames) :
    Reports p frames frames (neg operand) := by
  unfold neg
  split
  · exact .pure _
  · exact .pure _
  · refine operand.reports_kind.bind fun kind => .ite (fun _ => ?_) fun _ => ?_
    · exact (h none).bind fun _ => .pure _
    · exact (h none).bind fun _ => .pure _

/-- A clamp between bounds reports what its operands do. -/
theorem reports_clamp {value low high : Operand} (hv : value.Reports p frames)
    (hl : low.Reports p frames) (hh : high.Reports p frames) :
    Reports p frames frames (clamp value low high) := by
  refine (Operand.reports_allInt _).bind fun ints => .ite (fun _ => ?_) fun _ => ?_
  · have hrequire : Reports p frames frames (modify fun s => (s.require .max).require .min) :=
      .modify fun s hs => by simpa using hs
    refine hrequire.bind fun _ => ?_
    exact (hv none).bind fun _ => (hh none).bind fun _ => (hl none).bind fun _ => .pure _
  · exact (hv.emitAs .f64).bind fun _ => (hh.emitAs .f64).bind fun _ =>
      (hl.emitAs .f64).bind fun _ => .pure _

/-- A loop reports what its test and its body do. -/
theorem reports_loop {cond body : Operand} (hc : cond.Reports p frames)
    (hb : body.Reports p frames) : Reports p frames frames (loop cond body) := by
  refine Reports.bind (.modify fun s hs => hs) fun _ => ?_
  refine .get_bind fun _ _ => ?_
  refine (hc none).bind fun test => ?_
  refine cond.reports_kind.bind fun kind => ?_
  refine (hb none).bind fun content => ?_
  exact Reports.bind (.modify fun s hs => hs) fun _ => .pure _

/-! ## Arrays and assignments -/

/-- Members that stand in the program are classified with reports at them. -/
theorem reports_classify {operands : List Operand} (h : ∀ o ∈ operands, p.Locates frames o.expr) :
    Reports p frames frames (classify operands) := by
  induction operands with
  | nil => exact .pure []
  | cons o rest ih =>
    refine o.reports_kind.bind fun kind => ?_
    cases Member.ofOperand kind o with
    | error feature => exact .throw ((h o List.mem_cons_self).feature feature)
    | ok member =>
      exact (ih fun o' ho' => h o' (List.mem_cons_of_mem _ ho')).bind fun _ => .pure _

/-- The value of a member reports what its operand does. -/
theorem reports_memberValue {o : Operand} (h : o.Reports p frames) :
    Reports p frames frames (memberValue o) := by
  unfold memberValue
  split
  · exact .pure _
  · exact h.emitAs .f64

/-- The members of an array report what their values do. -/
theorem reports_placeMembers {base : UInt32} {slot : Nat} {layout : List Member}
    (h : ∀ o, .value o ∈ layout → o.Reports p frames) :
    Reports p frames frames (placeMembers base slot layout) := by
  induction layout generalizing slot with
  | nil => exact .pure []
  | cons m rest ih =>
    have hrest := fun slot => @ih slot fun o ho => h o (List.mem_cons_of_mem _ ho)
    cases m with
    | value o =>
      refine (reports_memberValue (h o List.mem_cons_self)).bind fun _ => ?_
      exact (hrest _).bind fun _ => .pure _
    | ints low high => exact (hrest _).bind fun _ => .pure _
    | reserve count => exact hrest _

/-- An array literal reports what its members do. -/
theorem reports_array {members : List Operand} {span : Span}
    (hlocated : ∀ o ∈ members, p.Locates frames o.expr)
    (hmembers : ∀ o ∈ members, o.Reports p frames) :
    Reports p frames frames (array members span) := by
  rw [array_eq]
  refine (reports_classify hlocated).bind_of_ok fun s layout s' hclassify => ?_
  -- what the layout stores are operands of the literal
  have hlayout : ∀ o, .value o ∈ layout → o.Reports p frames := fun o ho =>
    hmembers o (mem_of_classified (classify_eq_ok hclassify).1 ho)
  refine .ite (fun _ => .throw_bind (.limit _)) fun _ => ?_
  refine (reports_onArena _).bind fun base => ?_
  refine (reports_onArena _).bind fun _ => ?_
  refine Reports.bind (.modify fun s hs => hs) fun _ => ?_
  exact (reports_placeMembers hlayout).bind fun _ => .pure _

/-- A length is reported where it cannot be taken. -/
theorem reports_length {array : Operand} {span : Span} (ha : array.Reports p frames)
    (htarget : (Failure.lengthTarget (array.expr.span.merge span)).PointsInto p) :
    Reports p frames frames (length array span) :=
  array.reports_kind.bind fun _ =>
    .ite (fun _ => (ha none).bind fun _ => .pure _) fun _ => .throw htarget

/-- The store of an element reports what the array and the index do. -/
theorem reports_storeElement {array : Operand} {index : ElementIndex} {value : Code} {span : Span}
    (ha : array.Reports p frames) (hi : Reports p frames frames index.emit)
    (htarget : (Failure.lengthTarget (array.expr.span.merge span)).PointsInto p) :
    Reports p frames frames (storeElement array index value span) := by
  have hrequire : Reports p frames frames (modify fun s => s.require .index) :=
    .modify fun s hs => by simpa using hs
  refine hrequire.bind fun _ => ?_
  exact (ha none).bind fun _ => hi.bind fun _ => (reports_length ha htarget).bind fun _ => .pure _

/-- A part on the left of the assignment `e`: its operands report and stand below `e`. -/
def Part.Reports (p : Program) (frames : List Frame) (e : Expr Frame) : Part → Prop
  | .element array index =>
    array.Reports p frames ∧ array.expr.Below e ∧ index.Reports p frames
  | .field object _ span =>
    object.Reports p frames ∧ object.expr.Below e ∧
      ∀ feature, (Failure.unimplemented feature "." span).PointsInto p
  | .length => True

/-- What stands on the left of the assignment `e` reports. -/
def Target.Reports (p : Program) (frames : List Frame) (e : Expr Frame) : Target → Prop
  | .name x span =>
    (∀ frame ∈ frames, frame.find? x = none) → (Failure.unresolved x span).PointsInto p
  | .part place => place.Reports p frames e
  | .other _ => True

variable {e : Expr Frame}

/-- The store of a part reports at the assignment, or what its operands do. -/
theorem reports_storePart {part : Part} {value : Code} (he : p.Locates frames e)
    (hpart : part.Reports p frames e) : Reports p frames frames (storePart part value e.span) := by
  cases part with
  | element array index =>
    obtain ⟨ha, hbelow, hi⟩ := hpart
    exact reports_storeElement ha (hi.emitAs .i32) (he.length hbelow)
  | field object field span =>
    obtain ⟨hobject, hbelow, hfield⟩ := hpart
    simp only [storePart]
    cases Numeral.int32? field with
    | some index =>
      exact reports_storeElement hobject (Reports.pure (Code.int index)) (he.length hbelow)
    | none => exact .throw (hfield _)
  | length => exact .throw (he.assignment _)

/-- An assignment reports at itself, or what its operands do. -/
theorem reports_assign {target : Target} {value : Operand} (he : p.Locates frames e)
    (htarget : target.Reports p frames e) (hvalue : value.Reports p frames) :
    Reports p frames frames (assign target value e.span) := by
  cases target with
  | name x nameSpan =>
    refine .ite (fun _ => hvalue (some x)) fun _ => ?_
    refine (reports_storable htarget he.assignment).bind fun v => ?_
    refine value.reports_kind.bind fun kind => ?_
    split
    · exact .throw (he.assignment _)
    · exact .throw (he.assignment _)
    · exact (hvalue none).bind fun _ => .pure _
  | part part => exact (hvalue.emitAs .f64).bind fun _ => reports_storePart he htarget
  | other label => exact .throw (he.assignment _)

/-- A compound assignment reports at itself, or what its operands do. -/
theorem reports_compound {op : CompoundOp} {target : Target} {old value : Operand}
    (he : p.Locates frames e) (htarget : target.Reports p frames e) (hold : old.Reports p frames)
    (hvalue : value.Reports p frames) :
    Reports p frames frames (compound op target old value e.span) := by
  refine (Operand.reports_arithmeticKind _).bind fun kind => ?_
  cases target with
  | name x nameSpan =>
    refine (reports_storable htarget he.assignment).bind fun v => ?_
    exact (reports_pair hold hvalue).bind fun _ => .pure _
  | part part => exact (reports_pair hold hvalue).bind fun _ => reports_storePart he htarget
  | other label => exact .throw (he.assignment _)

end Emit

/-! ## Expressions and programs -/

namespace Expr

variable {p : Program} {frames : List Frame}

/-- What an expression on the left of the assignment `e` refers to. -/
theorem reports_target {e left : Expr Frame} (hleft : left.PartOf e) (hl : p.Locates frames left)
    (hbelow : ∀ c, c.Below e → p.Locates frames c → Operand.Reports p frames ⟨c, c.emit⟩) :
    left.target.Reports p frames e := by
  -- no scope opens between a target and its parts, so they stand in the scopes of the target
  have hpart : ∀ {c : Expr Frame}, c.PartOf left → left.node.scope? = none →
      Operand.Reports p frames ⟨c, c.emit⟩ ∧ c.Below e := by
    intro c hc hscope
    have hc' := hl.part hc
    rw [hscope] at hc'
    have hbelow' : c.Below e := .head hc (.single hleft)
    exact ⟨hbelow c hbelow' hc', hbelow'⟩
  obtain ⟨node, ty, span⟩ := left
  cases node with
  | ident x => exact hl.name rfl
  | index array index =>
    cases index with
    | none => trivial
    | some index =>
      obtain ⟨ha, hbelow'⟩ := @hpart array List.mem_cons_self rfl
      obtain ⟨hi, _⟩ := @hpart index (List.mem_cons_of_mem _ List.mem_cons_self) rfl
      exact ⟨ha, hbelow', hi⟩
  | field object field =>
    obtain ⟨hobject, hbelow'⟩ := @hpart object List.mem_cons_self rfl
    exact ⟨hobject, hbelow', hl.feature⟩
  | _ => trivial

/-- The operands of expressions report when each expression does. -/
theorem reports_operands {es : List (Expr Frame)}
    (h : ∀ e ∈ es, Operand.Reports p frames ⟨e, e.emit⟩) :
    ∀ o ∈ operands es, o.Reports p frames := by
  intro o ho
  rw [operands_eq_map] at ho
  obtain ⟨e, he, rfl⟩ := List.mem_map.1 ho
  exact h e he

/-- A clamp: its right side has to be a range with both ends. -/
theorem reports_clamp {value range : Expr Frame} {ty : Option Kind} {span : Span}
    {name : Option String} (he : p.Locates frames (.mk (.clamp value range) ty span))
    (hbelow : ∀ c, c.Below (.mk (.clamp value range) ty span) → p.Locates frames c →
      Operand.Reports p frames ⟨c, c.emit⟩) :
    Emit.Reports p frames frames ((Expr.mk (.clamp value range) ty span).emit name) := by
  have hv : value.PartOf (.mk (.clamp value range) ty span) := List.mem_cons_self
  have hr : range.PartOf (.mk (.clamp value range) ty span) :=
    List.mem_cons_of_mem _ List.mem_cons_self
  have hrange : p.Locates frames range := he.part hr
  obtain ⟨node, rangeTy, rangeSpan⟩ := range
  cases node with
  | range start stop =>
    cases start with
    | none => exact .throw (hrange.feature _)
    | some low =>
      cases stop with
      | none => exact .throw (hrange.feature _)
      | some high =>
        have hl : low.PartOf (.mk (.range (some low) (some high)) rangeTy rangeSpan) :=
          List.mem_cons_self
        have hh : high.PartOf (.mk (.range (some low) (some high)) rangeTy rangeSpan) :=
          List.mem_cons_of_mem _ List.mem_cons_self
        exact Emit.reports_clamp (hbelow value (.single hv) (he.part hv))
          (hbelow low (.head hl (.single hr)) (hrange.part hl))
          (hbelow high (.head hh (.single hr)) (hrange.part hh))
  | _ => exact .throw (he.clamp (.single hr))

/-- Compiling an expression leaves the scopes around it as they are, or fails and points into the
program. -/
theorem reports_emit (e : Expr Frame) :
    ∀ {frames}, p.Locates frames e → Operand.Reports p frames ⟨e, e.emit⟩ := by
  -- What is below an assignment's target has to report too, so that the induction is on all that
  -- is below an expression.
  induction e using Expr.below_induction with
  | step e ih =>
    intro frames he name
    have hbelow : ∀ c, c.Below e → p.Locates frames c → Operand.Reports p frames ⟨c, c.emit⟩ :=
      fun c hc hl => ih c hc hl
    -- a part stands inside the scope that its node opens, if it opens one
    have hpart : ∀ {c : Expr Frame}, c.PartOf e →
        Operand.Reports p (e.node.scope?.toList ++ frames) ⟨c, c.emit⟩ := fun hc =>
      ih _ (.single hc) (he.part hc)
    obtain ⟨node, ty, span⟩ := e
    cases node with
    | statements items | sequence items =>
      exact (Emit.reports_all (reports_operands fun _ hc => hpart hc)).bind fun _ => .pure _
    | floatLit value => exact .pure _
    | intLit value => exact .pure _
    | ident x => exact (Emit.reports_resolve (he.name rfl)).bind fun _ => .pure _
    | function params result prologue body frame =>
      cases name with
      | none => exact .throw (he.feature _)
      | some name =>
        refine Emit.Reports.bind (Emit.reports_define (fun x => he.parameter rfl) ?_ ?_)
          fun _ => .pure _
        · intro o ho
          cases prologue with
          | none => cases ho
          | some first =>
            cases ho
            exact hpart List.mem_cons_self
        · exact hpart (List.mem_append_right _ List.mem_cons_self)
    | block body frame => exact Emit.reports_block (hpart List.mem_cons_self)
    | call callee args => exact Emit.reports_call (reports_operands fun _ hc => hpart hc)
    | neg operand => exact Emit.reports_neg (hpart List.mem_cons_self)
    | binary op left right =>
      cases op with
      | bitOr => exact .throw (he.feature _)
      | add | sub | mul =>
        exact Emit.reports_pair (hpart List.mem_cons_self)
          (hpart (List.mem_cons_of_mem _ List.mem_cons_self))
    | compare op left right =>
      exact Emit.reports_pair (hpart List.mem_cons_self)
        (hpart (List.mem_cons_of_mem _ List.mem_cons_self))
    | step op target =>
      have ht : target.PartOf (.mk (.step op target) ty span) := List.mem_cons_self
      exact Emit.reports_compound (e := .mk (.step op target) ty span) he
        (reports_target ht (he.part ht) hbelow) (hpart ht) Operand.reports_one
    | compound op target value =>
      have ht : target.PartOf (.mk (.compound op target value) ty span) := List.mem_cons_self
      exact Emit.reports_compound (e := .mk (.compound op target value) ty span) he
        (reports_target ht (he.part ht) hbelow) (hpart ht)
        (hpart (List.mem_cons_of_mem _ List.mem_cons_self))
    | clamp value range => exact reports_clamp he hbelow
    | range start stop => exact .throw he.operation
    | array members =>
      refine Emit.reports_array (fun o ho => ?_) (reports_operands fun _ hc => hpart hc)
      rw [operands_eq_map] at ho
      obtain ⟨c, hc, rfl⟩ := List.mem_map.1 ho
      exact he.part hc
    | index array index =>
      cases index with
      | none =>
        have ha : array.PartOf (.mk (.index array none) ty span) := List.mem_cons_self
        exact Emit.reports_length (hpart ha) (he.length (.single ha))
      | some index => exact .throw (he.feature _)
    | field object field => exact .throw he.operation
    | assign target value =>
      have ht : target.PartOf (.mk (.assign target value) ty span) := List.mem_cons_self
      exact Emit.reports_assign (e := .mk (.assign target value) ty span) he
        (reports_target ht (he.part ht) hbelow) (hpart (List.mem_cons_of_mem _ List.mem_cons_self))
    | loop cond body =>
      exact Emit.reports_loop (hpart List.mem_cons_self)
        (hpart (List.mem_cons_of_mem _ List.mem_cons_self))

end Expr

namespace Program

variable {p : Program}

/-- The compilation of a program reports at nodes of the program. -/
theorem reports_emit (p : Program) : Emit.Reports p [] [] p.emit := by
  refine Emit.Reports.bind (.modify fun s hs => hs) fun _ => ?_
  refine Emit.reports_define (fun x hx => by cases hx) (fun o ho => by cases ho) ?_
  exact Expr.reports_emit _ (.body p)

/-- Putting the module together reports nothing. -/
theorem reports_assemble (top : Scope) : Emit.Reports p [] [] (Emit.assemble top) := by
  refine .get_bind fun s _ => ?_
  cases s.arena.pages with
  | error limit => exact .throw (.limit limit)
  | ok pages => exact Emit.Reports.bind (.modify fun s hs => hs) fun _ => .pure _

/-- A program that does not compile: the failure points into it. Its span is that of no text for a
limit; otherwise that of a node, or the smallest one around a node and another below it. -/
theorem points_into_of_failure {failure : Failure} (h : p.compile.outcome = .error failure) :
    failure.PointsInto p ∧
      ((∃ limit, failure = .limitExceeded limit ∧ failure.span = .synthetic) ∨
        (∃ scopes e, p.Holds scopes e ∧ failure.span = e.span) ∨
        (∃ scopes e c, p.Holds scopes e ∧ Expr.Below c e ∧ failure.span = c.span.merge e.span ∧
          (failure = .clampTarget failure.span ∨ failure = .lengthTarget failure.span))) := by
  have hreports : Emit.Reports p [] [] (do p.emit; Emit.assemble p.scope) :=
    p.reports_emit.bind fun _ => reports_assemble p.scope
  have hpoints : failure.PointsInto p := by
    have hrun := hreports {} rfl
    unfold compile EStateM.run at h
    split at h
    · cases h
    · next hfail =>
      -- the run that failed is the one that `hreports` is about
      cases h
      simpa only [hfail] using hrun
  refine ⟨hpoints, ?_⟩
  cases hpoints with
  | limit limit => exact .inl ⟨limit, rfl, rfl⟩
  | operation he | feature _ he | assignment _ he | name he | parameter he =>
    exact .inr (.inl ⟨_, _, he, rfl⟩)
  | clamp he hc => exact .inr (.inr ⟨_, _, _, he, hc, rfl, .inl rfl⟩)
  | length he hc => exact .inr (.inr ⟨_, _, _, he, hc, rfl, .inr rfl⟩)

/-- `(n[0] = 1)`, where the block declares `n` to be an integer. -/
def elementOfInt : Program where
  body := .mk (.block (.mk (.assign
      (.mk (.index (.mk (.ident "n") none ⟨1, 2, 1, 3⟩) (some (.int 0))) none ⟨1, 2, 1, 6⟩)
      (.int 1)) none ⟨1, 2, 1, 10⟩) ⟨[⟨"n", ⟨.int, .localVar, false⟩⟩]⟩) none ⟨1, 1, 1, 11⟩
  scope := ⟨[]⟩

/-- The length of the integer is missed where the assignment stands. -/
theorem elementOfInt_points_into :
    elementOfInt.compile.outcome = .error (.lengthTarget ⟨1, 2, 1, 10⟩) ∧
      (Failure.lengthTarget ⟨1, 2, 1, 10⟩).PointsInto elementOfInt :=
  ⟨rfl, (@points_into_of_failure elementOfInt _ rfl).1⟩

end Program

end PatchCompiler
