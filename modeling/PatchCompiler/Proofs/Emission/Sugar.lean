import PatchCompiler.Proofs.Emission.Derive

/-! # Shorthand for assignments

Some assignments are shorthand for others: `t += v` stands for `t = t + v`, `t++` for `t += 1`, and
`a.3 = v` for `a[3] = v`. The compiler has a step of its own for each of these forms. Main
statement: a shorthand and what it stands for are compiled to the same code and leave the same
state, or fail in the same way, whatever the target is; and the kind of their values is the same. -/

namespace PatchCompiler

/-- The left expression is shorthand for the right one. Both have the same kind recorded and the
same span. -/
inductive Expr.Abbreviates : Expr Frame → Expr Frame → Prop
  /-- `t += v` and `t -= v`. The target stands twice on the right, and each copy of it has a place
  of its own. The operation has no kind recorded. -/
  | compound {op : CompoundOp} {target : Expr Scope} {value : Expr Frame} {ty : Option Kind}
      {span binarySpan : Span} (site copySite : Site) :
    Abbreviates (.mk (.compound op (target.locate site) value) ty span)
      (.mk (.assign (target.locate copySite)
        (.mk (.binary op.binary (target.locate site) value) none binarySpan)) ty span)
  /-- `t++` and `t--`. -/
  | step {op : StepOp} {target : Expr Frame} {ty oneTy : Option Kind} {span oneSpan : Span} :
    Abbreviates (.mk (.step op target) ty span)
      (.mk (.compound op.compound target (.mk (.intLit 1) oneTy oneSpan)) ty span)
  /-- `a.n = v` for a numeral `n`. -/
  | field {object value : Expr Frame} {field : String} {n : Int32}
      {ty fieldTy indexTy numeralTy : Option Kind}
      {span fieldSpan indexSpan numeralSpan : Span} :
    Numeral.int32? field = some n →
    Abbreviates (.mk (.assign (.mk (.field object field) fieldTy fieldSpan) value) ty span)
      (.mk (.assign (.mk (.index object (some (.mk (.intLit n) numeralTy numeralSpan))) indexTy
        indexSpan) value) ty span)

/-! ## Steps one after another -/

namespace Emit

variable {β : Type} {s s' : State}

/-- A step after a variable that can be assigned to: the state has not changed. -/
theorem storable_bind_congr {x : String} {nameSpan span : Span} {f g : Variable → Emit β}
    (h : ∀ v, f v s = g v s) :
    (storable x nameSpan span >>= f) s = (storable x nameSpan span >>= g) s := by
  cases hx : storable x nameSpan span s with
  | error failure s' => rw [bind_of_error hx, bind_of_error hx]
  | ok v s' =>
    obtain ⟨_, rfl⟩ := storable_eq_ok.1 hx
    rw [bind_of_ok hx, bind_of_ok hx, h v]

/-- An operand without code cannot be brought to a machine type. -/
theorem emitAs_of_error {o : Operand} {failure : Failure} (h : o.emit s = .error failure s')
    (type : ValType) : o.emitAs type s = .error failure s' := by
  unfold Operand.emitAs
  rw [bind_of_ok (o.kind_run s), bind_of_error h]

/-- An operator on two numbers fails if there is no code for the left one. -/
theorem pair_of_error {left : Operand} {failure : Failure} (h : left.emit s = .error failure s')
    (ops : Instructions) (right : Operand) : pair ops left right s = .error failure s' := by
  unfold pair
  rw [bind_of_ok (Operand.allInt_run s _)]
  split
  · exact bind_of_error h _
  · exact bind_of_error (emitAs_of_error h .f64) _

end Emit

/-! ## Compound assignments -/

namespace Emit

variable {op : CompoundOp} {left right : Expr Frame} {span binarySpan : Span}

/-- The operation that a compound assignment stands for. -/
def combined (op : CompoundOp) (left right : Expr Frame) (span : Span) : Operand :=
  let e : Expr Frame := .mk (.binary op.binary left right) none span
  ⟨e, e.emit⟩

/-- The operation of a compound assignment is compiled as an operator on its two sides. -/
theorem emit_combined (op : CompoundOp) (left right : Expr Frame) (span : Span) :
    (combined op left right span).emit
      = pair (compoundInstructions op) ⟨left, left.emit⟩ ⟨right, right.emit⟩ := by
  cases op <;> rfl

/-- The operation that a compound assignment stands for gives a number. -/
theorem kind_combined (op : CompoundOp) (left right : Expr Frame) (span : Span) (env : Env) :
    (combined op left right span).expr.kind env
      = some (.arithmetic [left.kind env, right.kind env]) := by
  cases op <;> rfl

/-- A variable is assigned what the operation gives. -/
theorem compound_name (x : String) (nameSpan : Span) :
    compound op (.name x nameSpan) ⟨left, left.emit⟩ ⟨right, right.emit⟩ span
      = assign (.name x nameSpan) (combined op left right binarySpan) span := by
  funext s
  have hkind := Operand.kind_run s (combined op left right binarySpan)
  rw [kind_combined] at hkind
  unfold compound assign
  rw [bind_of_ok (Operand.arithmeticKind_run s _)]
  -- the variable is resolved before the operation on either side
  refine storable_bind_congr fun v => ?_
  rw [bind_of_ok hkind, emit_combined]
  simp only [List.map_cons, List.map_nil, Kind.arithmetic]
  split <;> rfl

/-- The code of the operation is brought to floating-point for an element. -/
theorem emitAs_combined (s : State) : (combined op left right binarySpan).emitAs .f64 s
    = (pair (compoundInstructions op) ⟨left, left.emit⟩ ⟨right, right.emit⟩ >>= fun code =>
      pure ((Coercion.toFloat (some (.arithmetic [left.kind s.env, right.kind s.env]))).apply
        code)) s := by
  have hkind := Operand.kind_run s (combined op left right binarySpan)
  rw [kind_combined] at hkind
  unfold Operand.emitAs
  rw [bind_of_ok hkind, emit_combined]
  rfl

/-- A part of a value is given what the operation gives. -/
theorem compound_part (part : Part) :
    compound op (.part part) ⟨left, left.emit⟩ ⟨right, right.emit⟩ span
      = assign (.part part) (combined op left right binarySpan) span := by
  funext s
  unfold compound assign
  rw [bind_of_ok (Operand.arithmeticKind_run s _)]
  -- the operation is converted before the store on one side, and as a part of `emitAs` on the other
  show _ = EStateM.bind _ _ s
  unfold EStateM.bind
  rw [emitAs_combined]
  show EStateM.bind _ _ s = _
  unfold EStateM.bind
  cases hpair : pair (compoundInstructions op) ⟨left, left.emit⟩ ⟨right, right.emit⟩ s with
  | error failure s' => rw [bind_of_error hpair]
  | ok code s' => rw [bind_of_ok hpair]; rfl

/-- A part that cannot be read cannot be combined with anything, whatever would be written. -/
theorem compound_part_congr {failure : Failure} (h : ∀ s, left.emit none s = .error failure s)
    (part copy : Part) :
    compound op (.part part) ⟨left, left.emit⟩ ⟨right, right.emit⟩ span
      = compound op (.part copy) ⟨left, left.emit⟩ ⟨right, right.emit⟩ span := by
  funext s
  have hpair : pair (compoundInstructions op) ⟨left, left.emit⟩ ⟨right, right.emit⟩ s
      = .error failure s := @pair_of_error _ _ ⟨left, left.emit⟩ failure (h s) _ _
  have hpart (part : Part) :
      compound op (.part part) ⟨left, left.emit⟩ ⟨right, right.emit⟩ span s
        = .error failure s := by
    unfold compound
    rw [bind_of_ok (Operand.arithmeticKind_run s _)]
    exact bind_of_error hpair _
  rw [hpart, hpart]

/-- A compound assignment is compiled like the assignment it stands for. -/
theorem compound_eq_assign (target : Expr Scope) (site copySite : Site) :
    compound op (target.locate site).target ⟨target.locate site, (target.locate site).emit⟩
        ⟨right, right.emit⟩ span
      = assign (target.locate copySite).target
        (combined op (target.locate site) right binarySpan) span := by
  obtain ⟨node, ty, targetSpan⟩ := target
  cases node with
  | ident x => exact compound_name x targetSpan
  -- elements and fields have no code to read them: the place of a copy comes too late to matter
  | index array index =>
    cases index with
    | none => exact compound_part .length
    | some index =>
      exact (compound_part_congr (fun _ => rfl) _ _).trans (compound_part _)
  | field object field => exact (compound_part_congr (fun _ => rfl) _ _).trans (compound_part _)
  | _ => rfl

/-! ## Steps and numbered fields -/

/-- An integer literal as an operand. -/
def literal (n : Int32) (ty : Option Kind) (span : Span) : Operand :=
  let e : Expr Frame := .mk (.intLit n) ty span
  ⟨e, e.emit⟩

/-- Neither the kind recorded for the literal one nor its span counts. -/
theorem compound_one (target : Target) (old : Operand) (ty : Option Kind) (oneSpan : Span) :
    compound op target old .one span = compound op target old (literal 1 ty oneSpan) span := by
  rfl

/-- A numeral as a field is the index of an element. -/
theorem storePart_field {field : String} {n : Int32} (h : Numeral.int32? field = some n)
    (object : Operand) (fieldSpan : Span) (ty : Option Kind) (numeralSpan : Span) (value : Code) :
    storePart (.field object field fieldSpan) value span
      = storePart (.element object (literal n ty numeralSpan)) value span := by
  unfold storePart
  simp only [h]
  rfl

end Emit

/-! ## Expressions -/

namespace Expr

/-- A copy of a target has the kind of the target. -/
theorem targetKind_locate (target : Expr Scope) (site copySite : Site) (env : Env) :
    (target.locate site).targetKind env = (target.locate copySite).targetKind env := by
  obtain ⟨node, ty, span⟩ := target
  cases node <;> rfl

/-- A shorthand and what it stands for have values of one kind. -/
theorem Abbreviates.kind_eq {e d : Expr Frame} (h : e.Abbreviates d) (env : Env) :
    e.kind env = d.kind env := by
  cases h with
  | @compound op target value ty span binarySpan site copySite =>
    cases ty with
    | some kind => rfl
    | none =>
      have hfunction : (Expr.mk (.binary op.binary (target.locate site) value) none
        binarySpan).isFunction = false := rfl
      simp only [Expr.kind, hfunction, Bool.and_false, Bool.false_eq_true, if_false]
      exact targetKind_locate target site copySite env
  | @step op target ty => cases ty <;> rfl
  | @field object value field n ty => cases ty <;> rfl

/-- A shorthand and what it stands for are compiled alike: from every state they give the same code
and leave the same state, or they fail in the same way. Their values have the same kind. -/
theorem emit_eq_of_abbreviates {e d : Expr Frame} (h : e.Abbreviates d) :
    (∀ name s, e.emit name s = d.emit name s) ∧ ∀ env, e.kind env = d.kind env := by
  refine ⟨fun name s => ?_, h.kind_eq⟩
  cases h with
  | @compound op target value ty span binarySpan site copySite =>
    exact congrFun (Emit.compound_eq_assign target site copySite) s
  | @step op target ty oneTy span oneSpan =>
    exact congrFun (Emit.compound_one target.target ⟨target, target.emit⟩ oneTy oneSpan) s
  | @field object value field n ty fieldTy indexTy numeralTy span fieldSpan indexSpan numeralSpan
      hfield =>
    have hstore (code : Code) : Emit.storePart _ code span = _ :=
      Emit.storePart_field hfield ⟨object, object.emit⟩ fieldSpan numeralTy numeralSpan code
    show (Operand.emitAs ⟨value, value.emit⟩ .f64 >>= fun code =>
      Emit.storePart (.field ⟨object, object.emit⟩ field fieldSpan) code span) s = _
    simp only [hstore]
    rfl

/-- Inside a scope that binds an array `a`. -/
def insideArray : State :=
  State.enter {} ⟨[], ⟨[⟨"a", { kind := .pointer, storage := .localVar }⟩]⟩⟩

/-- `a.3 = 9` -/
def fieldStore : Expr Frame :=
  .plain (.assign (.plain (.field (.plain (.ident "a")) "3")) (.int 9))

/-- `a[3] = 9` -/
def elementStore : Expr Frame :=
  .plain (.assign (.plain (.index (.plain (.ident "a")) (some (.int 3)))) (.int 9))

/-- `a[] = a[] + 1` -/
def lengthSum : Expr Frame :=
  .plain (.assign (.plain (.index (.plain (.ident "a")) none))
    (.plain (.binary .add (.plain (.index (.plain (.ident "a")) none)) (.int 1))))

/-- `a.3 = 9` stores like `a[3] = 9`, and `a[] = a[] + 1` is refused like `a[] += 1`. -/
theorem numbered_field_alike : fieldStore.Abbreviates elementStore ∧
    (∃ code s', fieldStore.emit none insideArray = .ok code s' ∧
      elementStore.emit none insideArray = .ok code s') ∧
    lengthSum.emit none insideArray
      = .error (.badAssignment (.target "[]") .synthetic) insideArray := by
  have hfield : fieldStore.Abbreviates elementStore := .field (by decide +kernel)
  have hlength : (Expr.plain (.compound .addAssign (.plain (.index (.plain (.ident "a")) none))
      (.int 1))).Abbreviates lengthSum :=
    @Abbreviates.compound _ (.plain (.index (.plain (.ident "a")) none)) _ _ _ _ [0] [1, 0]
  refine ⟨hfield, ?_, ?_⟩
  · obtain ⟨hemit, _⟩ := emit_eq_of_abbreviates hfield
    exact ⟨_, _, hemit none insideArray, rfl⟩
  · obtain ⟨hemit, _⟩ := emit_eq_of_abbreviates hlength
    exact (hemit none insideArray).symm.trans rfl

end Expr

end PatchCompiler
