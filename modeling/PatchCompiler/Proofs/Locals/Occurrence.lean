import PatchCompiler.Proofs.Emission.Fields
import PatchCompiler.Proofs.Wasm.Heads

/-! # Occurrences of local variables

An occurrence of a local variable is a place of an expression whose code reads or writes a variable
of the running function. `Expr.occurrences` lists them in the order of the code, each with the
machine type of the variable that its name stands for at that place. Main statement: the names that
the code of an expression reads and writes by `local.get` and `local.tee` are, in order, those of its
occurrences. -/

namespace PatchCompiler

/-- A name that stands for a local variable, and the machine type of that variable. -/
abbrev Occurrence := String × ValType

/-- The occurrence of a name, if it stands for a local variable or a parameter. -/
def Env.occurrence (env : Env) (x : String) : List Occurrence :=
  match env x with
  | some v => if v.kind = .function || v.isGlobal then [] else [(x, v.valType)]
  | none => []

mutual

/-- Occurrences of local variables in the code of an expression. A function definition has none:
its code stands in a function of its own. -/
def Expr.occurrences (env : Env) : Expr Frame → List Occurrence
  | .mk (.statements items) _ _ => Expr.occurrencesList env items
  | .mk (.sequence items) _ _ => Expr.occurrencesList env items
  | .mk (.floatLit _) _ _ => []
  | .mk (.intLit _) _ _ => []
  | .mk (.ident x) _ _ => env.occurrence x
  | .mk (.function ..) _ _ => []
  | .mk (.block body frame) _ _ => body.occurrences (env.enter frame)
  | .mk (.call _ args) _ _ => Expr.occurrencesList env args
  | .mk (.neg operand) _ _ => operand.occurrences env
  | .mk (.binary _ left right) _ _ => left.occurrences env ++ right.occurrences env
  | .mk (.compare _ left right) _ _ => left.occurrences env ++ right.occurrences env
  | .mk (.step _ target) _ _ => target.occurrences env ++ target.occurrences env
  | .mk (.compound _ target value) _ _ =>
    target.occurrences env ++ (target.occurrences env ++ value.occurrences env)
  | .mk (.clamp value (.mk (.range (some low) (some high)) _ _)) _ _ =>
    value.occurrences env ++ (high.occurrences env ++ low.occurrences env)
  | .mk (.clamp ..) _ _ => []
  | .mk (.range ..) _ _ => []
  | .mk (.array members) _ _ => Expr.occurrencesList env members
  | .mk (.index array none) _ _ => array.occurrences env
  | .mk (.index _ (some _)) _ _ => []
  | .mk (.field ..) _ _ => []
  -- The array of an element is read twice: for the address and for the length.
  | .mk (.assign (.mk (.index array (some index)) _ _) value) _ _ =>
    array.occurrences env
      ++ (index.occurrences env ++ (array.occurrences env ++ value.occurrences env))
  | .mk (.assign (.mk (.field object _) _ _) value) _ _ =>
    object.occurrences env ++ (object.occurrences env ++ value.occurrences env)
  | .mk (.assign target value) _ _ =>
    if value.isFunction then [] else target.occurrences env ++ value.occurrences env
  | .mk (.loop cond body) _ _ => cond.occurrences env ++ body.occurrences env

/-- Occurrences of local variables in the code of a list of expressions. -/
def Expr.occurrencesList (env : Env) : List (Expr Frame) → List Occurrence
  | [] => []
  | e :: rest => e.occurrences env ++ Expr.occurrencesList env rest

end

/-- Occurrences of local variables in the codes of a task. -/
def Task.occurrences (env : Env) : Task → List Occurrence
  | .expr e _ => e.occurrences env
  | .operand e _ => e.occurrences env
  | .list es => Expr.occurrencesList env es
  | .args _ es => Expr.occurrencesList env es
  | .pair _ left right => left.occurrences env ++ right.occurrences env
  | .position (.computed index) => index.occurrences env
  | .position (.fixed _) => []
  | .members _ _ layout => Expr.occurrencesList env (Member.exprs layout)
  | .definition .. => []

/-! ## Local variables in code -/

/-- The local variable that an instruction reads or writes. -/
def Op.localName? : Op → Option String
  | .getLocal x => some x
  | .teeLocal x => some x
  | _ => none

/-- Names of the local variables that a code reads and writes, in order. -/
abbrev Code.localNames (code : Code) : List String := code.pick Op.localName?

/-- A conversion reads and writes no variable. -/
@[simp] theorem Code.localNames_apply (coercion : Coercion) (code : Code) :
    (coercion.apply code).localNames = code.localNames := by
  cases coercion <;> simp [Coercion.apply, Op.localName?]

/-- Reading a variable that is no function is an occurrence of it. -/
theorem localNames_read {s : State} {x : String} {v : Variable} (hv : s.lookup x = some v)
    (hk : v.kind ≠ .function) :
    (Emit.read x v).localNames = (s.env.occurrence x).map Prod.fst := by
  unfold Emit.read Env.occurrence
  rw [show s.env x = some v from hv]
  cases hglobal : v.isGlobal <;> simp [hk, hglobal, Op.localName?]

/-- Writing a variable is an occurrence of it, in front of those of the value. -/
theorem localNames_store {s : State} {x : String} {v : Variable} (hv : s.lookup x = some v)
    (hk : v.kind ≠ .function) (code : Code) (kind : Option Kind) :
    (Emit.store x v code kind).localNames
      = (s.env.occurrence x).map Prod.fst ++ code.localNames := by
  have hread := localNames_read hv hk
  have hv : s.env x = some v := hv
  unfold Emit.store
  cases hglobal : v.isGlobal with
  -- a global variable is written by one instruction and read back by another, neither of them local
  | true =>
    simp only [if_true, Code.pick_append_code, Code.pick_one, Op.localName?, Option.toList_none,
      List.nil_append, List.flatMap_cons, List.flatMap_nil, List.append_nil,
      Code.localNames_apply, hread]
    simp [Env.occurrence, hv, hglobal]
  | false => simp [Env.occurrence, hv, hk, hglobal, Op.localName?]

/-- A store to a slot of an array occurs with the variables of its value. -/
theorem localNames_storeSlot (base : UInt32) (slot : Nat) (value : Code) :
    (Emit.storeSlot base slot value).localNames = value.localNames := by
  simp [Emit.storeSlot, Emit.address, Op.localName?]

/-- A loop occurs with the variables of its test and of its body. -/
theorem localNames_loopOf (label : Label) (kind : Option Kind) (test content : Code) :
    (Emit.loopOf label (Emit.testOf kind test) content).localNames
      = test.localNames ++ content.localNames := by
  unfold Emit.loopOf Emit.testOf
  split <;> simp [Op.localName?]

/-! ## Occurrences of what is compiled -/

/-- The occurrences of a list are those of its expressions in turn. -/
theorem occurrencesList_eq_flatMap (env : Env) (es : List (Expr Frame)) :
    Expr.occurrencesList env es = es.flatMap (Expr.occurrences env) := by
  induction es with
  | nil => rfl
  | cons e rest ih => rw [Expr.occurrencesList, ih, List.flatMap_cons]

/-- The occurrences of the members of an array literal are those of its layout. -/
theorem occurrences_of_classified {env : Env} {members : List (Expr Frame)} {layout : List Member}
    (h : List.Forall₂ (fun e m => Member.ofOperand (e.kind env) ⟨e, e.emit⟩ = .ok m)
      members layout) :
    Expr.occurrencesList env (Member.exprs layout) = Expr.occurrencesList env members := by
  rw [occurrencesList_eq_flatMap, occurrencesList_eq_flatMap]
  exact Member.flatMap_exprs _ (fun e he => by cases he <;> rfl) h

/-- An assignment to an array element occurs with the array twice, the index and the value. -/
theorem occurrences_of_position {env : Env} {target array value : Expr Frame} {p : Position}
    {ty : Option Kind} {span : Span} (h : target.position? = some (array, p)) :
    (Expr.mk (.assign target value) ty span).occurrences env
      = array.occurrences env ++ (Task.occurrences env (.position p)
        ++ (array.occurrences env ++ value.occurrences env)) := by
  cases Expr.locates_of_position h with
  | element => rfl
  | field => rfl

/-- The names in a single code are those of the code. -/
@[simp] theorem flatMap_localNames_singleton (code : Code) :
    [code].flatMap Code.localNames = code.localNames :=
  List.append_nil _

/-- The local variables that the codes of a task read and write are, in order, its occurrences. -/
theorem Emits.localNames_eq {s s' : State} {task : Task} {codes : List Code}
    (h : Emits s task codes s') :
    codes.flatMap Code.localNames = (task.occurrences s.env).map Prod.fst := by
  induction h with
  | statements _ ih => simpa [Task.occurrences, Expr.occurrences] using ih
  | sequence _ ih => simpa [Task.occurrences, Expr.occurrences] using ih
  | floatLit => rfl
  | intLit => rfl
  | @ident s x v ty span name hv =>
    simp only [List.flatMap_cons, List.flatMap_nil, List.append_nil, Task.occurrences,
      Expr.occurrences]
    by_cases hk : v.kind = .function
    · simp only [hk, if_true, Code.pick_nil]
      simp [Env.occurrence, show s.env x = some v from hv, hk]
    · simp only [hk, if_false]
      exact localNames_read hv hk
  | function => rfl
  | @block s s' body frame code ty span name _ ih =>
    rw [@State.env_of_scopes_cons s _ frame (by simp)] at ih
    exact ih
  | call _ ih =>
    simp only [List.flatMap_cons, List.flatMap_nil, List.append_nil, Code.pick_one,
      Op.localName?, Option.toList_none, List.nil_append, Code.flatMap_pick_filter]
    exact ih
  | negInt => rfl
  | negFloat => rfl
  | opposite _ _ _ _ ih => simpa [Task.occurrences, Expr.occurrences, Op.localName?] using ih
  | difference _ _ _ _ ih => simpa [Task.occurrences, Expr.occurrences, Op.localName?] using ih
  | binary _ _ ih => simpa [Task.occurrences, Expr.occurrences] using ih
  | compare _ ih => simpa [Task.occurrences, Expr.occurrences] using ih
  | step hv hk _ ih =>
    simp only [flatMap_localNames_singleton] at ih ⊢
    rw [localNames_store hv hk, ih]
    simp [Task.occurrences, Expr.occurrences, Expr.int, Expr.plain, Expr.withKind]
  | compound hv hk _ ih =>
    simp only [flatMap_localNames_singleton] at ih ⊢
    rw [localNames_store hv hk, ih]
    simp [Task.occurrences, Expr.occurrences]
  | clampInt _ hv hh _ ihv ihh ihl =>
    rw [hh.env_eq, hv.env_eq] at ihl
    rw [hv.env_eq] at ihh
    rw [State.env_require, State.env_require] at ihv ihh ihl
    simp only [flatMap_localNames_singleton] at ihv ihh ihl
    simp [Task.occurrences, Expr.occurrences, Op.localName?, ihv, ihh, ihl]
  | clampFloat _ hv hh _ ihv ihh ihl =>
    rw [hh.env_eq, hv.env_eq] at ihl
    rw [hv.env_eq] at ihh
    simp only [flatMap_localNames_singleton] at ihv ihh ihl
    simp only [Task.occurrences] at ihv ihh ihl
    simp [Task.occurrences, Expr.occurrences, Op.localName?, ihv, ihh, ihl]
  | array hlayout _ _ _ _ ih =>
    simp only [flatMap_localNames_singleton, Emit.arrayOf, Code.pick_join]
    rw [List.flatMap_append, List.flatMap_cons, ih]
    simp only [Task.occurrences, Expr.occurrences, Emit.address]
    rw [← occurrences_of_classified hlayout]
    simp [Op.localName?]
    rfl
  | length _ _ ih =>
    simpa [Emit.loadLength, Emit.address, Task.occurrences, Expr.occurrences, Op.localName?]
      using ih
  | @assignFunction _ _ x targetTy targetSpan value code ty span name hf _ ih =>
    rw [ih]
    obtain ⟨node, valueTy, valueSpan⟩ := value
    cases node with
    | function => rfl
    | _ => cases hf
  | assignName hf hv hk _ _ _ ih =>
    simp only [flatMap_localNames_singleton] at ih ⊢
    rw [localNames_store hv hk, ih]
    simp [Task.occurrences, Expr.occurrences, hf]
  | assignPart hp hv hb hi _ _ ihv ihb ihi ihn =>
    -- no part changes the environment, so that all of them occur in that of the whole
    rw [hi.env_eq, hb.env_eq, State.env_require, hv.env_eq] at ihn
    rw [hb.env_eq, State.env_require, hv.env_eq] at ihi
    rw [State.env_require, hv.env_eq] at ihb
    simp only [flatMap_localNames_singleton] at ihv ihb ihi ihn ⊢
    simp only [Task.occurrences] at ihv ihb ihn
    simp only [Task.occurrences.eq_1, occurrences_of_position hp, Emit.writeElement,
      Emit.loadLength]
    simp [Emit.address, Op.localName?, ihv, ihb, ihi, ihn]
  | loop hc _ ihc ihb =>
    rw [hc.env_eq] at ihb
    simp only [flatMap_localNames_singleton] at ihc ihb ⊢
    rw [localNames_loopOf, ihc, ihb, ← List.map_append]
    rfl
  | operand _ ih => simpa [Task.occurrences] using ih
  | listNil => rfl
  | listCons he _ ihe ihrest =>
    rw [he.env_eq] at ihrest
    simp only [flatMap_localNames_singleton] at ihe
    rw [List.flatMap_cons, ihrest, ihe, ← List.map_append]
    rfl
  | argsNil => rfl
  | argsFree he _ ihe ihrest =>
    rw [he.env_eq] at ihrest
    simp only [flatMap_localNames_singleton] at ihe
    rw [List.flatMap_cons, ihrest, ihe, ← List.map_append]
    rfl
  | argsCons he _ ihe ihrest =>
    rw [he.env_eq] at ihrest
    simp only [flatMap_localNames_singleton] at ihe
    rw [List.flatMap_cons, ihrest, ihe, ← List.map_append]
    rfl
  | pairInt _ hl _ ihl ihr =>
    rw [hl.env_eq] at ihr
    simp only [flatMap_localNames_singleton] at ihl ihr
    simp [Task.occurrences, Op.localName?, ihl, ihr]
  | pairFloat _ hl _ ihl ihr =>
    rw [hl.env_eq] at ihr
    simp only [flatMap_localNames_singleton, Task.occurrences] at ihl ihr
    simp [Task.occurrences, Op.localName?, ihl, ihr]
  | computed _ ih => exact ih
  | fixed => rfl
  | membersNil => rfl
  | @memberInt _ _ _ _ operand value _ _ hv _ ih =>
    obtain ⟨⟨node, ty, span⟩, emitted⟩ := operand
    cases hv
    rw [List.flatMap_cons, localNames_storeSlot, ih]
    rfl
  | memberValue _ he _ ihe ihrest =>
    rw [he.env_eq] at ihrest
    simp only [flatMap_localNames_singleton] at ihe
    rw [List.flatMap_cons, localNames_storeSlot, ihrest, ihe, ← List.map_append]
    rfl
  | memberInts _ ih =>
    rw [List.flatMap_append, ih, List.flatMap_map]
    simp [localNames_storeSlot, Task.occurrences, Member.exprs, Op.localName?]
  | memberReserve _ ih => exact ih
  | definition => rfl

end PatchCompiler
