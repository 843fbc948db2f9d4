import PatchCompiler.Proofs.Emission.Discipline
import PatchCompiler.Proofs.Text.Branches
import PatchCompiler.Proofs.Text.Sections

/-! # Branches start the innermost loop again

The label of a loop counts the loops around it in the program. The count is not started anew in a
function that is defined inside a loop, so that the labels of a function need not begin at one, and
loops beside each other have the same label. Main statement: in the text of every function a branch
stands in a loop, and the innermost loop around it is the one it names; a loop has one branch of its
own, the last instruction of its conditional part; and loops inside each other have different
labels. -/

namespace PatchCompiler

/-! ## Loops of a program -/

mutual

/-- The number of loops of an expression that are inside each other. -/
def Expr.nesting : Expr Frame → Nat
  | .mk node _ _ => node.nesting

/-- The number of loops of a node that are inside each other. -/
def Node.nesting : Node Frame → Nat
  | .statements items => Expr.nestingList items
  | .sequence items => Expr.nestingList items
  | .floatLit _ => 0
  | .intLit _ => 0
  | .ident _ => 0
  | .function _ _ prologue body _ => max (Expr.nestingOption prologue) body.nesting
  | .block body _ => body.nesting
  | .call _ args => Expr.nestingList args
  | .neg operand => operand.nesting
  | .binary _ left right => max left.nesting right.nesting
  | .compare _ left right => max left.nesting right.nesting
  | .step _ target => target.nesting
  | .compound _ target value => max target.nesting value.nesting
  | .clamp value range => max value.nesting range.nesting
  | .range start stop => max (Expr.nestingOption start) (Expr.nestingOption stop)
  | .array members => Expr.nestingList members
  | .index array index => max array.nesting (Expr.nestingOption index)
  | .field object _ => object.nesting
  | .assign target value => max target.nesting value.nesting
  | .loop cond body => max cond.nesting body.nesting + 1

/-- The number of loops of expressions that are inside each other. -/
def Expr.nestingList : List (Expr Frame) → Nat
  | [] => 0
  | e :: rest => max e.nesting (Expr.nestingList rest)

/-- The number of loops of an expression that may be missing. -/
def Expr.nestingOption : Option (Expr Frame) → Nat
  | none => 0
  | some e => e.nesting

end

/-- The number of loops of a task that are inside each other. -/
def Task.nesting : Task → Nat
  | .expr e _ => e.nesting
  | .operand e _ => e.nesting
  | .list es => Expr.nestingList es
  | .args _ es => Expr.nestingList es
  | .pair _ left right => max left.nesting right.nesting
  | .position (.computed index) => index.nesting
  | .position (.fixed _) => 0
  | .members _ _ layout => Expr.nestingList (Member.exprs layout)
  | .definition _ prologue body => max (Expr.nestingList prologue.toList) body.nesting

/-- An optional expression nests loops as the list of it does. -/
theorem Expr.nestingOption_eq (e : Option (Expr Frame)) :
    Expr.nestingOption e = Expr.nestingList e.toList := by
  cases e with
  | none => rfl
  | some e => exact (Nat.max_zero _).symm

/-- The members of an array literal that are stored as numbers are among its members. -/
theorem nesting_of_classified {env : Env} {members : List (Expr Frame)} {layout : List Member}
    (h : List.Forall₂ (fun e m => Member.ofOperand (e.kind env) ⟨e, e.emit⟩ = .ok m)
      members layout) :
    Expr.nestingList (Member.exprs layout) ≤ Expr.nestingList members := by
  induction h with
  | nil => exact Nat.le_refl _
  | @cons e m members layout hm _ ih =>
    have hmember : Expr.nestingList (Member.exprs (m :: layout))
        ≤ max e.nesting (Expr.nestingList (Member.exprs layout)) := by
      rcases Member.ofOperand_cases hm with rfl | ⟨_, hne⟩
      · exact Nat.le_refl _
      · cases m with
        | value operand => exact absurd rfl (hne operand)
        | ints low high => exact Nat.le_max_right _ _
        | reserve count => exact Nat.le_max_right _ _
    rw [Expr.nestingList]
    omega

/-- The target of an element store has the loops of the array and of the index. -/
theorem nesting_of_position {target array : Expr Frame} {p : Position}
    (h : target.position? = some (array, p)) :
    target.nesting = max array.nesting (Task.nesting (.position p)) := by
  cases Expr.locates_of_position h with
  | element => rfl
  | field => exact (Nat.max_zero _).symm

/-! ## The trees of code -/

namespace Code

/-- The trees of operands are those of the operands in turn. -/
theorem sexpsOperands_eq (operands : List Code) :
    Instr.sexpsOperands operands = operands.flatMap sexps := by
  induction operands with
  | nil => rfl
  | cons operand rest ih =>
    show sexps operand ++ Instr.sexpsOperands rest = _
    rw [ih, List.flatMap_cons]

/-- Empty code has no trees. -/
@[simp] theorem sexps_nil : sexps [] = [] := rfl

/-- An instruction is one tree of its text and its operands. -/
@[simp] theorem sexps_one (op : Op) (operands : List Code) :
    (one op operands).sexps = [.list (op.sexps ++ operands.flatMap sexps)] := by
  rw [← sexpsOperands_eq]
  rfl

/-- The trees of two codes follow each other. -/
@[simp] theorem sexps_append_code (first second : Code) :
    sexps (first ++ second) = first.sexps ++ second.sexps := by
  induction first with
  | nil => rfl
  | cons i rest ih =>
    show i.2.sexp :: sexps (rest ++ second) = _
    rw [ih]
    rfl

/-- The gap in front of code does not matter to its trees. -/
@[simp] theorem sexps_lead (gap : Gap) (code : Code) : (code.lead gap).sexps = code.sexps := by
  cases code <;> rfl

/-- The trees of two codes with a gap between them follow each other. -/
@[simp] theorem sexps_append (gap : Gap) (first second : Code) :
    (append gap first second).sexps = first.sexps ++ second.sexps := by
  unfold append
  cases first with
  | nil => rfl
  | cons i rest =>
    rw [List.isEmpty_cons, if_neg Bool.false_ne_true, sexps_append_code, sexps_lead]

/-- The loops of a code go on from a number of loops around it. -/
def Nested (depth : Nat) (code : Code) : Prop := ∀ x ∈ code.sexps, x.Nested depth

variable {depth : Nat}

/-- Empty code holds no loop. -/
@[simp] theorem nested_nil : Nested depth [] := List.forall_mem_nil _

/-- Two codes one after another are nested when both are. -/
@[simp] theorem nested_append_code {first second : Code} :
    Nested depth (first ++ second) ↔ first.Nested depth ∧ second.Nested depth := by
  simp only [Nested, sexps_append_code, List.forall_mem_append]

/-- The gap in front of code does not matter to its nesting. -/
@[simp] theorem nested_lead {gap : Gap} {code : Code} :
    (code.lead gap).Nested depth ↔ code.Nested depth := by
  simp only [Nested, sexps_lead]

/-- Two codes with a gap between them are nested when both are. -/
@[simp] theorem nested_append {gap : Gap} {first second : Code} :
    (append gap first second).Nested depth ↔ first.Nested depth ∧ second.Nested depth := by
  simp only [Nested, sexps_append, List.forall_mem_append]

/-- Codes that are joined are nested when each one is. -/
@[simp] theorem nested_join {gap : Gap} {codes : List Code} :
    (join gap codes).Nested depth ↔ ∀ code ∈ codes, Nested depth code := by
  induction codes with
  | nil => simp [join]
  | cons code rest ih => simp [join, ih]

/-- Codes one after another are nested when each one is. -/
@[simp] theorem nested_flatten {codes : List Code} :
    Nested depth codes.flatten ↔ ∀ code ∈ codes, Nested depth code := by
  induction codes with
  | nil => simp
  | cons code rest ih => simp [ih]

end Code

/-- Whether an instruction begins a loop or starts one again. -/
def Op.isLooping : Op → Bool
  | .loop _ => true
  | .branch _ => true
  | _ => false

/-- An instruction begins with a keyword and words. -/
theorem Op.sexps_eq (op : Op) : ∃ text words, op.sexps = .atom text :: words ∧
    (∀ x ∈ words, ∃ word, x = .atom word) ∧
    (¬ op.isLooping → text ≠ "loop" ∧ text ≠ "br") := by
  cases op with
  | int op => cases op <;> exact ⟨_, _, rfl, by simp, by decide⟩
  | float op => cases op <;> exact ⟨_, _, rfl, by simp, by decide⟩
  | _ => exact ⟨_, _, rfl, by simp, by simp [isLooping]⟩

namespace Code

variable {depth : Nat}

/-- The loops of an instruction that is none are those of its operands. -/
@[simp] theorem nested_one {op : Op} {operands : List Code} (hop : ¬ op.isLooping) :
    (one op operands).Nested depth ↔ ∀ operand ∈ operands, Nested depth operand := by
  obtain ⟨text, words, heq, hwords, hne⟩ := op.sexps_eq
  obtain ⟨hloop, hbr⟩ := hne hop
  have hatoms : ∀ x ∈ words, x.Nested depth := fun x hx => by
    obtain ⟨word, rfl⟩ := hwords x hx
    exact .atom
  rw [Nested, sexps_one, heq, List.forall_mem_singleton, List.cons_append,
    Sexp.nested_list (Sexp.keyword_ne hloop) (Sexp.keyword_ne hbr)]
  simp only [List.forall_mem_cons, List.forall_mem_append, List.mem_flatMap]
  constructor
  · exact fun h operand hoperand x hx => h.2.2 x ⟨operand, hoperand, hx⟩
  · rintro h
    refine ⟨.atom, hatoms, ?_⟩
    rintro x ⟨operand, hoperand, hx⟩
    exact h operand hoperand x hx

section

attribute [local simp] Op.isLooping

/-- An integer constant holds no loop. -/
@[simp] theorem nested_int {value : Int32} : (int value).Nested depth := by simp [int]

/-- A floating-point constant holds no loop. -/
@[simp] theorem nested_float {value : Binary64} : (float value).Nested depth := by simp [float]

/-- A conversion is nested when its code is. -/
@[simp] theorem nested_apply {coercion : Coercion} {code : Code} :
    (coercion.apply code).Nested depth ↔ code.Nested depth := by
  cases coercion <;> simp [Coercion.apply]

/-- Reading a variable holds no loop. -/
@[simp] theorem nested_read {x : String} {v : Variable} : (Emit.read x v).Nested depth := by
  unfold Emit.read
  split <;> simp

/-- A store to a variable is nested when its number is. -/
@[simp] theorem nested_store {x : String} {v : Variable} {code : Code} {kind : Option Kind} :
    (Emit.store x v code kind).Nested depth ↔ code.Nested depth := by
  unfold Emit.store
  split <;> simp

/-- A test is nested when its number is. -/
@[simp] theorem nested_testOf {kind : Option Kind} {code : Code} :
    (Emit.testOf kind code).Nested depth ↔ code.Nested depth := by
  unfold Emit.testOf
  split <;> simp

/-- The length of an array is nested when the array is. -/
@[simp] theorem nested_loadLength {code : Code} :
    (Emit.loadLength code).Nested depth ↔ code.Nested depth := by
  simp [Emit.loadLength, Emit.address]

/-- The store to a slot is nested when its number is. -/
@[simp] theorem nested_storeSlot {base : UInt32} {slot : Nat} {value : Code} :
    (Emit.storeSlot base slot value).Nested depth ↔ value.Nested depth := by
  simp [Emit.storeSlot, Emit.address]

/-- A body that is brought to its result is nested when the body is. -/
@[simp] theorem nested_fit {header : Emit.Header} {kind : Option Kind} {code : Code} :
    (header.fit kind code).Nested depth ↔ code.Nested depth := by
  unfold Emit.Header.fit
  split
  · split <;> simp
  · rfl

end

/-- A loop whose label follows the number of loops around it. -/
theorem nested_loopOf {label : Label} {test content : Code} (hlabel : label.toNat = depth + 1)
    (htest : test.Nested (depth + 1)) (hcontent : content.Nested (depth + 1)) :
    (Emit.loopOf label test content).Nested depth := by
  have htree : (Emit.loopOf label test content).sexps
      = [Sexp.loopOf (depth + 1) test.sexps content.sexps] := by
    rw [Sexp.loopOf, ← hlabel]
    simp [Emit.loopOf, Op.sexps, Sexp.guarded, Sexp.again, Sexp.branchTo, Wasm.labelText, Sexp.label]
  rw [Nested, htree, List.forall_mem_singleton]
  exact .loop htest hcontent

end Code

/-- The loops of a function go on from some number. -/
def Func.Looped (f : Func) : Prop := ∃ depth, f.body.Nested depth

/-- All functions that have been written are looped. -/
def State.Looped (s : State) : Prop := ∀ f ∈ s.funcs, f.Looped

/-- A state stays looped when a library function is asked for. -/
theorem State.Looped.require {s : State} (h : s.Looped) (snippet : Snippet) :
    (s.require snippet).Looped := by
  simpa [State.Looped, State.funcs] using h

/-! ## Runs -/

section

attribute [local simp] Op.isLooping

/-- **Labels count the loops around.** The code of a task goes on from the number of loops in which it
is compiled, as long as the labels can be told apart, and so does each function that is written. -/
theorem Emits.nested {s s' : State} {task : Task} {codes : List Code} {depth : Nat}
    (h : Emits s task codes s') (hdepth : s.loopDepth.toNat = depth)
    (hroom : depth + task.nesting < UInt32.size) (hs : s.Looped) :
    s'.Looped ∧ ∀ code ∈ codes, Code.Nested depth code := by
  -- a task leaves the number of loops as it found it, so that the next one begins with the same
  have hnext : ∀ {t t' : State} {task : Task} {codes : List Code} {n : Nat}, Emits t task codes t' →
      t.loopDepth.toNat = n → t'.loopDepth.toNat = n :=
    fun h hn => (congrArg UInt32.toNat h.loopDepth_eq).trans hn
  induction h generalizing depth with
  | floatLit | intLit | negInt | negFloat | listNil | argsNil | fixed | membersNil =>
    exact ⟨hs, by simp⟩
  | ident =>
    refine ⟨hs, List.forall_mem_singleton.2 ?_⟩
    split <;> simp
  | statements _ ih | sequence _ ih =>
    obtain ⟨hs', hcodes⟩ := ih hdepth hroom hs
    exact ⟨hs', by simpa using hcodes⟩
  | function _ ih =>
    simp only [Task.nesting, Expr.nesting, Node.nesting, Expr.nestingOption_eq] at hroom ih
    exact ⟨(ih hdepth hroom hs).1, by simp⟩
  | @block s _ _ frame _ _ _ _ _ ih =>
    refine ih ?_ hroom ?_
    · rw [State.loopDepth_declareScope]
      exact hdepth
    · rw [State.Looped, State.funcs_declareScope]
      exact hs
  | call _ ih =>
    obtain ⟨hs', hcodes⟩ := ih hdepth hroom hs
    -- arguments without code are left out of the call
    refine ⟨hs', List.forall_mem_singleton.2 ((Code.nested_one (by simp)).2 fun code hcode => ?_)⟩
    exact hcodes code (List.mem_filter.1 hcode).1
  | opposite _ _ _ _ ih | difference _ _ _ _ ih =>
    obtain ⟨hs', hcodes⟩ := ih hdepth hroom hs
    exact ⟨hs', by simpa using hcodes⟩
  | binary _ _ ih | compare _ ih => exact ih hdepth hroom hs
  | step _ _ _ ih =>
    obtain ⟨hs', hcode⟩ := ih hdepth hroom hs
    exact ⟨hs', by simpa using hcode⟩
  | compound _ _ _ ih =>
    obtain ⟨hs', hcode⟩ := ih hdepth hroom hs
    exact ⟨hs', by simpa using hcode⟩
  | clampInt _ hv hh _ ihv ihh ihl =>
    simp only [Task.nesting, Expr.nesting, Node.nesting, Expr.nestingOption,
      List.forall_mem_singleton] at hroom ihv ihh ihl ⊢
    obtain ⟨hs₁, hv'⟩ := ihv (by simpa using hdepth) (by omega) ((hs.require _).require _)
    obtain ⟨hs₂, hh'⟩ := ihh (hnext hv (by simpa using hdepth)) (by omega) hs₁
    obtain ⟨hs', hl'⟩ := ihl (hnext hh (hnext hv (by simpa using hdepth))) (by omega) hs₂
    exact ⟨hs', by simp [hv', hh', hl']⟩
  | clampFloat _ hv hh _ ihv ihh ihl =>
    simp only [Task.nesting, Expr.nesting, Node.nesting, Expr.nestingOption,
      List.forall_mem_singleton] at hroom ihv ihh ihl ⊢
    obtain ⟨hs₁, hv'⟩ := ihv hdepth (by omega) hs
    obtain ⟨hs₂, hh'⟩ := ihh (hnext hv hdepth) (by omega) hs₁
    obtain ⟨hs', hl'⟩ := ihl (hnext hh (hnext hv hdepth)) (by omega) hs₂
    exact ⟨hs', by simp [hv', hh', hl']⟩
  | array hlayout _ _ _ _ ih =>
    have hmembers := nesting_of_classified hlayout
    simp only [Task.nesting, Expr.nesting, Node.nesting] at hroom ih
    obtain ⟨hs', hcodes⟩ := ih hdepth (by omega) hs
    exact ⟨hs', by simpa [Emit.arrayOf, Emit.address, or_imp, forall_and] using hcodes⟩
  | length _ _ ih =>
    simp only [Task.nesting, Expr.nesting, Node.nesting, Expr.nestingOption] at hroom ih
    obtain ⟨hs', hcode⟩ := ih hdepth (by omega) hs
    exact ⟨hs', by simpa using hcode⟩
  | assignFunction _ _ ih =>
    simp only [Task.nesting, Expr.nesting, Node.nesting] at hroom ih
    exact ih hdepth (by omega) hs
  | assignName _ _ _ _ _ _ ih =>
    simp only [Task.nesting, Expr.nesting, Node.nesting] at hroom ih
    obtain ⟨hs', hcode⟩ := ih hdepth (by omega) hs
    exact ⟨hs', by simpa using hcode⟩
  | assignPart hp hv hb hi _ _ ihv ihb ihi ihn =>
    have htarget := nesting_of_position hp
    simp only [Task.nesting, Expr.nesting, Node.nesting, List.forall_mem_singleton]
      at hroom ihv ihb ihn ⊢
    have hdepth₁ := hnext hv hdepth
    have hdepth₂ := hnext hb (by simpa using hdepth₁)
    obtain ⟨hs₁, hv'⟩ := ihv hdepth (by omega) hs
    obtain ⟨hs₂, hb'⟩ := ihb (by simpa using hdepth₁) (by omega) (hs₁.require _)
    obtain ⟨hs₃, hi'⟩ := ihi hdepth₂ (by omega) hs₂
    obtain ⟨hs', hn'⟩ := ihn (hnext hi hdepth₂) (by omega) hs₃
    exact ⟨hs', by simp [Emit.writeElement, hv', hb', List.forall_mem_singleton.1 hi', hn']⟩
  | @loop s s₁ s₂ cond body test content ty span name hc _ ihc ihb =>
    simp only [Task.nesting, Expr.nesting, Node.nesting, List.forall_mem_singleton]
      at hroom ihc ihb ⊢
    -- there is room for all loops of the task, so the label does not wrap around
    have hlabel : (s.loopDepth + 1).toNat = depth + 1 := by
      have hsize : UInt32.size = 2 ^ 32 := rfl
      rw [UInt32.toNat_add, hdepth, UInt32.toNat_one]
      exact Nat.mod_eq_of_lt (by omega)
    obtain ⟨hs₁, htest⟩ := ihc hlabel (by omega) hs
    obtain ⟨hs', hcontent⟩ := ihb (hnext hc hlabel) (by omega) hs₁
    exact ⟨hs', Code.nested_loopOf hlabel (Code.nested_testOf.2 htest) hcontent⟩
  | operand _ ih | computed _ ih =>
    obtain ⟨hs', hcode⟩ := ih hdepth hroom hs
    exact ⟨hs', by simpa using hcode⟩
  | listCons he _ ihe ihrest | argsFree he _ ihe ihrest | argsCons he _ ihe ihrest =>
    simp only [Task.nesting, Expr.nestingList, List.forall_mem_singleton] at hroom ihe ihrest
    obtain ⟨hs₁, hcode⟩ := ihe hdepth (by omega) hs
    obtain ⟨hs', hcodes⟩ := ihrest (hnext he hdepth) (by omega) hs₁
    exact ⟨hs', List.forall_mem_cons.2 ⟨hcode, hcodes⟩⟩
  | pairInt _ hl _ ihl ihr | pairFloat _ hl _ ihl ihr =>
    simp only [Task.nesting, List.forall_mem_singleton] at hroom ihl ihr ⊢
    obtain ⟨hs₁, hleft⟩ := ihl hdepth (by omega) hs
    obtain ⟨hs', hright⟩ := ihr (hnext hl hdepth) (by omega) hs₁
    exact ⟨hs', by simp [hleft, hright]⟩
  | @memberInt _ _ _ _ operand _ rest _ _ _ ih =>
    have hlayout : Expr.nestingList (Member.exprs (.value operand :: rest))
        = max operand.expr.nesting (Expr.nestingList (Member.exprs rest)) := rfl
    simp only [Task.nesting, hlayout] at hroom ih
    obtain ⟨hs', hcodes⟩ := ih hdepth (by omega) hs
    exact ⟨hs', by simpa using hcodes⟩
  | @memberValue _ _ _ _ _ operand rest _ _ _ he _ ihe ihrest =>
    have hlayout : Expr.nestingList (Member.exprs (.value operand :: rest))
        = max operand.expr.nesting (Expr.nestingList (Member.exprs rest)) := rfl
    simp only [Task.nesting, hlayout, List.forall_mem_singleton] at hroom ihe ihrest
    obtain ⟨hs₁, hcode⟩ := ihe hdepth (by omega) hs
    obtain ⟨hs', hcodes⟩ := ihrest (hnext he hdepth) (by omega) hs₁
    exact ⟨hs', List.forall_mem_cons.2 ⟨Code.nested_storeSlot.2 hcode, hcodes⟩⟩
  | memberInts _ ih =>
    obtain ⟨hs', hcodes⟩ := ih hdepth hroom hs
    refine ⟨hs', List.forall_mem_append.2 ⟨fun code hcode => ?_, hcodes⟩⟩
    obtain ⟨_, _, rfl⟩ := List.mem_map.1 hcode
    exact Code.nested_storeSlot.2 Code.nested_float
  | memberReserve _ ih => exact ih hdepth hroom hs
  | @definition s s₁ s₂ header prologue body params first second hparams hf _ ihf ihs =>
    simp only [Task.nesting, List.forall_mem_singleton] at hroom ihf ihs
    -- a function goes on from the loops around its definition
    have hdepth₁ : (s.beginFunction header params).loopDepth.toNat = depth := by simpa using hdepth
    obtain ⟨hs₁, hfirst⟩ := ihf hdepth₁ (by omega) (by
      rw [State.Looped, State.funcs_beginFunction]; exact hs)
    obtain ⟨hs₂, hsecond⟩ := ihs (hnext hf hdepth₁) (by omega) hs₁
    refine ⟨?_, List.forall_mem_nil _⟩
    rw [State.Looped, State.funcs_endFunction, List.forall_mem_append, List.forall_mem_singleton]
    refine ⟨hs₂, depth, ?_⟩
    have hcode : Code.Nested depth (Code.lead .newline (Code.join .newline [first.flatten,
        header.fit (body.kind s₂.env) second, .one .ret []])) := by
      simpa using ⟨hfirst, hsecond⟩
    exact hcode

end

/-! ## Functions -/

/-- The tree of a function that is looped. -/
theorem Func.Looped.branchesInward {f : Func} (h : f.Looped) : f.sexp.BranchesInward := by
  obtain ⟨depth, hbody⟩ := h
  -- declarations and results begin with keywords of their own
  have hdeclaration : ∀ (keyword : String) (v : String × ValType), keyword ≠ "loop" →
      keyword ≠ "br" → (Wasm.declarationSexp keyword v).Nested depth := by
    intro keyword v hloop hbr
    rw [Wasm.declarationSexp, Sexp.nested_list (Sexp.keyword_ne hloop) (Sexp.keyword_ne hbr)]
    simpa using ⟨.atom, .atom, .atom⟩
  have hresult : ∀ type : ValType,
      (Sexp.list [.atom "result", .atom type.name]).Nested depth := by
    intro type
    rw [Sexp.nested_list (Sexp.keyword_ne (by decide)) (Sexp.keyword_ne (by decide))]
    simpa using ⟨.atom, .atom⟩
  have hform : f.sexp.Nested depth := by
    unfold Func.sexp
    simp only [List.cons_append, List.nil_append, List.append_assoc]
    refine (Sexp.nested_list (Sexp.keyword_ne (by decide)) (Sexp.keyword_ne (by decide))).2 ?_
    simp only [List.forall_mem_cons, List.forall_mem_append, List.forall_mem_map]
    exact ⟨.atom, .atom, fun v _ => hdeclaration _ v (by decide) (by decide),
      fun type _ => hresult type, fun v _ => hdeclaration _ v (by decide) (by decide), hbody⟩
  exact hform.branchesInward

/-- The library functions have no loops. -/
theorem Snippet.looped_func (snippet : Snippet) : snippet.func.Looped := by
  refine ⟨0, Code.nested_lead.2 ?_⟩
  have hparam : ∀ name, Code.Nested 0 (.one (.getLocal name) []) := by simp [Op.isLooping]
  have hchoose : ∀ op, Code.Nested 0 (.one .select [.one (.getLocal "a") [],
      .one (.getLocal "b") [], .one (.int op) [.one (.getLocal "a") [], .one (.getLocal "b") []]]) := by
    simp [Op.isLooping]
  cases snippet with
  | max => exact hchoose .gt
  | min => exact hchoose .lt
  | index => simpa [body, Op.isLooping] using ⟨hparam "i", hparam "len"⟩

namespace Program

open Sexp

variable {p : Program} {m : Module} {map : SourceMap}

/-- The number of loops of a program that are inside each other, also through the functions that are
defined in them. -/
def nesting (p : Program) : Nat := (p.body.locate [0]).nesting

/-- The functions of a module are looped. -/
theorem looped_of_compile (h : p.compile.outcome = .ok (m, map)) (hloops : p.nesting < 2 ^ 32) :
    ∀ f ∈ m.functions, f.Looped := by
  obtain ⟨s, pages, hemits, _, rfl, _⟩ := emits_of_compile h
  have hroom : 0 + Task.nesting (.definition p.header none (p.body.locate [0])) < UInt32.size := by
    show 0 + max 0 p.nesting < 2 ^ 32
    omega
  obtain ⟨hlooped, _⟩ := hemits.nested rfl hroom (List.forall_mem_nil _)
  refine List.forall_mem_append.2 ⟨List.forall_mem_map.2 fun snippet _ => ?_, hlooped⟩
  exact snippet.looped_func

/-- The names in the functions of a module are made of characters of words. -/
theorem named_functions (h : p.compile.outcome = .ok (m, map)) (hnames : ∀ x ∈ p.names, IsName x) :
    ∀ f ∈ m.functions, f.Named IsName := by
  have hforms := named_of_compile h (fun snippet => snippet.named_func.name) (by decide) hnames
  refine List.forall_mem_append.2 ⟨List.forall_mem_map.2 fun snippet _ => snippet.named_func, ?_⟩
  intro f hf
  obtain ⟨form, hform, hfunc⟩ := List.mem_filterMap.1 hf
  cases form with
  | func g =>
    cases hfunc
    exact hforms _ hform
  | _ => cases hfunc

/-- **Branches start the innermost loop again.** If the names in a program are made of characters of
words and its loops can be counted in 32 bits, the text of every function of its module reads as a
tree in which a branch names the innermost loop around it, each loop has one branch of its own, which
ends its conditional part, and loops inside each other have different labels. -/
theorem branches_inward (h : p.compile.outcome = .ok (m, map)) (hnames : ∀ x ∈ p.names, IsName x)
    (hloops : p.nesting < 2 ^ 32) :
    ∀ text ∈ m.sections "func", ∃ form, Sexp.read text = some [form] ∧ form.BranchesInward := by
  rw [Module.sections_func (not_verbatim h), List.forall_mem_map]
  intro f hf
  have hreads := (named_functions h hnames f hf).reads_funcText
  exact ⟨f.sexp, hreads.read_eq, (looped_of_compile h hloops f hf).branchesInward⟩

/-- Loops in the test and in the body of a loop, a function with a loop that is defined in another
one, and a loop beside it. -/
def tangled : Program where
  body := .plain (.statements [
    .plain (.loop
      (.plain (.sequence [.plain (.loop (.plain (.ident "n")) (.plain (.step .decrement
        (.plain (.ident "n"))))), .plain (.ident "n")]))
      (.plain (.statements [
        .plain (.loop (.plain (.ident "n")) (.plain (.step .decrement (.plain (.ident "n"))))),
        .plain (.assign (.plain (.ident "f")) (.plain (.function ["a"] none none
          (.plain (.loop (.plain (.ident "a")) (.plain (.step .decrement (.plain (.ident "a"))))))
          ⟨[⟨"a", { kind := .float, storage := .parameter }⟩]⟩)))]))),
    .plain (.loop (.plain (.ident "n")) (.plain (.step .decrement (.plain (.ident "n")))))])
  scope := ⟨[⟨"n", { kind := .int, storage := .localVar }⟩,
    ⟨"f", { kind := .function, storage := .globalVar }⟩]⟩

/-- Both functions of the module branch inward, although the only loop of one of them has the second
label. -/
theorem tangled_branches : ∃ m map, tangled.compile.outcome = .ok (m, map) ∧
    (∀ x ∈ tangled.names, IsName x) ∧ tangled.nesting = 2 ∧
    m.functions.map Func.name = ["f", initName] ∧
    ∀ text ∈ m.sections "func", ∃ form, Sexp.read text = some [form] ∧ form.BranchesInward := by
  have hnames : ∀ x ∈ tangled.names, IsName x := by decide
  refine ⟨_, _, rfl, hnames, by decide, rfl, ?_⟩
  exact branches_inward rfl hnames (by decide)

end Program

end PatchCompiler
