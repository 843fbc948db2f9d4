import PatchCompiler.Proofs.Emission.Fields
import PatchCompiler.Proofs.Locals.Distinct
import PatchCompiler.Proofs.Text.Render

/-! # The names in the text of a module

Every name in the text of a module is a name of the program or of the library: an identifier, a
callee, a parameter, or a name that a scope binds. So a property of these names holds of all names in
the text. -/

namespace PatchCompiler

/-! ## Names of a program -/

mutual

/-- The names in an expression: identifiers, callees, parameters, and what its scopes bind. -/
def Expr.names : Expr Frame → List String
  | .mk node _ _ => node.names

/-- The names in a node. -/
def Node.names : Node Frame → List String
  | .statements items => Expr.namesList items
  | .sequence items => Expr.namesList items
  | .floatLit _ => []
  | .intLit _ => []
  | .ident x => [x]
  | .function params _ prologue body frame =>
    params ++ (frame.scope.names ++ (Expr.namesOption prologue ++ body.names))
  | .block body frame => frame.scope.names ++ body.names
  | .call callee args => callee :: Expr.namesList args
  | .neg operand => operand.names
  | .binary _ left right => left.names ++ right.names
  | .compare _ left right => left.names ++ right.names
  | .step _ target => target.names
  | .compound _ target value => target.names ++ value.names
  | .clamp value range => value.names ++ range.names
  | .range start stop => Expr.namesOption start ++ Expr.namesOption stop
  | .array members => Expr.namesList members
  | .index array index => array.names ++ Expr.namesOption index
  | .field object _ => object.names
  | .assign target value => target.names ++ value.names
  | .loop cond body => cond.names ++ body.names

/-- The names in a list of expressions. -/
def Expr.namesList : List (Expr Frame) → List String
  | [] => []
  | e :: rest => e.names ++ Expr.namesList rest

/-- The names in an expression that may be missing. -/
def Expr.namesOption : Option (Expr Frame) → List String
  | none => []
  | some e => e.names

end

/-- The names in a task. -/
def Task.names : Task → List String
  | .expr e name => name.toList ++ e.names
  | .operand e _ => e.names
  | .list es => Expr.namesList es
  | .args _ es => Expr.namesList es
  | .pair _ left right => left.names ++ right.names
  | .position (.computed index) => index.names
  | .position (.fixed _) => []
  | .members _ _ layout => Expr.namesList (Member.exprs layout)
  | .definition header prologue body =>
    header.name :: (header.params
      ++ (header.frame.scope.names ++ (Expr.namesList prologue.toList ++ body.names)))

/-- The names of a list are those of its expressions, one after another. -/
theorem Expr.namesList_eq_flatMap (es : List (Expr Frame)) :
    Expr.namesList es = es.flatMap Expr.names := by
  induction es with
  | nil => rfl
  | cons e rest ih => rw [Expr.namesList, ih, List.flatMap_cons]

/-- The names of an optional expression are those of the list of it. -/
theorem Expr.namesOption_eq (e : Option (Expr Frame)) :
    Expr.namesOption e = Expr.namesList e.toList := by
  cases e with
  | none => rfl
  | some e => exact (List.append_nil _).symm

/-- The names in an array literal are those in its layout. -/
theorem names_of_classified {env : Env} {members : List (Expr Frame)} {layout : List Member}
    (h : List.Forall₂ (fun e m => Member.ofOperand (e.kind env) ⟨e, e.emit⟩ = .ok m)
      members layout) :
    Expr.namesList (Member.exprs layout) = Expr.namesList members := by
  rw [Expr.namesList_eq_flatMap, Expr.namesList_eq_flatMap]
  exact Member.flatMap_exprs _ (fun e he => by cases he <;> rfl) h

/-- The names in the target of an element store are those in the array and in the index. -/
theorem names_of_position {target array : Expr Frame} {p : Position}
    (h : target.position? = some (array, p)) :
    target.names = array.names ++ Task.names (.position p) := by
  cases Expr.locates_of_position h with
  | element => rfl
  | field => exact (List.append_nil _).symm

/-! ## Names that instructions refer to -/

/-- The names that the instructions of a code refer to satisfy a condition. -/
def Code.Refers (good : String → Prop) (code : Code) : Prop := ∀ x ∈ code.pick Op.name?, good x

section

variable {good : String → Prop}

namespace Code

/-- Empty code refers to no name. -/
@[simp] theorem refers_nil : Refers good [] := fun _ hx => nomatch hx

/-- An instruction refers to its name and to those of its operands. -/
@[simp] theorem refers_one {op : Op} {operands : List Code} :
    (one op operands).Refers good ↔
      (∀ x ∈ op.name?, good x) ∧ ∀ operand ∈ operands, Refers good operand := by
  simp only [Refers, pick_one, List.mem_append, Option.mem_toList, List.mem_flatMap]
  constructor
  · exact fun h => ⟨fun x hx => h x (.inl hx), fun code hcode x hx => h x (.inr ⟨code, hcode, hx⟩)⟩
  · rintro ⟨hop, hoperands⟩ x (hx | ⟨code, hcode, hx⟩)
    exacts [hop x hx, hoperands code hcode x hx]

/-- Two codes one after another refer to the names of both. -/
@[simp] theorem refers_append_code {first second : Code} :
    Refers good (first ++ second) ↔ first.Refers good ∧ second.Refers good := by
  simp only [Refers, pick_append_code, List.mem_append, or_imp, forall_and]

/-- The gap in front of code does not matter to its names. -/
@[simp] theorem refers_lead {gap : Gap} {code : Code} :
    (code.lead gap).Refers good ↔ code.Refers good := by
  simp only [Refers, pick_lead]

/-- Two codes with a gap between them refer to the names of both. -/
@[simp] theorem refers_append {gap : Gap} {first second : Code} :
    (append gap first second).Refers good ↔ first.Refers good ∧ second.Refers good := by
  simp only [Refers, pick_append, List.mem_append, or_imp, forall_and]

/-- Codes that are joined refer to the names of each one. -/
@[simp] theorem refers_join {gap : Gap} {codes : List Code} :
    (join gap codes).Refers good ↔ ∀ code ∈ codes, Refers good code := by
  induction codes with
  | nil => simp [join]
  | cons code rest ih => simp [join, ih]

/-- Codes one after another refer to the names of each one. -/
@[simp] theorem refers_flatten {codes : List Code} :
    Refers good codes.flatten ↔ ∀ code ∈ codes, Refers good code := by
  induction codes with
  | nil => simp
  | cons code rest ih => simp [ih]

/-- An integer constant refers to no name. -/
@[simp] theorem refers_int {value : Int32} : (int value).Refers good := by
  simp [int, Op.name?]

/-- A floating-point constant refers to no name. -/
@[simp] theorem refers_float {value : Binary64} : (float value).Refers good := by
  simp [float, Op.name?]

/-- A conversion refers to the names of its code. -/
@[simp] theorem refers_apply {coercion : Coercion} {code : Code} :
    (coercion.apply code).Refers good ↔ code.Refers good := by
  cases coercion <;> simp [Coercion.apply, Op.name?]

/-- Reading a variable refers to it. -/
@[simp] theorem refers_read {x : String} {v : Variable} :
    (Emit.read x v).Refers good ↔ good x := by
  unfold Emit.read
  split <;> simp [Op.name?]

/-- Writing a variable refers to it. -/
@[simp] theorem refers_store {x : String} {v : Variable} {code : Code} {kind : Option Kind} :
    (Emit.store x v code kind).Refers good ↔ good x ∧ code.Refers good := by
  unfold Emit.store
  split
  · simp [Op.name?]
    tauto
  · simp [Op.name?]

/-- A test refers to the names of its number. -/
@[simp] theorem refers_testOf {kind : Option Kind} {code : Code} :
    (Emit.testOf kind code).Refers good ↔ code.Refers good := by
  unfold Emit.testOf
  split <;> simp [Op.name?]

/-- The length of an array refers to the names of the array. -/
@[simp] theorem refers_loadLength {code : Code} :
    (Emit.loadLength code).Refers good ↔ code.Refers good := by
  simp [Emit.loadLength, Emit.address, Op.name?]

/-- The store to a slot refers to the names of its number. -/
@[simp] theorem refers_storeSlot {base : UInt32} {slot : Nat} {value : Code} :
    (Emit.storeSlot base slot value).Refers good ↔ value.Refers good := by
  simp [Emit.storeSlot, Emit.address, Op.name?]

/-- A body that is brought to its result refers to its own names. -/
@[simp] theorem refers_fit {header : Emit.Header} {kind : Option Kind} {code : Code} :
    (header.fit kind code).Refers good ↔ code.Refers good := by
  unfold Emit.Header.fit
  split
  · split <;> simp
  · rfl

end Code

/-! ## Names that a run writes -/

/-- The names in the forms and local variables of a state satisfy a condition. -/
structure State.Named (good : String → Prop) (s : State) : Prop where
  /-- The names in the forms written so far. -/
  forms : ∀ form ∈ s.forms, form.Named good
  /-- The names of the local variables. -/
  locals : ∀ v ∈ s.locals, good v.1

namespace State.Named

variable {s t : State}

/-- A state with the same forms and local variables. -/
theorem congr (h : s.Named good) (hforms : t.forms = s.forms) (hlocals : t.locals = s.locals) :
    t.Named good :=
  ⟨fun form hform => h.forms form (hforms ▸ hform), fun v hv => h.locals v (hlocals ▸ hv)⟩

/-- Asking for a library function writes no name. -/
theorem require (h : s.Named good) (snippet : Snippet) : (s.require snippet).Named good :=
  h.congr (by simp) (congrArg Locals.declarations (s.table_require snippet))

/-- Declaring a binding writes its name. -/
theorem declareEntry (h : s.Named good) {entry : Slot × Binding} (hname : good entry.2.name) :
    (s.declareEntry entry).Named good := by
  -- only a variable that is new is declared, as a form or among the local variables
  by_cases hself : entry.2.isVariable = true → entry.1 ∈ s.declared
  · rwa [declareEntry_eq_self hself]
  · obtain ⟨hvariable, hnew⟩ := Classical.not_imp.1 hself
    rw [declareEntry_eq hvariable hnew]
    dsimp only
    split
    · -- a global variable is a new form
      refine ⟨fun form hform => ?_, h.locals⟩
      rcases List.mem_append.1 hform with hform | hform
      · exact h.forms form hform
      · cases List.mem_singleton.1 hform
        exact hname
    · -- a local variable, unless there is one of its name
      refine ⟨h.forms, fun v hv => ?_⟩
      change v ∈ (Locals.add _ _).declarations at hv
      unfold Locals.add at hv
      split at hv
      · exact h.locals v hv
      · rcases List.mem_append.1 hv with hv | hv
        · exact h.locals v hv
        · cases List.mem_singleton.1 hv
          exact hname

/-- Declaring a scope writes names that it binds. -/
theorem declareScope (h : s.Named good) {frame : Frame}
    (hnames : ∀ x ∈ frame.scope.names, good x) : (s.declareScope frame).Named good := by
  have hbindings : ∀ entry ∈ frame.slots, good entry.2.name := fun entry hentry =>
    hnames _ (List.mem_map_of_mem (map_snd_slots frame ▸ List.mem_map_of_mem hentry))
  rw [declareScope_eq]
  generalize frame.slots = entries at hbindings
  induction entries generalizing s with
  | nil => exact h
  | cons entry rest ih =>
    exact ih (h.declareEntry (hbindings entry List.mem_cons_self))
      fun e he => hbindings e (List.mem_cons_of_mem _ he)

/-- A function starts without local variables. -/
theorem beginFunction (h : s.Named good) {header : Emit.Header} (params : List (String × ValType))
    (hnames : ∀ x ∈ header.frame.scope.names, good x) :
    (s.beginFunction header params).Named good := by
  have hstart : State.Named good s.takeLocals.2 := ⟨h.forms, fun v hv => nomatch hv⟩
  refine State.Named.declareScope (hstart.congr ?_ ?_) hnames
  · exact forms_markAll _ _
  · exact congrArg Locals.declarations (table_markAll _ _)

/-- The end of a function writes it. -/
theorem endFunction (h : s.Named good) (header : Emit.Header) {saved : Locals} {f : Func}
    (hsaved : ∀ v ∈ saved.declarations, good v.1) (hf : f.Named good) :
    (s.endFunction header saved f).Named good := by
  refine ⟨fun form hform => ?_, hsaved⟩
  rcases List.mem_append.1 hform with hform | hform
  · exact h.forms form hform
  · cases List.mem_singleton.1 hform
    exact hf

end State.Named

section

attribute [local simp] Op.name?

/-- The names that a run writes are those of its task and of the library. -/
theorem Emits.named (hlibrary : ∀ snippet : Snippet, good snippet.name) {s s' : State} {task : Task}
    {codes : List Code} (h : Emits s task codes s') (htask : ∀ x ∈ task.names, good x)
    (hs : s.Named good) : s'.Named good ∧ ∀ code ∈ codes, Code.Refers good code := by
  -- the code is part of the invariant, since a function is written from the code of its body
  induction h with
  | floatLit | intLit | negInt | negFloat | listNil | argsNil | fixed | membersNil =>
    exact ⟨hs, by simp⟩
  | ident =>
    simp only [Task.names, Expr.names, Node.names, List.forall_mem_append,
      List.forall_mem_singleton] at htask ⊢
    refine ⟨hs, ?_⟩
    split
    · exact Code.refers_nil
    · exact Code.refers_read.2 htask.2
  | statements _ ih | sequence _ ih =>
    simp only [Task.names, Expr.names, Node.names, List.forall_mem_append] at htask
    obtain ⟨hs', hcodes⟩ := ih htask.2 hs
    exact ⟨hs', by simpa using hcodes⟩
  | function _ ih =>
    simp only [Task.names, Expr.names, Node.names, Expr.namesOption_eq] at htask ih
    exact ⟨(ih htask hs).1, by simp⟩
  | @block s _ _ frame _ _ _ _ _ ih =>
    simp only [Task.names, Expr.names, Node.names, List.forall_mem_append, Option.toList_none,
      List.nil_append] at htask ih
    -- entering a block writes nothing by itself
    have hentered : State.Named good (s.enter frame) := hs.congr rfl rfl
    obtain ⟨hs', hcodes⟩ := ih htask.2.2 (hentered.declareScope htask.2.1)
    exact ⟨hs'.congr rfl rfl, hcodes⟩
  | call _ ih =>
    simp only [Task.names, Expr.names, Node.names, List.forall_mem_append,
      List.forall_mem_cons] at htask ih
    obtain ⟨hs', hcodes⟩ := ih htask.2.2 hs
    -- the callee is a name of the task; empty codes of arguments are left out
    refine ⟨hs', List.forall_mem_singleton.2 (Code.refers_one.2 ⟨?_, fun code hcode => ?_⟩)⟩
    · rintro _ ⟨⟩
      exact htask.2.1
    · exact hcodes code (List.mem_filter.1 hcode).1
  | opposite _ _ _ _ ih | difference _ _ _ _ ih =>
    simp only [Task.names, Expr.names, Node.names, List.forall_mem_append, Option.toList_none,
      List.nil_append] at htask ih
    obtain ⟨hs', hcodes⟩ := ih htask.2 hs
    exact ⟨hs', by simpa using hcodes⟩
  | binary _ _ ih | compare _ ih =>
    simp only [Task.names, Expr.names, Node.names, List.forall_mem_append] at htask ih
    exact ih htask.2 hs
  | step _ _ _ ih =>
    simp only [Task.names, Expr.names, Node.names, List.forall_mem_append,
      List.forall_mem_singleton] at htask ih ⊢
    obtain ⟨hs', hcode⟩ := ih ⟨htask.2, List.forall_mem_nil _⟩ hs
    exact ⟨hs', Code.refers_store.2 ⟨htask.2, hcode⟩⟩
  | compound _ _ _ ih =>
    simp only [Task.names, Expr.names, Node.names, List.forall_mem_append,
      List.forall_mem_singleton] at htask ih ⊢
    obtain ⟨hs', hcode⟩ := ih htask.2 hs
    exact ⟨hs', Code.refers_store.2 ⟨htask.2.1, hcode⟩⟩
  | clampInt _ _ _ _ ihv ihh ihl =>
    simp only [Task.names, Expr.names, Node.names, Expr.namesOption, List.forall_mem_append,
      Option.toList_none, List.nil_append, List.forall_mem_singleton] at htask ihv ihh ihl ⊢
    obtain ⟨_, hvalue, hlow, hhigh⟩ := htask
    obtain ⟨hs₁, hv⟩ := ihv hvalue ((hs.require _).require _)
    obtain ⟨hs₂, hh⟩ := ihh hhigh hs₁
    obtain ⟨hs', hl⟩ := ihl hlow hs₂
    exact ⟨hs', by simp [hv, hh, hl, hlibrary]⟩
  | clampFloat _ _ _ _ ihv ihh ihl =>
    simp only [Task.names, Expr.names, Node.names, Expr.namesOption, List.forall_mem_append,
      List.forall_mem_singleton] at htask ihv ihh ihl ⊢
    obtain ⟨_, hvalue, hlow, hhigh⟩ := htask
    obtain ⟨hs₁, hv⟩ := ihv hvalue hs
    obtain ⟨hs₂, hh⟩ := ihh hhigh hs₁
    obtain ⟨hs', hl⟩ := ihl hlow hs₂
    exact ⟨hs', by simp [hv, hh, hl]⟩
  | array hlayout _ _ _ _ ih =>
    simp only [Task.names, Expr.names, Node.names, List.forall_mem_append,
      ← names_of_classified hlayout] at htask ih
    obtain ⟨hs', hcodes⟩ := ih htask.2 (hs.congr rfl rfl)
    exact ⟨hs', by simpa [Emit.arrayOf, Emit.address, or_imp, forall_and] using hcodes⟩
  | length _ _ ih =>
    simp only [Task.names, Expr.names, Node.names, List.forall_mem_append, Option.toList_none,
      List.nil_append, List.forall_mem_singleton] at htask ih ⊢
    obtain ⟨hs', hcode⟩ := ih htask.2.1 hs
    exact ⟨hs', Code.refers_loadLength.2 hcode⟩
  | assignFunction _ _ ih =>
    simp only [Task.names, Expr.names, Node.names, List.forall_mem_append] at htask ih
    exact ih htask.2 hs
  | assignName _ _ _ _ _ _ ih =>
    simp only [Task.names, Expr.names, Node.names, List.forall_mem_append, Option.toList_none,
      List.nil_append, List.forall_mem_singleton] at htask ih ⊢
    obtain ⟨hs', hcode⟩ := ih htask.2.2 hs
    exact ⟨hs', Code.refers_store.2 ⟨htask.2.1, hcode⟩⟩
  | assignPart hp _ _ _ _ _ ihv ihb ihi ihn =>
    simp only [Task.names, Expr.names, Node.names, names_of_position hp, List.forall_mem_append,
      Option.toList_none, List.nil_append, List.forall_mem_singleton] at htask ihv ihb ihi ihn ⊢
    -- the array is compiled twice, from the same names
    obtain ⟨_, ⟨harray, hindex⟩, hvalue⟩ := htask
    obtain ⟨hs₁, hv⟩ := ihv hvalue hs
    obtain ⟨hs₂, hb⟩ := ihb harray (hs₁.require _)
    obtain ⟨hs₃, hi⟩ := ihi hindex hs₂
    obtain ⟨hs', hn⟩ := ihn harray hs₃
    exact ⟨hs', by simp [Emit.writeElement, hv, hb, hi, hn, hlibrary]⟩
  | loop _ _ ihc ihb =>
    simp only [Task.names, Expr.names, Node.names, List.forall_mem_append, Option.toList_none,
      List.nil_append, List.forall_mem_singleton] at htask ihc ihb ⊢
    obtain ⟨hs₁, hcond⟩ := ihc htask.2.1 (hs.congr rfl rfl)
    obtain ⟨hs', hbody⟩ := ihb htask.2.2 hs₁
    exact ⟨hs'.congr rfl rfl, by simp [Emit.loopOf, hcond, hbody]⟩
  | operand _ ih | computed _ ih =>
    simp only [Task.names, Option.toList_none, List.nil_append] at htask ih
    obtain ⟨hs', hcode⟩ := ih htask hs
    exact ⟨hs', by simpa using hcode⟩
  | listCons _ _ ihe ihrest | argsFree _ _ ihe ihrest =>
    simp only [Task.names, Expr.namesList, List.forall_mem_append, Option.toList_none,
      List.nil_append, List.forall_mem_singleton] at htask ihe ihrest
    obtain ⟨hs₁, hcode⟩ := ihe htask.1 hs
    obtain ⟨hs', hcodes⟩ := ihrest htask.2 hs₁
    exact ⟨hs', List.forall_mem_cons.2 ⟨hcode, hcodes⟩⟩
  | argsCons _ _ ihe ihrest =>
    simp only [Task.names, Expr.namesList, List.forall_mem_append,
      List.forall_mem_singleton] at htask ihe ihrest
    obtain ⟨hs₁, hcode⟩ := ihe htask.1 hs
    obtain ⟨hs', hcodes⟩ := ihrest htask.2 hs₁
    exact ⟨hs', List.forall_mem_cons.2 ⟨hcode, hcodes⟩⟩
  | pairInt _ _ _ ihl ihr | pairFloat _ _ _ ihl ihr =>
    simp only [Task.names, List.forall_mem_append, Option.toList_none, List.nil_append,
      List.forall_mem_singleton] at htask ihl ihr ⊢
    obtain ⟨hs₁, hleft⟩ := ihl htask.1 hs
    obtain ⟨hs', hright⟩ := ihr htask.2 hs₁
    exact ⟨hs', by simp [hleft, hright]⟩
  -- the member is an integer literal, which has no names
  | @memberInt _ _ _ _ operand _ _ _ hv _ ih =>
    obtain ⟨⟨node, ty, span⟩, emitted⟩ := operand
    cases hv
    obtain ⟨hs', hcodes⟩ := ih htask hs
    exact ⟨hs', by simpa using hcodes⟩
  | @memberValue _ _ _ _ _ operand rest _ _ _ _ _ ihe ihrest =>
    have hlayout : Expr.namesList (Member.exprs (.value operand :: rest))
        = operand.expr.names ++ Expr.namesList (Member.exprs rest) := rfl
    simp only [Task.names, hlayout, List.forall_mem_append, List.forall_mem_singleton]
      at htask ihe ihrest
    obtain ⟨hs₁, hcode⟩ := ihe htask.1 hs
    obtain ⟨hs', hcodes⟩ := ihrest htask.2 hs₁
    exact ⟨hs', List.forall_mem_cons.2 ⟨Code.refers_storeSlot.2 hcode, hcodes⟩⟩
  | memberInts _ ih =>
    obtain ⟨hs', hcodes⟩ := ih htask hs
    refine ⟨hs', List.forall_mem_append.2 ⟨fun code hcode => ?_, hcodes⟩⟩
    obtain ⟨_, _, rfl⟩ := List.mem_map.1 hcode
    exact Code.refers_storeSlot.2 Code.refers_float
  | memberReserve _ ih => exact ih htask hs
  | @definition s s₁ s₂ header prologue body params first second hparams _ _ ihf ihs =>
    simp only [Task.names, List.forall_mem_cons, List.forall_mem_append, Option.toList_none,
      List.nil_append] at htask ihf ihs
    obtain ⟨hname, hnames, hscope, hprologue, hbody⟩ := htask
    obtain ⟨hs₁, hfirst⟩ := ihf hprologue (hs.beginFunction params hscope)
    obtain ⟨hs₂, hsecond, _⟩ := ihs hbody hs₁
    have hfunc : Func.Named good (header.func params s₂.locals first.flatten
        (header.fit (body.kind s₂.env) second)) := by
      -- the parameters are those of the header, and the code is that of prologue and body
      refine ⟨hname, fun v hv => hnames v.1 ?_, hs₂.locals, ?_⟩
      · rw [← Emit.Header.map_fst_types hparams]
        exact List.mem_map_of_mem hv
      · have hcode : Code.Refers good (Code.lead .newline (Code.join .newline [first.flatten,
            header.fit (body.kind s₂.env) second, .one .ret []])) := by
          simpa using ⟨hfirst, hsecond⟩
        exact hcode
    exact ⟨hs₂.endFunction header hs.locals hfunc, by simp⟩

end

end

end PatchCompiler
