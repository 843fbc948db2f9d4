import PatchCompiler.Proofs.Emission.Derive
import PatchCompiler.Proofs.Emission.Fields

/-! # Kinds that are known in advance

The kind of an expression is often asked for before the blocks in it are entered. One can find it
with a stack of one's own, on which the scopes of such blocks lie while their bodies are looked at
and are searched before those of the state. Main statement: this gives the kind that the expression
has once the compiler has entered these scopes, compiling other expressions meanwhile changes no
kinds, and so an operation inside any number of blocks is compiled to the instruction of the kind
that was found for it from outside. -/

namespace PatchCompiler

/-! ## Looking into blocks -/

/-- A look at an expression: a step on the scopes of the blocks that have been entered on the way,
the innermost one last. -/
abbrev Lookahead := StateM (List Frame)

namespace Lookahead

/-- The variable of a name: the blocks entered come before the scopes of the state. -/
def lookup (s : State) (name : String) : Lookahead (Option Variable) := do
  return ((← get).reverse.findSome? (·.find? name)).or (s.lookup name)

/-- Kind of a variable when it is read. -/
def storedKind (s : State) (name : String) : Lookahead (Option Kind) := do
  return (← lookup s name).map Variable.storedKind

/-- Kind that storing to a target leaves. -/
def targetKind (s : State) : Expr Frame → Lookahead (Option Kind)
  | .mk (.ident name) _ _ => storedKind s name
  | _ => return none

/-- Kind of a result computed from operands; the first one that is no integer decides. -/
def arithmetic : List (Lookahead (Option Kind)) → Lookahead Kind
  | [] => return .int
  | kind :: rest => do
    if (← kind) = some .int then arithmetic rest else return .float

end Lookahead

mutual

/-- Kind of the value of an expression, found with a stack of the blocks that are entered. -/
def Expr.kindAhead (s : State) : Expr Frame → Lookahead (Option Kind)
  | .mk (.intLit _) _ _ => return some .int
  | .mk (.floatLit _) _ _ => return some .float
  | .mk (.ident name) _ _ => Lookahead.storedKind s name
  | .mk _ (some kind) _ => return some kind
  | .mk (.statements items) none _ => Expr.lastKindAhead s items
  | .mk (.sequence items) none _ => Expr.lastKindAhead s items
  | .mk (.function ..) none _ => return some .function
  | .mk (.block body frame) none _ => do
    modify (· ++ [frame])
    let kind ← body.kindAhead s
    modify List.dropLast
    return kind
  | .mk (.neg operand) none _ => operand.kindAhead s
  | .mk (.binary .bitOr _ _) none _ => return none
  | .mk (.binary _ left right) none _ => do
    return some (← Lookahead.arithmetic [left.kindAhead s, right.kindAhead s])
  | .mk (.compare ..) none _ => return some .int
  | .mk (.clamp value (.mk (.range (some low) (some high)) _ _)) none _ => do
    return some
      (← Lookahead.arithmetic [value.kindAhead s, low.kindAhead s, high.kindAhead s])
  | .mk (.clamp ..) none _ => return none
  | .mk (.range ..) none _ => return some .range
  | .mk (.array _) none _ => return some .pointer
  | .mk (.index _ none) none _ => return some .int
  | .mk (.index _ (some _)) none _ => return some .float
  | .mk (.field ..) none _ => return some .float
  | .mk (.assign target value) none _ =>
    if target.isIdent && value.isFunction then return some .function
    else Lookahead.targetKind s target
  | .mk (.step _ target) none _ => Lookahead.targetKind s target
  | .mk (.compound _ target _) none _ => Lookahead.targetKind s target
  | .mk (.call ..) none _ => return none
  | .mk (.loop ..) none _ => return none

/-- Kind of the last expression of a list, found with a stack of the blocks that are entered. -/
def Expr.lastKindAhead (s : State) : List (Expr Frame) → Lookahead (Option Kind)
  | [] => return none
  | [e] => e.kindAhead s
  | _ :: e :: rest => Expr.lastKindAhead s (e :: rest)

end

namespace State

/-- Entering scopes one after another puts them in front of the others. -/
theorem scopes_foldl_enter (s : State) (frames : List Frame) :
    (frames.foldl enter s).scopes = frames.reverse ++ s.scopes := by
  induction frames generalizing s with
  | nil => rfl
  | cons frame rest ih => simp [ih]

end State

namespace Lookahead

variable {α β : Type} {s : State} {frames : List Frame}

/-- A look finds something and leaves the stack as it was. -/
def Finds (x : Lookahead α) (frames : List Frame) (a : α) : Prop := x.run frames = (a, frames)

/-- A result is found without a look at the stack. -/
theorem Finds.pure (a : α) : Finds (pure a) frames a := rfl

/-- Looks in turn find what the last one finds from what the first one found. -/
theorem Finds.bind {x : Lookahead α} {f : α → Lookahead β} {a : α} {b : β} (hx : x.Finds frames a)
    (hf : (f a).Finds frames b) : (x >>= f).Finds frames b := by
  have hrun : (x >>= f).run frames = (f (x.run frames).1).run (x.run frames).2 := rfl
  rw [Finds, hrun, hx]
  exact hf

/-- What a look finds is found as a present value. -/
theorem Finds.present {x : Lookahead α} {a : α} (hx : x.Finds frames a) :
    (do return some (← x) : Lookahead (Option α)).Finds frames (some a) :=
  hx.bind (.pure _)

/-- The blocks entered and the state together bind a name as the state does that has entered
them. -/
theorem finds_lookup (name : String) :
    (lookup s name).Finds frames ((frames.foldl State.enter s).lookup name) := by
  have hlookup : (frames.foldl State.enter s).lookup name
      = (frames.reverse.findSome? (·.find? name)).or (s.lookup name) := by
    unfold State.lookup
    rw [State.scopes_foldl_enter, List.findSome?_append]
  rw [hlookup]
  rfl

/-- The kind of a stored variable is found in the innermost scope that has the name. -/
theorem finds_storedKind (name : String) : (storedKind s name).Finds frames
    (((frames.foldl State.enter s).env name).map Variable.storedKind) :=
  (finds_lookup name).bind (.pure _)

/-- The kind of a target is found from the names in scope. -/
theorem finds_targetKind (target : Expr Frame) :
    (targetKind s target).Finds frames (target.targetKind (frames.foldl State.enter s).env) := by
  obtain ⟨node, ty, span⟩ := target
  cases node with
  | ident name => exact finds_storedKind name
  | _ => exact .pure none

/-- Where to stop looking does not matter for the result. -/
theorem finds_arithmetic {looks : List (Lookahead (Option Kind))} {kinds : List (Option Kind)}
    (h : List.Forall₂ (fun look kind => look.Finds frames kind) looks kinds) :
    (arithmetic looks).Finds frames (.arithmetic kinds) := by
  induction h with
  | nil => exact .pure _
  | @cons look kind looks kinds hlook _ ih =>
    refine hlook.bind ?_
    by_cases hint : kind = some .int
    · rw [if_pos hint]
      have hkinds : Kind.arithmetic (kind :: kinds) = .arithmetic kinds := by
        simp [Kind.arithmetic, hint]
      rw [hkinds]
      exact ih
    · rw [if_neg hint]
      have hkinds : Kind.arithmetic (kind :: kinds) = .float := by
        simp [Kind.arithmetic, hint]
      rw [hkinds]
      exact .pure _

end Lookahead

namespace Expr

open Lookahead

mutual

/-- The kind that is found from outside is the one inside the blocks. -/
theorem finds_kindAhead (s : State) : ∀ (e : Expr Frame) (frames : List Frame),
    (e.kindAhead s).Finds frames (e.kind (frames.foldl State.enter s).env)
  | .mk node (some kind) span, frames => by
    cases node with
    | ident name => exact finds_storedKind name
    | _ => exact .pure _
  | .mk node none span, frames => by
    cases node with
    | ident name => exact finds_storedKind name
    | statements items => exact finds_lastKindAhead s items frames
    | sequence items => exact finds_lastKindAhead s items frames
    | block body frame =>
      -- what lies on the stack above `frames` while the body is looked at is the block's own scope
      have hbody := finds_kindAhead s body (frames ++ [frame])
      have hrun : (kindAhead s (.mk (.block body frame) none span)).run frames
          = (((body.kindAhead s).run (frames ++ [frame])).1,
            ((body.kindAhead s).run (frames ++ [frame])).2.dropLast) := rfl
      have henv : ((frames ++ [frame]).foldl State.enter s).env
          = (frames.foldl State.enter s).env.enter frame := by
        rw [List.foldl_append]
        exact State.env_of_scopes_cons rfl
      rw [Finds, hrun, hbody, List.dropLast_concat, henv]
      rfl
    | neg operand => exact finds_kindAhead s operand frames
    | binary op left right =>
      have hkind := (finds_arithmetic (.cons (finds_kindAhead s left frames)
        (.cons (finds_kindAhead s right frames) .nil))).present
      cases op with
      | bitOr => exact .pure _
      | _ => exact hkind
    | clamp value range =>
      obtain ⟨rangeNode, rangeTy, rangeSpan⟩ := range
      cases rangeNode with
      | range start stop =>
        cases start with
        | none => exact .pure _
        | some low =>
          cases stop with
          | none => exact .pure _
          | some high =>
            exact (finds_arithmetic (.cons (finds_kindAhead s value frames)
              (.cons (finds_kindAhead s low frames)
                (.cons (finds_kindAhead s high frames) .nil)))).present
      | _ => exact .pure _
    | index array index => cases index <;> exact .pure _
    | assign target value =>
      simp only [kindAhead, kind]
      split
      · exact .pure _
      · exact finds_targetKind target
    | step op target => exact finds_targetKind target
    | compound op target value => exact finds_targetKind target
    | _ => exact .pure _

/-- The same for the last expression of a list. -/
theorem finds_lastKindAhead (s : State) : ∀ (es : List (Expr Frame)) (frames : List Frame),
    (lastKindAhead s es).Finds frames (lastKind (frames.foldl State.enter s).env es)
  | [], _ => .pure _
  | [e], frames => finds_kindAhead s e frames
  | _ :: e :: rest, frames => finds_lastKindAhead s (e :: rest) frames

end

end Expr

/-! ## Operations inside blocks -/

/-- What can stand around an expression so that its value is that of the whole: a block, or a list
that ends with the expression. -/
inductive Layer where
  /-- A block. -/
  | block (frame : Frame) (ty : Option Kind) (span : Span)
  /-- Statements, of which those before the last one are given. -/
  | statements (before : List (Expr Frame)) (ty : Option Kind) (span : Span)
  /-- A sequence, of which all but the last expression are given. -/
  | sequence (before : List (Expr Frame)) (ty : Option Kind) (span : Span)

namespace Layer

/-- Put a layer around an expression. -/
def wrap : Layer → Expr Frame → Expr Frame
  | .block frame ty span, e => .mk (.block e frame) ty span
  | .statements before ty span, e => .mk (.statements (before ++ [e])) ty span
  | .sequence before ty span, e => .mk (.sequence (before ++ [e])) ty span

/-- The scope that a layer opens. -/
def frame? : Layer → Option Frame
  | .block frame _ _ => some frame
  | _ => none

/-- The kind recorded for a layer. -/
def ty : Layer → Option Kind
  | .block _ ty _ => ty
  | .statements _ ty _ => ty
  | .sequence _ ty _ => ty

end Layer

/-- Put layers around an expression, the first one outermost. -/
def Expr.inside (e : Expr Frame) (layers : List Layer) : Expr Frame := layers.foldr Layer.wrap e

/-- The instruction that leaves the result of an arithmetic operation or of a clamp with two ends,
for each kind of its operands. There is none for other nodes, and for those with a recorded kind. -/
def Expr.instruction? : Expr Frame → Option (Kind → Op)
  | .mk (.binary op _ _) none _ => (Emit.binaryInstructions? op).map fun ops kind =>
    if kind = .int then .int ops.int else .float ops.float
  | .mk (.clamp _ (.mk (.range (some _) (some _)) _ _)) none _ =>
    some fun kind => if kind = .int then .call Snippet.max.name else .float .max
  | _ => none

/-- Code ends with an instruction. -/
def Code.EndsWith (code : Code) (op : Op) : Prop :=
  ∃ gap operands, code.getLast? = some (gap, .node op operands)

namespace Code.EndsWith

variable {code : Code} {op : Op}

/-- A single instruction ends with itself. -/
theorem one (op : Op) (operands : List Code) : (Code.one op operands).EndsWith op :=
  ⟨.tight, operands, rfl⟩

/-- The gap in front of code does not matter to its end. -/
theorem lead (h : code.EndsWith op) (gap : Gap) : (code.lead gap).EndsWith op := by
  obtain ⟨lastGap, operands, hlast⟩ := h
  cases code with
  | nil => cases hlast
  | cons first rest =>
    cases rest with
    | nil =>
      cases hlast
      exact ⟨gap, operands, rfl⟩
    | cons second rest => exact ⟨lastGap, operands, hlast⟩

/-- The last one of several codes decides. -/
theorem join_concat (h : code.EndsWith op) (gap : Gap) (codes : List Code) :
    (Code.join gap (codes ++ [code])).EndsWith op := by
  induction codes with
  | nil =>
    have hjoin : Code.join gap [code] = code := by
      unfold Code.join Code.join Code.append
      cases code <;> simp [Code.lead]
    rw [List.nil_append, hjoin]
    exact h
  | cons first rest ih =>
    rw [List.cons_append, Code.join]
    unfold Code.append
    split
    · -- a first code that is empty is left out, and so is the gap
      exact ih
    · obtain ⟨lastGap, operands, hlast⟩ := ih.lead gap
      refine ⟨lastGap, operands, ?_⟩
      rw [List.getLast?_append, hlast]
      rfl

end Code.EndsWith

/-- The last expression of a list has the kind of the list. -/
theorem Expr.lastKind_concat (env : Env) (before : List (Expr Frame)) (e : Expr Frame) :
    lastKind env (before ++ [e]) = e.kind env := by
  induction before with
  | nil => rfl
  | cons first rest ih =>
    cases rest with
    | nil => rfl
    | cons second rest => exact ih

namespace Emits

variable {s s' : State} {code : Code} {codes : List Code} {name : Option String}

/-- The last expression of a list is compiled inside the scopes of the list. -/
theorem list_concat {before : List (Expr Frame)} {e : Expr Frame}
    (h : Emits s (.list (before ++ [e])) codes s') :
    ∃ first last s₁, s₁.scopes = s.scopes ∧ Emits s₁ (.expr e none) [last] s' ∧
      codes = first ++ [last] := by
  induction before generalizing s codes with
  | nil =>
    cases h with
    | listCons he hnil =>
      cases hnil
      exact ⟨[], _, s, rfl, he, rfl⟩
  | cons b rest ih =>
    cases h with
    | listCons hb hrest =>
      obtain ⟨first, last, s₁, hscopes, hlast, rfl⟩ := ih hrest
      exact ⟨_ :: first, last, s₁, hscopes.trans hb.scopes_eq, hlast, rfl⟩

/-- An operation is compiled to the instruction of its kind. -/
theorem endsWith_instruction {e : Expr Frame} {instruction : Kind → Op}
    (he : e.instruction? = some instruction) (h : Emits s (.expr e name) [code] s') :
    ∃ kind, (kind = .int ∨ kind = .float) ∧ e.kind s.env = some kind ∧
      code.EndsWith (instruction kind) := by
  obtain ⟨node, ty, span⟩ := e
  cases ty with
  -- a recorded kind would hide that of the operation, so there is no instruction then
  | some kind => cases h <;> cases he
  | none =>
    cases h with
    | @binary _ _ op ops left right _ _ _ _ hops hpair =>
      simp only [Expr.instruction?, hops, Option.map_some, Option.some.injEq] at he
      subst he
      have hkind : (Expr.mk (.binary op left right) none span).kind s.env
          = some (.arithmetic [left.kind s.env, right.kind s.env]) := by
        cases op with
        | bitOr => cases hops
        | _ => rfl
      rw [hkind]
      cases hpair with
      | pairInt hint hl hr =>
        exact ⟨.int, .inl rfl, congrArg some (Kind.arithmetic_of_allInt hint), .one _ _⟩
      | pairFloat hfloat hl hr =>
        exact ⟨.float, .inr rfl, congrArg some (Kind.arithmetic_of_not_allInt hfloat), .one _ _⟩
    | clampInt hint hv hh hl =>
      cases he
      exact ⟨.int, .inl rfl, congrArg some (Kind.arithmetic_of_allInt hint), .one _ _⟩
    | clampFloat hfloat hv hh hl =>
      cases he
      exact ⟨.float, .inr rfl, congrArg some (Kind.arithmetic_of_not_allInt hfloat), .one _ _⟩
    | _ => cases he

/-- Inside layers, an operation is compiled to the instruction of the kind that it has there; from
outside this is the kind of the whole, unless another one is recorded on the way. -/
theorem inside_endsWith {e : Expr Frame} {instruction : Kind → Op}
    (he : e.instruction? = some instruction) {layers : List Layer}
    (h : Emits s (.expr (e.inside layers) name) [code] s') :
    ∃ kind, (kind = .int ∨ kind = .float) ∧
      e.kind ((layers.filterMap Layer.frame?).foldl State.enter s).env = some kind ∧
      ((∀ layer ∈ layers, layer.ty = none) → (e.inside layers).kind s.env = some kind) ∧
      code.EndsWith (instruction kind) := by
  have hscopes {t t' : State} (frames : List Frame) (ht : t.scopes = t'.scopes) :
      (frames.foldl State.enter t).env = (frames.foldl State.enter t').env := by
    refine State.env_eq_of_scopes ?_
    rw [State.scopes_foldl_enter, State.scopes_foldl_enter, ht]
  -- from the outermost layer inwards, since that is the order in which scopes are entered
  induction layers generalizing s s' code name with
  | nil =>
    obtain ⟨kind, hnumber, hkind, hcode⟩ := endsWith_instruction he h
    exact ⟨kind, hnumber, hkind, fun _ => hkind, hcode⟩
  | cons layer layers ih =>
    -- the two lists differ in the gaps only
    have hlist {before : List (Expr Frame)} {codes : List Code} (gap : Gap)
        (hcodes : Emits s (.list (before ++ [e.inside layers])) codes s') :
        ∃ kind, (kind = .int ∨ kind = .float) ∧
          e.kind ((layers.filterMap Layer.frame?).foldl State.enter s).env = some kind ∧
          ((∀ layer ∈ layers, layer.ty = none) →
            Expr.lastKind s.env (before ++ [e.inside layers]) = some kind) ∧
          (Code.join gap codes).EndsWith (instruction kind) := by
      obtain ⟨first, last, s₁, hs₁, hlast, rfl⟩ := hcodes.list_concat
      obtain ⟨kind, hnumber, hinner, houter, hcode⟩ := ih hlast
      rw [hscopes _ hs₁] at hinner
      rw [State.env_eq_of_scopes hs₁] at houter
      rw [Expr.lastKind_concat]
      exact ⟨kind, hnumber, hinner, houter, hcode.join_concat gap first⟩
    cases layer with
    | block frame ty span =>
      cases h with
      | block hbody =>
        obtain ⟨kind, hnumber, hinner, houter, hcode⟩ := ih hbody
        -- declaring the variables of a block opens no further scope
        have hentered : ((s.enter frame).declareScope frame).scopes = (s.enter frame).scopes :=
          State.scopes_declareScope _ _
        rw [hscopes _ hentered] at hinner
        rw [State.env_of_scopes_cons hentered] at houter
        refine ⟨kind, hnumber, hinner, fun hnone => ?_, hcode⟩
        obtain ⟨rfl, hrest⟩ := List.forall_mem_cons.1 hnone
        exact houter hrest
    | statements before ty span =>
      cases h with
      | statements hcodes =>
        obtain ⟨kind, hnumber, hinner, houter, hcode⟩ := hlist .newline hcodes
        refine ⟨kind, hnumber, hinner, fun hnone => ?_, hcode⟩
        obtain ⟨rfl, hrest⟩ := List.forall_mem_cons.1 hnone
        exact houter hrest
    | sequence before ty span =>
      cases h with
      | sequence hcodes =>
        obtain ⟨kind, hnumber, hinner, houter, hcode⟩ := hlist .space hcodes
        refine ⟨kind, hnumber, hinner, fun hnone => ?_, hcode⟩
        obtain ⟨rfl, hrest⟩ := List.forall_mem_cons.1 hnone
        exact houter hrest

end Emits

/-- Kinds are known in advance. Looking at an expression through the scopes of blocks that are not
yet entered gives the kind that it has in the state that has entered them, and leaves the stack of
these scopes as it was. Compiling an expression changes the kind of none. So an arithmetic operation
or a clamp inside blocks and at the end of lists is compiled to the instruction of the kind that is
found for it from outside, which is that of the whole if no kind is recorded on the way. -/
theorem State.kinds_foreseen (s : State) :
    (∀ (e : Expr Frame) (frames : List Frame),
      (e.kindAhead s).run frames = (e.kind (frames.foldl State.enter s).env, frames)) ∧
    (∀ (e x : Expr Frame) (name : Option String) (code : Code) (s' : State),
      x.emit name s = .ok code s' → e.kind s'.env = e.kind s.env) ∧
    (∀ (e : Expr Frame) (instruction : Kind → Op) (layers : List Layer) (name : Option String)
      (code : Code) (s' : State), e.instruction? = some instruction →
      (e.inside layers).emit name s = .ok code s' →
      ∃ kind, (kind = .int ∨ kind = .float) ∧
        ((e.kindAhead s).run (layers.filterMap Layer.frame?)).1 = some kind ∧
        ((∀ layer ∈ layers, layer.ty = none) → (e.inside layers).kind s.env = some kind) ∧
        code.EndsWith (instruction kind)) := by
  refine ⟨fun e frames => Expr.finds_kindAhead s e frames, ?_, ?_⟩
  · intro e x name code s' hx
    have hemits : Emits s (.expr x name) [code] s' := x.emits_of_emit name s code s' hx
    rw [hemits.env_eq]
  · intro e instruction layers name code s' he hcode
    have hemits : Emits s (.expr (e.inside layers) name) [code] s' :=
      (e.inside layers).emits_of_emit name s code s' hcode
    have hfound : (e.kindAhead s).run _ = _ :=
      Expr.finds_kindAhead s e (layers.filterMap Layer.frame?)
    obtain ⟨kind, hnumber, hinner, houter, hends⟩ := hemits.inside_endsWith he
    exact ⟨kind, hnumber, by rw [hfound, hinner], houter, hends⟩

namespace Expr

/-- A block that binds a decimal number `t`, gives it a value and goes on. -/
def rebinding : List Layer :=
  [.block ⟨[0], ⟨[⟨"t", { kind := .float, storage := .localVar }⟩]⟩⟩ none .synthetic,
    .statements [.plain (.assign (.plain (.ident "t")) (.int 2))] none .synthetic]

/-- Inside a scope that binds an integer `t`. -/
def insideInteger : State :=
  State.enter {} ⟨[], ⟨[⟨"t", { kind := .int, storage := .localVar }⟩]⟩⟩

/-- `t + 1` -/
def successor : Expr Frame := .plain (.binary .add (.plain (.ident "t")) (.int 1))

/-- The sum `t + 1` is one of integers, but inside the block it is one of decimal numbers, as is
known before the block is entered. -/
theorem successor_foreseen : successor.kind insideInteger.env = some .int ∧
    (successor.inside rebinding).kind insideInteger.env = some .float ∧
    ∃ code s', (successor.inside rebinding).emit none insideInteger = .ok code s' ∧
      code.EndsWith (.float .add) := by
  obtain ⟨_, _, hinside⟩ := insideInteger.kinds_foreseen
  obtain ⟨kind, _, _, hkind, hcode⟩ := hinside successor _ rebinding none _ _ rfl rfl
  have hfloat : (successor.inside rebinding).kind insideInteger.env = some .float := rfl
  have hnone : ∀ layer ∈ rebinding, layer.ty = none := by simp [rebinding, Layer.ty]
  cases (hkind hnone).symm.trans hfloat
  exact ⟨rfl, hfloat, _, _, rfl, hcode⟩

end Expr

end PatchCompiler
