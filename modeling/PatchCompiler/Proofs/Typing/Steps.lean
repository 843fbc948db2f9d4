import PatchCompiler.Proofs.Typing.Tasks

/-! # One step of the compiler

What each rule of the compiler preserves: if its parts are sound, so is the task that is put together
of them. There is one lemma for each rule with an argument of its own, in the order of the rules. -/

namespace PatchCompiler

open Validation

namespace Task.Sound

variable {s s₁ s₂ s₃ s' : State} {code l r v h b n test content : Code} {codes : List Code}
  {e left right value low high operand array cond body : Expr Frame} {es items : List (Expr Frame)}
  {ty : Option Kind} {span : Span} {name : Option String} {type : ValType}

/-! ## Tasks one after another -/

/-- One task after another, where the second one knows the functions of the first. -/
theorem both {t₁ t₂ : Task} {codes₁ codes₂ : List Code} {w : Setting} {known : List String}
    {c : Context} {again : Bool} (h₁ : Emits s t₁ codes₁ s₁) (h₂ : Emits s₁ t₂ codes₂ s')
    (ih₁ : t₁.Sound codes₁ s s₁) (ih₂ : t₂.Sound codes₂ s₁ s') (hsited : Sited w known c s)
    (hwithin : s'.Within c.interface w.functions) (hallowed₁ : t₁.Allowed w known again)
    (hallowed₂ : t₂.Allowed w ((t₁.outlines w.env false).map Outline.name ++ known) again) :
    t₁.Typed w c codes₁ ∧ t₂.Typed w c codes₂ ∧
      (s.Accepted c.interface → s'.Accepted c.interface) := by
  obtain ⟨htyped₁, haccepted₁⟩ := ih₁ w known c again hsited (hwithin.of_grows h₂.grows) hallowed₁
  obtain ⟨htyped₂, haccepted₂⟩ := ih₂ w _ c again (hsited.after h₁) hwithin hallowed₂
  exact ⟨htyped₁, htyped₂, haccepted₂ ∘ haccepted₁⟩

/-- An expression in front of others. -/
theorem listCons (he : Emits s (.expr e none) [code] s₁) (hes : Emits s₁ (.list es) codes s')
    (ihe : Sound (.expr e none) [code] s s₁) (ihes : Sound (.list es) codes s₁ s') :
    Sound (.list (e :: es)) (code :: codes) s s' := by
  intro w known c again hsited hwithin ⟨hlisted, hregular, hdisciplined⟩
  obtain ⟨hlisted₁, hlisted₂⟩ := List.forall_mem_append.1 hlisted
  obtain ⟨hfirst, hrest, haccepted⟩ := both he hes ihe ihes hsited hwithin
    ⟨hlisted₁, hregular.1, hdisciplined.1⟩
    ⟨hlisted₂, hregular.2, hdisciplined.2⟩
  exact ⟨.cons hfirst hrest, haccepted⟩

/-- An argument in front of others is brought to the type of its parameter. -/
theorem argsCons {types : List ValType} (he : Emits s (.operand e type) [code] s₁)
    (hes : Emits s₁ (.args types es) codes s') (ihe : Sound (.operand e type) [code] s s₁)
    (ihes : Sound (.args types es) codes s₁ s') :
    Sound (.args (type :: types) (e :: es)) (code :: codes) s s' := by
  intro w known c again hsited hwithin ⟨hlisted, hregular, hdisciplined, hoperands⟩
  obtain ⟨hlisted₁, hlisted₂⟩ := List.forall_mem_append.1 hlisted
  -- only the first argument may leave values beneath its own
  obtain ⟨htail, hbeneath⟩ := hoperands.tail
  obtain ⟨⟨beneath, hlength, hpushes⟩, hrest, haccepted⟩ := both he hes ihe ihes hsited hwithin
    ⟨hlisted₁, hregular.1, hdisciplined.1, hoperands.1⟩
    ⟨hlisted₂, hregular.2, hdisciplined.2, htail⟩
  refine ⟨fun htypes => ?_, haccepted⟩
  obtain ⟨⟨others, hothers, hall⟩, hne⟩ := hrest (Nat.succ.inj htypes)
  rw [hbeneath, List.length_eq_zero_iff] at hothers
  rw [hothers, List.append_nil] at hall
  refine ⟨⟨beneath, hlength, ?_⟩, ?_⟩
  · rw [List.reverse_cons, List.append_assoc]
    exact .cons hpushes hall
  · intro other hother
    rcases List.mem_cons.1 hother with rfl | hother
    · exact hpushes.ne_nil
    · exact hne other hother

/-- Arguments beyond the parameters: such a call fits no function. -/
theorem argsFree (he : Emits s (.expr e none) [code] s₁) (hes : Emits s₁ (.args [] es) codes s')
    (ihe : Sound (.expr e none) [code] s s₁) (ihes : Sound (.args [] es) codes s₁ s') :
    Sound (.args [] (e :: es)) (code :: codes) s s' := by
  intro w known c again hsited hwithin ⟨hlisted, hregular, hdisciplined, hoperands⟩
  obtain ⟨hlisted₁, hlisted₂⟩ := List.forall_mem_append.1 hlisted
  obtain ⟨_, _, haccepted⟩ := both he hes ihe ihes hsited hwithin
    ⟨hlisted₁, hregular.1, hdisciplined.1⟩
    ⟨hlisted₂, hregular.2, hdisciplined.2,
      hoperands.tail.1⟩
  exact ⟨fun htypes => absurd htypes (Nat.succ_ne_zero _).symm, haccepted⟩

/-- A value is brought to the machine type that is asked for. -/
theorem operandOf (h : Sound (.expr e none) [code] s s') :
    Sound (.operand e type) [(Coercion.toType type (e.kind s.env)).apply code] s s' := by
  intro w known c again hsited hwithin ⟨hlisted, hregular, hdisciplined, hvalue⟩
  obtain ⟨htyped, haccepted⟩ := h w known c again hsited hwithin ⟨hlisted, hregular, hdisciplined⟩
  refine ⟨?_, haccepted⟩
  obtain ⟨k, beneath, hkind, hlength, hpushes⟩ := Code.Typed.top htyped hvalue
  rw [← hsited.env, hkind]
  exact ⟨beneath, hlength, hpushes.toType type⟩

/-- An operand that leaves a single value. -/
theorem pushes_single {w : Setting} {c : Context} (h : Typed w c (.operand e type) [code])
    (hsingle : e.leaves w = .single) : code.Pushes c [type] := by
  obtain ⟨beneath, hlength, hpushes⟩ := h
  rw [hsingle] at hlength
  rw [List.length_eq_zero_iff.1 hlength] at hpushes
  exact hpushes

/-! ## Arithmetic -/

/-- An operator on two integers. -/
theorem pairInt {ops : Emit.Instructions} (hl : Emits s (.expr left none) [l] s₁)
    (hr : Emits s₁ (.expr right none) [r] s')
    (hall : Kind.allInt [left.kind s.env, right.kind s.env])
    (ihl : Sound (.expr left none) [l] s s₁) (ihr : Sound (.expr right none) [r] s₁ s') :
    Sound (.pair ops left right) [.one (.int ops.int) [l, r]] s s' := by
  intro w known c again hsited hwithin ⟨hlisted, hregular, hleft, hright, hvalue, hsingle⟩
  obtain ⟨hlisted₁, hlisted₂⟩ := List.forall_mem_append.1 hlisted
  obtain ⟨htl, htr, haccepted⟩ := both hl hr ihl ihr hsited hwithin
    ⟨hlisted₁, hregular.1, hleft⟩
    ⟨hlisted₂, hregular.2, hright⟩
  refine ⟨fun _ => ?_, haccepted⟩
  -- both operands have machine type `i32`, because both kinds are that of integers
  rw [← hsited.env] at hall
  obtain ⟨kl, beneath, hkl, hlength, hpl⟩ := Code.Typed.top htl hvalue
  obtain ⟨kr, hkr, hpr⟩ := Code.Typed.single htr (hsingle right List.mem_cons_self)
  cases hkl.symm.trans (hall _ List.mem_cons_self)
  cases hkr.symm.trans (hall _ (List.mem_cons_of_mem _ List.mem_cons_self))
  have hop : (Op.int ops.int).signature? c = some ([.i32, .i32], some .i32) := rfl
  rw [Kind.arithmetic_of_allInt hall, if_pos rfl]
  exact ⟨beneath, hlength, .binary hop hpl hpr⟩

/-- An operator on two numbers that are not both integers. -/
theorem pairFloat {ops : Emit.Instructions} (hl : Emits s (.operand left .f64) [l] s₁)
    (hr : Emits s₁ (.operand right .f64) [r] s')
    (hall : ¬ Kind.allInt [left.kind s.env, right.kind s.env])
    (ihl : Sound (.operand left .f64) [l] s s₁) (ihr : Sound (.operand right .f64) [r] s₁ s') :
    Sound (.pair ops left right) [.one (.float ops.float) [l, r]] s s' := by
  intro w known c again hsited hwithin ⟨hlisted, hregular, hleft, hright, hvalue, hsingle⟩
  obtain ⟨hlisted₁, hlisted₂⟩ := List.forall_mem_append.1 hlisted
  have hone : right.leaves w = .single := hsingle right List.mem_cons_self
  obtain ⟨⟨beneath, hlength, hpl⟩, htr, haccepted⟩ := both hl hr ihl ihr hsited hwithin
    ⟨hlisted₁, hregular.1, hleft, hvalue⟩
    ⟨hlisted₂, hregular.2, hright,
      Leaving.value_of_single hone⟩
  have hpr := pushes_single htr hone
  refine ⟨fun hneg => ?_, haccepted⟩
  rw [← hsited.env] at hall
  have hop : (Op.float ops.float).signature? c
      = some ([.f64, .f64], some ops.float.resultType) := by
    cases hfloat : ops.float <;> first | rfl | exact absurd hfloat hneg
  rw [Kind.arithmetic_of_not_allInt hall, if_neg (by decide)]
  exact ⟨beneath, hlength, .binary hop hpl hpr⟩

/-- Arithmetic operators give a value of the kind of their result. -/
theorem pushes_arithmetic {ops : Emit.Instructions} {w : Setting} {c : Context}
    (hresult : ops.float.resultType = .f64) (hneg : ops.float ≠ .neg)
    (h : Typed w c (.pair ops left right) [code]) :
    ∃ beneath, beneath.length = (left.leaves w).beneath ∧
      code.Pushes c
        ((Kind.arithmetic [left.kind w.env, right.kind w.env]).valType :: beneath) := by
  obtain ⟨beneath, hlength, hpushes⟩ := h hneg
  refine ⟨beneath, hlength, ?_⟩
  -- comparisons are excluded, so the kind of the result fits either branch
  by_cases hall : Kind.allInt [left.kind w.env, right.kind w.env]
  · rw [Kind.arithmetic_of_allInt hall] at hpushes ⊢
    exact hpushes
  · rw [Kind.arithmetic_of_not_allInt hall, if_neg (by decide), hresult] at hpushes
    rw [Kind.arithmetic_of_not_allInt hall]
    exact hpushes

/-- A binary operator is compiled as its pair of instructions. -/
theorem binary {op : BinaryOp} {ops : Emit.Instructions}
    (hops : Emit.binaryInstructions? op = some ops)
    (ih : Sound (.pair ops left right) [code] s s') :
    Sound (.expr (.mk (.binary op left right) ty span) name) [code] s s' := by
  intro w known c again hsited hwithin ⟨hlisted, ⟨hannotated, hregular⟩, hdisciplined⟩
  obtain ⟨htyped, haccepted⟩ := ih w known c again hsited hwithin ⟨hlisted, hregular, hdisciplined⟩
  refine ⟨?_, haccepted⟩
  -- only operators with two operands are among these
  have hresult : ops.float.resultType = .f64 ∧ ops.float ≠ .neg := by
    cases op <;> cases hops <;> exact ⟨rfl, by decide⟩
  obtain ⟨beneath, hlength, hpushes⟩ := pushes_arithmetic hresult.1 hresult.2 htyped
  refine .of_value ((hannotated.kind_eq rfl).trans ?_) hlength hpushes
  cases op with
  | bitOr => cases hops
  | _ => rfl

/-- A comparison is compiled as its pair of instructions. -/
theorem compare {op : CompareOp}
    (ih : Sound (.pair (Emit.compareInstructions op) left right) [code] s s') :
    Sound (.expr (.mk (.compare op left right) ty span) name) [code] s s' := by
  intro w known c again hsited hwithin ⟨hlisted, ⟨hannotated, hregular⟩, hdisciplined⟩
  obtain ⟨htyped, haccepted⟩ := ih w known c again hsited hwithin ⟨hlisted, hregular, hdisciplined⟩
  refine ⟨?_, haccepted⟩
  have hresult : (Emit.compareInstructions op).float.resultType = .i32 ∧
      (Emit.compareInstructions op).float ≠ .neg := by
    cases op <;> exact ⟨rfl, by decide⟩
  obtain ⟨beneath, hlength, hpushes⟩ := htyped hresult.2
  -- a comparison leaves an integer in both cases
  rw [hresult.1, ite_self] at hpushes
  exact Code.Typed.of_value (k := .int) (hannotated.kind_eq rfl) hlength hpushes

/-- A decimal number is negated. -/
theorem opposite (hkind : operand.kind s.env = some .float)
    (ih : Sound (.expr operand none) [code] s s') :
    Sound (.expr (.mk (.neg operand) ty span) name) [.one (.float .neg) [code]] s s' := by
  intro w known c again hsited hwithin ⟨hlisted, ⟨hannotated, hregular⟩, hdisciplined, hvalue, _⟩
  obtain ⟨htyped, haccepted⟩ := ih w known c again hsited hwithin ⟨hlisted, hregular, hdisciplined⟩
  refine ⟨?_, haccepted⟩
  rw [← hsited.env] at hkind
  obtain ⟨k, beneath, hk, hlength, hpushes⟩ := Code.Typed.top htyped hvalue
  cases hk.symm.trans hkind
  have hop : (Op.float .neg).signature? c = some ([.f64], some .f64) := rfl
  exact .of_value ((hannotated.kind_eq rfl).trans hkind) hlength (.unary hop hpushes)

/-- Another number is subtracted from zero. -/
theorem difference (hkind : operand.kind s.env ≠ some .float)
    (ih : Sound (.expr operand none) [code] s s') :
    Sound (.expr (.mk (.neg operand) ty span) name) [.one (.int .sub) [.int 0, code]] s s' := by
  intro w known c again hsited hwithin
    ⟨hlisted, ⟨hannotated, hregular⟩, hdisciplined, hvalue, hbeneath⟩
  obtain ⟨htyped, haccepted⟩ := ih w known c again hsited hwithin ⟨hlisted, hregular, hdisciplined⟩
  refine ⟨?_, haccepted⟩
  rw [← hsited.env] at hkind
  obtain ⟨k, beneath, hk, hlength, hpushes⟩ := Code.Typed.top htyped hvalue
  -- zero is the first operand, so that the number has to be the only value of the second one
  have hnone : beneath = [] := List.length_eq_zero_iff.1 (hlength.trans (hbeneath hkind))
  have htype : k.valType = .i32 := by
    cases k with
    | float => exact absurd hk hkind
    | int | range | pointer | function => rfl
  have hop : (Op.int .sub).signature? c = some ([.i32, .i32], some .i32) := rfl
  rw [htype, hnone] at hpushes
  have hdifference := Code.Pushes.binary hop (.int 0) hpushes
  rw [← htype] at hdifference
  refine .of_value ((hannotated.kind_eq rfl).trans hk) ?_ hdifference
  rw [hbeneath hkind]
  rfl

/-- A number literal that is negated by the compiler. -/
theorem negLit {node : Node Frame} {operandTy : Option Kind} {operandSpan : Span} {k : Kind}
    (hkind : ∀ env, (Expr.mk node operandTy operandSpan).kind env = some k)
    (hleaves : ∀ w, (Expr.mk node operandTy operandSpan).leaves w = .single)
    (hcode : ∀ c, code.Pushes c [k.valType]) :
    Sound (.expr (.mk (.neg (.mk node operandTy operandSpan)) ty span) name) [code] s s := by
  intro w known c again _ _ ⟨_, ⟨hannotated, _⟩, _⟩
  refine ⟨.of_value ((hannotated.kind_eq rfl).trans (hkind _)) ?_ (hcode c), id⟩
  rw [hleaves]
  rfl

/-- A library function that has been asked for can be called. -/
theorem signature_snippet {c : Context} {functions : List Outline} {snippet : Snippet}
    (h : s.Within c.interface functions) (hmem : snippet ∈ s.includes) :
    (Op.call snippet.name).signature? c = some ([.i32, .i32], some .i32) :=
  h.includes snippet hmem

/-- An integer is clamped by calls of the library. -/
theorem clampInt {rangeTy : Option Kind} {rangeSpan : Span}
    (hall : Kind.allInt [value.kind s.env, low.kind s.env, high.kind s.env])
    (hv : Emits ((s.require .max).require .min) (.expr value none) [v] s₁)
    (hh : Emits s₁ (.expr high none) [h] s₂) (hl : Emits s₂ (.expr low none) [l] s')
    (ihv : Sound (.expr value none) [v] ((s.require .max).require .min) s₁)
    (ihh : Sound (.expr high none) [h] s₁ s₂) (ihl : Sound (.expr low none) [l] s₂ s') :
    Sound (.expr (.mk (.clamp value (.mk (.range (some low) (some high)) rangeTy rangeSpan)) ty
      span) name) [.one (.call Snippet.max.name) [.one (.call Snippet.min.name) [v, h], l]] s s' := by
  intro w known c again hsited hwithin
    ⟨hlisted, ⟨hannotated, hrv, _, hrh, hrl⟩, hdv, ⟨hdh, hdl⟩, hvalue, hsingle⟩
  obtain ⟨hlisted₁, hlisted⟩ := List.forall_mem_append.1 hlisted
  obtain ⟨hlisted₂, hlisted₃⟩ := List.forall_mem_append.1 hlisted
  have hsited₀ := (hsited.require .max).require .min
  obtain ⟨htv, hav⟩ := ihv w known c again hsited₀ (hwithin.of_grows (hh.grows.trans hl.grows))
    ⟨hlisted₁, hrv, hdv⟩
  obtain ⟨hth, htl, hahl⟩ := both hh hl ihh ihl (hsited₀.after hv) hwithin
    ⟨hlisted₂, hrh, hdh⟩
    ⟨hlisted₃, hrl, hdl⟩
  refine ⟨?_, fun haccepted => hahl (hav (by simpa [State.Accepted, State.funcs] using haccepted))⟩
  rw [← hsited.env] at hall
  -- what the operands asked for includes what the clamp asked for first
  have hincludes := (hv.grows.trans (hh.grows.trans hl.grows)).includes
  have hmax := signature_snippet hwithin (hincludes ((State.mem_includes_require _).2
    (.inl ((State.mem_includes_require _).2 (.inr rfl)))))
  have hmin := signature_snippet hwithin (hincludes ((State.mem_includes_require _).2 (.inr rfl)))
  obtain ⟨kv, beneath, hkv, hlength, hpv⟩ := Code.Typed.top htv hvalue
  obtain ⟨kh, hkh, hph⟩ := Code.Typed.single hth (hsingle high List.mem_cons_self)
  obtain ⟨kl, hkl, hpl⟩ := Code.Typed.single htl
    (hsingle low (List.mem_cons_of_mem _ List.mem_cons_self))
  cases hkv.symm.trans (hall _ (by simp))
  cases hkh.symm.trans (hall _ (by simp))
  cases hkl.symm.trans (hall _ (by simp))
  refine Code.Typed.of_value (k := .int) ((hannotated.kind_eq rfl).trans ?_) hlength
    (.binary hmax (.binary hmin hpv hph) hpl)
  exact congrArg some (Kind.arithmetic_of_allInt hall)

/-- Another number is clamped by instructions. -/
theorem clampFloat {rangeTy : Option Kind} {rangeSpan : Span}
    (hall : ¬ Kind.allInt [value.kind s.env, low.kind s.env, high.kind s.env])
    (hv : Emits s (.operand value .f64) [v] s₁) (hh : Emits s₁ (.operand high .f64) [h] s₂)
    (hl : Emits s₂ (.operand low .f64) [l] s') (ihv : Sound (.operand value .f64) [v] s s₁)
    (ihh : Sound (.operand high .f64) [h] s₁ s₂) (ihl : Sound (.operand low .f64) [l] s₂ s') :
    Sound (.expr (.mk (.clamp value (.mk (.range (some low) (some high)) rangeTy rangeSpan)) ty
      span) name) [.one (.float .max) [.one (.float .min) [v, h], l]] s s' := by
  intro w known c again hsited hwithin
    ⟨hlisted, ⟨hannotated, hrv, _, hrh, hrl⟩, hdv, ⟨hdh, hdl⟩, hvalue, hsingle⟩
  obtain ⟨hlisted₁, hlisted⟩ := List.forall_mem_append.1 hlisted
  obtain ⟨hlisted₂, hlisted₃⟩ := List.forall_mem_append.1 hlisted
  have hhigh : high.leaves w = .single := hsingle high List.mem_cons_self
  have hlow : low.leaves w = .single :=
    hsingle low (List.mem_cons_of_mem _ List.mem_cons_self)
  obtain ⟨⟨beneath, hlength, hpv⟩, hav⟩ := ihv w known c again hsited
    (hwithin.of_grows (hh.grows.trans hl.grows))
    ⟨hlisted₁, hrv, hdv, hvalue⟩
  obtain ⟨hth, htl, hahl⟩ := both hh hl ihh ihl (hsited.after hv) hwithin
    ⟨hlisted₂, hrh, hdh,
      Leaving.value_of_single hhigh⟩
    ⟨hlisted₃, hrl, hdl,
      Leaving.value_of_single hlow⟩
  have hph := pushes_single hth hhigh
  have hpl := pushes_single htl hlow
  refine ⟨?_, hahl ∘ hav⟩
  rw [← hsited.env] at hall
  have hmin : (Op.float .min).signature? c = some ([.f64, .f64], some .f64) := rfl
  have hmax : (Op.float .max).signature? c = some ([.f64, .f64], some .f64) := rfl
  refine Code.Typed.of_value (k := .float) ((hannotated.kind_eq rfl).trans ?_) hlength
    (.binary hmax (.binary hmin hpv hph) hpl)
  exact congrArg some (Kind.arithmetic_of_not_allInt hall)

/-! ## Lists, blocks and names -/

/-- Statements on lines of their own. -/
theorem statements (ih : Sound (.list items) codes s s') :
    Sound (.expr (.mk (.statements items) ty span) name) [.join .newline codes] s s' := by
  intro w known c again hsited hwithin ⟨hlisted, ⟨hannotated, hregular⟩, hdisciplined⟩
  obtain ⟨htyped, haccepted⟩ := ih w known c again hsited hwithin ⟨hlisted, hregular, hdisciplined⟩
  refine ⟨?_, haccepted⟩
  show Code.Typed c _ ((Expr.mk (.statements items) ty span).kind w.env) _
  rw [hannotated.kind_eq rfl]
  exact Code.typed_join .newline htyped

/-- Statements on one line. -/
theorem sequence (ih : Sound (.list items) codes s s') :
    Sound (.expr (.mk (.sequence items) ty span) name) [.join .space codes] s s' := by
  intro w known c again hsited hwithin ⟨hlisted, ⟨hannotated, hregular⟩, hdisciplined⟩
  obtain ⟨htyped, haccepted⟩ := ih w known c again hsited hwithin ⟨hlisted, hregular, hdisciplined⟩
  refine ⟨?_, haccepted⟩
  show Code.Typed c _ ((Expr.mk (.sequence items) ty span).kind w.env) _
  rw [hannotated.kind_eq rfl]
  exact Code.typed_join .space htyped

/-- A block is compiled inside its scope. -/
theorem block {frame : Frame}
    (ih : Sound (.expr body none) [code] ((s.enter frame).declareScope frame) s') :
    Sound (.expr (.mk (.block body frame) ty span) name) [code] s s'.leave := by
  intro w known c again hsited hwithin ⟨hlisted, ⟨hannotated, hregular⟩, hdisciplined⟩
  obtain ⟨htyped, haccepted⟩ := ih (w.enter frame) known c again (hsited.enter frame)
    ⟨hwithin.includes, hwithin.funcs, hwithin.signatures, hwithin.memory⟩
    ⟨hlisted, hregular, hdisciplined⟩
  refine ⟨?_, fun hall => haccepted fun f hf => hall f ?_⟩
  · show Code.Typed c _ ((Expr.mk (.block body frame) ty span).kind w.env) _
    rw [hannotated.kind_eq rfl]
    exact htyped
  · -- opening a scope writes no function
    rw [State.funcs_declareScope] at hf
    exact hf

/-- A name is read unless it stands for a function. -/
theorem ident {x : String} {v : Variable} (hv : s.lookup x = some v) :
    Sound (.expr (.mk (.ident x) ty span) name)
      [if v.kind = .function then [] else Emit.read x v] s s := by
  intro w known c again hsited hwithin ⟨_, ⟨_, hrefers⟩, _⟩
  have henv : w.env x = some v := by
    rw [hsited.env]
    exact hv
  refine ⟨?_, id⟩
  show Code.Typed c _ ((w.env x).map Variable.storedKind) ⟨0, (w.env x).any (·.kind ≠ .function)⟩
  rw [henv]
  -- the name of a function has no code
  by_cases hfunction : v.kind = .function
  · simp only [hfunction, if_true, Option.any_some, ne_eq, not_true_eq_false, decide_false]
    exact .of_nothing rfl .nil
  · obtain ⟨hrange, hdeclared⟩ := hsited.declares hrefers hv hfunction
    simp only [hfunction, if_false, Option.any_some, ne_eq, not_false_eq_true, decide_true]
    refine Code.Typed.of_value (k := v.storedKind) rfl List.length_nil ?_
    rw [Variable.valType_storedKind hfunction hrange]
    exact .read hdeclared

/-- A call leaves the result of its function. -/
theorem call {callee : String} {args : List (Expr Frame)}
    (hargs : Emits s (.args ((s.signature? callee).getD []) args) codes s')
    (ih : Sound (.args ((s.signature? callee).getD []) args) codes s s') :
    Sound (.expr (.mk (.call callee args) ty span) name)
      [.one (.call callee) (codes.filter (!·.isEmpty))] s s' := by
  intro w known c again hsited hwithin ⟨hlisted, ⟨_, hknown, hfits, hregular⟩, hdisciplined⟩
  obtain ⟨htyped, haccepted⟩ := ih w known c again hsited hwithin ⟨hlisted, hregular, hdisciplined⟩
  refine ⟨?_, haccepted⟩
  obtain ⟨types, hsignature, hlength, result, hop, hresult, hty⟩ :=
    hsited.signature_of_fits (hwithin.of_grows hargs.grows) hknown hfits
  rw [hsignature, Option.getD_some] at htyped
  obtain ⟨⟨beneath, hbeneath, hpushes⟩, hne⟩ := htyped hlength
  -- every argument leaves a value, so none of the codes is empty
  have hfilter : codes.filter (!·.isEmpty) = codes := by
    rw [List.filter_eq_self]
    intro code hcode
    simpa using hne code hcode
  rw [hfilter]
  have hkind : (Expr.mk (.call callee args) ty span).kind w.env = ty := by
    cases ty <;> rfl
  refine ⟨result, beneath, hresult.symm, hbeneath, fun hvalue => ?_, .one hop hpushes⟩
  rw [hkind]
  exact hty (hresult.symm.trans hvalue)

/-! ## Stores -/

/-- A number or an array is stored: its variable is declared and has the kind of the store. -/
theorem stored {w : Setting} {known : List String} {c : Context} {x : String} {v : Variable}
    {kind : Kind} {beneath : List ValType} (hsited : Sited w known c s) (hrefers : w.Refers x)
    (hv : s.lookup x = some v) (hfunction : v.kind ≠ .function)
    (hkind : e.kind w.env = (w.env x).map Variable.storedKind)
    (hpushes : code.Pushes c (kind.valType :: beneath)) :
    Code.Typed c (Emit.store x v code (some kind)) (e.kind w.env) ⟨beneath.length, true⟩ := by
  obtain ⟨hrange, hdeclared⟩ := hsited.declares hrefers hv hfunction
  have henv : w.env x = some v := by
    rw [hsited.env]
    exact hv
  rw [henv] at hkind
  refine .of_value hkind rfl ?_
  rw [Variable.valType_storedKind hfunction hrange]
  exact .store hdeclared hpushes

/-- The code of a compound assignment stores the result of the operator. -/
theorem compoundOf {op : CompoundOp} {x : String} {v : Variable} {targetTy : Option Kind}
    {targetSpan : Span} {w : Setting} {known : List String} {c : Context} (again : Bool)
    (hv : s.lookup x = some v) (hfunction : v.kind ≠ .function) (hsited : Sited w known c s)
    (hwithin : s'.Within c.interface w.functions)
    (hkind : e.kind w.env = (w.env x).map Variable.storedKind)
    (hlisted : ∀ o ∈ value.outlines w.env again none, o ∈ w.functions)
    (htarget : (Expr.mk (.ident x) targetTy targetSpan).Regular w known none)
    (hregular : value.Regular w known none) (hdisciplined : value.Disciplined w)
    (hsingle : value.leaves w = .single)
    (ih : Sound (.pair (Emit.compoundInstructions op) (.mk (.ident x) targetTy targetSpan) value)
      [code] s s') :
    Code.Typed c (Emit.store x v code (some (.arithmetic [v.storedKind, value.kind s.env])))
        (e.kind w.env) .single ∧
      (s.Accepted c.interface → s'.Accepted c.interface) := by
  have henv : w.env x = some v := by
    rw [hsited.env]
    exact hv
  -- the variable is the first operand, and reading it leaves a single value
  have hvalue : (Expr.leaves w (.mk (.ident x) targetTy targetSpan)).value = true := by
    simp [Expr.leaves, henv, hfunction]
  obtain ⟨htyped, haccepted⟩ := ih w known c again hsited hwithin
    ⟨hlisted, ⟨htarget, hregular⟩, trivial, hdisciplined, hvalue, by simpa using hsingle⟩
  refine ⟨?_, haccepted⟩
  have hresult : (Emit.compoundInstructions op).float.resultType = .f64 ∧
      (Emit.compoundInstructions op).float ≠ .neg := by
    cases op <;> exact ⟨rfl, by decide⟩
  obtain ⟨beneath, hlength, hpushes⟩ := pushes_arithmetic hresult.1 hresult.2 htyped
  have hstored : (Expr.mk (.ident x) targetTy targetSpan).kind w.env = some v.storedKind := by
    show (w.env x).map Variable.storedKind = _
    rw [henv]
    rfl
  rw [hstored] at hpushes
  have htypes := stored hsited htarget.2 hv hfunction hkind hpushes
  rw [hlength] at htypes
  rw [← hsited.env]
  exact htypes

/-- A variable is counted up or down. -/
theorem step {op : StepOp} {x : String} {v : Variable} {targetTy : Option Kind} {targetSpan : Span}
    (hv : s.lookup x = some v) (hfunction : v.kind ≠ .function)
    (ih : Sound (.pair (Emit.compoundInstructions op.compound)
      (.mk (.ident x) targetTy targetSpan) (.int 1)) [code] s s') :
    Sound (.expr (.mk (.step op (.mk (.ident x) targetTy targetSpan)) ty span) name)
      [Emit.store x v code (some (.arithmetic [v.storedKind, some .int]))] s s' := by
  intro w known c again hsited hwithin ⟨_, ⟨hannotated, hregular⟩, _⟩
  have hone : (Expr.int 1 : Expr Frame).Regular w known none := ⟨fun _ _ h => h, trivial⟩
  have hlisted : ∀ o ∈ (Expr.int 1 : Expr Frame).outlines w.env again none, o ∈ w.functions :=
    fun _ ho => absurd ho List.not_mem_nil
  have hkind : (Expr.mk (.step op (.mk (.ident x) targetTy targetSpan)) ty span).kind w.env
      = (w.env x).map Variable.storedKind := hannotated.kind_eq rfl
  have htyped := compoundOf again hv hfunction hsited hwithin hkind hlisted hregular hone trivial
    rfl ih
  exact htyped

/-- A variable is combined with a number. -/
theorem compound {op : CompoundOp} {x : String} {v : Variable} {targetTy : Option Kind}
    {targetSpan : Span} (hv : s.lookup x = some v) (hfunction : v.kind ≠ .function)
    (ih : Sound (.pair (Emit.compoundInstructions op) (.mk (.ident x) targetTy targetSpan) value)
      [code] s s') :
    Sound (.expr (.mk (.compound op (.mk (.ident x) targetTy targetSpan) value) ty span) name)
      [Emit.store x v code (some (.arithmetic [v.storedKind, value.kind s.env]))] s s' := by
  intro w known c again hsited hwithin
    ⟨hlisted, ⟨hannotated, htarget, hregular⟩, hdisciplined, hsingle⟩
  exact compoundOf again hv hfunction hsited hwithin (hannotated.kind_eq rfl) hlisted htarget
    hregular hdisciplined hsingle ih

/-- A number is assigned to a variable. -/
theorem assignName {x : String} {v : Variable} {targetTy : Option Kind} {targetSpan : Span}
    {kind : Kind} (hf : value.isFunction = false) (hv : s.lookup x = some v)
    (hfunction : v.kind ≠ .function) (hkind : value.kind s.env = some kind)
    (ih : Sound (.expr value none) [code] s s') :
    Sound (.expr (.mk (.assign (.mk (.ident x) targetTy targetSpan) value) ty span) name)
      [Emit.store x v code (some kind)] s s' := by
  intro w known c again hsited hwithin
    ⟨hlisted, ⟨hannotated, hregular, _, hrefers⟩, _, hdisciplined, hvalue, _⟩
  simp only [Task.outlines, Expr.outlines, hf, Bool.false_eq_true, if_false] at hlisted
  simp only [hf, Bool.false_eq_true, if_false] at hregular
  obtain ⟨htyped, haccepted⟩ := ih w known c again hsited hwithin ⟨hlisted, hregular, hdisciplined⟩
  refine ⟨?_, haccepted⟩
  obtain ⟨k, beneath, hk, hlength, hpushes⟩ := Code.Typed.top htyped (hvalue hf)
  rw [hsited.env] at hk
  cases hk.symm.trans hkind
  have hstored := stored (e := .mk (.assign (.mk (.ident x) targetTy targetSpan) value) ty span)
    hsited hrefers hv hfunction
    ((hannotated.kind_eq rfl).trans (by simp [Expr.kind, hf, Expr.targetKind])) hpushes
  rw [hlength] at hstored
  show Code.Typed c _ _ (Expr.leaves w _)
  simp only [Expr.leaves, hf, Bool.false_eq_true, if_false]
  exact hstored

/-- A function is given a name. -/
theorem assignFunction {x : String} {targetTy : Option Kind} {targetSpan : Span}
    (hf : value.isFunction = true) (ih : Sound (.expr value (some x)) [code] s s') :
    Sound (.expr (.mk (.assign (.mk (.ident x) targetTy targetSpan) value) ty span) name)
      [code] s s' := by
  intro w known c again hsited hwithin ⟨hlisted, ⟨_, hregular, _⟩, _, hdisciplined, _⟩
  simp only [Task.outlines, Expr.outlines, hf, if_true] at hlisted
  simp only [hf, if_true] at hregular
  obtain ⟨htyped, haccepted⟩ := ih w known c again hsited hwithin ⟨hlisted, hregular, hdisciplined⟩
  refine ⟨?_, haccepted⟩
  -- a function is written elsewhere, so that the assignment has no code
  obtain ⟨types, hcount, hpushes⟩ := Code.Typed.pushes htyped
  show Code.Typed c _ _ (Expr.leaves w _)
  simp only [Expr.leaves, hf, if_true]
  refine .of_nothing ?_ hpushes
  obtain ⟨node, valueTy, valueSpan⟩ := value
  cases node with
  | function => exact hcount
  | _ => cases hf

/-! ## Arrays -/

/-- The length of an array is loaded. -/
theorem length (hkind : array.kind s.env = some .pointer)
    (ih : Sound (.expr array none) [code] s s') :
    Sound (.expr (.mk (.index array none) ty span) name) [Emit.loadLength code] s s' := by
  intro w known c again hsited hwithin
    ⟨hlisted, ⟨hannotated, hregular, _⟩, hmemory, hdisciplined, _, hvalue⟩
  obtain ⟨htyped, haccepted⟩ := ih w known c again hsited hwithin ⟨hlisted, hregular, hdisciplined⟩
  refine ⟨?_, haccepted⟩
  rw [← hsited.env] at hkind
  obtain ⟨k, beneath, hk, hlength, hpushes⟩ := Code.Typed.top htyped hvalue
  cases hk.symm.trans hkind
  exact Code.Typed.of_value (k := .int) (hannotated.kind_eq rfl) hlength
    (.loadLength (hsited.memory.trans hmemory) hpushes)

/-- A number in front of other members is stored. -/
theorem memberValue {base : UInt32} {slot : Nat} {operand : Operand} {rest : List Member}
    (he : Emits s (.operand operand.expr .f64) [code] s₁)
    (hrest : Emits s₁ (.members base (slot + 1) rest) codes s')
    (ihe : Sound (.operand operand.expr .f64) [code] s s₁)
    (ihrest : Sound (.members base (slot + 1) rest) codes s₁ s') :
    Sound (.members base slot (.value operand :: rest))
      (Emit.storeSlot base slot code :: codes) s s' := by
  intro w known c again hsited hwithin ⟨hlisted, hregular, hdisciplined, hsingle⟩
  obtain ⟨hlisted₁, hlisted₂⟩ := List.forall_mem_append.1 hlisted
  have hone : operand.expr.leaves w = .single := hsingle operand.expr List.mem_cons_self
  obtain ⟨htyped, hothers, haccepted⟩ := both he hrest ihe ihrest hsited hwithin
    ⟨hlisted₁, hregular.1, hdisciplined.1,
      Leaving.value_of_single hone⟩
    ⟨hlisted₂, hregular.2, hdisciplined.2,
      fun e he => hsingle e (List.mem_cons_of_mem _ he)⟩
  refine ⟨fun hmemory => List.forall_mem_cons.2 ⟨?_, hothers hmemory⟩, haccepted⟩
  exact .storeFloat hmemory (.address _) (pushes_single htyped hone)

/-- An integer literal in front of other members is stored. -/
theorem memberInt {base : UInt32} {slot : Nat} {operand : Operand} {rest : List Member}
    {value : Int32} (hv : operand.expr.node = .intLit value)
    (ih : Sound (.members base (slot + 1) rest) codes s s') :
    Sound (.members base slot (.value operand :: rest))
      (Emit.storeSlot base slot (.float (.ofInt32 value)) :: codes) s s' := by
  intro w known c again hsited hwithin ⟨hlisted, hregular, hdisciplined, hsingle⟩
  obtain ⟨_, hlisted₂⟩ := List.forall_mem_append.1 hlisted
  -- a literal defines no function, so the rest knows what was known before
  have hdefines : operand.expr.outlines w.env false none = [] := by
    obtain ⟨⟨node, ty, span⟩, emitted⟩ := operand
    cases hv
    rfl
  have hregular := hregular.2
  rw [Expr.defines, hdefines] at hregular
  obtain ⟨hothers, haccepted⟩ := ih w known c again hsited hwithin
    ⟨hlisted₂, hregular, hdisciplined.2,
      fun e he => hsingle e (List.mem_cons_of_mem _ he)⟩
  refine ⟨fun hmemory => List.forall_mem_cons.2 ⟨?_, hothers hmemory⟩, haccepted⟩
  exact .storeFloat hmemory (.address _) (.float _)

/-- The integers of a range in front of other members are stored. -/
theorem memberInts {base : UInt32} {slot : Nat} {first last : Int32} {rest : List Member}
    (ih : Sound (.members base (slot + (Member.intRange first last).length) rest) codes s s') :
    Sound (.members base slot (.ints first last :: rest))
      ((Member.intRange first last).zipIdx.map (fun (value, i) =>
        Emit.storeSlot base (slot + i) (.float (.ofInt32 value))) ++ codes) s s' := by
  intro w known c again hsited hwithin ⟨hlisted, hregular, hdisciplined⟩
  obtain ⟨hothers, haccepted⟩ :=
    ih w known c again hsited hwithin ⟨hlisted, hregular, hdisciplined⟩
  refine ⟨fun hmemory code hcode => ?_, haccepted⟩
  rcases List.mem_append.1 hcode with hcode | hcode
  · obtain ⟨entry, _, rfl⟩ := List.mem_map.1 hcode
    exact .storeFloat hmemory (.address _) (.float _)
  · exact hothers hmemory code hcode

/-- An array literal leaves its address. -/
theorem arrayLit {members : List (Expr Frame)} {layout : List Member} {base : UInt32}
    {arena₁ arena₂ : Arena}
    (hlayout : List.Forall₂ (fun e m => Member.ofOperand (e.kind s.env) ⟨e, e.emit⟩ = .ok m)
      members layout)
    (hopen : s.arena.openArray = .ok (base, arena₁))
    (hadvance : arena₁.advance (.ofNat (Member.total layout)) = .ok arena₂)
    (hmembers : Emits ({ s with arena := arena₂ }.record
      (.array span base (.ofNat (Member.total layout)))) (.members base 0 layout) codes s')
    (ih : Sound (.members base 0 layout) codes ({ s with arena := arena₂ }.record
      (.array span base (.ofNat (Member.total layout)))) s') :
    Sound (.expr (.mk (.array members) ty span) name)
      [Emit.arrayOf base (Member.total layout) codes] s s' := by
  intro w known c again hsited hwithin
    ⟨hlisted, ⟨hannotated, hregular⟩, hdisciplined, hsingle⟩
  rw [← hsited.env] at hlayout
  have hlisted : ∀ o ∈ Expr.outlinesList w.env again (Member.exprs layout), o ∈ w.functions := by
    rw [outlines_of_classified _ _ hlayout]
    exact hlisted
  obtain ⟨htyped, haccepted⟩ := ih w known c again (hsited.later rfl (List.Subset.refl _)) hwithin
    ⟨hlisted, regularList_of_classified hlayout hregular,
      disciplinedList_of_classified hlayout hdisciplined hsingle⟩
  -- the array itself takes memory, also if it has no members
  have hmemory : c.interface.memory = true :=
    hwithin.memory (hmembers.grows.memory (Arena.cursor_ne_zero hopen hadvance))
  refine ⟨?_, haccepted⟩
  exact Code.Typed.of_value (k := .pointer) (hannotated.kind_eq rfl) List.length_nil
    (.arrayOf hmemory _ _ (htyped hmemory))

/-- An index is brought to an integer. -/
theorem computed {index : Expr Frame} (ih : Sound (.operand index .i32) [code] s s') :
    Sound (.position (.computed index)) [code] s s' := by
  intro w known c again hsited hwithin ⟨hlisted, hregular, hdisciplined, hsingle⟩
  obtain ⟨htyped, haccepted⟩ := ih w known c again hsited hwithin
    ⟨hlisted, hregular, hdisciplined, Leaving.value_of_single hsingle⟩
  exact ⟨pushes_single htyped hsingle, haccepted⟩

/-- A number is assigned to an array element. -/
theorem assignPart {target : Expr Frame} {p : Position} {i : Code}
    (hp : target.position? = some (array, p)) (hv : Emits s (.operand value .f64) [v] s₁)
    (hb : Emits (s₁.require .index) (.expr array none) [b] s₂)
    (hi : Emits s₂ (.position p) [i] s₃) (hkind : array.kind s₃.env = some .pointer)
    (hn : Emits s₃ (.expr array none) [n] s') (ihv : Sound (.operand value .f64) [v] s s₁)
    (ihb : Sound (.expr array none) [b] (s₁.require .index) s₂)
    (ihi : Sound (.position p) [i] s₂ s₃) (ihn : Sound (.expr array none) [n] s₃ s') :
    Sound (.expr (.mk (.assign target value) ty span) name) [Emit.writeElement b i n v] s s' := by
  intro w known c again hsited hwithin ⟨hlisted, hregular, hdisciplined⟩
  obtain ⟨hrv, hra, hrp⟩ := regular_of_position hp hregular
  obtain ⟨hmemory, ⟨hdv, hsv⟩, ⟨hda, hsa⟩, hdp, hleaves⟩ :=
    disciplined_of_position hp hdisciplined
  have hlisted : ∀ o ∈ value.outlines w.env again none ++ (array.outlines w.env again none
      ++ (Task.outlines w.env again (.position p) ++ array.outlines w.env true none)),
      o ∈ w.functions := by
    rw [← @outlines_of_position target array value p ty span w.env again name hp]
    exact hlisted
  -- what goes into the module at the end was on its way at each step before
  have hwithin₃ := hwithin.of_grows hn.grows
  have hwithin₂ := hwithin₃.of_grows hi.grows
  have hgrows := (State.Grows.require s₁ .index).trans hb.grows
  have hsited₁ := (hsited.after hv).require .index
  have hsited₃ := hsited₁.later (hi.env_eq.trans hb.env_eq)
    (hb.grows.trans hi.grows).signatures
  obtain ⟨htv, hav⟩ := ihv w known c again hsited (hwithin₂.of_grows hgrows)
    ⟨fun o ho => hlisted o (List.mem_append_left _ ho), hrv, hdv, Leaving.value_of_single hsv⟩
  have hlisted := fun o ho => hlisted o (List.mem_append_right _ ho)
  obtain ⟨htb, hti, habi⟩ := both hb hi ihb ihi hsited₁ hwithin₃
    ⟨fun o ho => hlisted o (List.mem_append_left _ ho), hra, hda⟩
    ⟨fun o ho => hlisted o (List.mem_append_right _ (List.mem_append_left _ ho)), hrp, hdp⟩
  -- the second run of the array knows what the first one did
  obtain ⟨htn, han⟩ := ihn w _ c true hsited₃ hwithin
    ⟨fun o ho => hlisted o (List.mem_append_right _ (List.mem_append_right _ ho)), hra, hda⟩
  refine ⟨?_, fun haccepted => han (habi ?_)⟩
  · rw [← hsited₃.env] at hkind
    obtain ⟨kb, hkb, hpb⟩ := Code.Typed.single htb hsa
    obtain ⟨kn, hkn, hpn⟩ := Code.Typed.single htn hsa
    cases hkb.symm.trans hkind
    cases hkn.symm.trans hkind
    have hsnippet := signature_snippet hwithin (hn.grows.includes (hi.grows.includes
      (hb.grows.includes ((State.mem_includes_require _).2 (.inr rfl)))))
    show Code.Typed c _ _ (Expr.leaves w _)
    rw [hleaves]
    exact .of_nothing List.length_nil (.writeElement (hsited.memory.trans hmemory) hsnippet hpb hti hpn
      (pushes_single htv hsv))
  · simpa [State.Accepted, State.funcs] using hav haccepted

/-! ## Loops and functions -/

/-- A loop leaves nothing. -/
theorem loop (hc : Emits s.enterLoop (.expr cond none) [test] s₁)
    (hb : Emits s₁ (.expr body none) [content] s₂)
    (ihc : Sound (.expr cond none) [test] s.enterLoop s₁)
    (ihb : Sound (.expr body none) [content] s₁ s₂) :
    Sound (.expr (.mk (.loop cond body) ty span) name)
      [Emit.loopOf (s.loopDepth + 1) (Emit.testOf (cond.kind s₁.env) test) content] s
      s₂.exitLoop := by
  intro w known c again hsited hwithin
    ⟨hlisted, ⟨_, hrc, hrb⟩, hdc, hdb, hsingle⟩
  obtain ⟨hlisted₁, hlisted₂⟩ := List.forall_mem_append.1 hlisted
  have hinner := hsited.enterLoop (s.loopDepth + 1)
  obtain ⟨htc, htb, haccepted⟩ := both hc hb ihc ihb hinner
    ⟨hwithin.includes, hwithin.funcs, hwithin.signatures, hwithin.memory⟩
    ⟨hlisted₁, hrc, hdc⟩
    ⟨hlisted₂, hrb, hdb⟩
  refine ⟨?_, haccepted⟩
  -- only the test decides on the type; what the body leaves is dropped
  obtain ⟨k, hk, htest⟩ := Code.Typed.single htc hsingle
  obtain ⟨types, _, hcontent⟩ := Code.Typed.pushes htb
  rw [(hinner.after hc).env] at hk
  rw [hk]
  exact .of_nothing List.length_nil (.loopOf htest.testOf hcontent)

/-- A function definition leaves nothing. -/
theorem function {params : List String} {result : Option Kind} {prologue : Option (Expr Frame)}
    {frame : Frame} {x : String}
    (ih : Sound (.definition ⟨x, params, result, frame, span, .function⟩ prologue body) [] s s') :
    Sound (.expr (.mk (.function params result prologue body frame) ty span) (some x)) [[]] s s' := by
  intro w known c again hsited hwithin
    ⟨hlisted, ⟨_, hprologue, hbody⟩, hdprologue, hdbody, hresult⟩
  simp only [Task.outlines, Expr.outlines, Expr.outlinesOption_eq] at hlisted
  rw [Expr.outlinesOption_eq] at hbody
  have hregular : Expr.RegularList (w.inside params frame prologue body) (x :: known)
      prologue.toList := by
    cases prologue with
    | none => exact trivial
    | some e => exact ⟨hprologue, trivial⟩
  have hdisciplined : Expr.DisciplinedList (w.inside params frame prologue body)
      prologue.toList := by
    cases prologue with
    | none => exact trivial
    | some e => exact ⟨hdprologue, trivial⟩
  obtain ⟨_, haccepted⟩ := ih w known c again hsited hwithin
    ⟨hlisted, ⟨hregular, hbody⟩, hdisciplined, hdbody, hresult⟩
  exact ⟨.of_nothing List.length_nil .nil, haccepted⟩

/-- A function is written whose code leads to its result. -/
theorem definition {header : Emit.Header} {prologue : Option (Expr Frame)}
    {params : List (String × ValType)} {first : List Code} {second : Code}
    (hf : Emits (s.beginFunction header params) (.list prologue.toList) first s₁)
    (hs : Emits s₁ (.expr body none) [second] s₂)
    (ihf : Sound (.list prologue.toList) first (s.beginFunction header params) s₁)
    (ihs : Sound (.expr body none) [second] s₁ s₂) :
    Sound (.definition header prologue body) [] s
      (s₂.endFunction header s.table
        (header.func params s₂.locals first.flatten (header.fit (body.kind s₂.env) second))) := by
  intro w known c again hsited hwithin
    ⟨hlisted, ⟨hrprologue, hrbody⟩, hdprologue, hdbody, hresult⟩
  refine ⟨trivial, fun haccepted => ?_⟩
  -- the function is one of the program, so that its code may refer to what the program lets it
  obtain ⟨hlocals, hnodup⟩ := hsited.linked.context_eq
    (hlisted _ (List.mem_append_right _ (List.mem_append_right _ List.mem_cons_self)))
    (hwithin.funcs (header.func params s₂.locals first.flatten
      (header.fit (body.kind s₂.env) second)) (by rw [State.funcs_endFunction]; simp)) rfl
  have hinner := hsited.inside params hlocals hnodup
  have hwithin₂ : s₂.Within c.interface w.functions := hwithin.of_grows (.endFunction ..)
  obtain ⟨htf, hts, hall⟩ := both hf hs ihf ihs hinner hwithin₂
    ⟨fun o ho => hlisted o (List.mem_append_left _ ho), hrprologue, hdprologue⟩
    ⟨fun o ho => hlisted o (List.mem_append_right _ (List.mem_append_left _ ho)), hrbody, hdbody⟩
  obtain ⟨types, hfirst⟩ := Code.pushes_flatten htf
  have henv : (w.inside header.params header.frame prologue body).env = s₂.env :=
    ((hinner.after hf).after hs).env
  rw [Task.Typed, henv] at hts
  intro f hmem
  rw [State.funcs_endFunction] at hmem
  -- the functions up to the end of the body, and then the function itself
  rcases List.mem_append.1 hmem with hmem | hmem
  · refine hall (fun f hf => haccepted f ?_) f hmem
    rwa [State.funcs_beginFunction] at hf
  · rw [List.mem_singleton.1 hmem]
    exact Emit.Header.accepted_func hnodup hfirst hts hresult

end Task.Sound

end PatchCompiler
