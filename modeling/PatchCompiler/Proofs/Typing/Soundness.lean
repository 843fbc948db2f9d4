import PatchCompiler.Proofs.Linkage.Library
import PatchCompiler.Proofs.Typing.Exactness
import PatchCompiler.Proofs.Typing.Steps

/-! # Compiled modules are accepted

Main statement: a module that is compiled from a regular program is valid exactly if the program is
well typed, and it is so if the program is disciplined: the code that the compiler gives for an
expression then has the type of the kind that the compiler infers for it, at every node and in every
function. That the program is regular does not suffice: operands that leave more than one value make
the compiler write instructions on values of the wrong types. -/

namespace PatchCompiler

open Validation

/-- Codes have the types that belong to their task, wherever the task is allowed. -/
theorem Emits.sound {s s' : State} {task : Task} {codes : List Code} (h : Emits s task codes s') :
    task.Sound codes s s' := by
  induction h with
  | statements _ ih => exact .statements ih
  | sequence _ ih => exact .sequence ih
  | floatLit => exact fun _ _ _ _ _ _ _ => ⟨.of_value rfl rfl (.float _), id⟩
  | intLit => exact fun _ _ _ _ _ _ _ => ⟨.of_value rfl rfl (.int _), id⟩
  | ident hv => exact .ident hv
  | function _ ih => exact .function ih
  | block _ ih => exact .block ih
  | call hargs ih => exact .call hargs ih
  | negInt => exact .negLit (k := .int) (fun _ => rfl) (fun _ => rfl) (fun _ => .int _)
  | negFloat => exact .negLit (k := .float) (fun _ => rfl) (fun _ => rfl) (fun _ => .float _)
  | opposite _ _ hkind _ ih => exact .opposite hkind ih
  | difference _ _ hkind _ ih => exact .difference hkind ih
  | binary hops _ ih => exact .binary hops ih
  | compare _ ih => exact .compare ih
  | step hv hfunction _ ih => exact .step hv hfunction ih
  | compound hv hfunction _ ih => exact .compound hv hfunction ih
  | clampInt hall hv hh hl ihv ihh ihl => exact .clampInt hall hv hh hl ihv ihh ihl
  | clampFloat hall hv hh hl ihv ihh ihl => exact .clampFloat hall hv hh hl ihv ihh ihl
  | array hlayout _ hopen hadvance hmembers ih => exact .arrayLit hlayout hopen hadvance hmembers ih
  | length hkind _ ih => exact .length hkind ih
  | assignFunction hf _ ih => exact .assignFunction hf ih
  | assignName hf hv hfunction hkind _ _ ih => exact .assignName hf hv hfunction hkind ih
  | assignPart hp hv hb hi hkind hn ihv ihb ihi ihn =>
    exact .assignPart hp hv hb hi hkind hn ihv ihb ihi ihn
  | loop hcond hbody ihcond ihbody => exact .loop hcond hbody ihcond ihbody
  | operand _ ih => exact .operandOf ih
  | listNil => exact fun _ _ _ _ _ _ _ => ⟨.nil, id⟩
  | listCons he hes ihe ihes => exact .listCons he hes ihe ihes
  | argsNil =>
    intro w known c again _ _ _
    refine ⟨fun hlength => ⟨⟨[], rfl, ?_⟩, by simp⟩, id⟩
    rw [List.length_eq_zero_iff.1 hlength]
    exact .nil
  | argsFree he hes ihe ihes => exact .argsFree he hes ihe ihes
  | argsCons he hes ihe ihes => exact .argsCons he hes ihe ihes
  | pairInt hall hl hr ihl ihr => exact .pairInt hl hr hall ihl ihr
  | pairFloat hall hl hr ihl ihr => exact .pairFloat hl hr hall ihl ihr
  | computed _ ih => exact .computed ih
  | fixed => exact fun _ _ _ _ _ _ _ => ⟨.int _, id⟩
  | membersNil => exact fun _ _ _ _ _ _ _ => ⟨fun _ _ hcode => absurd hcode List.not_mem_nil, id⟩
  | memberInt hv _ ih => exact .memberInt hv ih
  | memberValue _ he hrest ihe ihrest => exact .memberValue he hrest ihe ihrest
  | memberInts _ ih => exact .memberInts ih
  | memberReserve _ ih =>
    intro w known c again hsited hwithin hallowed
    exact ih w known c again hsited hwithin
      ⟨hallowed.listed, hallowed.regular, hallowed.disciplined⟩
  | definition _ hf hs ihf ihs => exact .definition hf hs ihf ihs

/-! ## Modules -/

namespace Module

variable {m : Module}

/-- A function of a module is found under its name, with its type. -/
theorem lookup_function {f : Func} (hnames : (m.functions.map Func.name).Nodup)
    (hf : f ∈ m.functions) : m.interface.functions.lookup f.name = some f.signature := by
  have hmem : (f.name, f.signature) ∈ m.interface.functions :=
    List.mem_map.2 ⟨f, hf, rfl⟩
  refine lookup_of_nodup ?_ hmem
  unfold interface
  rw [List.map_map]
  exact hnames

/-- A library function takes two integers and gives one. -/
theorem signature_snippet (snippet : Snippet) :
    snippet.func.signature = ([.i32, .i32], some .i32) := by
  cases snippet <;> rfl

end Module

namespace Program

variable {p : Program} {m : Module} {map : SourceMap}

/-- The functions that a regular program defines have different names, none of which is one of the
library, if none of them is written again. -/
theorem nodup_names (hr : p.Regular) (honce : ∀ o ∈ p.outlines, o.again = false) :
    (p.outlines.map Outline.name ++ Snippet.all.map Snippet.name).Nodup := by
  -- no function is written again, so the filter in `Regular` keeps all of them
  have hall : p.outlines.filter (!·.again) = p.outlines := by
    rw [List.filter_eq_self]
    intro o ho
    rw [honce o ho]
    rfl
  have hnames := hr.functions
  rwa [hall] at hnames

/-- The functions of a module that are not of the library have the names that the program gives
them. -/
theorem names_of_compile (h : p.compile.outcome = .ok (m, map)) (hp : p.BindsParams) :
    m.funcs.map Func.name = p.outlines.map Outline.name := by
  have hsummary := congrArg (List.map Prod.fst) (summary_funcs h hp)
  rw [List.map_map, List.map_map] at hsummary
  exact hsummary

/-- A function is written again only if one of its name has been written before. -/
theorem exists_first {o : Outline} (ho : o ∈ p.outlines) :
    ∃ o' ∈ p.outlines, o'.name = o.name ∧ o'.again = false := by
  rcases List.mem_append.1 ho with hbody | hinit
  · obtain ⟨o', ho', heq⟩ := (p.body.locate [0]).covers_outlines p.env false none o hbody
    exact ⟨o', List.mem_append_left _ ho', heq⟩
  · rw [List.mem_singleton.1 hinit]
    exact ⟨_, List.mem_append_right _ List.mem_cons_self, rfl, rfl⟩

/-- All functions of the module of a regular program have different names exactly if no function is
written again. -/
theorem nodup_functions_iff (h : p.compile.outcome = .ok (m, map)) (hr : p.Regular) :
    (m.functions.map Func.name).Nodup ↔ ∀ o ∈ p.outlines, o.again = false := by
  rw [Module.functions, List.map_append, List.map_map, names_of_compile h hr.params]
  constructor
  · intro hnodup o ho
    -- the function and the first one of its name are the same
    obtain ⟨o', ho', hname, hagain⟩ := exists_first ho
    rw [← List.inj_on_of_nodup_map (List.nodup_append'.1 hnodup).2.1 ho' ho hname]
    exact hagain
  · intro honce
    have hnames := List.nodup_append'.1 (nodup_names hr honce)
    refine List.nodup_append'.2 ⟨(nodup_snippets h).map Snippet.name_injective, hnames.1, ?_⟩
    intro name hsnippet houtline
    obtain ⟨snippet, _, rfl⟩ := List.mem_map.1 hsnippet
    exact hnames.2.2 houtline (List.mem_map.2 ⟨snippet, by cases snippet <;> decide, rfl⟩)

/-- Every function that a program defines is there in its module. -/
theorem exists_func (h : p.compile.outcome = .ok (m, map)) (hp : p.BindsParams) {o : Outline}
    (ho : o ∈ p.outlines) :
    ∃ f ∈ m.funcs, f.name = o.name ∧
      f.signature = (o.params.map Prod.snd, o.result.map Kind.valType) := by
  have hmem : o.summary ∈ m.funcs.map Func.summary := by
    rw [summary_funcs h hp]
    exact List.mem_map_of_mem ho
  obtain ⟨f, hf, hsummary⟩ := List.mem_map.1 hmem
  simp only [Func.summary, Outline.summary, Prod.mk.injEq] at hsummary
  obtain ⟨hname, hparams, hresult, _⟩ := hsummary
  exact ⟨f, hf, hname, by rw [Func.signature, hparams, hresult]⟩

/-- A module has a memory exactly if its program holds an array literal. -/
theorem isSome_pages (h : p.compile.outcome = .ok (m, map)) :
    m.pages.isSome = !p.literals.isEmpty := by
  obtain ⟨_, blocks, _, harrays, _, _, hliterals, _⟩ := layout_of_compile h
  have hnone : m.pages = none ↔ p.literals = [] := by
    rw [pages_eq_none_iff h, harrays, hliterals, List.map_eq_nil_iff, List.map_eq_nil_iff]
  rw [Bool.eq_iff_iff, Bool.not_eq_true', List.isEmpty_eq_false_iff, ← not_iff_not, not_not,
    Option.isSome_iff_ne_none, not_not]
  exact hnone

section Compiled

variable (h : p.compile.outcome = .ok (m, map)) (hr : p.Regular)
  (honce : ∀ o ∈ p.outlines, o.again = false)

include h hr honce

/-- The functions of a regular program are there in its module. -/
theorem linked : Linked m.interface p.outlines where
  names := (List.nodup_append'.1 (nodup_names hr honce)).1
  signature o ho := by
    obtain ⟨f, hf, hname, hsignature⟩ := exists_func h hr.params ho
    rw [← hname, ← hsignature]
    exact Module.lookup_function ((nodup_functions_iff h hr).2 honce) (List.mem_append_right _ hf)
  once := honce
  locals := hr.locals

/-- What the compiler has gathered in the end goes into the module. -/
theorem within_of_compile :
    ∃ s, Emits (State.record {} (.started p.scope.bindings.length))
        (.definition ⟨initName, [], none, ⟨[], p.scope⟩, p.body.span, .init⟩ none
          (p.body.locate [0])) [] s ∧
      m.funcs = s.funcs ∧ s.Within m.interface p.outlines := by
  obtain ⟨s, pages, hemits, hpages, hm, _⟩ := emits_of_compile h
  have hfuncs : m.funcs = s.funcs := by
    rw [hm]
    rfl
  refine ⟨s, hemits, hfuncs, ⟨fun snippet hsnippet => ?_, fun f hf => ?_, fun entry hentry => ?_,
    fun hcursor => ?_⟩⟩
  · -- a library function that has been asked for is one of the module
    have hmem : snippet.func ∈ m.functions := by
      rw [hm]
      exact List.mem_append_left _ (List.mem_map_of_mem hsnippet)
    rw [← Module.signature_snippet snippet]
    exact Module.lookup_function ((nodup_functions_iff h hr).2 honce) hmem
  · -- a function that has been written has an outline
    have hmem : f.summary ∈ p.outlines.map Outline.summary := by
      rw [← summary_funcs h hr.params, hfuncs]
      exact List.mem_map_of_mem hf
    obtain ⟨o, ho, hsummary⟩ := List.mem_map.1 hmem
    exact ⟨o, ho, hsummary.symm⟩
  · -- the signatures that are known are those of the program; none was known before
    rcases (hemits.mem_signatures false entry).1 hentry with hold | hnew
    · exact absurd hold List.not_mem_nil
    · exact hnew
  · -- memory that has been used gives the module pages
    rw [Arena.pages, if_neg hcursor] at hpages
    simp only at hpages
    split at hpages
    · cases hpages
    · cases hpages
      rw [hm]
      rfl

/-- The compiler starts where nothing surrounds the program. -/
theorem sited : Sited p.outside [] ⟨m.interface, [], none, []⟩
    (State.record {} (.started p.scope.bindings.length)) where
  env := rfl
  linked := linked h hr honce
  globals v hv := by
    have hglobals : m.interface.globals = p.outside.globals := globals_eq h hr.params
    rw [hglobals]
    exact lookup_of_nodup hr.globals hv
  locals v hv := absurd hv List.not_mem_nil
  memory := isSome_pages h
  known name hname := absurd hname List.not_mem_nil

/-- The functions of a regular program are accepted exactly if the effects of their bodies lead to
their results. -/
theorem accepted_iff : (∀ f ∈ m.funcs, f.Accepted m.interface) ↔
    (∀ v ∈ p.visits, v.isTyped p.facilities = true) ∧
      (p.facilities.run p.setting.env none none (p.body.locate [0]) []).isSome = true := by
  obtain ⟨s, hemits, hfuncs, hwithin⟩ := within_of_compile h hr honce
  obtain ⟨_, haccepted⟩ := hemits.exact _ _ _ false (sited h hr honce) hwithin
    ⟨fun _ ho => ho, ⟨trivial, hr.body⟩⟩
  rw [hfuncs]
  -- there was no function yet when the compiler started
  exact haccepted.trans (and_iff_right fun f hf => absurd hf List.not_mem_nil)

/-- The functions of a regular and disciplined program are accepted. -/
theorem accepted_of_disciplined (hd : (p.body.locate [0]).Disciplined p.setting) :
    ∀ f ∈ m.funcs, f.Accepted m.interface := by
  obtain ⟨s, hemits, hfuncs, hwithin⟩ := within_of_compile h hr honce
  obtain ⟨_, haccepted⟩ := hemits.sound _ _ _ false (sited h hr honce) hwithin
    ⟨fun _ ho => ho, ⟨trivial, hr.body⟩, ⟨trivial, hd, fun hresult => by cases hresult⟩⟩
  rw [hfuncs]
  exact haccepted fun f hf => absurd hf List.not_mem_nil

end Compiled

/-- The exports of a module are there exactly if those of the program are. -/
theorem exportsFit_iff (h : p.compile.outcome = .ok (m, map)) (hr : p.Regular) :
    (m.exportNames.Nodup ∧ ∀ e ∈ m.exports,
      e.name ∈ if e.isFunction then m.functions.map Func.name else m.globals.map Prod.fst) ↔
      p.ExportsFit := by
  have hexports : m.exports = Export.ofScope p.scope := by
    obtain ⟨_, _, _, _, rfl, _⟩ := emits_of_compile h
    rfl
  have hfunctions (name : String) : name ∈ m.functions.map Func.name ↔
      name ∈ p.outlines.map Outline.name ++ p.requests.map Snippet.name := by
    rw [Module.functions, List.map_append, List.map_map, names_of_compile h hr.params,
      snippets_of_compile h, List.mem_append, List.mem_append, or_comm]
    simp only [List.mem_map, List.mem_eraseDups, Function.comp_apply]
    rfl
  have hnames : m.exportNames = (if p.literals.isEmpty then [] else ["memory"])
      ++ (Export.ofScope p.scope).map Export.name := by
    rw [Module.exportNames, hexports, isSome_pages h]
    cases p.literals.isEmpty <;> rfl
  have hfound (e : Export) :
      e.name ∈ (if e.isFunction then m.functions.map Func.name else m.globals.map Prod.fst) ↔
      e.name ∈ if e.isFunction then p.outlines.map Outline.name ++ p.requests.map Snippet.name
        else (p.scopes.flatMap fun entry => entry.2.globals).map Prod.fst := by
    rw [globals_eq h hr.params]
    cases e.isFunction with
    | true => exact hfunctions e.name
    | false => exact Iff.rfl
  rw [hnames, hexports]
  simp only [hfound]
  exact ⟨fun hfit => ⟨hfit.1, hfit.2⟩, fun hfit => ⟨hfit.names, hfit.found⟩⟩

/-- The module of a regular program is valid exactly if no function is written again, what is
exported is there and its functions are accepted. -/
theorem valid_iff (h : p.compile.outcome = .ok (m, map)) (hr : p.Regular) :
    m.Valid ↔ (∀ o ∈ p.outlines, o.again = false) ∧ p.ExportsFit ∧
      ∀ f ∈ m.funcs, f.Accepted m.interface := by
  constructor
  · intro hvalid
    exact ⟨(nodup_functions_iff h hr).1 hvalid.functionNames,
      (exportsFit_iff h hr).1 ⟨hvalid.exportNames, hvalid.exports⟩,
      fun f hf => hvalid.functions f (List.mem_append_right _ hf)⟩
  · rintro ⟨honce, hfit, haccepted⟩
    obtain ⟨hnames, hexports⟩ := (exportsFit_iff h hr).2 hfit
    refine ⟨fun pages hpages => ?_, (nodup_functions_iff h hr).2 honce, ?_, fun f hf => ?_, ?_,
      hnames, hexports⟩
    · obtain ⟨_, _, _, _, _, hfewest, _⟩ := layout_of_compile h
      rw [hpages] at hfewest
      exact hfewest.2.2
    · rw [globals_eq h hr.params]
      exact hr.globals
    · rcases List.mem_append.1 hf with hsnippet | hfunc
      · obtain ⟨snippet, _, rfl⟩ := List.mem_map.1 hsnippet
        exact snippet.accepted m.interface
      · exact haccepted f hfunc
    · obtain ⟨f, hf, hname, hsignature⟩ :=
        exists_func h hr.params (List.mem_append_right _ List.mem_cons_self)
      exact ⟨f, List.mem_append_right _ hf, hname, hsignature⟩

/-- Which regular programs have a valid module. A module is valid if its functions, its global
variables and its exports have different names, every instruction finds values of the types that it
takes, every function leaves its result, and what it refers to or exports is there with the right
type. It is so exactly if the program is well typed, which can be decided on the tree: the effects of
its expressions on the stack, where conversions follow the kinds that are inferred, lead each
function to its result. Programs all of whose operands leave the values that their instructions take
are among these: the code of every expression has the type of the kind that is inferred for it. -/
theorem valid_iff_wellTyped (h : p.compile.outcome = .ok (m, map)) (hr : p.Regular) :
    (m.Valid ↔ p.WellTyped) ∧ (p.Disciplined → m.Valid) := by
  refine ⟨(valid_iff h hr).trans ⟨?_, fun hwell => ?_⟩, fun hd => ?_⟩
  · rintro ⟨honce, hfit, haccepted⟩
    obtain ⟨hfunctions, hbody⟩ := (accepted_iff h hr honce).1 haccepted
    exact ⟨honce, hfit, hfunctions, hbody⟩
  · exact ⟨hwell.once, hwell.exports,
      (accepted_iff h hr hwell.once).2 ⟨hwell.functions, hwell.body⟩⟩
  · exact (valid_iff h hr).2 ⟨hd.once, hd.exports, accepted_of_disciplined h hr hd.once hd.body⟩

/-- A function that halves a number, an array whose elements are replaced by halves of their indices in
a loop, and a sum in a block:
`half = (x) -> x * 0.5; xs = [1, 1.5, 2..4]; i = xs[]; i > 0 <| (i--, xs[i] = half(i));
(total += -i -< 0..t)`. -/
def halves : Program where
  body := .plain (.statements
    [.plain (.assign (.plain (.ident "half")) (.plain (.function ["x"] (some .float) none
        (.plain (.binary .mul (.plain (.ident "x")) (.float ⟨0x3fe0000000000000⟩)))
        ⟨[⟨"x", { kind := .int, storage := .parameter }⟩]⟩))),
      .plain (.assign (.plain (.ident "xs")) (.plain (.array
        [.int 1, .float ⟨0x3ff8000000000000⟩, .range (some (.int 2)) (some (.int 4))]))),
      .plain (.assign (.plain (.ident "i")) (.plain (.index (.plain (.ident "xs")) none))),
      .plain (.loop (.plain (.compare .gt (.plain (.ident "i")) (.int 0)))
        (.plain (.sequence
          [.plain (.step .decrement (.plain (.ident "i"))),
            .plain (.assign (.plain (.index (.plain (.ident "xs")) (some (.plain (.ident "i")))))
              ((Expr.plain (.call "half" [.plain (.ident "i")])).withKind .float))]))),
      .plain (.block
        (.plain (.compound .addAssign (.plain (.ident "total"))
          (.plain (.clamp (.plain (.neg (.plain (.ident "i"))))
            (.range (some (.int 0)) (some (.plain (.ident "t"))))))))
        ⟨[⟨"t", { kind := .float, storage := .localVar }⟩]⟩)])
  scope := ⟨[⟨"half", { kind := .function, storage := .globalVar, exported := true }⟩,
    ⟨"xs", { kind := .pointer, storage := .localVar }⟩,
    ⟨"i", { kind := .int, storage := .localVar }⟩,
    ⟨"total", { kind := .float, storage := .globalVar, exported := true }⟩]⟩

/-- The sum of one and of a list that ends in three: `1 + (2; 3)`. -/
def overlaid : Program where
  body := .plain (.binary .add (.int 1) (.plain (.statements [.int 2, .int 3])))
  scope := ⟨[]⟩

/-- The sum of one and of a list that ends in two: `1 + (1.5; 2)`. -/
def mixed : Program where
  body := .plain (.binary .add (.int 1)
    (.plain (.statements [.float ⟨0x3ff8000000000000⟩, .int 2])))
  scope := ⟨[]⟩

/-- An exported local variable: `x = 1`. -/
def hidden : Program where
  body := .plain (.assign (.plain (.ident "x")) (.int 1))
  scope := ⟨[⟨"x", { kind := .int, storage := .localVar, exported := true }⟩]⟩

/-- Which modules of four regular programs are valid. That of the halves is, whose operands leave one
value each. The list of the overlaid sum leaves both of its values and the sum takes them in place of
the one; its module is valid since all three are integers. That of the mixed sum is not, where the sum
takes a decimal number, nor that of the hidden variable, where no global variable is there to be
exported. -/
theorem halves_valid_mixed_invalid :
    (halves.Regular ∧ halves.Disciplined ∧
      ∃ m map, halves.compile.outcome = .ok (m, map) ∧ m.Valid) ∧
    (overlaid.Regular ∧ ¬ overlaid.Disciplined ∧
      ∃ m map, overlaid.compile.outcome = .ok (m, map) ∧ m.Valid) ∧
    (mixed.Regular ∧ ∃ m map, mixed.compile.outcome = .ok (m, map) ∧ ¬ m.Valid) ∧
    (hidden.Regular ∧ ∃ m map, hidden.compile.outcome = .ok (m, map) ∧ ¬ m.Valid) := by
  have hr₁ : halves.Regular := by decide
  have hd : halves.Disciplined := by decide
  have hr₂ : overlaid.Regular := by decide
  have hr₃ : mixed.Regular := by decide
  have hr₄ : hidden.Regular := by decide
  refine ⟨⟨hr₁, hd, _, _, rfl, (valid_iff_wellTyped rfl hr₁).2 hd⟩,
    ⟨hr₂, by decide, _, _, rfl, ?_⟩, ⟨hr₃, _, _, rfl, ?_⟩, ⟨hr₄, _, _, rfl, ?_⟩⟩
  · exact (valid_iff_wellTyped rfl hr₂).1.2 (by decide)
  · exact mt (valid_iff_wellTyped rfl hr₃).1.1 (by decide)
  · exact mt (valid_iff_wellTyped rfl hr₄).1.1 (by decide)

end Program

end PatchCompiler
