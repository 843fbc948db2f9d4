import Mathlib.Data.List.Flatten
import PatchCompiler.Proofs.Memory.Arrays
import PatchCompiler.Proofs.Text.Names

/-! # The shape of the text of a module

Main statement: if the names of a program are made of characters of words, the text of its module
reads as the trees of its forms, which are those that were written while the program was compiled, in
order. The name of an export stands between quotes, where a backslash would not stand for itself, so
that exported names must not have one. -/

namespace PatchCompiler

open Sexp

/-- The forms that a compilation has written, in order. -/
def Compilation.forms (c : Compilation) : List Form := c.log.filterMap Event.form?

/-- The library functions that a compilation needs, in the order they were first asked for. -/
def Compilation.snippets (c : Compilation) : List Snippet := c.log.filterMap Event.snippet?

namespace Program

variable {p : Program} {m : Module} {map : SourceMap}

/-- The names in a program: identifiers, callees, parameters, and what its scopes bind. -/
def names (p : Program) : List String := p.scope.names ++ (p.body.locate [0]).names

/-- The functions that a program defines. -/
def functionNames (p : Program) : List String :=
  ((p.body.locate [0]).definitions none).map Definition.name

/-- The names of the bindings of global storage in all scopes of a program. -/
def sharedNames (p : Program) : List String :=
  p.scopes.flatMap fun entry => (entry.2.bindings.filter (·.info.isGlobal)).map Binding.name

/-- The forms and library functions of a module are the ones that were written, in order. -/
theorem recorded_of_compile (h : p.compile.outcome = .ok (m, map)) :
    m.snippets = p.compile.snippets ∧ m.forms = p.compile.forms := by
  obtain ⟨s, pages, hemits, _, rfl, _, hlog⟩ := run_of_compile h
  obtain ⟨hforms, hincludes⟩ := hemits.recorded ⟨rfl, rfl⟩
  constructor
  · rw [Compilation.snippets, hlog, List.filterMap_append]
    exact hincludes.trans (List.append_nil _).symm
  · rw [Compilation.forms, hlog, List.filterMap_append]
    exact hforms.trans (List.append_nil _).symm

/-- The names in the forms of a module satisfy what the names in the program and the library
satisfy. -/
theorem named_of_compile {good : String → Prop} (h : p.compile.outcome = .ok (m, map))
    (hlibrary : ∀ snippet : Snippet, good snippet.name) (hinit : good initName)
    (hnames : ∀ x ∈ p.names, good x) : ∀ form ∈ m.forms, form.Named good := by
  obtain ⟨s, pages, hemits, _, rfl, _⟩ := emits_of_compile h
  -- the function that runs the statements binds the names of the program's own scope
  have htask : ∀ x ∈ Task.names (.definition p.header none (p.body.locate [0])), good x :=
    List.forall_mem_cons.2 ⟨hinit, hnames⟩
  exact (hemits.named hlibrary htask ⟨by simp [State.record], by simp [State.record]⟩).1.forms

/-- The text of a module reads as its trees. -/
theorem reads_of_compile (h : p.compile.outcome = .ok (m, map)) (hnames : ∀ x ∈ p.names, IsName x)
    (hexports : ∀ b ∈ p.scope.bindings, b.info.exported = true → '\\' ∉ b.name.toList) :
    Reads m.render m.sexps := by
  have hforms := named_of_compile h (fun snippet => snippet.named_func.name) (by decide) hnames
  refine Module.reads_render hforms fun e he => ?_
  obtain ⟨s, pages, _, _, rfl, _⟩ := emits_of_compile h
  obtain ⟨b, hb, rfl⟩ := List.mem_map.1 he
  obtain ⟨hb, hexported⟩ := List.mem_filter.1 hb
  exact ⟨hnames _ (List.mem_append_left _ (List.mem_map_of_mem hb)), hexports b hb hexported⟩

/-- The functions of a module are functions that the program defines and, as the last one, the
function that runs the top-level statements. -/
theorem funcs_of_compile (h : p.compile.outcome = .ok (m, map)) :
    ∃ written locals code, m.funcs = written ++ [.init locals code] ∧
      ∀ f ∈ written, f.name ∈ p.functionNames := by
  obtain ⟨s, code, hemits, _, _, hforms⟩ := start_of_compile h
  -- the program's own scope has been declared when its body is compiled
  have hfresh : Fresh false (p.body.locate [0]).scopes p.initial.declared :=
    Fresh.right p.fresh_scopes (State.marks_beginFunction _ p.header [])
  obtain ⟨written, hfuncs, hof, _⟩ := (hemits.brings.introduces false hfresh).funcs
  have hinitial : p.initial.funcs = [] := State.funcs_beginFunction _ _ _
  rw [hinitial, List.nil_append] at hfuncs
  refine ⟨written, s.locals, code, ?_, fun f hf => ?_⟩
  · rw [Module.funcs, hforms, List.filterMap_append, ← hfuncs]
    rfl
  · obtain ⟨d, hd, hwritten⟩ := hof f hf
    have hsame : f.name = d.name := hwritten.elim (·.name) (·.name)
    exact hsame ▸ List.mem_map_of_mem hd

/-- If no function of the program has the name of the function that runs the top-level statements,
the module has one function of that name. -/
theorem count_init (h : p.compile.outcome = .ok (m, map)) (hp : initName ∉ p.functionNames) :
    (m.funcs.map Func.name).count initName = 1 := by
  obtain ⟨written, locals, code, hfuncs, hnames⟩ := funcs_of_compile h
  -- the only function of the name is the one that is written last
  have hnew : initName ∉ written.map Func.name := by
    intro hmem
    obtain ⟨f, hf, hname⟩ := List.mem_map.1 hmem
    exact hp (hname ▸ hnames f hf)
  rw [hfuncs, List.map_append, List.count_append, List.count_eq_zero_of_not_mem hnew]
  rfl

/-- The global variables that a frame declares are of global storage. -/
theorem sublist_own_globals (frame : Frame) (params : List String) :
    ((frame.own params).globals.map Prod.fst).Sublist
      ((frame.scope.bindings.filter (·.info.isGlobal)).map Binding.name) := by
  rw [Scope.globals, List.map_map, ← List.filter_filter]
  exact (List.filter_sublist.trans ((frame.sublist_own params).filter _)).map _

/-- The names of the global variables of a module are among those of global storage, in order. -/
theorem sublist_globals (h : p.compile.outcome = .ok (m, map)) :
    (m.globals.map Prod.fst).Sublist p.sharedNames := by
  rw [globals_eq_own h, sharedNames, ← map_scope_frames, List.flatMap_map, List.map_flatMap]
  exact List.Sublist.flatMap_right _ fun entry _ => sublist_own_globals entry.2 entry.1

/-- The global variables of the program's own scope are among those of the module. -/
theorem mem_globals (h : p.compile.outcome = .ok (m, map)) {b : Binding}
    (hb : b ∈ p.scope.bindings) (hvariable : (b.isVariable && b.info.isGlobal) = true) :
    b.name ∈ m.globals.map Prod.fst := by
  have hown : (b.name, b.info.kind.valType) ∈ p.scope.globals :=
    List.mem_map.2 ⟨b, List.mem_filter.2 ⟨hb, hvariable⟩, rfl⟩
  rw [globals_eq_own h, frames, List.flatMap_cons, Frame.own_nil]
  exact List.mem_map.2 ⟨_, List.mem_append_left _ hown, rfl⟩

/-- The text of a module, if the names in the program are made of characters of words and those that
are exported have no backslash: it reads as a memory, if an array has been laid out, the library
functions that were asked for, the forms that were written, an export for each exported binding of
the program's scope, and the start. There is one function to start with, if no function of the
program has its name. If bindings of global storage have different names, there is one global
variable for each such binding that is exported. -/
theorem text_shape (h : p.compile.outcome = .ok (m, map)) (hnames : ∀ x ∈ p.names, IsName x)
    (hexports : ∀ b ∈ p.scope.bindings, b.info.exported = true → '\\' ∉ b.name.toList) :
    Sexp.read m.render = some m.sexps ∧
    (m.pages = none ↔ p.compile.arrays = []) ∧
    m.snippets = p.compile.snippets ∧ m.forms = p.compile.forms ∧
    (∀ text, .verbatim text ∉ m.forms) ∧
    m.exports = (p.scope.bindings.filter (·.info.exported)).map
      (fun b => ⟨b.name, decide (b.info.kind = .function)⟩) ∧
    (initName ∉ p.functionNames → (m.funcs.map Func.name).count initName = 1) ∧
    (p.sharedNames.Nodup → ∀ b ∈ p.scope.bindings, b.info.exported = true →
      b.info.storage = .globalVar → b.info.kind ≠ .function →
      (m.globals.map Prod.fst).count b.name = 1) := by
  obtain ⟨hsnippets, hforms⟩ := recorded_of_compile h
  have hnamed := named_of_compile h (fun snippet => snippet.named_func.name) (by decide) hnames
  refine ⟨(reads_of_compile h hnames hexports).read_eq, pages_eq_none_iff h, hsnippets, hforms,
    fun text htext => hnamed _ htext, ?_, count_init h, fun hnodup b hb _ hstorage hkind => ?_⟩
  · obtain ⟨_, _, _, _, rfl, _⟩ := emits_of_compile h
    rfl
  · -- different names of global storage are names of different global variables
    refine List.count_eq_one_of_mem ((sublist_globals h).nodup hnodup) (mem_globals h hb ?_)
    simp [Binding.isVariable, Variable.isGlobal, hstorage, hkind]

/-- An exported function and an exported array. -/
def exporting : Program where
  body := .plain (.statements [
    .plain (.assign (.plain (.ident "half")) (.plain (.function ["x"] (some .float) none
      (.plain (.binary .mul (.plain (.ident "x")) (.float ⟨0x3fe0000000000000⟩)))
      ⟨[⟨"x", { kind := .float, storage := .parameter }⟩]⟩))),
    .plain (.assign (.plain (.ident "table")) (.plain (.array [.int 1, .int 2])))])
  scope := ⟨[⟨"half", { kind := .function, storage := .globalVar, exported := true }⟩,
    ⟨"table", { kind := .pointer, storage := .globalVar, exported := true }⟩]⟩

/-- The text of a module with a memory, a function and a global variable, both exported. -/
theorem exporting_text : ∃ m map, exporting.compile.outcome = .ok (m, map) ∧
    (∀ x ∈ exporting.names, IsName x) ∧ Sexp.read m.render = some m.sexps ∧ m.sexps.length = 7 ∧
    (m.globals.map Prod.fst).count "table" = 1 := by
  have hnames : ∀ x ∈ exporting.names, IsName x := by decide
  have hexports : ∀ b ∈ exporting.scope.bindings, b.info.exported = true →
      '\\' ∉ b.name.toList := by decide
  refine ⟨_, _, rfl, hnames, ?_, rfl, ?_⟩
  · exact (text_shape rfl hnames hexports).1
  · have hglobals := (text_shape rfl hnames hexports).2.2.2.2.2.2.2
    exact hglobals (by decide) ⟨"table", _⟩ (List.mem_cons_of_mem _ List.mem_cons_self) rfl rfl
      (by decide)

end Program

end PatchCompiler
