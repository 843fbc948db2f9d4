import PatchCompiler.Emit.Program
import PatchCompiler.Proofs.Emission.Derive
import PatchCompiler.Proofs.Locals.Written

/-! # Local variables are declared where they occur

An occurrence of a local variable is sound in a function that declares the variable, with the machine
type that its name stands for at that place. Names are resolved through all enclosing scopes, while
a function declares only the variables of its own scope and of its blocks, the first one of each
name, and none at all when it is written for a second time. Main statement: the occurrences of a
module are sound exactly if these two ways of resolving names agree on the program. -/

namespace PatchCompiler

/-! ## Programs -/

/-- The scopes of a program, each with the parameters of the function it belongs to. -/
def Program.scopes (p : Program) : List (List String × Scope) := ([], p.scope) :: p.body.scopes

/-- Scopes bind each name once, and bind the parameters of their function as such. -/
structure Program.WellScoped (p : Program) : Prop where
  /-- No scope binds a name twice. -/
  names : ∀ entry ∈ p.scopes, entry.2.names.Nodup
  /-- Every parameter has an entry in the scope of its function. -/
  params : ∀ entry ∈ p.scopes, ∀ x ∈ entry.1,
    ∃ b ∈ entry.2.bindings, b.name = x ∧ b.info.storage = .parameter

/-- Every parameter stands for a parameter in the scope of its function. -/
def Program.BindsParams (p : Program) : Prop :=
  ∀ entry ∈ p.scopes, ∀ x ∈ entry.1, ∃ v, entry.2.find? x = some v ∧ v.storage = .parameter

/-- What the names of a program stand for at the top level. -/
def Program.env (p : Program) : Env := Env.enter (fun _ => none) ⟨[], p.scope⟩

/-- The functions that the compiler writes for a program, the one that runs the top-level statements
last. -/
def Program.outlines (p : Program) : List Outline :=
  let body := p.body.locate [0]
  body.outlines p.env false none
    ++ [.ofFunction (fun _ => none) false initName [] none ⟨[], p.scope⟩ none body]

/-- The names of a program in the state its statements are compiled in. -/
theorem Program.env_initial (p : Program) : p.initial.env = p.env := by
  unfold Program.initial
  rw [@State.env_of_scopes_cons (State.record {} (.started p.scope.bindings.length)) _ ⟨[], p.scope⟩
    (State.scopes_beginFunction _ _ _)]
  rfl

/-- In a scope that binds each name once, a name stands for any binding that has it. -/
theorem Scope.find?_of_mem {scope : Scope} {b : Binding} (hnodup : scope.names.Nodup)
    (hb : b ∈ scope.bindings) : scope.find? b.name = some b.info := by
  obtain ⟨bindings⟩ := scope
  unfold find? names at *
  simp only at hnodup hb ⊢
  induction bindings with
  | nil => cases hb
  | cons first rest ih =>
    rw [List.map_cons, List.nodup_cons] at hnodup
    rcases List.mem_cons.1 hb with rfl | hb
    · simp
    · have hne : first.name ≠ b.name := fun h => hnodup.1 (h ▸ List.mem_map_of_mem hb)
      rw [List.find?_cons_of_neg (by simpa using hne)]
      exact ih hnodup.2 hb

/-- In scopes that bind each name once, an entry for a parameter is what the parameter stands for. -/
theorem Program.WellScoped.bindsParams {p : Program} (h : p.WellScoped) : p.BindsParams := by
  intro entry hentry x hx
  obtain ⟨b, hb, rfl, hstorage⟩ := h.params entry hentry x hx
  exact ⟨b.info, Scope.find?_of_mem (h.names entry hentry) hb, hstorage⟩

/-- The compiler finds each parameter bound as such. -/
theorem Program.BindsParams.proper {p : Program} (h : p.BindsParams) :
    Proper (([], ⟨[], p.scope⟩) :: (p.body.locate [0]).scopes) := by
  intro entry hentry
  refine h (entry.1, entry.2.scope) ?_
  rw [Program.scopes, ← Expr.map_scope_scopes_locate [0] p.body]
  rcases List.mem_cons.1 hentry with rfl | hentry
  · exact List.mem_cons_self
  · exact List.mem_cons_of_mem _ (List.mem_map.2 ⟨entry, hentry, rfl⟩)

/-- No scope of a program has been opened when its compilation begins. -/
theorem Program.fresh_scopes (p : Program) :
    Fresh false (([], ⟨[], p.scope⟩) :: (p.body.locate [0]).scopes) [] := by
  have hplaced := (Spread.of_placed (Expr.placed_scopes [0] p.body)).cons [] p.scope
  exact ⟨hplaced.nodup, by simp⟩

/-- The functions of a module are those of the program, in order. -/
theorem Program.summary_funcs {p : Program} {m : Module} {map : SourceMap}
    (h : p.compile.outcome = .ok (m, map)) (hp : p.BindsParams) :
    m.funcs.map Func.summary = p.outlines.map Outline.summary := by
  obtain ⟨s, pages, hemits, _, rfl, _⟩ := emits_of_compile h
  have hwrites := hemits.adds false p.fresh_scopes hp.proper
  exact hwrites.funcs

/-- The global variables of a module are those of the program's scopes, in order. -/
theorem Program.globals_eq {p : Program} {m : Module} {map : SourceMap}
    (h : p.compile.outcome = .ok (m, map)) (hp : p.BindsParams) :
    m.globals = p.scopes.flatMap fun entry => entry.2.globals := by
  obtain ⟨s, pages, hemits, _, rfl, _⟩ := emits_of_compile h
  have hwrites := hemits.adds false p.fresh_scopes hp.proper
  rw [Program.scopes, List.flatMap_cons, ← Expr.map_scope_scopes_locate [0] p.body,
    List.flatMap_map]
  exact hwrites.globals

/-! ## Soundness of occurrences -/

/-- Declarations hold an occurrence: its variable is among them, and under no other machine type. -/
def Declares (declared : List (String × ValType)) (occurrence : Occurrence) : Prop :=
  occurrence ∈ declared ∧ ∀ v ∈ declared, v.1 = occurrence.1 → v.2 = occurrence.2

/-- Whether declarations hold an occurrence can be decided. -/
instance (declared : List (String × ValType)) (occurrence : Occurrence) :
    Decidable (Declares declared occurrence) :=
  inferInstanceAs (Decidable (_ ∧ _))

/-- A function of the module reads and writes, in order, the variables that occur in the function of
the program, and declares each of them with the machine type that its name stands for there. -/
structure Func.Sound (f : Func) (o : Outline) : Prop where
  /-- The instructions are those of the occurrences. -/
  names : f.body.localNames = o.occurrences.map Prod.fst
  /-- The occurrences are declared. -/
  declares : ∀ occurrence ∈ o.occurrences, Declares (f.params ++ f.locals) occurrence

/-- The variables that occur in a function of the program are those of its own scope and blocks, and
the first one of each name has the machine type that the name stands for. -/
def Outline.Agrees (o : Outline) : Prop :=
  ∀ occurrence ∈ o.occurrences, Declares (o.params ++ o.locals) occurrence

/-- Whether the variables of an outline are its own can be decided. -/
instance (o : Outline) : Decidable o.Agrees := inferInstanceAs (Decidable (∀ _ ∈ _, _))

/-- A function with the summary of an outline is sound exactly if the outline agrees. -/
theorem Func.sound_iff {f : Func} {o : Outline} (h : f.summary = o.summary) :
    f.Sound o ↔ o.Agrees := by
  simp only [summary, Outline.summary, Prod.mk.injEq] at h
  obtain ⟨_, hparams, _, hlocals, hnames⟩ := h
  unfold Outline.Agrees
  rw [← hparams, ← hlocals]
  exact ⟨fun hsound => hsound.declares, fun hagrees => ⟨hnames, hagrees⟩⟩

/-- Functions with the summaries of outlines are sound exactly if the outlines agree. -/
theorem forall₂_sound_iff {funcs : List Func} {outlines : List Outline}
    (h : funcs.map Func.summary = outlines.map Outline.summary) :
    List.Forall₂ Func.Sound funcs outlines ↔ ∀ o ∈ outlines, o.Agrees := by
  induction funcs generalizing outlines with
  | nil =>
    cases outlines with
    | nil => simp
    | cons o rest => cases h
  | cons f funcs ih =>
    cases outlines with
    | nil => cases h
    | cons o rest =>
      rw [List.map_cons, List.map_cons, List.cons.injEq] at h
      rw [List.forall₂_cons, List.forall_mem_cons, Func.sound_iff h.1, ih h.2]

/-- The library functions read their own parameters. -/
theorem Snippet.localNames_subset (snippet : Snippet) :
    ∀ x ∈ snippet.func.body.localNames, x ∈ snippet.func.params.map Prod.fst := by
  cases snippet <;> decide

/-- The functions of a module are, in order, those of the program, with the same parameters, local
variables and occurrences. Each of their instructions on local variables finds its variable declared
in the same function, with the machine type that the name stands for, exactly if the program's own
functions agree. -/
theorem Program.sound_locals_iff {p : Program} {m : Module} {map : SourceMap}
    (h : p.compile.outcome = .ok (m, map)) (hp : p.WellScoped) :
    m.funcs.map Func.summary = p.outlines.map Outline.summary ∧
    (∀ snippet ∈ m.snippets, ∀ x ∈ snippet.func.body.localNames,
      x ∈ snippet.func.params.map Prod.fst) ∧
    (List.Forall₂ Func.Sound m.funcs p.outlines ↔ ∀ o ∈ p.outlines, o.Agrees) := by
  have hsummary := summary_funcs h hp.bindsParams
  exact ⟨hsummary, fun snippet _ => snippet.localNames_subset, forall₂_sound_iff hsummary⟩

/-- An integer `t` and, in a block, a decimal number `t` that is assigned to. -/
def Program.shadowed : Program where
  body := .plain (.block (.plain (.assign (.plain (.ident "t")) (.float ⟨0x3ff8000000000000⟩)))
    ⟨[⟨"t", { kind := .float, storage := .localVar }⟩]⟩)
  scope := ⟨[⟨"t", { kind := .int, storage := .localVar }⟩]⟩

/-- A block that binds a name of its function to another kind: the function declares the name once,
for the first kind, and the block's store finds the wrong machine type. -/
theorem Program.shadowed_unsound : ∃ m map, shadowed.compile.outcome = .ok (m, map) ∧
    shadowed.WellScoped ∧ ¬ List.Forall₂ Func.Sound m.funcs shadowed.outlines := by
  have hscoped : shadowed.WellScoped := ⟨by decide, by decide⟩
  refine ⟨_, _, rfl, hscoped, fun hsound => ?_⟩
  exact absurd ((sound_locals_iff rfl hscoped).2.2.1 hsound) (by decide)

end PatchCompiler
