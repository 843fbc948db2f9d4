import PatchCompiler.Proofs.Emission.Actions
import PatchCompiler.Proofs.Text.Sections

/-! # Instructions that touch memory, and the memory of a module

A module declares a memory if an array has been laid out, which array literals do. Lengths and
element stores touch memory as well, and the array they are about need not come from a literal: it
may be a parameter that the host provides. Main statement: which nodes of a program make its module
declare a memory, and which ones make it touch memory. The two agree unless a program has lengths or
element stores but no array literal. -/

namespace PatchCompiler

/-- Whether an instruction reads or writes memory. -/
def Op.touchesMemory : Op → Bool
  | .loadInt | .storeInt | .storeFloat => true
  | _ => false

/-- Some instruction of a function of a module reads or writes memory. -/
def Module.TouchesMemory (m : Module) : Prop :=
  ∃ f ∈ m.functions, ∃ op ∈ f.body.heads, op.touchesMemory = true

/-- Whether an expression is a part of an array: its length or an element. -/
def Expr.isPart : Expr Frame → Bool
  | .mk (.index ..) _ _ => true
  | .mk (.field ..) _ _ => true
  | _ => false

/-- Instructions that touch memory are among the effects of code. -/
theorem Op.effect?_of_touchesMemory {op : Op} (h : op.touchesMemory = true) :
    op.effect? = some op := by
  cases op <;> first | rfl | cases h

/-- A module touches memory exactly if one of its effects does. -/
theorem Module.touchesMemory_iff (m : Module) :
    m.TouchesMemory ↔ ∃ op ∈ m.effects, op.touchesMemory = true := by
  constructor
  · rintro ⟨f, hf, op, hop, htouches⟩
    have heffect := (Code.mem_effects (Op.effect?_of_touchesMemory htouches)).2 hop
    exact ⟨op, List.mem_flatMap.2 ⟨f, hf, heffect⟩, htouches⟩
  · rintro ⟨op, hop, htouches⟩
    obtain ⟨f, hf, heffect⟩ := List.mem_flatMap.1 hop
    exact ⟨f, hf, op, (Code.mem_effects (Op.effect?_of_touchesMemory htouches)).1 heffect, htouches⟩

/-- Asking for a library function touches no memory. -/
theorem Expr.not_touches_clampActions {env : Env} {value range : Expr Frame} :
    ¬∃ a ∈ value.clampActions env range, ∃ op ∈ a.ops, op.touchesMemory = true := by
  -- a clamp calls functions of the library or uses two instructions on numbers
  unfold clampActions
  split
  · split <;> simp [Action.ops, Op.touchesMemory]
  · simp

/-- The compiler writes an instruction that touches memory at array literals, lengths and
elements. -/
theorem Visit.touchesMemory_iff (v : Visit) :
    (∃ a ∈ v.actions, ∃ op ∈ a.ops, op.touchesMemory = true) ↔
      v.expr.isArray = true ∨ v.expr.isPart = true := by
  obtain ⟨env, name, ⟨node, ty, span⟩⟩ := v
  cases node with
  | clamp value range =>
    refine iff_of_false Expr.not_touches_clampActions ?_
    simp [Expr.isArray, Expr.isPart]
  -- with an index it is an element, without one the length
  | index array index =>
    cases index <;> simp [actions, Action.ops, Op.touchesMemory, Expr.isArray, Expr.isPart]
  | _ => simp [actions, Action.ops, Op.touchesMemory, Expr.isArray, Expr.isPart]

namespace Program

variable {p : Program} {m : Module} {map : SourceMap}

/-- An array is laid out if the program has an array literal. -/
theorem arrays_ne_nil_iff (h : p.compile.outcome = .ok (m, map)) :
    p.compile.arrays ≠ [] ↔ ∃ e ∈ p.nodes, e.isArray = true := by
  have hcounts := counts_of_compile h
  -- a compilation lays out one array for each literal that it visits
  have hnil : p.compile.arrays = [] ↔ ∀ v ∈ p.visits, v.expr.count? = none := by
    rw [← List.map_eq_nil_iff (f := Extent.count), hcounts, List.filterMap_eq_nil_iff]
  rw [← exists_visit, ne_eq, hnil, not_forall]
  simp only [not_forall, ← Expr.isSome_count?, Option.isSome_iff_ne_none, exists_prop]

/-- Which programs have a module that touches memory. -/
theorem touchesMemory_iff (h : p.compile.outcome = .ok (m, map)) :
    m.TouchesMemory ↔ ∃ e ∈ p.nodes, e.isArray = true ∨ e.isPart = true := by
  rw [m.touchesMemory_iff, ← exists_visit]
  simp only [← Visit.touchesMemory_iff, mem_effects h]
  tauto

/-- The text of a module declares a memory if the program has an array literal. -/
theorem memory_iff (h : p.compile.outcome = .ok (m, map)) :
    m.sections "memory" ≠ [] ↔ ∃ e ∈ p.nodes, e.isArray = true := by
  rw [← arrays_ne_nil_iff h, Module.sections_memory (not_verbatim h), ne_eq, List.map_eq_nil_iff,
    Option.toList_eq_nil_iff, pages_eq_none_iff h]

/-- The text of a module declares a memory exactly if the program has an array literal. An
instruction in it touches memory exactly if the program has an array literal, a length or an element
of an array. So a module that touches memory declares it exactly if a program with lengths or
elements has an array literal, too. -/
theorem memory_declared_iff (h : p.compile.outcome = .ok (m, map)) :
    (m.sections "memory" ≠ [] ↔ ∃ e ∈ p.nodes, e.isArray = true) ∧
    (m.TouchesMemory ↔ ∃ e ∈ p.nodes, e.isArray = true ∨ e.isPart = true) ∧
    ((m.TouchesMemory → m.sections "memory" ≠ []) ↔
      ((∃ e ∈ p.nodes, e.isPart = true) → ∃ e ∈ p.nodes, e.isArray = true)) := by
  have hmemory := memory_iff h
  have htouches := touchesMemory_iff h
  refine ⟨hmemory, htouches, ?_⟩
  rw [hmemory, htouches]
  constructor
  · rintro hdeclared ⟨e, he, hpart⟩
    exact hdeclared ⟨e, he, .inr hpart⟩
  · rintro hparts ⟨e, he, harray | hpart⟩
    · exact ⟨e, he, harray⟩
    · exact hparts ⟨e, he, hpart⟩

/-- A function that gives the length of an array that is its parameter. -/
def parameterLength : Program where
  body := .plain (.statements [.plain (.assign (.plain (.ident "len"))
    (.plain (.function ["buf", "n"] (some .int) none
      (.plain (.index (.plain (.ident "buf")) none))
      ⟨[⟨"buf", { kind := .pointer, storage := .parameter }⟩,
        ⟨"n", { kind := .int, storage := .parameter }⟩]⟩)))])
  scope := ⟨[⟨"len", { kind := .function, storage := .globalVar }⟩]⟩

/-- Its module reads memory and declares none. -/
theorem parameterLength_undeclared : ∃ m map, parameterLength.compile.outcome = .ok (m, map) ∧
    m.TouchesMemory ∧ m.sections "memory" = [] ∧
    ¬(m.TouchesMemory → m.sections "memory" ≠ []) := by
  obtain ⟨hmemory, htouches, hboth⟩ := @memory_declared_iff parameterLength _ _ rfl
  have harray : ¬∃ e ∈ parameterLength.nodes, e.isArray = true := by decide
  have hpart : ∃ e ∈ parameterLength.nodes, e.isPart = true := by decide
  refine ⟨_, _, rfl, ?_, not_not.1 (mt hmemory.1 harray), fun hdeclared => ?_⟩
  · obtain ⟨e, he, hpart⟩ := hpart
    exact htouches.2 ⟨e, he, .inr hpart⟩
  · exact harray (hboth.1 hdeclared hpart)

end Program

end PatchCompiler
