import Mathlib.Logic.Relation
import PatchCompiler.Tree.Frame

/-! # The nodes of a program and the scopes around them

A node of a program stands inside the scopes of the functions and blocks on the way to it.
`Program.Holds` says which nodes a program has, each with these scopes. The compiler works on the
tree in which every scope has its place; `Program.Locates` says the same about that tree, whose
nodes are those of the program. -/

namespace PatchCompiler

section Parts

variable {σ : Type}

/-- The expressions directly below a node. -/
def Node.parts : Node σ → List (Expr σ)
  | .statements items => items
  | .sequence items => items
  | .floatLit _ => []
  | .intLit _ => []
  | .ident _ => []
  | .function _ _ prologue body _ => prologue.toList ++ [body]
  | .block body _ => [body]
  | .call _ args => args
  | .neg operand => [operand]
  | .binary _ left right => [left, right]
  | .compare _ left right => [left, right]
  | .step _ target => [target]
  | .compound _ target value => [target, value]
  | .clamp value bounds => [value, bounds]
  | .range start stop => start.toList ++ stop.toList
  | .array members => members
  | .index object position => object :: position.toList
  | .field object _ => [object]
  | .assign target value => [target, value]
  | .loop cond body => [cond, body]

/-- The scope that a node opens around the expressions below it. -/
def Node.scope? : Node σ → Option σ
  | .function _ _ _ _ scope => some scope
  | .block _ scope => some scope
  | _ => none

/-- One expression stands directly below another. -/
def Expr.PartOf (part e : Expr σ) : Prop := part ∈ e.node.parts

/-- One expression stands somewhere below another. -/
def Expr.Below : Expr σ → Expr σ → Prop := Relation.TransGen Expr.PartOf

/-- The parts of a node are smaller than the node. -/
theorem Node.sizeOf_lt_of_mem_parts {node : Node σ} {part : Expr σ} (h : part ∈ node.parts) :
    sizeOf part < sizeOf node := by
  have hlist : ∀ items : List (Expr σ), part ∈ items → sizeOf part < sizeOf items :=
    fun _ => List.sizeOf_lt_of_mem
  have hoption : ∀ item : Option (Expr σ), part ∈ item.toList → sizeOf part < sizeOf item := by
    intro item hitem
    cases item with
    | none => cases hitem
    | some e =>
      cases List.mem_singleton.1 hitem
      simp
  -- a part is the node's own, one of a list, or one that may be missing
  cases node <;> grind [Node.parts]

/-- What holds of an expression whenever it holds of all below it holds of every expression. -/
theorem Expr.below_induction {motive : Expr σ → Prop}
    (step : ∀ e, (∀ part, part.Below e → motive part) → motive e) (e : Expr σ) : motive e := by
  have hsize : ∀ {part e : Expr σ}, part.PartOf e → sizeOf part < sizeOf e := by
    rintro part ⟨node, ty, span⟩ h
    calc sizeOf part < sizeOf node := Node.sizeOf_lt_of_mem_parts h
      _ < sizeOf (Expr.mk node ty span) := by simp; omega
  -- what stands somewhere below is smaller, so that the relation is well-founded
  have hwf : WellFounded (@Expr.PartOf σ) := Subrelation.wf hsize (measure sizeOf).wf
  exact hwf.transGen.induction e step

end Parts

/-- A program has a node, inside these scopes from the innermost to the outermost. -/
inductive Program.Holds (p : Program) : List Scope → Expr Scope → Prop
  | body : p.Holds [p.scope] p.body
  | part {scopes : List Scope} {part e : Expr Scope} : p.Holds scopes e → part.PartOf e →
    p.Holds (e.node.scope?.toList ++ scopes) part

/-! ## Nodes whose scopes have their places -/

namespace Expr

/-- Locating the scopes of an expression keeps its span. -/
@[simp] theorem span_locate (site : Site) (e : Expr Scope) : (e.locate site).span = e.span := by
  cases e
  rfl

/-- The node of a located expression is located. -/
@[simp] theorem node_locate (site : Site) (e : Expr Scope) :
    (e.locate site).node = e.node.locate site := by
  cases e
  rfl

/-- Locating the scopes of an expression keeps its label. -/
@[simp] theorem label_locate (site : Site) (e : Expr Scope) : (e.locate site).label = e.label := by
  unfold label
  rw [node_locate]
  cases e.node <;> rfl

/-- A name is the same name in both trees. -/
theorem ident_of_locate {site : Site} {e : Expr Scope} {x : String}
    (h : (e.locate site).node = .ident x) : e.node = .ident x := by
  rw [node_locate] at h
  cases hnode : e.node <;> rw [hnode] at h <;> cases h
  rfl

/-- A function has the same parameters and the same scope in both trees. -/
theorem function_of_locate {site : Site} {e : Expr Scope} {params : List String}
    {result : Option Kind} {prologue : Option (Expr Frame)} {body : Expr Frame} {frame : Frame}
    (h : (e.locate site).node = .function params result prologue body frame) :
    ∃ prologue body, e.node = .function params result prologue body frame.scope := by
  rw [node_locate] at h
  cases hnode : e.node <;> rw [hnode] at h <;> cases h
  exact ⟨_, _, rfl⟩

/-- A node opens the same scope in both trees. -/
theorem scope?_locate (site : Site) (e : Expr Scope) :
    (e.locate site).node.scope?.toList.map Frame.scope = e.node.scope?.toList := by
  rw [node_locate]
  cases e.node <;> rfl

/-- A located list holds located expressions. -/
theorem mem_locateList {site : Site} {first : Nat} {items : List (Expr Scope)} {e : Expr Frame}
    (h : e ∈ Expr.locateList site first items) : ∃ i, ∃ e' ∈ items, e = e'.locate (i :: site) := by
  induction items generalizing first with
  | nil => cases h
  | cons e' rest ih =>
    rcases List.mem_cons.1 h with rfl | h
    · exact ⟨first, e', List.mem_cons_self, rfl⟩
    · obtain ⟨i, e', he', rfl⟩ := ih h
      exact ⟨i, e', List.mem_cons_of_mem _ he', rfl⟩

/-- A located optional expression is one that is located. -/
theorem mem_locateOption {site : Site} {item : Option (Expr Scope)} {e : Expr Frame}
    (h : e ∈ (Expr.locateOption site item).toList) : ∃ e' ∈ item.toList, e = e'.locate site := by
  cases item with
  | none => cases h
  | some e' =>
    cases List.mem_singleton.1 h
    exact ⟨e', List.mem_singleton_self e', rfl⟩

/-- What stands directly below a node whose scopes have their places is a part of that node. -/
theorem mem_parts_locate {site : Site} {node : Node Scope} {c : Expr Frame}
    (h : c ∈ (node.locate site).parts) : ∃ site', ∃ c' ∈ node.parts, c = c'.locate site' := by
  cases node with
  -- literals and names have no parts; the others differ in how many there are
  | floatLit _ | intLit _ | ident _ => cases h
  | statements _ | sequence _ | call _ _ | array _ =>
    obtain ⟨i, c', hc', rfl⟩ := mem_locateList h
    exact ⟨_, c', hc', rfl⟩
  | block _ _ | neg _ | step _ _ | field _ _ =>
    cases List.mem_singleton.1 h
    exact ⟨_, _, List.mem_singleton_self _, rfl⟩
  | binary _ left right | compare _ left right | compound _ left right | clamp left right
  | assign left right | loop left right =>
    rcases List.mem_cons.1 h with rfl | h
    · exact ⟨_, left, List.mem_cons_self, rfl⟩
    · cases List.mem_singleton.1 h
      exact ⟨_, right, List.mem_cons_of_mem _ List.mem_cons_self, rfl⟩
  | function params result prologue body scope =>
    rcases List.mem_append.1 h with h | h
    · obtain ⟨c', hc', rfl⟩ := mem_locateOption h
      exact ⟨_, c', List.mem_append_left _ hc', rfl⟩
    · cases List.mem_singleton.1 h
      exact ⟨_, body, List.mem_append_right _ List.mem_cons_self, rfl⟩
  | range start stop =>
    rcases List.mem_append.1 h with h | h
    · obtain ⟨c', hc', rfl⟩ := mem_locateOption h
      exact ⟨_, c', List.mem_append_left _ hc', rfl⟩
    · obtain ⟨c', hc', rfl⟩ := mem_locateOption h
      exact ⟨_, c', List.mem_append_right _ hc', rfl⟩
  | index array index =>
    rcases List.mem_cons.1 h with rfl | h
    · exact ⟨_, array, List.mem_cons_self, rfl⟩
    · obtain ⟨c', hc', rfl⟩ := mem_locateOption h
      exact ⟨_, c', List.mem_cons_of_mem _ hc', rfl⟩

/-- The parts of a located expression are located parts. -/
theorem PartOf.of_locate {site : Site} {e : Expr Scope} {c : Expr Frame}
    (h : c.PartOf (e.locate site)) :
    ∃ site', ∃ c' : Expr Scope, c = c'.locate site' ∧ c'.PartOf e := by
  unfold PartOf at h
  rw [node_locate] at h
  obtain ⟨site', c', hc', rfl⟩ := mem_parts_locate h
  exact ⟨site', c', rfl, hc'⟩

/-- What is below a located expression is located and below it. -/
theorem Below.of_locate {site : Site} {e : Expr Scope} {c : Expr Frame}
    (h : c.Below (e.locate site)) :
    ∃ site', ∃ c' : Expr Scope, c = c'.locate site' ∧ c'.Below e := by
  -- one step at a time from the lower end: the upper end is the expression with places
  induction h using Relation.TransGen.head_induction_on with
  | single h =>
    obtain ⟨site', c', rfl, hc'⟩ := h.of_locate
    exact ⟨site', c', rfl, .single hc'⟩
  | head h _ ih =>
    obtain ⟨_, d, rfl, hd⟩ := ih
    obtain ⟨site', c', rfl, hc'⟩ := h.of_locate
    exact ⟨site', c', rfl, .head hc' hd⟩

end Expr

/-- The tree in which the scopes of a program have their places has a node, inside these scopes. -/
def Program.Locates (p : Program) (frames : List Frame) (e : Expr Frame) : Prop :=
  ∃ site origin, e = origin.locate site ∧ p.Holds (frames.map Frame.scope) origin

namespace Program.Locates

variable {p : Program} {frames : List Frame} {e c : Expr Frame}

/-- A program has its body, inside the top-level scope. -/
theorem body (p : Program) : p.Locates [⟨[], p.scope⟩] (p.body.locate [0]) :=
  ⟨[0], p.body, rfl, .body⟩

/-- A program has the parts of each of its nodes, inside the scope that the node opens. -/
theorem part (h : p.Locates frames e) (hc : c.PartOf e) :
    p.Locates (e.node.scope?.toList ++ frames) c := by
  obtain ⟨site, origin, rfl, horigin⟩ := h
  obtain ⟨site', c', rfl, hc'⟩ := hc.of_locate
  refine ⟨site', c', rfl, ?_⟩
  rw [List.map_append, Expr.scope?_locate]
  exact horigin.part hc'

end Program.Locates

end PatchCompiler
