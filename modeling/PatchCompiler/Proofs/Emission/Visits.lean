import Mathlib.Algebra.BigOperators.Group.List.Basic
import Mathlib.Algebra.GroupWithZero.Nat
import PatchCompiler.Proofs.Locals.Distinct

/-! # The nodes that the compiler comes to

`Expr.nodes` lists the nodes of an expression, each of them once. `Expr.visits` lists them as the
compiler comes to them, each with the meaning of names at its place. The two differ in one point:
the array of an element that is assigned to is compiled twice, once for its address and once for its
length. Main statement: what the visits sum up to is what the nodes sum up to and, on top of it,
what the arrays of such assignments do. -/

namespace PatchCompiler

/-! ## Nodes -/

mutual

/-- The nodes of an expression, the expression itself first. -/
def Expr.nodes : Expr Frame → List (Expr Frame)
  | .mk node ty span => .mk node ty span :: node.nodes

/-- The nodes below a node. -/
def Node.nodes : Node Frame → List (Expr Frame)
  | .statements items => Expr.nodesList items
  | .sequence items => Expr.nodesList items
  | .floatLit _ => []
  | .intLit _ => []
  | .ident _ => []
  | .function _ _ prologue body _ => Expr.nodesOption prologue ++ body.nodes
  | .block body _ => body.nodes
  | .call _ args => Expr.nodesList args
  | .neg operand => operand.nodes
  | .binary _ left right => left.nodes ++ right.nodes
  | .compare _ left right => left.nodes ++ right.nodes
  | .step _ target => target.nodes
  | .compound _ target value => target.nodes ++ value.nodes
  | .clamp value range => value.nodes ++ range.nodes
  | .range start stop => Expr.nodesOption stop ++ Expr.nodesOption start
  | .array members => Expr.nodesList members
  | .index array index => array.nodes ++ Expr.nodesOption index
  | .field object _ => object.nodes
  | .assign target value => value.nodes ++ target.nodes
  | .loop cond body => cond.nodes ++ body.nodes

/-- The nodes of a list of expressions. -/
def Expr.nodesList : List (Expr Frame) → List (Expr Frame)
  | [] => []
  | e :: rest => e.nodes ++ Expr.nodesList rest

/-- The nodes of an expression that may be missing. -/
def Expr.nodesOption : Option (Expr Frame) → List (Expr Frame)
  | none => []
  | some e => e.nodes

end

/-- The array of an element that a node assigns to. -/
def Node.storedArray? : Node Frame → Option (Expr Frame)
  | .assign (.mk (.index stored (some _)) _ _) _ => some stored
  | .assign (.mk (.field stored _) _ _) _ => some stored
  | _ => none

/-- The array of an element that an expression assigns to. -/
def Expr.storedArray? (e : Expr Frame) : Option (Expr Frame) := e.node.storedArray?

/-! ## Visits -/

/-- A node that the compiler comes to. -/
structure Visit where
  /-- What names stand for at the node. -/
  env : Env
  /-- The name that the node gets if it is a function definition. -/
  name : Option String
  /-- The node with what is below it. -/
  expr : Expr Frame

/-- A visit and those below it. A function definition is dealt with when all that is in it has been,
any other node at once. -/
def Visit.with (v : Visit) (below : List Visit) : List Visit :=
  if v.expr.isFunction then below ++ [v] else v :: below

mutual

/-- The nodes of an expression in the order in which the compiler deals with them. -/
def Expr.visits : Env → Option String → Expr Frame → List Visit
  | env, name, .mk node ty span => Visit.with ⟨env, name, .mk node ty span⟩ (node.visits env)

/-- The nodes below a node in the order in which the compiler deals with them. -/
def Node.visits : Env → Node Frame → List Visit
  | env, .statements items => Expr.visitsList env items
  | env, .sequence items => Expr.visitsList env items
  | _, .floatLit _ => []
  | _, .intLit _ => []
  | _, .ident _ => []
  | env, .function _ _ prologue body frame =>
    Expr.visitsOption (env.enter frame) prologue ++ body.visits (env.enter frame) none
  | env, .block body frame => body.visits (env.enter frame) none
  | env, .call _ args => Expr.visitsList env args
  | env, .neg operand => operand.visits env none
  | env, .binary _ left right => left.visits env none ++ right.visits env none
  | env, .compare _ left right => left.visits env none ++ right.visits env none
  | env, .step _ target => target.visits env none
  | env, .compound _ target value => target.visits env none ++ value.visits env none
  | env, .clamp value range => value.visits env none ++ range.visits env none
  | env, .range start stop => Expr.visitsOption env stop ++ Expr.visitsOption env start
  | env, .array members => Expr.visitsList env members
  | env, .index array index => array.visits env none ++ Expr.visitsOption env index
  | env, .field object _ => object.visits env none
  | env, .assign target value =>
    value.visits env (if value.isFunction then target.identifier? else none)
      ++ (target.visits env none ++ target.visitsAgain env)
  | env, .loop cond body => cond.visits env none ++ body.visits env none

/-- What is compiled a second time if an expression is assigned to. -/
def Expr.visitsAgain : Env → Expr Frame → List Visit
  | env, .mk (.index array (some _)) _ _ => array.visits env none
  | env, .mk (.field object _) _ _ => object.visits env none
  | _, _ => []

/-- The nodes of a list of expressions. -/
def Expr.visitsList : Env → List (Expr Frame) → List Visit
  | _, [] => []
  | env, e :: rest => e.visits env none ++ Expr.visitsList env rest

/-- The nodes of an expression that may be missing. -/
def Expr.visitsOption : Env → Option (Expr Frame) → List Visit
  | _, none => []
  | env, some e => e.visits env none

end

/-- The nodes that the compiler comes to in a list of expressions are those of each of them. -/
theorem Expr.visitsList_eq_flatMap (env : Env) (es : List (Expr Frame)) :
    Expr.visitsList env es = es.flatMap (Expr.visits env none) := by
  induction es with
  | nil => rfl
  | cons e rest ih => rw [Expr.visitsList, ih, List.flatMap_cons]

/-- An expression that may be missing is a list of at most one expression. -/
theorem Expr.visitsOption_eq (env : Env) (e : Option (Expr Frame)) :
    Expr.visitsOption env e = Expr.visitsList env e.toList := by
  cases e with
  | none => rfl
  | some e => exact (List.append_nil _).symm

/-- The nodes of a task in the order in which the compiler deals with them. -/
def Task.visits (env : Env) : Task → List Visit
  | .expr e name => e.visits env name
  | .operand e _ => e.visits env none
  | .list es => Expr.visitsList env es
  | .args _ es => Expr.visitsList env es
  | .pair _ left right => left.visits env none ++ right.visits env none
  | .position (.computed index) => index.visits env none
  | .position (.fixed _) => []
  | .members _ _ layout => Expr.visitsList env (Member.exprs layout)
  | .definition header prologue body =>
    Expr.visitsList (env.enter header.frame) prologue.toList
      ++ body.visits (env.enter header.frame) none

namespace Program

variable (p : Program)

/-- The nodes of a program. -/
def nodes : List (Expr Frame) := (p.body.locate [0]).nodes

/-- The nodes of a program in the order in which the compiler deals with them. -/
def visits : List Visit :=
  (p.body.locate [0]).visits (Env.enter (fun _ => none) ⟨[], p.scope⟩) none

end Program

namespace Visit

/-- A visit with those below it holds itself and them. -/
theorem mem_with {v x : Visit} {below : List Visit} : x ∈ v.with below ↔ x = v ∨ x ∈ below := by
  unfold Visit.with
  split
  · rw [List.mem_append, List.mem_singleton, or_comm]
  · rw [List.mem_cons]

/-- A visit with those below it sums up to its own value and theirs. -/
theorem sum_with (w : Visit → Nat) (v : Visit) (below : List Visit) :
    ((v.with below).map w).sum = w v + (below.map w).sum := by
  unfold Visit.with
  split
  · rw [List.map_append, List.sum_append, List.map_singleton, List.sum_singleton, Nat.add_comm]
  · rw [List.map_cons, List.sum_cons]

end Visit

/-! ## Which nodes are visited, and how often -/

/-- What a function of the nodes sums up to over the visits. -/
def Expr.total (w : Expr Frame → Nat) (e : Expr Frame) : Nat :=
  ((e.visits (fun _ => none) none).map fun v => w v.expr).sum

/-- What the second visit of the array adds if a node assigns to an element. -/
def Node.extra (node : Node Frame) (w : Expr Frame → Nat) : Nat :=
  (node.storedArray?.map (Expr.total w)).getD 0

/-- Visits come to nodes and to no others. They sum up to what the nodes do, each with what it adds
by compiling its array twice, and to something more. -/
structure Tallies (nodes : List (Expr Frame)) (more : (Expr Frame → Nat) → Nat)
    (visits : List Visit) : Prop where
  /-- The nodes that are visited. -/
  mem : ∀ x, (∃ v ∈ visits, v.expr = x) ↔ x ∈ nodes
  /-- What the visits sum up to. -/
  sum : ∀ w, (visits.map fun v => w v.expr).sum
    = (nodes.map fun x => w x + x.node.extra w).sum + more w

namespace Tallies

variable {nodes nodes' : List (Expr Frame)} {visits visits' : List Visit}

/-- Where there are no nodes, none is visited. -/
theorem nil : Tallies [] (fun _ => 0) [] := ⟨by simp, fun _ => rfl⟩

/-- One expression after another. -/
theorem append (h : Tallies nodes (fun _ => 0) visits) (h' : Tallies nodes' (fun _ => 0) visits') :
    Tallies (nodes ++ nodes') (fun _ => 0) (visits ++ visits') := by
  refine ⟨fun x => ?_, fun w => ?_⟩
  · simp only [List.mem_append, or_and_right, exists_or, h.mem, h'.mem]
  · rw [List.map_append, List.sum_append, h.sum, h'.sum, List.map_append, List.sum_append]
    rfl

/-- A node and what is below it. -/
theorem node {node : Node Frame} (h : Tallies node.nodes node.extra visits) (env : Env)
    (name : Option String) (ty : Option Kind) (span : Span) :
    Tallies (.mk node ty span :: node.nodes) (fun _ => 0)
      (Visit.with ⟨env, name, .mk node ty span⟩ visits) := by
  refine ⟨fun x => ?_, fun w => ?_⟩
  · simp only [Visit.mem_with, List.mem_cons, or_and_right, exists_or, exists_eq_left, h.mem]
    rw [eq_comm]
  · rw [Visit.sum_with, h.sum, List.map_cons, List.sum_cons]
    show w (.mk node ty span) + (_ + node.extra w) = w (.mk node ty span) + node.extra w + _
    omega

/-- Visits of nodes that have been visited, one time more. -/
theorem again {more : (Expr Frame → Nat) → Nat} (h : Tallies nodes (fun _ => 0) visits)
    (hmem : ∀ v ∈ visits', v.expr ∈ nodes)
    (hsum : ∀ w, (visits'.map fun v => w v.expr).sum = more w) :
    Tallies nodes more (visits ++ visits') := by
  refine ⟨fun x => ?_, fun w => ?_⟩
  · simp only [List.mem_append, or_and_right, exists_or, h.mem, or_iff_left_iff_imp]
    rintro ⟨v, hv, rfl⟩
    exact hmem v hv
  · rw [List.map_append, List.sum_append, h.sum, hsum]
    rfl

end Tallies

mutual

/-- The compiler comes to the nodes of an expression, and to some of them more than once. -/
theorem Expr.tallies : ∀ (e : Expr Frame) (env : Env) (name : Option String),
    Tallies e.nodes (fun _ => 0) (e.visits env name)
  | .mk node ty span, env, name => (node.tallies env).node env name ty span

/-- The visits of a node come to the nodes below it. -/
theorem Node.tallies : ∀ (node : Node Frame) (env : Env),
    Tallies node.nodes node.extra (node.visits env)
  | .statements items, env => Expr.talliesList items env
  | .sequence items, env => Expr.talliesList items env
  | .floatLit _, _ => .nil
  | .intLit _, _ => .nil
  | .ident _, _ => .nil
  | .function _ _ prologue body frame, env =>
    (Expr.talliesOption prologue (env.enter frame)).append (body.tallies (env.enter frame) none)
  | .block body frame, env => body.tallies (env.enter frame) none
  | .call _ args, env => Expr.talliesList args env
  | .neg operand, env => operand.tallies env none
  | .binary _ left right, env => (left.tallies env none).append (right.tallies env none)
  | .compare _ left right, env => (left.tallies env none).append (right.tallies env none)
  | .step _ target, env => target.tallies env none
  | .compound _ target value, env => (target.tallies env none).append (value.tallies env none)
  | .clamp value range, env => (value.tallies env none).append (range.tallies env none)
  | .range start stop, env => (Expr.talliesOption stop env).append (Expr.talliesOption start env)
  | .array members, env => Expr.talliesList members env
  | .index array index, env => (array.tallies env none).append (Expr.talliesOption index env)
  | .field object _, env => object.tallies env none
  | .assign target value, env => by
    have honce := (value.tallies env (if value.isFunction then target.identifier? else none)).append
      (target.tallies env none)
    -- value and target are compiled once, and the array of the target once more
    obtain ⟨hmem, hsum⟩ := target.tallies_again env value
    rw [Node.visits, ← List.append_assoc]
    exact honce.again (fun v hv => List.mem_append_right _ (hmem v hv)) hsum
  | .loop cond body, env => (cond.tallies env none).append (body.tallies env none)

/-- What is compiled a second time is the array of an element that is assigned to. -/
theorem Expr.tallies_again : ∀ (target : Expr Frame) (env : Env) (value : Expr Frame),
    (∀ v ∈ target.visitsAgain env, v.expr ∈ target.nodes) ∧
      ∀ w, ((target.visitsAgain env).map fun v => w v.expr).sum = (Node.assign target value).extra w
  | .mk node ty span, env, value => by
    cases node with
    | index array index =>
      cases index with
      | none => exact ⟨by simp [Expr.visitsAgain], fun _ => rfl⟩
      | some index =>
        have harray := array.tallies env none
        refine ⟨fun v hv => ?_, fun w => ?_⟩
        · exact List.mem_cons_of_mem _
            (List.mem_append_left _ ((harray.mem _).1 ⟨v, hv, rfl⟩))
        · -- the array sums up to the same whatever names stand for
          exact (harray.sum w).trans ((array.tallies _ none).sum w).symm
    | field object _ =>
      have hobject := object.tallies env none
      refine ⟨fun v hv => ?_, fun w => ?_⟩
      · exact List.mem_cons_of_mem _ ((hobject.mem _).1 ⟨v, hv, rfl⟩)
      · exact (hobject.sum w).trans ((object.tallies _ none).sum w).symm
    | _ => exact ⟨by simp [Expr.visitsAgain], fun _ => rfl⟩

/-- The visits of a list come to the nodes of its expressions. -/
theorem Expr.talliesList : ∀ (es : List (Expr Frame)) (env : Env),
    Tallies (Expr.nodesList es) (fun _ => 0) (Expr.visitsList env es)
  | [], _ => .nil
  | e :: rest, env => (e.tallies env none).append (Expr.talliesList rest env)

/-- The visits of an optional expression come to its nodes. -/
theorem Expr.talliesOption : ∀ (e : Option (Expr Frame)) (env : Env),
    Tallies (Expr.nodesOption e) (fun _ => 0) (Expr.visitsOption env e)
  | none, _ => .nil
  | some e, env => e.tallies env none

end

/-- The compiler comes to the nodes of an expression, and to no others. -/
theorem Expr.mem_visits {e x : Expr Frame} {env : Env} {name : Option String} :
    (∃ v ∈ e.visits env name, v.expr = x) ↔ x ∈ e.nodes :=
  (e.tallies env name).mem x

/-- Nothing is added if nothing in the array counts. -/
theorem Node.extra_eq_zero_iff {w : Expr Frame → Nat} {node : Node Frame} :
    node.extra w = 0 ↔ ∀ array ∈ node.storedArray?, ∀ x ∈ array.nodes, w x = 0 := by
  unfold Node.extra
  cases node.storedArray? with
  | none => simp
  | some array =>
    simp only [Option.map_some, Option.getD_some, Expr.total, List.sum_eq_zero_iff_forall_eq_nat,
      List.forall_mem_map, Option.mem_some_iff, forall_eq']
    constructor
    · intro h x hx
      obtain ⟨v, hv, rfl⟩ := Expr.mem_visits.2 hx
      exact h v hv
    · exact fun h v hv => h v.expr (Expr.mem_visits.1 ⟨v, hv, rfl⟩)

/-- The visits of an expression sum up to the same as its nodes exactly if nothing counts in the
array of an element that is assigned to. -/
theorem Expr.sum_visits_eq_iff {w : Expr Frame → Nat} {e : Expr Frame} {env : Env}
    {name : Option String} :
    ((e.visits env name).map fun v => w v.expr).sum = (e.nodes.map w).sum ↔
      ∀ store ∈ e.nodes, ∀ array ∈ store.storedArray?, ∀ x ∈ array.nodes, w x = 0 := by
  -- the second visits add up apart from the first ones
  have hsplit : (e.nodes.map fun x => w x + x.node.extra w).sum
      = (e.nodes.map w).sum + (e.nodes.map fun x => x.node.extra w).sum := List.sum_map_add
  rw [(e.tallies env name).sum, Nat.add_zero, hsplit, Nat.add_eq_left,
    List.sum_eq_zero_iff_forall_eq_nat, List.forall_mem_map]
  simp only [Node.extra_eq_zero_iff, Expr.storedArray?]

end PatchCompiler
