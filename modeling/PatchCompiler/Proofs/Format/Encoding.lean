import PatchCompiler.Format.Program
import PatchCompiler.Proofs.Json.Containers

/-! # Reading back the text of a program

Reading the text that `Program.toJson` gives leads back to the program, if its containers nest no
deeper than the reader allows. The only values of a program that this leaves open are its decimal
literals: each one has to be read back by itself. -/

namespace PatchCompiler

open Json (Value Reader Takes Fills)

/-! ## Names of alternatives -/

/-- Every kind is found by its name. -/
theorem Kind.lookup_names (kind : Kind) : Kind.names.lookup kind.name = some kind := by
  cases kind <;> rfl

/-- Every storage class is found by its name. -/
theorem Storage.lookup_names (storage : Storage) :
    Storage.names.lookup storage.name = some storage := by
  cases storage <;> rfl

/-- Every binary operator is found by its name. -/
theorem BinaryOp.lookup_names (op : BinaryOp) : BinaryOp.names.lookup op.name = some op := by
  cases op <;> rfl

/-- Every comparison is found by its name. -/
theorem CompareOp.lookup_names (op : CompareOp) : CompareOp.names.lookup op.name = some op := by
  cases op <;> rfl

/-- Every step operator is found by its name. -/
theorem StepOp.lookup_names (op : StepOp) : StepOp.names.lookup op.name = some op := by
  cases op <;> rfl

/-- Every compound operator is found by its name. -/
theorem CompoundOp.lookup_names (op : CompoundOp) : CompoundOp.names.lookup op.name = some op := by
  cases op <;> rfl

/-- Every form of node is found by its name. -/
theorem NodeForm.lookup_names (form : NodeForm) : NodeForm.names.lookup form.name = some form := by
  cases form <;> rfl

/-! ## Parts of a program -/

/-- A kind is read back from its text. -/
theorem Kind.takes (kind : Kind) (levels : Nat) : Takes (readKind levels) kind.toJson kind :=
  .enumeration levels kind.lookup_names

/-- A kind that may be missing is read back from its text. -/
theorem Kind.takes_option (kind : Option Kind) (levels : Nat) :
    Takes (Json.optional (readKind levels)) (.ofOption Kind.toJson kind) kind := by
  cases kind with
  | none => exact .optional_none _
  | some kind => exact (kind.takes levels).optional_some (Value.marked_string _)

/-- A span is read back from its text. -/
theorem Span.takes (span : Span) {levels : Nat} (hdepth : span.toJson.depth ≤ levels) :
    Takes (readSpan levels) span.toJson span := by
  refine Takes.record hdepth (fun _ _ => (by decide : ["line", "column", "end_line",
    "end_column"].Nodup)) fun inner _ _ => ?_
  exact .take ((Takes.uint32 span.line).map _) (.take ((Takes.uint32 span.column).map _)
    (.take ((Takes.uint32 span.endLine).map _) (.take ((Takes.uint32 span.endColumn).map _)
      (.done _))))

/-- A binding is read back from its text. -/
theorem Binding.takes (b : Binding) {levels : Nat} (hdepth : b.toJson.depth ≤ levels) :
    Takes (readBinding levels) b.toJson b := by
  refine Takes.flatRecord hdepth (fun _ _ => (by decide : ["name"].Nodup)) ?_ (fun inner _ =>
    .take ((Takes.string b.name).map _) (.keep (.plain_string inner _)
      (.keep (.plain_string inner _) (.keep (.plain_bool inner _) (.done _))))) ?_
  · simp [Json.field]
  · -- the kind and the storage stand among the members that were kept for the record inside
    have kind : Value.toEnumeration Kind.names b.info.kind.toJson = .ok b.info.kind := by
      rw [Kind.toJson, Value.toEnumeration, Json.alternativeOf, Kind.lookup_names]
    have storage : Value.toEnumeration Storage.names (.string b.info.storage.name)
        = .ok b.info.storage := by
      rw [Value.toEnumeration, Json.alternativeOf, Storage.lookup_names]
    simp [Json.takeFields, Json.flatField, kind, storage, Value.toBool, Except.map, bind,
      Except.bind]

/-- A scope is read back from its text, and its bindings in order. -/
theorem Scope.takes (scope : Scope) {levels : Nat} (hdepth : scope.toJson.depth ≤ levels) :
    Takes (readScope levels) scope.toJson scope := by
  refine Takes.record hdepth (fun _ _ => (by decide : ["bindings"].Nodup)) fun inner _ fits => ?_
  have hbindings := fits _ List.mem_cons_self
  refine .take (Takes.map _ (Takes.list hbindings fun inner _ b _ hb => ⟨b.takes hb, ?_⟩)) (.done _)
  exact Value.marked_object _

/-! ## Expressions -/

mutual

/-- The decimal literals in an expression. -/
def Expr.floats : Expr Scope → List Binary64
  | .mk node _ _ => node.floats

/-- The decimal literals in a node. -/
def Node.floats : Node Scope → List Binary64
  | .statements items => Expr.floatsList items
  | .sequence items => Expr.floatsList items
  | .floatLit value => [value]
  | .intLit _ => []
  | .ident _ => []
  | .function _ _ prologue body _ => Expr.floatsOption prologue ++ body.floats
  | .block body _ => body.floats
  | .call _ args => Expr.floatsList args
  | .neg operand => operand.floats
  | .binary _ left right => left.floats ++ right.floats
  | .compare _ left right => left.floats ++ right.floats
  | .step _ target => target.floats
  | .compound _ target value => target.floats ++ value.floats
  | .clamp value range => value.floats ++ range.floats
  | .range start stop => Expr.floatsOption start ++ Expr.floatsOption stop
  | .array members => Expr.floatsList members
  | .index array index => array.floats ++ Expr.floatsOption index
  | .field object _ => object.floats
  | .assign target value => target.floats ++ value.floats
  | .loop cond body => cond.floats ++ body.floats

/-- The decimal literals in a list of expressions. -/
def Expr.floatsList : List (Expr Scope) → List Binary64
  | [] => []
  | e :: rest => e.floats ++ Expr.floatsList rest

/-- The decimal literals in an expression that may be missing. -/
def Expr.floatsOption : Option (Expr Scope) → List Binary64
  | none => []
  | some e => e.floats

end

/-- All of the numbers are read back from their texts. -/
def Kept (floats : List Binary64) : Prop := ∀ x ∈ floats, Takes Json.float (.float x) x

/-- If all of the numbers are kept, the first ones are. -/
theorem Kept.left {first second : List Binary64} (h : Kept (first ++ second)) : Kept first :=
  fun x hx => h x (List.mem_append_left second hx)

/-- If all of the numbers are kept, the last ones are. -/
theorem Kept.right {first second : List Binary64} (h : Kept (first ++ second)) : Kept second :=
  fun x hx => h x (List.mem_append_right first hx)

/-- The expression is read back by a reader that allows as many levels as it needs. -/
def Expr.Recovered (e : Expr Scope) : Prop :=
  ∀ levels, e.toJson.depth ≤ levels → Takes (readExpr levels) e.toJson e

/-- The text of an expression is that of an object. -/
theorem Expr.marked (e : Expr Scope) : e.toJson.Marked := by
  cases e
  exact Value.marked_object _

/-- A list of expressions is encoded one by one. -/
theorem Expr.listToJson_eq_map (es : List (Expr Scope)) :
    Expr.listToJson es = es.map Expr.toJson := by
  induction es with
  | nil => rfl
  | cons e es ih => rw [Expr.listToJson, ih, List.map_cons]

/-- A list is read back if each of its expressions is. -/
theorem Expr.takes_list {es : List (Expr Scope)} (h : ∀ e ∈ es, e.Recovered) {levels : Nat}
    (hdepth : (Value.list (Expr.listToJson es)).depth ≤ levels) :
    Takes (Json.list levels fun inner _ => readExpr inner) (.list (Expr.listToJson es)) es := by
  rw [Expr.listToJson_eq_map] at hdepth ⊢
  exact .list hdepth fun inner _ e he fits => ⟨h e he inner fits, e.marked⟩

/-- An expression that may be missing is read back if it is when it is there. -/
theorem Expr.takes_option {o : Option (Expr Scope)} (h : ∀ e ∈ o, e.Recovered) {levels : Nat}
    (hdepth : (Expr.optionToJson o).depth ≤ levels) :
    Takes (Json.optional (readExpr levels)) (Expr.optionToJson o) o := by
  cases o with
  | none => exact .optional_none _
  | some e => exact (h e rfl levels hdepth).optional_some e.marked

/-- An object with two fields is read back if both of their values are. -/
theorem takes_pair {α β : Type} {levels : Nat} {expected : String} {blank : α × β}
    {first second : String} {left : (inner : Nat) → inner < levels → Reader α}
    {right : (inner : Nat) → inner < levels → Reader β} {v w : Value} {a : α} {b : β}
    (hdepth : (Value.object [(first, v), (second, w)]).depth ≤ levels) (hne : first ≠ second)
    (hleft : ∀ inner bound, v.depth ≤ inner → Takes (left inner bound) v a)
    (hright : ∀ inner bound, w.depth ≤ inner → Takes (right inner bound) w b) :
    Takes (readPair levels expected blank first second left right)
      (.object [(first, v), (second, w)]) (a, b) := by
  refine Takes.record hdepth (fun _ _ => (by simpa using hne : [first, second].Nodup))
    fun inner bound fits => ?_
  rw [List.forall_mem_cons, List.forall_mem_singleton] at fits
  exact .take ((hleft inner bound fits.1).map _)
    (.take ((hright inner bound fits.2).map _) (.done _))

/-- An operator is read back if its name is known and its operands are read back. -/
theorem takes_operation {τ : Type} {levels : Nat} {expected : String} {names : List (String × τ)}
    {blank op : τ} {name first second : String} {left right : Expr Scope}
    (hdepth : (Value.object [("op", .string name), (first, left.toJson),
      (second, right.toJson)]).depth ≤ levels)
    (hne : ["op", first, second].Nodup) (hname : names.lookup name = some op)
    (hleft : left.Recovered) (hright : right.Recovered) :
    Takes (readOperation levels expected names blank first second fun inner _ => readExpr inner)
      (.object [("op", .string name), (first, left.toJson), (second, right.toJson)])
      (op, left, right) := by
  refine Takes.record hdepth (fun _ _ => hne) fun inner bound fits => ?_
  simp only [List.forall_mem_cons] at fits
  exact .take ((Takes.enumeration inner hname).map _) (.take ((hleft inner fits.2.1).map _)
    (.take ((hright inner fits.2.2.1).map _) (.done _)))

/-- An expression is read with what its node is read as. -/
theorem Expr.takes_mk {node node' : Node Scope}
    (hnode : ∀ levels, node.toJson.depth ≤ levels → Takes (readNode levels) node.toJson node')
    (ty : Option Kind) (span : Span) {levels : Nat}
    (hdepth : (Expr.mk node ty span).toJson.depth ≤ levels) :
    Takes (readExpr levels) (Expr.mk node ty span).toJson (.mk node' ty span) := by
  rw [readExpr]
  cases ty with
  | none =>
    -- a kind that is missing is not written, and its field keeps the default
    refine Takes.record hdepth (fun _ _ => (by decide : ["kind", "ty", "span"].Nodup))
      fun inner _ fits => ?_
    rw [List.forall_mem_cons] at fits
    exact .take ((hnode inner fits.1).map _) (.skip (by simp [Json.field])
      (.take ((span.takes (fits.2 _ List.mem_cons_self)).map _) (.done _)))
  | some kind =>
    refine Takes.record hdepth (fun _ _ => (by decide : ["kind", "ty", "span"].Nodup))
      fun inner _ fits => ?_
    rw [List.forall_mem_cons] at fits
    exact .take ((hnode inner fits.1).map _)
      (.take ((kind.takes inner).optional_some (Value.marked_string _) |>.map _)
        (.take ((span.takes (fits.2 _ (List.mem_cons_of_mem _ List.mem_cons_self))).map _)
          (.done _)))

/-- A decimal literal is read back as whatever its text is read as. -/
theorem Node.takes_floatLit {x y : Binary64} (h : Takes Json.float (.float x) y) {levels : Nat}
    (hdepth : (Node.floatLit x : Node Scope).toJson.depth ≤ levels) :
    Takes (readNode levels) (Node.floatLit x : Node Scope).toJson (.floatLit y) := by
  rw [readNode]
  exact .choice hdepth NodeForm.floatLit.lookup_names fun _ _ _ => h.map _

mutual

/-- An expression is read back if its decimal literals are. -/
theorem Expr.recovered : ∀ e : Expr Scope, Kept e.floats → e.Recovered
  | .mk node ty span, h => fun _ hdepth => Expr.takes_mk (Node.recovered node h) ty span hdepth

/-- A node is read back if its decimal literals are. -/
theorem Node.recovered : ∀ node : Node Scope, Kept node.floats → ∀ levels,
    node.toJson.depth ≤ levels → Takes (readNode levels) node.toJson node
  | .statements items, h, levels, hdepth => by
    have hitems := Expr.recovered_list items h
    rw [readNode]
    exact .choice hdepth NodeForm.statements.lookup_names fun inner _ fits =>
      (Expr.takes_list hitems fits).map _
  | .sequence items, h, levels, hdepth => by
    have hitems := Expr.recovered_list items h
    rw [readNode]
    exact .choice hdepth NodeForm.sequence.lookup_names fun inner _ fits =>
      (Expr.takes_list hitems fits).map _
  | .floatLit value, h, levels, hdepth => Node.takes_floatLit (h value List.mem_cons_self) hdepth
  | .intLit value, _, levels, hdepth => by
    rw [readNode]
    exact .choice hdepth NodeForm.intLit.lookup_names fun _ _ _ => (Takes.int32 value).map _
  | .ident name, _, levels, hdepth => by
    rw [readNode]
    exact .choice hdepth NodeForm.ident.lookup_names fun _ _ _ => (Takes.string name).map _
  | .function params result prologue body scope, h, levels, hdepth => by
    have hprologue := Expr.recovered_option prologue h.left
    have hbody := Expr.recovered body h.right
    rw [readNode]
    refine .choice hdepth NodeForm.function.lookup_names fun inner _ fits =>
      Takes.map (a := (params, result, prologue, body, scope)) _ ?_
    refine Takes.record fits (fun _ _ =>
      (by decide : ["params", "result", "prologue", "body", "scope"].Nodup)) fun inner _ fits => ?_
    simp only [List.forall_mem_cons] at fits
    obtain ⟨fitsParams, -, fitsPrologue, fitsBody, fitsScope, -⟩ := fits
    exact .take ((Takes.list fitsParams fun _ _ name _ _ =>
          ⟨Takes.string name, Value.marked_string name⟩).map _)
      (.take ((Kind.takes_option result inner).map _)
        (.take ((Expr.takes_option hprologue fitsPrologue).map _)
          (.take ((hbody inner fitsBody).map _) (.take ((scope.takes fitsScope).map _) (.done _)))))
  | .block body scope, h, levels, hdepth => by
    have hbody := Expr.recovered body h
    rw [readNode]
    refine .choice hdepth NodeForm.block.lookup_names fun inner _ fits =>
      Takes.map (a := (body, scope)) _ ?_
    refine Takes.record fits (fun _ _ => (by decide : ["body", "scope"].Nodup))
      fun inner _ fits => ?_
    simp only [List.forall_mem_cons] at fits
    exact .take ((hbody inner fits.1).map _) (.take ((scope.takes fits.2.1).map _) (.done _))
  | .call callee args, h, levels, hdepth => by
    have hargs := Expr.recovered_list args h
    rw [readNode]
    exact .choice hdepth NodeForm.call.lookup_names fun inner _ fits =>
      (takes_pair fits (by decide) (fun _ _ _ => Takes.string callee)
        fun _ _ fits => Expr.takes_list hargs fits).map _
  | .neg operand, h, levels, hdepth => by
    have hoperand := Expr.recovered operand h
    rw [readNode]
    exact .choice hdepth NodeForm.neg.lookup_names fun inner _ fits => (hoperand inner fits).map _
  | .binary op left right, h, levels, hdepth => by
    have hleft := Expr.recovered left h.left
    have hright := Expr.recovered right h.right
    rw [readNode]
    exact .choice hdepth NodeForm.binary.lookup_names fun inner _ fits =>
      (takes_operation fits (by decide) op.lookup_names hleft hright).map _
  | .compare op left right, h, levels, hdepth => by
    have hleft := Expr.recovered left h.left
    have hright := Expr.recovered right h.right
    rw [readNode]
    exact .choice hdepth NodeForm.compare.lookup_names fun inner _ fits =>
      (takes_operation fits (by decide) op.lookup_names hleft hright).map _
  | .step op target, h, levels, hdepth => by
    have htarget := Expr.recovered target h
    rw [readNode]
    exact .choice hdepth NodeForm.step.lookup_names fun inner _ fits =>
      (takes_pair fits (by decide) (fun inner _ _ => Takes.enumeration inner op.lookup_names)
        fun inner _ fits => htarget inner fits).map _
  | .compound op target value, h, levels, hdepth => by
    have htarget := Expr.recovered target h.left
    have hvalue := Expr.recovered value h.right
    rw [readNode]
    exact .choice hdepth NodeForm.compound.lookup_names fun inner _ fits =>
      (takes_operation fits (by decide) op.lookup_names htarget hvalue).map _
  | .clamp value range, h, levels, hdepth => by
    have hvalue := Expr.recovered value h.left
    have hrange := Expr.recovered range h.right
    rw [readNode]
    exact .choice hdepth NodeForm.clamp.lookup_names fun inner _ fits =>
      (takes_pair fits (by decide) (fun inner _ fits => hvalue inner fits)
        fun inner _ fits => hrange inner fits).map _
  | .range start stop, h, levels, hdepth => by
    have hstart := Expr.recovered_option start h.left
    have hstop := Expr.recovered_option stop h.right
    rw [readNode]
    refine .choice hdepth NodeForm.range.lookup_names fun inner _ fits =>
      Takes.map (a := (start, stop)) _ ?_
    refine Takes.record fits (fun _ _ => (by decide : ["start", "end"].Nodup))
      fun inner _ fits => ?_
    simp only [List.forall_mem_cons] at fits
    exact .take ((Expr.takes_option hstart fits.1).map _)
      (.take ((Expr.takes_option hstop fits.2.1).map _) (.done _))
  | .array members, h, levels, hdepth => by
    have hmembers := Expr.recovered_list members h
    rw [readNode]
    exact .choice hdepth NodeForm.array.lookup_names fun inner _ fits =>
      (Expr.takes_list hmembers fits).map _
  | .index array index, h, levels, hdepth => by
    have harray := Expr.recovered array h.left
    have hindex := Expr.recovered_option index h.right
    rw [readNode]
    refine .choice hdepth NodeForm.index.lookup_names fun inner _ fits =>
      Takes.map (a := (array, index)) _ ?_
    refine Takes.record fits (fun _ _ => (by decide : ["array", "index"].Nodup))
      fun inner _ fits => ?_
    simp only [List.forall_mem_cons] at fits
    exact .take ((harray inner fits.1).map _)
      (.take ((Expr.takes_option hindex fits.2.1).map _) (.done _))
  | .field object field, h, levels, hdepth => by
    have hobject := Expr.recovered object h
    rw [readNode]
    exact .choice hdepth NodeForm.field.lookup_names fun inner _ fits =>
      (takes_pair fits (by decide) (fun inner _ fits => hobject inner fits)
        fun _ _ _ => Takes.string field).map _
  | .assign target value, h, levels, hdepth => by
    have htarget := Expr.recovered target h.left
    have hvalue := Expr.recovered value h.right
    rw [readNode]
    exact .choice hdepth NodeForm.assign.lookup_names fun inner _ fits =>
      (takes_pair fits (by decide) (fun inner _ fits => htarget inner fits)
        fun inner _ fits => hvalue inner fits).map _
  | .loop cond body, h, levels, hdepth => by
    have hcond := Expr.recovered cond h.left
    have hbody := Expr.recovered body h.right
    rw [readNode]
    exact .choice hdepth NodeForm.loop.lookup_names fun inner _ fits =>
      (takes_pair fits (by decide) (fun inner _ fits => hcond inner fits)
        fun inner _ fits => hbody inner fits).map _

/-- The expressions of a list are read back if their numbers are kept. -/
theorem Expr.recovered_list : ∀ es : List (Expr Scope), Kept (Expr.floatsList es) →
    ∀ e ∈ es, e.Recovered
  | [], _, _, he => nomatch he
  | e :: es, h, e', he => by
    rcases List.mem_cons.mp he with he | he
    · exact he ▸ Expr.recovered e h.left
    · exact Expr.recovered_list es h.right e' he

/-- An expression that may be missing is read back if its numbers are kept. -/
theorem Expr.recovered_option : ∀ o : Option (Expr Scope), Kept (Expr.floatsOption o) →
    ∀ e ∈ o, e.Recovered
  | none, _, _, he => nomatch he
  | some e, h, e', he => by
    obtain rfl := Option.some.inj he
    exact Expr.recovered e h

end

/-! ## Programs -/

/-- A program is read with what its body is read as. -/
theorem Program.decode_of_takes {body body' : Expr Scope}
    (hbody : ∀ levels, body.toJson.depth ≤ levels → Takes (readExpr levels) body.toJson body')
    {scope : Scope} (hdepth : (Program.mk body scope).toJson.depth ≤ Json.maxLevels) :
    Program.decode (Program.mk body scope).encode = .ok ⟨body', scope⟩ := by
  have takes : Takes (readProgram Json.maxLevels) (Program.mk body scope).toJson ⟨body', scope⟩ := by
    refine Takes.record hdepth (fun _ _ => (by decide : ["body", "scope"].Nodup))
      fun inner _ fits => ?_
    simp only [List.forall_mem_cons] at fits
    exact .take ((hbody inner fits.1).map _) (.take ((scope.takes fits.2.1).map _) (.done _))
  exact takes.decode

/-- A program is read back from its text if its decimal literals are and its containers nest no
deeper than the reader allows. -/
theorem Program.decode_encode {p : Program} (h : Kept p.body.floats)
    (hdepth : p.toJson.depth ≤ Json.maxLevels) : Program.decode p.encode = .ok p :=
  Program.decode_of_takes (Expr.recovered p.body h) hdepth

end PatchCompiler
