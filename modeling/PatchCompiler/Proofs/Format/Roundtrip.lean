import Mathlib
import PatchCompiler.Compile
import PatchCompiler.Proofs.Format.Encoding
import PatchCompiler.Proofs.Json.Results

/-! # Programs that were read can be written and read again

A text may leave out what has a default, while the text a program is written as leaves out nothing.
Still the containers of the latter nest no deeper than a reader allows that has accepted the former:
every default takes the place of something beside a required expression, and every expression nests
at least two containers. -/

namespace PatchCompiler

open Json (Value Reader Gives Takes)

/-! ## Depths -/

/-- The object around the data of a node is one level deeper than the data. -/
theorem NodeForm.depth_wrap (form : NodeForm) (data : Value) :
    (form.wrap data).depth = data.depth + 1 := by
  rw [wrap, Value.depth, Value.depthMembers, Value.depthMembers, Nat.max_zero]

/-- The text of a node holds at least one container. -/
theorem Node.one_le_depth (node : Node Scope) : 1 ≤ node.toJson.depth := by
  cases node <;> exact Nat.le_add_left 1 _

/-- The text of an expression is one level deeper than that of its node. -/
theorem Expr.depth_toJson (e : Expr Scope) : e.toJson.depth = e.node.toJson.depth + 1 := by
  obtain ⟨node, ty, span⟩ := e
  have := node.one_le_depth
  cases ty with
  | none =>
    change max node.toJson.depth (max 1 0) + 1 = node.toJson.depth + 1
    omega
  | some kind =>
    change max node.toJson.depth (max 0 (max 1 0)) + 1 = node.toJson.depth + 1
    omega

/-! ## What has been read fits -/

/-- A binding that was read fits into the levels it was read within. -/
theorem Binding.depth_le_of_gives {levels : Nat} {b : Binding} (h : Gives (readBinding levels) b) :
    b.toJson.depth ≤ levels := by
  obtain ⟨inner, rfl⟩ := h.of_flatRecord
  exact Nat.le_add_left 1 inner

/-- A scope that was read fits into the levels that were left, unless it was left empty. -/
theorem Scope.depth_le_of_gives {levels : Nat} {scope : Scope}
    (h : Gives (readScope levels) scope) : scope.toJson.depth ≤ max 2 levels := by
  obtain ⟨inner, bound, rfl, made⟩ := h.of_record
  have fits : scope.bindings = []
      ∨ (Value.list (scope.bindings.map Binding.toJson)).depth ≤ inner := by
    rcases made.part [] Scope.bindings (fun _ _ => rfl) (by simp) with
      hbindings | ⟨-, empty⟩
    · obtain ⟨level, -, rfl, hitems⟩ := hbindings.of_list
      refine .inr (Value.depth_list_le.mpr ⟨level, rfl, ?_⟩)
      simpa using fun b hb => Binding.depth_le_of_gives (hitems b hb)
    · exact .inl empty
  change max (Value.list (scope.bindings.map Binding.toJson)).depth 0 + 1 ≤ _
  rcases fits with empty | fits
  · rw [empty]
    exact Nat.le_max_left 2 _
  · omega

/-- Every expression that is read within the levels fits into them. -/
def Fitting (levels : Nat) : Prop :=
  ∀ e, Gives (readExpr levels) e → e.toJson.depth ≤ levels

/-- A list that was read fits into the levels it was read within. -/
theorem Fitting.list {levels : Nat} (h : ∀ inner < levels, Fitting inner) {es : List (Expr Scope)}
    (hes : Gives (Json.list levels fun inner _ => readExpr inner) es) :
    (Value.list (Expr.listToJson es)).depth ≤ levels := by
  obtain ⟨inner, bound, rfl, hitems⟩ := hes.of_list
  rw [Expr.listToJson_eq_map]
  refine Value.depth_list_le.mpr ⟨inner, rfl, ?_⟩
  simpa using fun e he => h inner bound e (hitems e he)

/-- An expression that may be missing fits into the levels it was read within. -/
theorem Fitting.option {levels : Nat} (h : Fitting levels) {o : Option (Expr Scope)}
    (ho : Gives (Json.optional (readExpr levels)) o ∨ o = none) :
    (Expr.optionToJson o).depth ≤ levels := by
  rcases o with _ | e
  · exact Nat.zero_le levels
  · rcases ho with ho | ho
    · exact h e (ho.of_optional e rfl)
    · cases ho

/-- An expression is read within two levels at least. -/
theorem Fitting.two_le {levels : Nat} (h : Fitting levels) {e : Expr Scope}
    (he : Gives (readExpr levels) e) : 2 ≤ levels := by
  have fits := h e he
  have := e.node.one_le_depth
  rw [Expr.depth_toJson] at fits
  omega

/-- A scope fits beside an expression, also if it was left out. -/
theorem Fitting.scope {levels : Nat} (h : Fitting levels) {e : Expr Scope}
    (he : Gives (readExpr levels) e) {scope : Scope}
    (hscope : Gives (readScope levels) scope ∨ scope = {}) : scope.toJson.depth ≤ levels := by
  have two := h.two_le he
  rcases hscope with hscope | rfl
  · have := Scope.depth_le_of_gives hscope
    omega
  · -- a scope that was left out is written with an empty list
    exact two

/-! ## Records of expressions -/

/-- A node fits into one level more than its data. -/
theorem NodeForm.depth_wrap_le (form : NodeForm) {data : Value} {inner : Nat}
    (h : data.depth ≤ inner) : (form.wrap data).depth ≤ inner + 1 := by
  rw [form.depth_wrap]
  omega

/-- A node of named fields fits into two levels more than each of them. -/
theorem NodeForm.depth_record_le (form : NodeForm) {members : List (String × Value)} {level : Nat}
    (h : ∀ m ∈ members, m.2.depth ≤ level) : (form.wrap (.object members)).depth ≤ level + 2 :=
  form.depth_wrap_le (Value.depth_object_le.mpr ⟨level, rfl, h⟩)

/-- A node of two fields fits into two levels more than both of them. -/
theorem NodeForm.depth_pair_le (form : NodeForm) {first second : String} {v w : Value} {level : Nat}
    (hv : v.depth ≤ level) (hw : w.depth ≤ level) :
    (form.wrap (.object [(first, v), (second, w)])).depth ≤ level + 2 :=
  form.depth_record_le (List.forall_mem_cons.mpr ⟨hv, List.forall_mem_singleton.mpr hw⟩)

/-- A node of an operator fits into two levels more than its operands. -/
theorem NodeForm.depth_operation_le (form : NodeForm) {name first second : String} {v w : Value}
    {level : Nat} (hv : v.depth ≤ level) (hw : w.depth ≤ level) :
    (form.wrap (.object [("op", .string name), (first, v), (second, w)])).depth ≤ level + 2 :=
  form.depth_record_le (List.forall_mem_cons.mpr ⟨Nat.zero_le level,
    List.forall_mem_cons.mpr ⟨hv, List.forall_mem_singleton.mpr hw⟩⟩)

/-- The two expressions of an operation are read within it. -/
theorem gives_of_operation {τ : Type} {levels : Nat} {expected : String}
    {names : List (String × τ)} {blank : τ} {first second : String}
    {r : τ × Expr Scope × Expr Scope} (hne : ["op", first, second].Nodup)
    (h : Gives (readOperation levels expected names blank first second
      fun inner _ => readExpr inner) r) :
    ∃ inner < levels, levels = inner + 1
      ∧ Gives (readExpr inner) r.2.1 ∧ Gives (readExpr inner) r.2.2 := by
  obtain ⟨inner, bound, hlevels, made⟩ := h.of_record
  obtain ⟨⟨hfirst, hsecond⟩, hpair⟩ : ("op" ≠ first ∧ "op" ≠ second) ∧ first ≠ second := by
    simpa using hne
  have left := made.part [_] (fun r => r.2.1) (fun _ _ => rfl)
    (by simp [Json.Field.keeps_field, hfirst, hpair.symm])
  have right := made.part [_, _] (fun r => r.2.2) (fun _ _ => rfl)
    (by simp [Json.Field.keeps_field, hsecond, hpair])
  exact ⟨inner, bound, hlevels, by simpa using left, by simpa using right⟩

/-- The two values of a pair are read within it. -/
theorem gives_of_pair {α β : Type} {levels : Nat} {expected : String} {blank : α × β}
    {first second : String} {left : (inner : Nat) → inner < levels → Reader α}
    {right : (inner : Nat) → inner < levels → Reader β} {r : α × β} (hne : first ≠ second)
    (h : Gives (readPair levels expected blank first second left right) r) :
    ∃ inner bound, levels = inner + 1 ∧ Gives (left inner bound) r.1
      ∧ Gives (right inner bound) r.2 := by
  obtain ⟨inner, bound, hlevels, made⟩ := h.of_record
  have first := made.part [] Prod.fst (fun _ _ => rfl) (by simp [Json.Field.keeps_field, hne.symm])
  have second := made.part [_] Prod.snd (fun _ _ => rfl) (by simp [Json.Field.keeps_field, hne])
  exact ⟨inner, bound, hlevels, by simpa using first, by simpa using second⟩

/-- A node that was read fits into the levels it was read within. -/
theorem Node.depth_le_of_gives {levels : Nat} (ih : ∀ inner < levels, Fitting inner)
    {node : Node Scope} (h : Gives (readNode levels) node) : node.toJson.depth ≤ levels := by
  rw [readNode] at h
  rcases h.of_choice with ⟨form, h⟩ | ⟨inner, bound, form, rfl, h⟩
  · exact absurd h (Gives.not_failUnplaced _)
  -- a form with several parts takes two levels, one for the form and one for the record of its parts
  have ih' : ∀ level < inner, Fitting level := fun level hlevel => ih level (by omega)
  cases form with
  | statements =>
    obtain ⟨items, hitems, rfl⟩ := h.of_map
    exact NodeForm.depth_wrap_le _ (Fitting.list ih' hitems)
  | sequence =>
    obtain ⟨items, hitems, rfl⟩ := h.of_map
    exact NodeForm.depth_wrap_le _ (Fitting.list ih' hitems)
  | array =>
    obtain ⟨items, hitems, rfl⟩ := h.of_map
    exact NodeForm.depth_wrap_le _ (Fitting.list ih' hitems)
  | floatLit =>
    obtain ⟨value, -, rfl⟩ := h.of_map
    exact NodeForm.depth_wrap_le _ (Nat.zero_le inner)
  | intLit =>
    obtain ⟨value, -, rfl⟩ := h.of_map
    exact NodeForm.depth_wrap_le _ (Nat.zero_le inner)
  | ident =>
    obtain ⟨name, -, rfl⟩ := h.of_map
    exact NodeForm.depth_wrap_le _ (Nat.zero_le inner)
  | neg =>
    obtain ⟨operand, hoperand, rfl⟩ := h.of_map
    exact NodeForm.depth_wrap_le _ (ih inner bound operand hoperand)
  | call =>
    obtain ⟨r, hr, rfl⟩ := h.of_map
    obtain ⟨level, hlevel, rfl, -, hargs⟩ := gives_of_pair (by decide) hr
    exact NodeForm.depth_pair_le _ (Nat.zero_le level)
      (Fitting.list (fun l hl => ih' l (by omega)) hargs)
  | step =>
    obtain ⟨r, hr, rfl⟩ := h.of_map
    obtain ⟨level, hlevel, rfl, -, htarget⟩ := gives_of_pair (by decide) hr
    exact NodeForm.depth_pair_le _ (Nat.zero_le level) (ih' level hlevel _ htarget)
  | clamp =>
    obtain ⟨r, hr, rfl⟩ := h.of_map
    obtain ⟨level, hlevel, rfl, hvalue, hrange⟩ := gives_of_pair (by decide) hr
    exact NodeForm.depth_pair_le _ (ih' level hlevel _ hvalue) (ih' level hlevel _ hrange)
  | field =>
    obtain ⟨r, hr, rfl⟩ := h.of_map
    obtain ⟨level, hlevel, rfl, hobject, -⟩ := gives_of_pair (by decide) hr
    exact NodeForm.depth_pair_le _ (ih' level hlevel _ hobject) (Nat.zero_le level)
  | assign =>
    obtain ⟨r, hr, rfl⟩ := h.of_map
    obtain ⟨level, hlevel, rfl, htarget, hvalue⟩ := gives_of_pair (by decide) hr
    exact NodeForm.depth_pair_le _ (ih' level hlevel _ htarget) (ih' level hlevel _ hvalue)
  | loop =>
    obtain ⟨r, hr, rfl⟩ := h.of_map
    obtain ⟨level, hlevel, rfl, hcond, hbody⟩ := gives_of_pair (by decide) hr
    exact NodeForm.depth_pair_le _ (ih' level hlevel _ hcond) (ih' level hlevel _ hbody)
  | binary =>
    obtain ⟨r, hr, rfl⟩ := h.of_map
    obtain ⟨level, hlevel, rfl, hleft, hright⟩ := gives_of_operation (by decide) hr
    exact NodeForm.depth_operation_le _ (ih' level hlevel _ hleft) (ih' level hlevel _ hright)
  | compare =>
    obtain ⟨r, hr, rfl⟩ := h.of_map
    obtain ⟨level, hlevel, rfl, hleft, hright⟩ := gives_of_operation (by decide) hr
    exact NodeForm.depth_operation_le _ (ih' level hlevel _ hleft) (ih' level hlevel _ hright)
  | compound =>
    obtain ⟨r, hr, rfl⟩ := h.of_map
    obtain ⟨level, hlevel, rfl, htarget, hvalue⟩ := gives_of_operation (by decide) hr
    exact NodeForm.depth_operation_le _ (ih' level hlevel _ htarget) (ih' level hlevel _ hvalue)
  | range =>
    obtain ⟨r, hr, rfl⟩ := h.of_map
    obtain ⟨level, hlevel, rfl, made⟩ := hr.of_record
    have start := made.part [] Prod.fst (fun _ _ => rfl) (by simp [Json.Field.keeps_field])
    have stop := made.part [_] Prod.snd (fun _ _ => rfl) (by simp [Json.Field.keeps_field])
    exact NodeForm.depth_pair_le _ ((ih' level hlevel).option (start.imp_right And.right))
      ((ih' level hlevel).option (stop.imp_right And.right))
  | index =>
    obtain ⟨r, hr, rfl⟩ := h.of_map
    obtain ⟨level, hlevel, rfl, made⟩ := hr.of_record
    have array := made.part [] Prod.fst (fun _ _ => rfl) (by simp [Json.Field.keeps_field])
    have index := made.part [_] Prod.snd (fun _ _ => rfl) (by simp [Json.Field.keeps_field])
    exact NodeForm.depth_pair_le _ (ih' level hlevel _ (by simpa using array))
      ((ih' level hlevel).option (index.imp_right And.right))
  | block =>
    obtain ⟨r, hr, rfl⟩ := h.of_map
    obtain ⟨level, hlevel, rfl, made⟩ := hr.of_record
    have body := made.part [] Prod.fst (fun _ _ => rfl) (by simp [Json.Field.keeps_field])
    have scope := made.part [_] Prod.snd (fun _ _ => rfl) (by simp [Json.Field.keeps_field])
    have hbody : Gives (readExpr level) r.1 := by simpa using body
    exact NodeForm.depth_pair_le _ (ih' level hlevel _ hbody)
      ((ih' level hlevel).scope hbody (scope.imp_right And.right))
  | function =>
    obtain ⟨⟨params, result, prologue, body, scope⟩, hr, rfl⟩ := h.of_map
    obtain ⟨level, hlevel, rfl, made⟩ := hr.of_record
    have hprologue := made.part [_, _] (fun r => r.2.2.1) (fun _ _ => rfl)
      (by simp [Json.Field.keeps_field])
    have hbody := made.part [_, _, _] (fun r => r.2.2.2.1) (fun _ _ => rfl)
      (by simp [Json.Field.keeps_field])
    have hscope := made.part [_, _, _, _] (fun r => r.2.2.2.2) (fun _ _ => rfl)
      (by simp [Json.Field.keeps_field])
    have hbody : Gives (readExpr level) body := by simpa using hbody
    -- neither the names of parameters nor the kind of the result need more than one level
    have hparams : (Value.list (params.map Value.string)).depth ≤ 1 :=
      Value.depth_list_le.mpr ⟨0, rfl, by simp [Value.depth]⟩
    have hresult : (Value.ofOption Kind.toJson result).depth = 0 := by cases result <;> rfl
    have two := (ih' level hlevel).two_le hbody
    refine NodeForm.depth_record_le _ ?_
    simp only [List.forall_mem_cons]
    exact ⟨by omega, by omega, (ih' level hlevel).option (hprologue.imp_right And.right),
      ih' level hlevel body hbody,
      (ih' level hlevel).scope hbody (hscope.imp_right And.right), List.forall_mem_nil _⟩

/-- Every expression that is read within some levels fits into them. -/
theorem fitting (levels : Nat) : Fitting levels := by
  induction levels using Nat.strongRecOn with
  | ind levels ih =>
    intro e h
    rw [readExpr] at h
    obtain ⟨inner, bound, rfl, made⟩ := h.of_record
    have node := made.part [] Expr.node (fun _ _ => rfl) (by
      simpa using ⟨Json.Field.keeps_field fun _ _ => rfl, Json.Field.keeps_field fun _ _ => rfl⟩)
    have hnode : Gives (readNode inner) e.node := by simpa using node
    rw [Expr.depth_toJson]
    exact Nat.succ_le_succ (Node.depth_le_of_gives (fun level hlevel => ih level (by omega)) hnode)

/-! ## Programs -/

/-- A program that was read is written with no more containers inside each other than allowed. -/
theorem Program.depth_le_of_decode {text : String} {p : Program}
    (h : Program.decode text = .ok p) : p.toJson.depth ≤ Json.maxLevels := by
  obtain ⟨inner, -, hlevels, made⟩ := (Gives.of_decode h).of_record
  have body := made.part [] Program.body (fun _ _ => rfl) (by simp [Json.Field.keeps_field])
  have scope := made.part [_] Program.scope (fun _ _ => rfl) (by simp [Json.Field.keeps_field])
  have hbody : Gives (readExpr inner) p.body := by simpa using body
  refine Value.depth_object_le.mpr ⟨inner, hlevels, ?_⟩
  simp only [List.forall_mem_cons]
  exact ⟨fitting inner p.body hbody, (fitting inner).scope hbody (scope.imp_right And.right),
    List.forall_mem_nil _⟩

/-- A text is taken for a program exactly if it is decoded to it. -/
theorem parseProgram_eq_ok_iff {text file : String} {p : Program} :
    parseProgram text file = .ok p ↔ Program.decode text = .ok p := by
  rw [parseProgram]
  cases Program.decode text with
  | ok p' =>
    constructor
    · intro h
      cases h
      rfl
    · intro h
      cases h
      rfl
  | error e => constructor <;> intro h <;> cases h

/-- **Round trip.** A program without decimal literals is read back from the text it is written as,
if the containers of that text nest no deeper than allowed, and also if the program was read from
any text whatever. -/
theorem parseProgram_encode {p : Program} (hfloats : p.body.floats = []) (file : String) :
    (p.toJson.depth ≤ Json.maxLevels → parseProgram p.encode file = .ok p)
      ∧ ∀ text file', parseProgram text file' = .ok p → parseProgram p.encode file = .ok p := by
  have kept : Kept p.body.floats := by
    rw [hfloats]
    exact List.forall_mem_nil _
  have back : p.toJson.depth ≤ Json.maxLevels → parseProgram p.encode file = .ok p :=
    fun hdepth => parseProgram_eq_ok_iff.mpr (Program.decode_encode kept hdepth)
  refine ⟨back, fun text file' h => back ?_⟩
  exact Program.depth_le_of_decode (parseProgram_eq_ok_iff.mp h)

/-- The opposite of an exported variable whose name holds a quote and a newline. -/
def Program.escaped : Program where
  body := .mk (.statements [.mk (.neg (.mk (.ident "a\"\n") none ⟨1, 2, 1, 5⟩)) (some .int)
    ⟨1, 1, 1, 5⟩]) none .synthetic
  scope := ⟨[⟨"a\"\n", { kind := .int, storage := .globalVar, exported := true }⟩]⟩

/-- A text of it with the fields in another order, a field that is not known and a span as a list. The
span of the whole is left out, and the quote is escaped in two ways. -/
def Program.escapedText : String :=
  "\x7b\"scope\": \x7b\"bindings\":[\x7b\"exported\":true,\"storage\":\"global\",\"kind\":\"int\",
  \"name\":\"a\\u0022\\n\"\x7d]\x7d, \"body\":\x7b\"note\":null,\"kind\":\x7b\"statements\":[
  \x7b\"span\":\x7b\"end_line\":1,\"line\":1,\"column\":1,\"end_column\":5\x7d,\"ty\":\"int\",
  \"kind\":\x7b\"neg\":\x7b\"span\":[1,2,1,5],\"kind\":\x7b\"ident\":\"a\\\"\\n\"\x7d\x7d\x7d\x7d]\x7d\x7d\x7d"

set_option maxRecDepth 8192 in
/-- It is read from that text, so it is read from its own; and its own is shallow enough anyway. -/
theorem Program.escaped_roundtrip :
    parseProgram escapedText "patch" = .ok escaped ∧
      parseProgram escaped.encode "patch" = .ok escaped ∧
      escaped.toJson.depth ≤ Json.maxLevels ∧ parseProgram escaped.encode "copy" = .ok escaped := by
  have hchars : escapedText.toList = _ := String.toList_ofList
  have hrun : ∃ cursor, Json.document (readProgram Json.maxLevels) ⟨escapedText.toList, 0⟩
      = .ok escaped cursor := by
    rw [hchars]
    exact ⟨_, by cbv⟩
  obtain ⟨cursor, hrun⟩ := hrun
  have hparse : parseProgram escapedText "patch" = .ok escaped := by
    refine parseProgram_eq_ok_iff.mpr ?_
    rw [Program.decode, Json.decode, hrun]
  have hshallow : escaped.toJson.depth ≤ Json.maxLevels := by decide
  exact ⟨hparse, (parseProgram_encode rfl "patch").2 _ _ hparse, hshallow,
    (parseProgram_encode rfl "copy").1 hshallow⟩

end PatchCompiler
