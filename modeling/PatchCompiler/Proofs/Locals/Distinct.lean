import PatchCompiler.Proofs.Locals.Agreement

/-! # Names are declared once

A function declares the variables of its own scope, apart from those that its parameters stand for,
and those of its blocks, the first one of each name. What is a parameter is not looked at when the
variables of a block are added, and global variables are written whatever the names of the others.
Main statement: in scopes that bind each name once, parameters and local variables have different
names exactly if no block binds a local variable under the name of a parameter of its function, and
global variables have different names exactly if their bindings do. -/

namespace PatchCompiler

/-! ## Local variables that are added -/

/-- The names of the variables after others have been added. -/
theorem mem_names_addLocals {locals vs : List (String × ValType)} {x : String} :
    x ∈ (addLocals locals vs).map Prod.fst ↔
      x ∈ locals.map Prod.fst ∨ x ∈ vs.map Prod.fst := by
  induction vs generalizing locals with
  | nil => simp
  | cons v rest ih =>
    rw [addLocals, List.foldl_cons, ← addLocals, ih, List.map_cons, List.mem_cons, ← or_assoc]
    refine or_congr_left ?_
    unfold addLocal
    split
    · rename_i hcontains
      rw [List.contains_iff_mem] at hcontains
      exact ⟨.inl, fun h => h.elim id fun heq => heq ▸ hcontains⟩
    · rw [List.map_append, List.mem_append, List.map_singleton, List.mem_singleton]

/-- No name is added twice. -/
theorem nodup_addLocals (vs : List (String × ValType)) :
    ((addLocals [] vs).map Prod.fst).Nodup := by
  rw [← Locals.Matched.empty.declarations_addAll vs]
  exact (Locals.Matched.empty.addAll vs).nodup

/-! ## The bindings of a function's own scope -/

/-- The bindings of a frame apart from those that parameters stand for. -/
def Frame.own (frame : Frame) (params : List String) : Scope :=
  ⟨(frame.slots.filter fun entry => !(params.map frame.slot).contains entry.1).map Prod.snd⟩

/-- Without parameters all bindings of a scope are its own. -/
@[simp] theorem Frame.own_nil (frame : Frame) : frame.own [] = frame.scope := by
  obtain ⟨site, bindings⟩ := frame
  simp [own, State.map_snd_slots]

/-- The bindings of a frame that parameters do not stand for are some of its scope. -/
theorem Frame.sublist_own (frame : Frame) (params : List String) :
    (frame.own params).bindings.Sublist frame.scope.bindings := by
  rw [← State.map_snd_slots]
  exact List.filter_sublist.map _

/-- In a scope that binds each name once, the place of a name is that of its binding. -/
theorem Frame.slot_eq_iff {frame : Frame} {entry : Slot × Binding} {x : String}
    (hnodup : frame.scope.names.Nodup) (hentry : entry ∈ frame.slots) :
    frame.slot x = entry.1 ↔ entry.2.name = x := by
  obtain ⟨⟨b, i⟩, hb, rfl⟩ := List.mem_map.1 hentry
  have hget : frame.scope.bindings[i]? = some b := List.mk_mem_zipIdx_iff_getElem?.1 hb
  have hfirst := State.getElem?_findIdx (fun b : Binding => b.name = x) frame.scope.bindings
  constructor
  · intro hslot
    have hindex : frame.scope.bindings.findIdx (·.name = x) = i := congrArg Slot.index hslot
    rw [hindex, hget] at hfirst
    have hname := List.find?_some hfirst.symm
    exact of_decide_eq_true hname
  · intro hname
    have hmem : b ∈ frame.scope.bindings := List.mem_of_getElem? hget
    obtain ⟨b', hb'⟩ : ∃ b', frame.scope.bindings.find? (·.name = x) = some b' :=
      Option.isSome_iff_exists.1 (List.find?_isSome.2 ⟨b, hmem, decide_eq_true hname⟩)
    have hname' : b'.name = x := by simpa using List.find?_some hb'
    rw [hb'] at hfirst
    -- both places hold the name, which occurs once
    have hlt : i < frame.scope.names.length := by
      rw [Scope.names, List.length_map]
      exact (List.getElem?_eq_some_iff.1 hget).1
    have hsame : frame.scope.names[i]?
        = frame.scope.names[frame.scope.bindings.findIdx (·.name = x)]? := by
      rw [Scope.names, List.getElem?_map, List.getElem?_map, hget, hfirst]
      exact congrArg some (hname.trans hname'.symm)
    rw [Frame.slot, ← (List.getElem?_inj hlt hnodup).1 hsame]

/-- In a scope that binds each name once, a function's own variables have other names than its
parameters. -/
theorem Frame.not_mem_of_own {frame : Frame} {params : List String} {x : String}
    (hnodup : frame.scope.names.Nodup) (h : x ∈ (frame.own params).variables.map Prod.fst) :
    x ∉ params := by
  obtain ⟨v, hv, rfl⟩ := List.mem_map.1 h
  obtain ⟨b, hb, rfl⟩ := List.mem_map.1 hv
  obtain ⟨entry, hentry, rfl⟩ := List.mem_map.1 (List.mem_filter.1 hb).1
  obtain ⟨hentry, hkept⟩ := List.mem_filter.1 hentry
  intro hparam
  have hslot : entry.1 ∈ params.map frame.slot :=
    List.mem_map.2 ⟨_, hparam, (frame.slot_eq_iff hnodup hentry).2 rfl⟩
  simp [hslot] at hkept

namespace State

variable {s t : State}

/-- Declaring bindings declares those that are new. -/
theorem foldl_declareEntry_filter {entries : List (Slot × Binding)}
    (hnodup : (entries.map Prod.fst).Nodup) :
    entries.foldl declareEntry s
      = (entries.filter fun entry => !s.declared.contains entry.1).foldl declareEntry s := by
  induction entries generalizing s with
  | nil => rfl
  | cons entry rest ih =>
    rw [List.map_cons, List.nodup_cons] at hnodup
    rw [List.foldl_cons, List.filter_cons]
    by_cases hmem : entry.1 ∈ s.declared
    · rw [declareEntry_eq_self fun _ => hmem, ih hnodup.2]
      simp [hmem]
    · -- the places differ, so one that is declared now makes no other one old
      have hsame : ∀ e ∈ rest, (!(s.declareEntry entry).declared.contains e.1)
          = !s.declared.contains e.1 := by
        intro e he
        have hne : e.1 ≠ entry.1 := fun heq => hnodup.1 (heq ▸ List.mem_map_of_mem he)
        simp [mem_declared_declareEntry, hne]
      rw [ih hnodup.2, List.filter_congr hsame]
      simp [hmem]

/-- The bindings of a new scope that are declared once its parameters are noted. -/
theorem filter_slots {params : List String} {frame : Frame}
    (hnew : ∀ slot ∈ s.declared, slot.site ≠ frame.site)
    (hmem : ∀ slot, slot ∈ t.declared ↔ slot ∈ s.declared ∨ slot ∈ params.map frame.slot) :
    (frame.slots.filter fun entry => !t.declared.contains entry.1)
      = frame.slots.filter fun entry => !(params.map frame.slot).contains entry.1 := by
  refine List.filter_congr fun entry hentry => ?_
  have hold : entry.1 ∉ s.declared := by
    obtain ⟨_, _, rfl⟩ := List.mem_map.1 hentry
    exact fun hslot => hnew _ hslot rfl
  have hparam : entry.1 ∈ t.declared ↔ entry.1 ∈ params.map frame.slot := by
    rw [hmem, or_iff_right hold]
  rw [Bool.eq_iff_iff, Bool.not_eq_true', Bool.not_eq_true', ← Bool.not_eq_true,
    ← Bool.not_eq_true, List.contains_iff_mem, List.contains_iff_mem, hparam]

/-- A new scope adds its variables apart from those that the parameters stand for, and one that has
been declared adds none. -/
theorem declareScope_own {again : Bool} {params : List String} {frame : Frame}
    (hfresh : Fresh again [(params, frame)] s.declared)
    (hmem : ∀ slot, slot ∈ t.declared ↔ slot ∈ s.declared ∨ slot ∈ params.map frame.slot) :
    (t.declareScope frame).globals
        = t.globals ++ (if again then [] else (frame.own params).globals) ∧
      (t.declareScope frame).table
        = if again then t.table else t.table.addAll (frame.own params).variables := by
  cases again with
  | true =>
    rw [declareScope_eq_self]
    · exact ⟨(List.append_nil _).symm, rfl⟩
    · exact fun slot hslot => (hmem slot).2 (.inl (hfresh _ (List.mem_singleton_self _) slot hslot))
  | false =>
    -- parameters are noted before the scope is declared, so its own bindings are those left over
    have hnew : ∀ slot ∈ s.declared, slot.site ≠ frame.site :=
      fun slot hslot => hfresh.2 slot hslot _ (List.mem_singleton_self _)
    have hdeclare := foldl_declareEntry_filter (s := t) (nodup_slots frame)
    have hplaces : ((frame.slots.filter fun entry => !t.declared.contains entry.1).map
        Prod.fst).Nodup := (nodup_slots frame).sublist (List.filter_sublist.map _)
    have hundeclared : ∀ entry ∈ frame.slots.filter fun entry => !t.declared.contains entry.1,
        entry.2.isVariable = true → entry.1 ∉ t.declared := by
      intro entry hentry _
      simpa using (List.mem_filter.1 hentry).2
    rw [declareScope_eq, hdeclare, globals_foldl_declareEntry hplaces hundeclared,
      table_foldl_declareEntry hplaces hundeclared, filter_slots hnew hmem]
    simp only [Scope.globals, Scope.variables, Frame.own, List.filter_map, List.map_map]
    exact ⟨rfl, rfl⟩

end State

/-! ## The function definitions of an expression -/

/-- What decides on the names that a function declares. -/
structure Definition where
  /-- Name of the function. -/
  name : String
  /-- Parameters in call order. -/
  params : List String
  /-- The scope of the function. -/
  frame : Frame
  /-- Local variables that its blocks bind, in the order they are opened. -/
  inner : List (String × ValType)

/-- The local variables that a function declares when it is written for the first time. -/
def Definition.locals (d : Definition) : List (String × ValType) :=
  addLocals [] ((d.frame.own d.params).variables ++ d.inner)

/-- The name that an expression on the left of an assignment is. -/
def Expr.identifier? : Expr Frame → Option String
  | .mk (.ident x) _ _ => some x
  | _ => none

mutual

/-- The function definitions of an expression, inner ones first. The name is given to the expression
if it is a function definition. -/
def Expr.definitions : Option String → Expr Frame → List Definition
  | name, .mk node _ _ => node.definitions name

/-- The function definitions of a node. -/
def Node.definitions : Option String → Node Frame → List Definition
  | _, .statements items => Expr.definitionsList items
  | _, .sequence items => Expr.definitionsList items
  | _, .floatLit _ => []
  | _, .intLit _ => []
  | _, .ident _ => []
  | name, .function params _ prologue body frame =>
    Expr.definitionsOption prologue ++ (body.definitions none ++ name.toList.map fun x =>
      ⟨x, params, frame, Expr.variablesList prologue.toList ++ body.variables⟩)
  | _, .block body _ => body.definitions none
  | _, .call _ args => Expr.definitionsList args
  | _, .neg operand => operand.definitions none
  | _, .binary _ left right => left.definitions none ++ right.definitions none
  | _, .compare _ left right => left.definitions none ++ right.definitions none
  | _, .step _ target => target.definitions none
  | _, .compound _ target value => target.definitions none ++ value.definitions none
  | _, .clamp value range => value.definitions none ++ range.definitions none
  | _, .range start stop => Expr.definitionsOption stop ++ Expr.definitionsOption start
  | _, .array members => Expr.definitionsList members
  | _, .index array index => array.definitions none ++ Expr.definitionsOption index
  | _, .field object _ => object.definitions none
  | _, .assign target value => value.definitions target.identifier? ++ target.definitions none
  | _, .loop cond body => cond.definitions none ++ body.definitions none

/-- The function definitions of a list of expressions. -/
def Expr.definitionsList : List (Expr Frame) → List Definition
  | [] => []
  | e :: rest => e.definitions none ++ Expr.definitionsList rest

/-- The function definitions of an expression that may be missing. -/
def Expr.definitionsOption : Option (Expr Frame) → List Definition
  | none => []
  | some e => e.definitions none

end

/-- The function definitions of a task. -/
def Task.definitions : Task → List Definition
  | .expr e name => e.definitions name
  | .operand e _ => e.definitions none
  | .list es => Expr.definitionsList es
  | .args _ es => Expr.definitionsList es
  | .pair _ left right => left.definitions none ++ right.definitions none
  | .position (.computed index) => index.definitions none
  | .position (.fixed _) => []
  | .members _ _ layout => Expr.definitionsList (Member.exprs layout)
  | .definition header prologue body =>
    Expr.definitionsList prologue.toList ++ (body.definitions none
      ++ [⟨header.name, header.params, header.frame,
        Expr.variablesList prologue.toList ++ body.variables⟩])

/-- Only a function definition takes a name. -/
theorem Expr.definitions_of_not_function {e : Expr Frame} (h : e.isFunction = false)
    (name : Option String) : e.definitions name = e.definitions none := by
  obtain ⟨node, ty, span⟩ := e
  cases node with
  | function params result prologue body frame => cases h
  | _ => rfl

/-- The definitions of a list are those of its expressions, one after another. -/
theorem Expr.definitionsList_eq_flatMap (es : List (Expr Frame)) :
    Expr.definitionsList es = es.flatMap (Expr.definitions none) := by
  induction es with
  | nil => rfl
  | cons e rest ih => rw [Expr.definitionsList, ih, List.flatMap_cons]

/-- The definitions of an optional expression are those of the list of it. -/
theorem Expr.definitionsOption_eq (e : Option (Expr Frame)) :
    Expr.definitionsOption e = Expr.definitionsList e.toList := by
  cases e with
  | none => rfl
  | some e => exact (List.append_nil _).symm

/-- The definitions in an array literal are those in its layout. -/
theorem definitions_of_classified {env : Env} {members : List (Expr Frame)} {layout : List Member}
    (h : List.Forall₂ (fun e m => Member.ofOperand (e.kind env) ⟨e, e.emit⟩ = .ok m)
      members layout) :
    Expr.definitionsList (Member.exprs layout) = Expr.definitionsList members := by
  rw [Expr.definitionsList_eq_flatMap, Expr.definitionsList_eq_flatMap]
  exact Member.flatMap_exprs _ (fun e he => by cases he <;> rfl) h

/-- The definitions in the target of an element store are those in the array and in the index. -/
theorem definitions_of_position {target array : Expr Frame} {p : Position}
    (h : target.position? = some (array, p)) :
    target.identifier? = none ∧
      target.definitions none = array.definitions none ++ Task.definitions (.position p) := by
  cases Expr.locates_of_position h with
  | element => exact ⟨rfl, rfl⟩
  | field => exact ⟨rfl, (List.append_nil _).symm⟩

/-! ## What a run declares -/

/-- A function is written for a definition: it has the name, and declares the parameters and, unless
it is written again, the local variables. -/
structure Definition.Written (d : Definition) (again : Bool) (f : Func) : Prop where
  /-- The name is that of the definition. -/
  name : f.name = d.name
  /-- The parameters are those of the definition. -/
  params : f.params.map Prod.fst = d.params
  /-- The local variables are those of the definition. -/
  locals : f.locals = if again then [] else d.locals

/-- A run writes global variables and adds local variables to the running function, unless it meets
them again, and writes a function for each definition, and no others. -/
structure Introduces (again : Bool) (globals added : List (String × ValType))
    (definitions : List Definition) (s s' : State) : Prop where
  /-- The global variables of the module. -/
  globals : s'.globals = s.globals ++ if again then [] else globals
  /-- The local variables of the running function. -/
  table : s'.table = if again then s.table else s.table.addAll added
  /-- The functions of the module. -/
  funcs : ∃ written, s'.funcs = s.funcs ++ written ∧
    (∀ f ∈ written, ∃ d ∈ definitions, d.Written again f ∨ d.Written true f) ∧
    ∀ d ∈ definitions, ∃ f ∈ written, d.Written again f

/-- Two lists whose elements have partners in two others, put together. -/
theorem exists_partner_append {α β : Type} {related : α → β → Prop} {as as' : List α}
    {bs bs' : List β} (h : ∀ a ∈ as, ∃ b ∈ bs, related a b)
    (h' : ∀ a ∈ as', ∃ b ∈ bs', related a b) : ∀ a ∈ as ++ as', ∃ b ∈ bs ++ bs', related a b := by
  intro a ha
  rcases List.mem_append.1 ha with ha | ha
  · obtain ⟨b, hb, hrelated⟩ := h a ha
    exact ⟨b, List.mem_append_left _ hb, hrelated⟩
  · obtain ⟨b, hb, hrelated⟩ := h' a ha
    exact ⟨b, List.mem_append_right _ hb, hrelated⟩

namespace Introduces

variable {again : Bool} {g g₁ g₂ v v₁ v₂ : List (String × ValType)} {d d₁ d₂ : List Definition}
  {s s₁ s' : State}

/-- A state introduces nothing to itself. -/
theorem refl : Introduces again [] [] [] s s := by
  refine ⟨?_, ?_, [], (List.append_nil _).symm, by simp, by simp⟩
  · cases again <;> exact (List.append_nil _).symm
  · cases again <;> rfl

/-- One run after another. -/
theorem append (h : Introduces again g₁ v₁ d₁ s s₁) (h' : Introduces again g₂ v₂ d₂ s₁ s') :
    Introduces again (g₁ ++ g₂) (v₁ ++ v₂) (d₁ ++ d₂) s s' := by
  obtain ⟨first, hfirst, hof, hfor⟩ := h.funcs
  obtain ⟨second, hsecond, hof', hfor'⟩ := h'.funcs
  refine ⟨?_, ?_, first ++ second, ?_, exists_partner_append hof hof',
    exists_partner_append hfor hfor'⟩
  · rw [h'.globals, h.globals]
    cases again <;> simp
  · rw [h'.table, h.table]
    cases again with
    | true => rfl
    | false => exact (Locals.addAll_append _ _ _).symm
  · rw [hsecond, hfirst, List.append_assoc]

/-- A second run of what a run has compiled before. -/
theorem repeated (h : Introduces again g v d s s₁) (h' : Introduces true g₁ v₁ d₁ s₁ s')
    (hsub : ∀ definition ∈ d₁, definition ∈ d) : Introduces again g v d s s' := by
  obtain ⟨first, hfirst, hof, hfor⟩ := h.funcs
  obtain ⟨second, hsecond, hof', _⟩ := h'.funcs
  refine ⟨?_, h'.table.trans h.table, first ++ second, ?_, fun f hf => ?_, fun d hd => ?_⟩
  · rw [h'.globals, h.globals]
    exact List.append_nil _
  · rw [hsecond, hfirst, List.append_assoc]
  · rcases List.mem_append.1 hf with hf | hf
    · exact hof f hf
    · -- in a second run both alternatives say that the function is written again
      obtain ⟨d, hd, hwritten⟩ := hof' f hf
      exact ⟨d, hsub d hd, .inr (hwritten.elim id id)⟩
  · obtain ⟨f, hf, hwritten⟩ := hfor d hd
    exact ⟨f, List.mem_append_left _ hf, hwritten⟩

/-- A run from or to a state with the same forms and local variables. -/
theorem congr {t t' : State} (h : Introduces again g v d t t') (hforms : t.forms = s.forms)
    (htable : t.table = s.table) (hforms' : s'.forms = t'.forms)
    (htable' : s'.table = t'.table) : Introduces again g v d s s' := by
  obtain ⟨hglobals, hadded, hfuncs⟩ := h
  refine ⟨?_, by rw [htable', hadded, htable], ?_⟩
  · simp only [State.globals, hforms, hforms'] at hglobals ⊢
    exact hglobals
  · simp only [State.funcs, hforms, hforms'] at hfuncs ⊢
    exact hfuncs

/-- The end of a function writes it, and brings the local variables back that were put aside. -/
theorem endFunction (h : Introduces again g v d s.takeLocals.2 s') (header : Emit.Header)
    {definition : Definition} {f : Func} (hf : definition.Written again f) :
    Introduces again g [] (d ++ [definition]) s (s'.endFunction header s.table f) := by
  obtain ⟨written, hfuncs, hof, hfor⟩ := h.funcs
  have hlast : ∀ f' ∈ [f], ∃ d' ∈ [definition], d'.Written again f' ∨ d'.Written true f' :=
    List.forall_mem_singleton.2 ⟨definition, List.mem_singleton_self _, .inl hf⟩
  have hlast' : ∀ d' ∈ [definition], ∃ f' ∈ [f], d'.Written again f' :=
    List.forall_mem_singleton.2 ⟨f, List.mem_singleton_self _, hf⟩
  refine ⟨(State.globals_endFunction ..).trans h.globals, by cases again <;> rfl,
    written ++ [f], ?_, exists_partner_append hof hlast, exists_partner_append hfor hlast'⟩
  rw [State.funcs_endFunction, hfuncs, List.append_assoc]
  rfl

end Introduces

/-- What a run declares that opens scopes, whether it meets them for the first time or again. -/
structure Brings (entries : List (List String × Frame)) (added : List (String × ValType))
    (definitions : List Definition) (s s' : State) : Prop where
  /-- The scopes of the functions are among those that are opened. -/
  among : ∀ d ∈ definitions, (d.params, d.frame) ∈ entries
  /-- The names that are declared. -/
  introduces : ∀ again, Fresh again entries s.declared →
    Introduces again (entries.flatMap fun entry => (entry.2.own entry.1).globals) added
      definitions s s'

namespace Brings

variable {e e₁ e₂ : List (List String × Frame)} {v v₁ v₂ : List (String × ValType)}
  {d d₁ d₂ : List Definition} {s s₁ s' : State}

/-- A state brings nothing to itself. -/
theorem refl : Brings [] [] [] s s := ⟨by simp, fun _ _ => .refl⟩

/-- One run after another. -/
theorem append (h : Brings e₁ v₁ d₁ s s₁) (hmarks : Marks e₁ s.declared s₁.declared)
    (h' : Brings e₂ v₂ d₂ s₁ s') : Brings (e₁ ++ e₂) (v₁ ++ v₂) (d₁ ++ d₂) s s' := by
  refine ⟨fun definition hd => ?_, fun again hfresh => ?_⟩
  · rcases List.mem_append.1 hd with hd | hd
    · exact List.mem_append_left _ (h.among definition hd)
    · exact List.mem_append_right _ (h'.among definition hd)
  · have hfirst := h.introduces again hfresh.left
    have hsecond := h'.introduces again (hfresh.right hmarks)
    rw [List.flatMap_append]
    exact hfirst.append hsecond

/-- A run from or to a state with the same declarations, forms and local variables. -/
theorem congr {t t' : State} (h : Brings e v d t t') (hdeclared : t.declared = s.declared)
    (hforms : t.forms = s.forms) (htable : t.table = s.table) (hforms' : s'.forms = t'.forms)
    (htable' : s'.table = t'.table) : Brings e v d s s' := by
  refine ⟨h.among, fun again hfresh => ?_⟩
  rw [← hdeclared] at hfresh
  exact (h.introduces again hfresh).congr hforms htable hforms' htable'

/-- A library function that is asked for first. -/
theorem of_require {snippet : Snippet} (h : Brings e v d (s.require snippet) s') :
    Brings e v d s s' :=
  h.congr (by simp) (by simp) (by simp) rfl rfl

end Brings

/-- Opening a scope declares its variables apart from those that the parameters stand for. -/
theorem State.brings_declareScope {s t : State} {params : List String} {frame : Frame}
    (hmem : ∀ slot, slot ∈ t.declared ↔ slot ∈ s.declared ∨ slot ∈ params.map frame.slot)
    (hforms : t.forms = s.forms) (htable : t.table = s.table) :
    Brings [(params, frame)] (frame.own params).variables [] s (t.declareScope frame) := by
  refine ⟨by simp, fun again hfresh => ?_⟩
  obtain ⟨hglobals, hadded⟩ := declareScope_own hfresh hmem
  have hscope : Introduces again (frame.own params).globals (frame.own params).variables [] t
      (t.declareScope frame) :=
    ⟨hglobals, hadded, [], by simp, by simp, by simp⟩
  rw [List.flatMap_singleton]
  exact hscope.congr hforms htable rfl rfl

/-- The parameters that have types are those of the header. -/
theorem Emit.Header.map_fst_types {header : Header} {params : List (String × ValType)}
    (h : header.types? = some params) : params.map Prod.fst = header.params := by
  unfold types? at h
  generalize header.params = names at h ⊢
  induction names generalizing params with
  | nil => cases h; rfl
  | cons x rest ih =>
    rw [List.mapM_cons] at h
    obtain ⟨param, hparam, h⟩ := Option.bind_eq_some_iff.1 h
    obtain ⟨others, hothers, h⟩ := Option.bind_eq_some_iff.1 h
    obtain ⟨_, _, rfl⟩ := Option.map_eq_some_iff.1 hparam
    cases h
    rw [List.map_cons, ih hothers]

/-- The names that a run declares are those of its task. -/
theorem Emits.brings {s s' : State} {task : Task} {codes : List Code} (h : Emits s task codes s') :
    Brings task.scopes task.variables task.definitions s s' := by
  induction h with
  | floatLit | intLit | ident | negInt | negFloat | listNil | argsNil | fixed | membersNil =>
    exact .refl
  | statements _ ih | sequence _ ih | call _ ih | opposite _ _ _ _ ih | difference _ _ _ _ ih
  | binary _ _ ih | compare _ ih | compound _ _ _ ih | operand _ ih | computed _ ih
  | memberInts _ ih | memberReserve _ ih => exact ih
  | step _ _ _ ih => exact ih
  | function _ ih =>
    simp only [Task.scopes, Expr.scopes, Node.scopes, Expr.scopesOption_eq, Task.definitions,
      Expr.definitions, Node.definitions, Expr.definitionsOption_eq]
    exact ih
  | @block s s' body frame code ty span name _ ih =>
    have hmem : ∀ slot, slot ∈ (s.enter frame).declared ↔
        slot ∈ s.declared ∨ slot ∈ ([] : List String).map frame.slot := by simp [State.enter]
    have hscope := State.brings_declareScope hmem rfl rfl
    -- a block has no parameters, so all its bindings are its own
    rw [Frame.own_nil] at hscope
    exact (hscope.append (.scope hmem) ih).congr rfl rfl rfl rfl rfl
  | clampInt _ hv hh _ ihv ihh ihl =>
    have hmarks := hv.marks
    rw [State.declared_require, State.declared_require] at hmarks
    exact ihv.of_require.of_require.append hmarks (ihh.append hh.marks ihl)
  | clampFloat _ hv hh _ ihv ihh ihl => exact ihv.append hv.marks (ihh.append hh.marks ihl)
  | array hlayout _ _ _ _ ih =>
    simp only [Task.scopes, Expr.scopes, Node.scopes, ← scopes_of_classified hlayout,
      Task.variables, Expr.variables, ← variables_of_classified hlayout, Task.definitions,
      Expr.definitions, Node.definitions, ← definitions_of_classified hlayout]
    exact ih.congr rfl rfl rfl rfl rfl
  | length _ _ ih =>
    simp only [Task.scopes, Expr.scopes, Node.scopes, Expr.scopesOption, Task.definitions,
      Expr.definitions, Node.definitions, Expr.definitionsOption, List.append_nil]
    exact ih
  | assignFunction _ _ ih =>
    simp only [Task.scopes, Expr.scopes, Node.scopes, Task.definitions, Expr.definitions,
      Node.definitions, List.append_nil]
    exact ih
  | assignName hf _ _ _ _ _ ih =>
    simp only [Task.scopes, Expr.scopes, Node.scopes, Task.definitions, Expr.definitions,
      Node.definitions, Expr.definitions_of_not_function hf, List.append_nil]
    exact ih
  | assignPart hp hv hb hi _ _ ihv ihb ihi ihn =>
    simp only [Task.scopes, Expr.scopes, Node.scopes, scopes_of_position hp, Task.variables,
      variables_of_position hp, Task.definitions, Expr.definitions, Node.definitions,
      (definitions_of_position hp).1, (definitions_of_position hp).2]
    have hmarks := hb.marks
    rw [State.declared_require] at hmarks
    have hfirst := ihv.append hv.marks (ihb.of_require.append hmarks ihi)
    refine ⟨hfirst.among, fun again hfresh => ?_⟩
    -- by the time of the second run the scopes of the array have been declared
    have hagain := ihn.introduces true fun entry hentry slot hslot =>
      hi.marks.mono slot (hmarks.complete entry hentry slot hslot)
    exact (hfirst.introduces again hfresh).repeated hagain fun d hd =>
      List.mem_append_right _ (List.mem_append_left _ hd)
  | loop hc _ ihc ihb => exact (ihc.append hc.marks ihb).congr rfl rfl rfl rfl rfl
  | listCons he _ ihe ihrest => exact ihe.append he.marks ihrest
  | argsFree he _ ihe ihrest => exact ihe.append he.marks ihrest
  | argsCons he _ ihe ihrest => exact ihe.append he.marks ihrest
  | pairInt _ hl _ ihl ihr => exact ihl.append hl.marks ihr
  | pairFloat _ hl _ ihl ihr => exact ihl.append hl.marks ihr
  | @memberInt _ _ _ _ operand _ _ _ hv _ ih =>
    obtain ⟨⟨node, ty, span⟩, emitted⟩ := operand
    cases hv
    exact ih
  | memberValue _ he _ ihe ihrest => exact ihe.append he.marks ihrest
  | @definition s s₁ s₂ header prologue body params first second hparams hf hs ihf ihs =>
    have hscope : Brings [(header.params, header.frame)] _ [] s.takeLocals.2
        (s.beginFunction header params) :=
      State.brings_declareScope (fun _ => State.mem_declared_markAll) (State.forms_markAll _ _)
        (State.table_markAll _ _)
    have hbody := hscope.append (s.marks_beginFunction header params) (ihf.append hf.marks ihs)
    rw [Task.definitions, ← List.append_assoc]
    refine ⟨fun d hd => ?_, fun again hfresh => ?_⟩
    · rcases List.mem_append.1 hd with hd | hd
      · exact hbody.among d hd
      · -- the function itself is entered with the scope that `beginFunction` opens
        cases List.mem_singleton.1 hd
        exact List.mem_cons_self
    · have hrun := hbody.introduces again hfresh
      exact hrun.endFunction header ⟨rfl, Emit.Header.map_fst_types hparams, State.locals_eq_addLocals hrun.table rfl⟩

/-! ## Programs -/

/-- The function definitions of a program; the last one runs the top-level statements. -/
def Program.definitions (p : Program) : List Definition :=
  (p.body.locate [0]).definitions none
    ++ [⟨initName, [], ⟨[], p.scope⟩, (p.body.locate [0]).variables⟩]

/-- The scopes of a program at their places, each with the parameters of the function it belongs
to. -/
def Program.frames (p : Program) : List (List String × Frame) :=
  ([], ⟨[], p.scope⟩) :: (p.body.locate [0]).scopes

/-- The places of the scopes change nothing else about them. -/
theorem Program.map_scope_frames (p : Program) :
    (p.frames.map fun entry => (entry.1, entry.2.scope)) = p.scopes := by
  rw [frames, List.map_cons, Expr.map_scope_scopes_locate]
  rfl

/-- The global variables of a module are those that the scopes of the program bind, apart from those
that parameters stand for. -/
theorem Program.globals_eq_own {p : Program} {m : Module} {map : SourceMap}
    (h : p.compile.outcome = .ok (m, map)) :
    m.globals = p.frames.flatMap fun entry => (entry.2.own entry.1).globals := by
  obtain ⟨s, pages, hemits, _, rfl, _⟩ := emits_of_compile h
  exact (hemits.brings.introduces false p.fresh_scopes).globals

/-- The names of the global variables that the scopes of a program bind, apart from those that
parameters stand for. -/
def Program.globalNames (p : Program) : List String :=
  p.frames.flatMap fun entry => (entry.2.own entry.1).globals.map Prod.fst

/-- No scope of a program binds a name twice, and no function has two parameters of one name. -/
structure Program.BindsOnce (p : Program) : Prop where
  /-- No scope binds a name twice. -/
  names : ∀ entry ∈ p.scopes, entry.2.names.Nodup
  /-- Parameters have different names. -/
  params : ∀ entry ∈ p.scopes, entry.1.Nodup

/-- The compiler finds each name bound once. -/
theorem Program.BindsOnce.frames {p : Program} (h : p.BindsOnce) :
    ∀ entry ∈ p.frames, entry.2.scope.names.Nodup ∧ entry.1.Nodup := by
  intro entry hentry
  have hmem : (entry.1, entry.2.scope) ∈ p.scopes := by
    rw [← map_scope_frames]
    exact List.mem_map_of_mem hentry
  exact ⟨h.names _ hmem, h.params _ hmem⟩

namespace Definition.Written

variable {d : Definition} {again : Bool} {f : Func}

/-- The local variables of a function have different names. -/
theorem nodup_locals (h : d.Written again f) : (f.locals.map Prod.fst).Nodup := by
  rw [h.locals]
  cases again with
  | true => exact List.nodup_nil
  | false => exact nodup_addLocals _

/-- A function that is written for the first time declares each name once exactly if its blocks bind
no local variable under the name of a parameter. -/
theorem nodup_iff (h : d.Written false f) (hnames : d.frame.scope.names.Nodup)
    (hparams : d.params.Nodup) :
    ((f.params ++ f.locals).map Prod.fst).Nodup ↔ ∀ v ∈ d.inner, v.1 ∉ d.params := by
  have hlocals : ∀ x, x ∈ f.locals.map Prod.fst ↔
      x ∈ (d.frame.own d.params).variables.map Prod.fst ∨ x ∈ d.inner.map Prod.fst := by
    intro x
    rw [h.locals]
    refine mem_names_addLocals.trans ?_
    simp only [List.map_nil, List.not_mem_nil, false_or, List.map_append, List.mem_append]
  rw [List.map_append, List.nodup_append', h.params]
  constructor
  · rintro ⟨_, _, hdisjoint⟩ v hv hparam
    exact hdisjoint hparam ((hlocals v.1).2 (.inr (List.mem_map_of_mem hv)))
  · intro hinner
    refine ⟨hparams, h.nodup_locals, fun x hparam hx => ?_⟩
    rcases (hlocals x).1 hx with hown | hblock
    · exact Frame.not_mem_of_own hnames hown hparam
    · obtain ⟨v, hv, rfl⟩ := List.mem_map.1 hblock
      exact hinner v hv hparam

/-- A function that is written again declares its parameters only. -/
theorem nodup_again (h : d.Written true f) (hparams : d.params.Nodup) :
    ((f.params ++ f.locals).map Prod.fst).Nodup := by
  rw [h.locals, if_pos rfl, List.append_nil, h.params]
  exact hparams

end Definition.Written

/-- The library functions declare each name once. -/
theorem Snippet.nodup_names (snippet : Snippet) :
    ((snippet.func.params ++ snippet.func.locals).map Prod.fst).Nodup := by
  cases snippet <;> decide

/-- In a program that binds names once, the parameters of each function have different names, and so
have its local variables. A local variable has the name of a parameter exactly if a block binds it
in the function of the parameter. The global variables have different names exactly if the bindings
do that they are written for. -/
theorem Program.nodup_declarations_iff {p : Program} {m : Module} {map : SourceMap}
    (h : p.compile.outcome = .ok (m, map)) (hp : p.BindsOnce) :
    (∀ f ∈ m.functions, (f.params.map Prod.fst).Nodup ∧ (f.locals.map Prod.fst).Nodup) ∧
    ((∀ f ∈ m.functions, ((f.params ++ f.locals).map Prod.fst).Nodup) ↔
      ∀ d ∈ p.definitions, ∀ v ∈ d.inner, v.1 ∉ d.params) ∧
    ((m.globals.map Prod.fst).Nodup ↔ p.globalNames.Nodup) := by
  have hglobals := globals_eq_own h
  obtain ⟨s, pages, hemits, _, rfl, _⟩ := emits_of_compile h
  have hbrings : Brings p.frames [] p.definitions
      (State.record {} (.started p.scope.bindings.length)) s := hemits.brings
  obtain ⟨written, hfuncs, hof, hfor⟩ := (hbrings.introduces false p.fresh_scopes).funcs
  have hmem : ∀ f, f ∈ Module.functions ⟨pages, s.includes, s.forms, Export.ofScope p.scope⟩ ↔
      (∃ snippet ∈ s.includes, snippet.func = f) ∨ f ∈ written := by
    intro f
    rw [Module.functions, List.mem_append, List.mem_map]
    exact or_congr_right (iff_of_eq (congrArg (f ∈ ·) hfuncs))
  have honce : ∀ d ∈ p.definitions, d.frame.scope.names.Nodup ∧ d.params.Nodup :=
    fun d hd => hp.frames _ (hbrings.among d hd)
  refine ⟨fun f hf => ?_, ⟨fun hnodup d hd => ?_, fun hinner f hf => ?_⟩, ?_⟩
  · rcases (hmem f).1 hf with ⟨snippet, _, rfl⟩ | hf
    · have hnames := snippet.nodup_names
      rw [List.map_append] at hnames
      exact ⟨hnames.of_append_left, hnames.of_append_right⟩
    · obtain ⟨d, hd, hwritten | hwritten⟩ := hof f hf
      · exact ⟨hwritten.params ▸ (honce d hd).2, hwritten.nodup_locals⟩
      · exact ⟨hwritten.params ▸ (honce d hd).2, hwritten.nodup_locals⟩
  · obtain ⟨f, hf, hwritten⟩ := hfor d hd
    exact (hwritten.nodup_iff (honce d hd).1 (honce d hd).2).1 (hnodup f ((hmem f).2 (.inr hf)))
  · rcases (hmem f).1 hf with ⟨snippet, _, rfl⟩ | hf
    · exact snippet.nodup_names
    · obtain ⟨d, hd, hwritten | hwritten⟩ := hof f hf
      · exact (hwritten.nodup_iff (honce d hd).1 (honce d hd).2).2 (hinner d hd)
      · exact hwritten.nodup_again (honce d hd).2
  · rw [hglobals, List.map_flatMap]
    rfl

/-- A function with a parameter `a` and a block that binds an integer `a`; a global variable `g` that
a block binds once more. -/
def Program.rebound : Program where
  body := .plain (.statements [
    .plain (.assign (.plain (.ident "f")) (.plain (.function ["a"] none none
      (.plain (.block (.plain (.ident "a")) ⟨[⟨"a", { kind := .int, storage := .localVar }⟩]⟩))
      ⟨[⟨"a", { kind := .float, storage := .parameter }⟩]⟩))),
    .plain (.block (.plain (.ident "g")) ⟨[⟨"g", { kind := .int, storage := .globalVar }⟩]⟩)])
  scope := ⟨[⟨"g", { kind := .int, storage := .globalVar }⟩]⟩

/-- A name that a block binds again is declared twice: next to the parameter, and as a global
variable. -/
theorem Program.rebound_declares_twice : ∃ m map, rebound.compile.outcome = .ok (m, map) ∧
    rebound.BindsOnce ∧ ¬ (∀ f ∈ m.functions, ((f.params ++ f.locals).map Prod.fst).Nodup) ∧
    ¬ (m.globals.map Prod.fst).Nodup := by
  have honce : rebound.BindsOnce := ⟨by decide, by decide⟩
  refine ⟨_, _, rfl, honce, fun hlocals => ?_, fun hglobals => ?_⟩
  · have hinner := (nodup_declarations_iff rfl honce).2.1.1 hlocals
    exact absurd hinner (by decide)
  · have hnames := (nodup_declarations_iff rfl honce).2.2.1 hglobals
    exact absurd hnames (by decide)

end PatchCompiler
