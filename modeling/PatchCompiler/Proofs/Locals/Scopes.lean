import PatchCompiler.Proofs.Locals.Declaration

/-! # The scopes of an expression

`Expr.scopes` lists the scopes of an expression in the order the compiler opens them for the first
time, each with the parameters it has to bind. Two scopes of a program never stand at the same place,
so that a scope is new until the compiler opens it and declared from then on. -/

namespace PatchCompiler

mutual

/-- The scopes of an expression, each with the parameters of the function it belongs to. -/
def Expr.scopes {σ : Type} : Expr σ → List (List String × σ)
  | .mk node _ _ => node.scopes

/-- The scopes of a node. -/
def Node.scopes {σ : Type} : Node σ → List (List String × σ)
  | .statements items => Expr.scopesList items
  | .sequence items => Expr.scopesList items
  | .floatLit _ => []
  | .intLit _ => []
  | .ident _ => []
  | .function params _ prologue body scope =>
    (params, scope) :: (Expr.scopesOption prologue ++ body.scopes)
  | .block body scope => ([], scope) :: body.scopes
  | .call _ args => Expr.scopesList args
  | .neg operand => operand.scopes
  | .binary _ left right => left.scopes ++ right.scopes
  | .compare _ left right => left.scopes ++ right.scopes
  | .step _ target => target.scopes
  | .compound _ target value => target.scopes ++ value.scopes
  | .clamp value range => value.scopes ++ range.scopes
  | .range start stop => Expr.scopesOption stop ++ Expr.scopesOption start
  | .array members => Expr.scopesList members
  | .index array index => array.scopes ++ Expr.scopesOption index
  | .field object _ => object.scopes
  | .assign target value => value.scopes ++ target.scopes
  | .loop cond body => cond.scopes ++ body.scopes

/-- The scopes of a list of expressions. -/
def Expr.scopesList {σ : Type} : List (Expr σ) → List (List String × σ)
  | [] => []
  | e :: rest => e.scopes ++ Expr.scopesList rest

/-- The scopes of an expression that may be missing. -/
def Expr.scopesOption {σ : Type} : Option (Expr σ) → List (List String × σ)
  | none => []
  | some e => e.scopes

end

/-! ## Places of scopes -/

mutual

/-- Giving the scopes of an expression their places changes nothing else about them. -/
theorem Expr.map_scope_scopes_locate (site : Site) : ∀ e : Expr Scope,
    ((e.locate site).scopes.map fun entry => (entry.1, entry.2.scope)) = e.scopes
  | .mk node ty span => by
    cases node with
    | statements items => exact Expr.map_scope_scopesList_locate site 0 items
    | sequence items => exact Expr.map_scope_scopesList_locate site 0 items
    | floatLit value => rfl
    | intLit value => rfl
    | ident x => rfl
    | function params result prologue body scope =>
      have hprologue := Expr.map_scope_scopesOption_locate (0 :: site) prologue
      have hbody := Expr.map_scope_scopes_locate (1 :: site) body
      simp [Expr.locate, Node.locate, Expr.scopes, Node.scopes, hprologue, hbody]
    | block body scope =>
      have hbody := Expr.map_scope_scopes_locate (0 :: site) body
      simp [Expr.locate, Node.locate, Expr.scopes, Node.scopes, hbody]
    | call callee args => exact Expr.map_scope_scopesList_locate site 0 args
    | neg operand => exact Expr.map_scope_scopes_locate (0 :: site) operand
    | binary op left right =>
      have hleft := Expr.map_scope_scopes_locate (0 :: site) left
      have hright := Expr.map_scope_scopes_locate (1 :: site) right
      simp [Expr.locate, Node.locate, Expr.scopes, Node.scopes, hleft, hright]
    | compare op left right =>
      have hleft := Expr.map_scope_scopes_locate (0 :: site) left
      have hright := Expr.map_scope_scopes_locate (1 :: site) right
      simp [Expr.locate, Node.locate, Expr.scopes, Node.scopes, hleft, hright]
    | step op target => exact Expr.map_scope_scopes_locate (0 :: site) target
    | compound op target value =>
      have htarget := Expr.map_scope_scopes_locate (0 :: site) target
      have hvalue := Expr.map_scope_scopes_locate (1 :: site) value
      simp [Expr.locate, Node.locate, Expr.scopes, Node.scopes, htarget, hvalue]
    | clamp value range =>
      have hvalue := Expr.map_scope_scopes_locate (0 :: site) value
      have hrange := Expr.map_scope_scopes_locate (1 :: site) range
      simp [Expr.locate, Node.locate, Expr.scopes, Node.scopes, hvalue, hrange]
    | range start stop =>
      have hstart := Expr.map_scope_scopesOption_locate (0 :: site) start
      have hstop := Expr.map_scope_scopesOption_locate (1 :: site) stop
      simp [Expr.locate, Node.locate, Expr.scopes, Node.scopes, hstart, hstop]
    | array members => exact Expr.map_scope_scopesList_locate site 0 members
    | index array index =>
      have harray := Expr.map_scope_scopes_locate (0 :: site) array
      have hindex := Expr.map_scope_scopesOption_locate (1 :: site) index
      simp [Expr.locate, Node.locate, Expr.scopes, Node.scopes, harray, hindex]
    | field object field => exact Expr.map_scope_scopes_locate (0 :: site) object
    | assign target value =>
      have htarget := Expr.map_scope_scopes_locate (0 :: site) target
      have hvalue := Expr.map_scope_scopes_locate (1 :: site) value
      simp [Expr.locate, Node.locate, Expr.scopes, Node.scopes, htarget, hvalue]
    | loop cond body =>
      have hcond := Expr.map_scope_scopes_locate (0 :: site) cond
      have hbody := Expr.map_scope_scopes_locate (1 :: site) body
      simp [Expr.locate, Node.locate, Expr.scopes, Node.scopes, hcond, hbody]

/-- The same for a list of expressions. -/
theorem Expr.map_scope_scopesList_locate (site : Site) : ∀ (first : Nat) (es : List (Expr Scope)),
    ((Expr.scopesList (Expr.locateList site first es)).map fun entry =>
      (entry.1, entry.2.scope)) = Expr.scopesList es
  | _, [] => rfl
  | first, e :: rest => by
    have he := Expr.map_scope_scopes_locate (first :: site) e
    have hrest := Expr.map_scope_scopesList_locate site (first + 1) rest
    simp [Expr.locateList, Expr.scopesList, he, hrest]

/-- The same for an expression that may be missing. -/
theorem Expr.map_scope_scopesOption_locate (site : Site) : ∀ e : Option (Expr Scope),
    ((Expr.scopesOption (Expr.locateOption site e)).map fun entry => (entry.1, entry.2.scope))
      = Expr.scopesOption e
  | none => rfl
  | some e => Expr.map_scope_scopes_locate site e

end

/-- Scopes at different places, each at a place or below it. -/
structure Placed (site : Site) (entries : List (List String × Frame)) : Prop where
  /-- The path to each scope goes through the place. -/
  below : ∀ entry ∈ entries, site <:+ entry.2.site
  /-- No two scopes stand at the same place. -/
  nodup : (entries.map fun entry => entry.2.site).Nodup

/-- Scopes at different places, each below one of the steps from a place. -/
structure Spread (site : Site) (steps : Nat → Prop) (entries : List (List String × Frame)) :
    Prop where
  /-- The path to each scope goes through one of the steps. -/
  below : ∀ entry ∈ entries, ∃ i, steps i ∧ i :: site <:+ entry.2.site
  /-- No two scopes stand at the same place. -/
  nodup : (entries.map fun entry => entry.2.site).Nodup

namespace Spread

variable {site : Site} {steps steps' : Nat → Prop} {first second : List (List String × Frame)}

/-- No scopes are spread below any steps. -/
theorem nil : Spread site steps [] := ⟨by simp, by simp⟩

/-- Scopes at or below a step. -/
theorem of_placed {i : Nat} (h : Placed (i :: site) first) : Spread site (· = i) first :=
  ⟨fun entry hentry => ⟨i, rfl, h.below entry hentry⟩, h.nodup⟩

/-- Scopes below steps are below the place. -/
theorem placed (h : Spread site steps first) : Placed site first := by
  refine ⟨fun entry hentry => ?_, h.nodup⟩
  obtain ⟨i, _, hsuffix⟩ := h.below entry hentry
  exact (List.suffix_cons i site).trans hsuffix

/-- A path goes through at most one of two different steps. -/
theorem append (h : Spread site steps first) (h' : Spread site steps' second)
    (hdisjoint : ∀ i, steps i → ¬ steps' i) :
    Spread site (fun i => steps i ∨ steps' i) (first ++ second) := by
  constructor
  · intro entry hentry
    rcases List.mem_append.1 hentry with hentry | hentry
    · obtain ⟨i, hi, hsuffix⟩ := h.below entry hentry
      exact ⟨i, .inl hi, hsuffix⟩
    · obtain ⟨i, hi, hsuffix⟩ := h'.below entry hentry
      exact ⟨i, .inr hi, hsuffix⟩
  · rw [List.map_append, List.nodup_append']
    refine ⟨h.nodup, h'.nodup, fun place hfirst hsecond => ?_⟩
    obtain ⟨entry, hentry, rfl⟩ := List.mem_map.1 hfirst
    obtain ⟨entry', hentry', hsame⟩ := List.mem_map.1 hsecond
    obtain ⟨i, hi, hsuffix⟩ := h.below entry hentry
    obtain ⟨j, hj, hsuffix'⟩ := h'.below entry' hentry'
    rw [hsame] at hsuffix'
    -- both steps lead to the same scope, so they are the same step
    have hstep : i :: site <:+ j :: site :=
      List.suffix_of_suffix_length_le hsuffix hsuffix' (by simp)
    cases hstep.eq_of_length (by simp)
    exact hdisjoint i hi hj

/-- The scope of a node stands above those of its parts. -/
theorem cons (h : Spread site steps first) (params : List String) (scope : Scope) :
    Placed site ((params, ⟨site, scope⟩) :: first) := by
  refine ⟨fun entry hentry => ?_, ?_⟩
  · rcases List.mem_cons.1 hentry with rfl | hentry
    · exact List.suffix_refl site
    · exact h.placed.below entry hentry
  · rw [List.map_cons, List.nodup_cons]
    refine ⟨fun hmem => ?_, h.nodup⟩
    obtain ⟨entry, hentry, hsame⟩ := List.mem_map.1 hmem
    obtain ⟨i, _, hsuffix⟩ := h.below entry hentry
    rw [hsame] at hsuffix
    -- a path below the place is longer than the place
    exact absurd hsuffix.length_le (by simp)

end Spread

/-- No scopes are placed at any site. -/
theorem Placed.nil {site : Site} : Placed site [] := ⟨by simp, by simp⟩

/-- The scopes of two parts of a node. -/
theorem Placed.append {site : Site} {i j : Nat} {first second : List (List String × Frame)}
    (h : Placed (i :: site) first) (h' : Placed (j :: site) second) (hne : i ≠ j) :
    Placed site (first ++ second) :=
  ((Spread.of_placed h).append (Spread.of_placed h') (by rintro k rfl; exact hne)).placed

/-- The scopes of the only part of a node. -/
theorem Placed.up {site : Site} {i : Nat} {entries : List (List String × Frame)}
    (h : Placed (i :: site) entries) : Placed site entries :=
  (Spread.of_placed h).placed

mutual

/-- The scopes of an expression stand at different places at or below its own. -/
theorem Expr.placed_scopes (site : Site) : ∀ e : Expr Scope, Placed site (e.locate site).scopes
  | .mk node ty span => by
    cases node with
    | statements items => exact (Expr.spread_scopesList site 0 items).placed
    | sequence items => exact (Expr.spread_scopesList site 0 items).placed
    | floatLit value => exact .nil
    | intLit value => exact .nil
    | ident x => exact .nil
    | function params result prologue body scope =>
      have hprologue := Spread.of_placed (Expr.placed_scopesOption (0 :: site) prologue)
      have hbody := Spread.of_placed (Expr.placed_scopes (1 :: site) body)
      exact (hprologue.append hbody (by rintro i rfl; decide)).cons params scope
    | block body scope =>
      exact (Spread.of_placed (Expr.placed_scopes (0 :: site) body)).cons [] scope
    | call callee args => exact (Expr.spread_scopesList site 0 args).placed
    | neg operand => exact (Expr.placed_scopes (0 :: site) operand).up
    | binary op left right =>
      exact (Expr.placed_scopes (0 :: site) left).append (Expr.placed_scopes (1 :: site) right)
        (by decide)
    | compare op left right =>
      exact (Expr.placed_scopes (0 :: site) left).append (Expr.placed_scopes (1 :: site) right)
        (by decide)
    | step op target => exact (Expr.placed_scopes (0 :: site) target).up
    | compound op target value =>
      exact (Expr.placed_scopes (0 :: site) target).append (Expr.placed_scopes (1 :: site) value)
        (by decide)
    | clamp value range =>
      exact (Expr.placed_scopes (0 :: site) value).append (Expr.placed_scopes (1 :: site) range)
        (by decide)
    | range start stop =>
      exact (Expr.placed_scopesOption (1 :: site) stop).append
        (Expr.placed_scopesOption (0 :: site) start) (by decide)
    | array members => exact (Expr.spread_scopesList site 0 members).placed
    | index array index =>
      exact (Expr.placed_scopes (0 :: site) array).append
        (Expr.placed_scopesOption (1 :: site) index) (by decide)
    | field object field => exact (Expr.placed_scopes (0 :: site) object).up
    | assign target value =>
      exact (Expr.placed_scopes (1 :: site) value).append (Expr.placed_scopes (0 :: site) target)
        (by decide)
    | loop cond body =>
      exact (Expr.placed_scopes (0 :: site) cond).append (Expr.placed_scopes (1 :: site) body)
        (by decide)

/-- The scopes of a list stand below the steps of its expressions. -/
theorem Expr.spread_scopesList (site : Site) : ∀ (first : Nat) (es : List (Expr Scope)),
    Spread site (first ≤ ·) (Expr.scopesList (Expr.locateList site first es))
  | _, [] => Spread.nil
  | first, e :: rest => by
    have he := Spread.of_placed (Expr.placed_scopes (first :: site) e)
    have hrest := Expr.spread_scopesList site (first + 1) rest
    have happend := he.append hrest (by rintro i rfl; simp)
    refine ⟨fun entry hentry => ?_, happend.nodup⟩
    obtain ⟨i, hi, hsuffix⟩ := happend.below entry hentry
    exact ⟨i, by omega, hsuffix⟩

/-- The scopes of an expression that may be missing. -/
theorem Expr.placed_scopesOption (site : Site) : ∀ e : Option (Expr Scope),
    Placed site (Expr.scopesOption (Expr.locateOption site e))
  | none => .nil
  | some e => Expr.placed_scopes site e

end

end PatchCompiler
