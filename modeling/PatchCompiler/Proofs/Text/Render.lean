import Mathlib.Data.List.Forall2
import PatchCompiler.Proofs.Text.Sexp
import PatchCompiler.Proofs.Wasm.Heads

/-! # The text of modules is read back

The trees that stand for instructions, functions and the other forms of a module, and the proof that
their texts read as these trees. Names have to be made of characters of words, and those of exports
have to stand for themselves between quotes. -/

namespace PatchCompiler

open Sexp

/-! ## Words -/

/-- Whether a text can be part of a word. -/
def Sexp.IsName (text : String) : Prop := ∀ c ∈ text.toList, isWordChar c = true

/-- Whether a text is a word. -/
def Sexp.IsWord (text : String) : Prop := text ≠ "" ∧ IsName text

/-- Whether a text can be part of a word can be decided. -/
instance (text : String) : Decidable (IsName text) := List.decidableBAll _ text.toList

/-- Whether a text is a word can be decided. -/
instance (text : String) : Decidable (IsWord text) := inferInstanceAs (Decidable (_ ∧ _))

namespace Sexp

/-- A word is read as itself. -/
theorem IsWord.reads {text : String} (h : IsWord text) : Reads text [.atom text] :=
  Reads.word h.1 h.2

/-- Two parts of a word make up a part of a word. -/
theorem IsName.append {t u : String} (h : IsName t) (h' : IsName u) : IsName (t ++ u) := by
  intro c hc
  rw [String.toList_append] at hc
  exact (List.mem_append.1 hc).elim (h c) (h' c)

/-- A word goes on with characters of words. -/
theorem IsWord.append {t u : String} (h : IsWord t) (h' : IsName u) : IsWord (t ++ u) := by
  refine ⟨fun hempty => h.1 ?_, h.2.append h'⟩
  have hlists := congrArg String.toList hempty
  rw [String.toList_append] at hlists
  exact String.toList_eq_nil_iff.1 (List.append_eq_nil_iff.1 hlists).1

/-- A name behind a dollar sign is a word. -/
theorem IsName.dollar {x : String} (h : IsName x) : IsWord ("$" ++ x) :=
  IsWord.append (by decide) h

/-- A text behind blanks. -/
theorem Reads.after {t lead : String} {xs : List Sexp} (h : Reads t xs)
    (hlead : ∀ outer items,
      Reader.run ⟨outer, items, .blank⟩ lead = some ⟨outer, items, .blank⟩) :
    Reads (lead ++ t) xs := by
  intro outer items
  rw [Reader.run_append, hlead]
  exact h outer items

/-- A blank in front of a text does not matter to what is read. -/
theorem Reads.blank {t : String} {xs : List Sexp} (h : Reads t xs) : Reads (" " ++ t) xs :=
  h.after fun _ _ => rfl

/-- Texts on lines of their own. -/
theorem Reads.lines {texts : List String} {trees : List Sexp}
    (h : List.Forall₂ (fun t x => Reads t [x]) texts trees) :
    Reads ("\n".intercalate texts) trees := by
  induction h with
  | nil => exact .nil
  | @cons t x texts trees ht hrest ih =>
    -- a line break in front of the rest keeps it apart from the first text
    cases hrest with
    | nil => exact ht
    | cons _ _ =>
      rw [String.intercalate_cons_cons, String.append_assoc]
      exact ht.append (ih.after fun _ _ => rfl) (Delimited.append (by decide) (by decide) _)

/-- A text behind a blank does not begin with a word. -/
theorem delimited_blank (t : String) : Delimited (" " ++ t) :=
  Delimited.append (by decide) (by decide) t

/-- A text in front of another, in two parts. -/
theorem append_split (lead first second t : String) (h : lead = first ++ second) :
    lead ++ t = first ++ (second ++ t) := by
  rw [h, String.append_assoc]

/-- Texts one behind another, none of which begins with a word. -/
theorem Reads.join {α : Type} {l : List α} {text : α → String} {tree : α → Sexp}
    (h : ∀ a ∈ l, Reads (text a) [tree a]) (hdelimited : ∀ a ∈ l, ∀ u, Delimited (text a ++ u)) :
    Reads (String.join (l.map text)) (l.map tree) ∧ Delimited (String.join (l.map text)) := by
  induction l with
  | nil => exact ⟨.nil, fun c hc => nomatch hc⟩
  | cons a rest ih =>
    have hrest := ih (fun b hb => h b (List.mem_cons_of_mem _ hb))
      fun b hb => hdelimited b (List.mem_cons_of_mem _ hb)
    rw [List.map_cons, String.join_cons]
    exact ⟨(h a List.mem_cons_self).append hrest.1 hrest.2, hdelimited a List.mem_cons_self _⟩

/-- Two words with a blank between them. -/
theorem Reads.pair {t u lead : String} (hlead : lead = t ++ " ") (h : IsWord t) (h' : IsWord u) :
    Reads (lead ++ u) [.atom t, .atom u] := by
  rw [hlead, String.append_assoc]
  exact h.reads.append h'.reads.blank (delimited_blank u)

/-- A word and a name behind a dollar sign. -/
theorem Reads.named {t x lead : String} (hlead : lead = t ++ " $") (h : IsWord t) (hx : IsName x) :
    Reads (lead ++ x) [.atom t, .atom ("$" ++ x)] := by
  rw [hlead, String.append_assoc, append_split " $" " " "$" x rfl]
  exact h.reads.append hx.dollar.reads.blank (delimited_blank _)

end Sexp

/-! ## Numbers -/

/-- Digits may stand in words. -/
theorem isWordChar_of_isDigit {c : Char} (h : c.isDigit = true) : isWordChar c = true := by
  simp [isWordChar, Char.isAlphanum, h]

/-- The digits of a number are a word. -/
theorem Wasm.isWord_natural (n : Nat) : IsWord (toString n) := by
  refine ⟨fun hempty => ?_, fun c hc => ?_⟩
  · have hdigits := congrArg String.toList hempty
    exact Nat.toDigits_ne_nil (Nat.toList_repr.symm.trans hdigits)
  · have hdigit : c ∈ Nat.toDigits 10 n := Nat.toList_repr ▸ hc
    exact isWordChar_of_isDigit (Nat.isDigit_of_mem_toDigits (by decide) (by decide) hdigit)

/-- A number with its sign is a word. -/
theorem Wasm.isWord_integer (n : Int) : IsWord (toString n) := by
  cases n with
  | ofNat n => exact Wasm.isWord_natural n
  | negSucc n => exact IsWord.append (by decide : IsWord "-") (Wasm.isWord_natural (n + 1)).2

/-- The places of a decimal are digits and a point. -/
theorem Decimal.isWord_positional (d : Decimal) : IsWord (String.ofList d.positional) := by
  have hdigits : ∀ c ∈ d.characters, isWordChar c = true := fun c hc =>
    isWordChar_of_isDigit (Nat.isDigit_of_mem_toDigits (by decide) (by decide) hc)
  have hzeros : ∀ n, ∀ c ∈ List.replicate n '0', isWordChar c = true := by
    intro n c hc
    rw [List.eq_of_mem_replicate hc]
    decide
  have hpoint : isWordChar '.' = true := by decide
  have hzero : isWordChar '0' = true := by decide
  -- digits before the point, around it, or behind zeros
  constructor
  · intro hempty
    have hnil : d.positional = [] := String.ofList_eq_empty_iff.1 hempty
    unfold positional at hnil
    split at hnil
    · exact Nat.toDigits_ne_nil (List.append_eq_nil_iff.1 hnil).1
    · split at hnil <;> simp at hnil
  · intro c hc
    rw [String.toList_ofList] at hc
    unfold positional at hc
    split at hc
    · exact (List.mem_append.1 hc).elim (hdigits c) (hzeros _ c)
    · split at hc
      · rcases List.mem_append.1 hc with hc | hc
        · exact hdigits c (List.mem_of_mem_take hc)
        · rcases List.mem_cons.1 hc with rfl | hc
          · exact hpoint
          · exact hdigits c (List.mem_of_mem_drop hc)
      · rcases List.mem_cons.1 hc with rfl | hc
        · exact hzero
        · rcases List.mem_cons.1 hc with rfl | hc
          · exact hpoint
          · exact (List.mem_append.1 hc).elim (hzeros _ c) (hdigits c)

/-- The text of a floating-point constant is a word. -/
theorem Wasm.isWord_floatText (x : Binary64) : IsWord (floatText x) := by
  -- what stands behind the sign
  have hmagnitude : IsWord (if x.isInfinite then "inf" else if x.isZero then "0"
      else String.ofList (x.shortest .up).positional) := by
    split
    · decide
    · split
      · decide
      · exact Decimal.isWord_positional _
  unfold floatText
  split
  · decide
  · dsimp only
    split
    · exact IsWord.append (by decide) hmagnitude.2
    · exact hmagnitude

/-! ## Instructions -/

/-- The name that an instruction refers to. -/
def Op.name? : Op → Option String
  | .getGlobal x => some x
  | .getLocal x => some x
  | .setGlobal x => some x
  | .teeLocal x => some x
  | .call x => some x
  | _ => none

/-- The words of an instruction's head. -/
def Op.sexps : Op → List Sexp
  | .constInt value => [.atom "i32.const", .atom (toString value.toInt)]
  | .constFloat value => [.atom "f64.const", .atom (Wasm.floatText value)]
  | .getGlobal x => [.atom "global.get", .atom ("$" ++ x)]
  | .getLocal x => [.atom "local.get", .atom ("$" ++ x)]
  | .setGlobal x => [.atom "global.set", .atom ("$" ++ x)]
  | .teeLocal x => [.atom "local.tee", .atom ("$" ++ x)]
  | .call x => [.atom "call", .atom ("$" ++ x)]
  | .int op => [.atom ("i32." ++ op.name)]
  | .float op => [.atom ("f64." ++ op.name)]
  | .convert => [.atom "f64.convert_i32_s"]
  | .truncate => [.atom "i32.trunc_f64_s"]
  | .loadInt => [.atom "i32.load"]
  | .storeInt => [.atom "i32.store"]
  | .storeFloat => [.atom "f64.store"]
  | .select => [.atom "select"]
  | .loop label => [.atom "loop", .atom (Wasm.labelText label)]
  | .conditional => [.atom "if"]
  | .thenPart => [.atom "then"]
  | .branch label => [.atom "br", .atom (Wasm.labelText label)]
  | .ret => [.atom "return"]

mutual

/-- The tree of an instruction. -/
def Instr.sexp : Instr → Sexp
  | .node op operands => .list (op.sexps ++ Instr.sexpsOperands operands)

/-- The trees of the operands of an instruction. -/
def Instr.sexpsOperands : List (List (Gap × Instr)) → List Sexp
  | [] => []
  | operand :: rest => Instr.sexpsRun operand ++ Instr.sexpsOperands rest

/-- The trees of a run of instructions. -/
def Instr.sexpsRun : List (Gap × Instr) → List Sexp
  | [] => []
  | (_, i) :: rest => i.sexp :: Instr.sexpsRun rest

end

/-- The trees of a code. -/
def Code.sexps (code : Code) : List Sexp := Instr.sexpsRun code

/-- The label of a loop is a word. -/
theorem Wasm.isWord_labelText (label : Label) : IsWord (labelText label) :=
  IsWord.append (by decide) (isWord_natural _).2

/-- The text of an instruction's head. -/
theorem Op.reads_headText {op : Op} (h : ∀ x ∈ op.name?, IsName x) :
    Reads (Wasm.headText op) op.sexps := by
  cases op with
  | constInt value => exact .pair rfl (by decide) (Wasm.isWord_integer _)
  | constFloat value => exact .pair rfl (by decide) (Wasm.isWord_floatText _)
  | getGlobal x => exact .named rfl (by decide) (h x rfl)
  | getLocal x => exact .named rfl (by decide) (h x rfl)
  | setGlobal x => exact .named rfl (by decide) (h x rfl)
  | teeLocal x => exact .named rfl (by decide) (h x rfl)
  | call x => exact .named rfl (by decide) (h x rfl)
  | int op => cases op <;> exact IsWord.reads (by decide)
  | float op => cases op <;> exact IsWord.reads (by decide)
  | loop label => exact .pair rfl (by decide) (Wasm.isWord_labelText label)
  | branch label => exact .pair rfl (by decide) (Wasm.isWord_labelText label)
  | convert | truncate | loadInt | storeInt | storeFloat | select | conditional | thenPart | ret =>
    exact IsWord.reads (by decide)

/-- The text of a gap has no items. -/
theorem Gap.reads_text (gap : Gap) : Reads gap.text [] := by
  cases gap <;> exact fun _ _ => ⟨_, rfl, rfl⟩

/-- A gap in front of a text that does not begin with a word. -/
theorem Gap.delimited_text (gap : Gap) {t : String} (h : Delimited t) :
    Delimited (gap.text ++ t) := by
  cases gap with
  | tight => rwa [Gap.text, String.empty_append]
  | _ => exact Delimited.append (by decide) (by decide) t

/-- The text of an instruction begins with a parenthesis. -/
theorem Instr.delimited_render (i : Instr) (t : String) : Delimited (i.render ++ t) := by
  obtain ⟨op, operands⟩ := i
  rw [render, String.append_assoc, String.append_assoc, String.append_assoc]
  exact Delimited.append (by decide) (by decide) _

mutual

/-- The text of an instruction. -/
theorem Instr.reads_render : ∀ i : Instr, (∀ op ∈ i.heads, ∀ x ∈ op.name?, IsName x) →
    Reads i.render [i.sexp]
  | .node op operands, h => by
    -- the head comes first; the operands begin with a blank each, and so are kept apart from it
    have hhead := Op.reads_headText (h op List.mem_cons_self)
    have hoperands := Instr.reads_renderOperands operands
      fun o ho => h o (List.mem_cons_of_mem _ ho)
    rw [Instr.render, @String.append_assoc "("]
    exact (hhead.append hoperands.1 hoperands.2).list

/-- The text of the operands of an instruction. -/
theorem Instr.reads_renderOperands : ∀ operands : List (List (Gap × Instr)),
    (∀ op ∈ Instr.headsOperands operands, ∀ x ∈ op.name?, IsName x) →
    Reads (Instr.renderOperands operands) (Instr.sexpsOperands operands) ∧
      Delimited (Instr.renderOperands operands)
  | [], _ => ⟨.nil, by decide⟩
  | operand :: rest, h => by
    have hoperand := Instr.reads_renderRun operand
      fun o ho => h o (List.mem_append_left _ ho)
    have hrest := Instr.reads_renderOperands rest fun o ho => h o (List.mem_append_right _ ho)
    rw [Instr.renderOperands, String.append_assoc]
    exact ⟨(hoperand.1.append hrest.1 hrest.2).blank, delimited_blank _⟩

/-- The text of a run of instructions. -/
theorem Instr.reads_renderRun : ∀ run : List (Gap × Instr),
    (∀ op ∈ Instr.headsRun run, ∀ x ∈ op.name?, IsName x) →
    Reads (Instr.renderRun run) (Instr.sexpsRun run) ∧ Delimited (Instr.renderRun run)
  | [], _ => ⟨.nil, by decide⟩
  | (gap, i) :: rest, h => by
    have hi := Instr.reads_render i fun o ho => h o (List.mem_append_left _ ho)
    have hrest := Instr.reads_renderRun rest fun o ho => h o (List.mem_append_right _ ho)
    have hdelimited := i.delimited_render (Instr.renderRun rest)
    rw [Instr.renderRun, String.append_assoc]
    exact ⟨gap.reads_text.append (hi.append hrest.1 hrest.2) hdelimited,
      gap.delimited_text hdelimited⟩

end

/-! ## Functions and other forms -/

/-- The tree of a declaration. -/
def Wasm.declarationSexp (keyword : String) (v : String × ValType) : Sexp :=
  .list [.atom keyword, .atom ("$" ++ v.1), .atom v.2.name]

/-- The tree of a function. -/
def Func.sexp (f : Func) : Sexp :=
  .list ([.atom "func", .atom ("$" ++ f.name)] ++ f.params.map (Wasm.declarationSexp "param")
    ++ f.result.toList.map (fun type => .list [.atom "result", .atom type.name])
    ++ f.locals.map (Wasm.declarationSexp "local") ++ f.body.sexps)

/-- The tree of a form. A form that is given by its text is taken as a word. -/
def Form.sexp : Form → Sexp
  | .globalVar x type =>
    .list [.atom "global", .atom ("$" ++ x), .list [.atom "mut", .atom type.name],
      .list [.atom (type.name ++ ".const"), .atom "0"]]
  | .func f => f.sexp
  | .verbatim text => .atom text

/-- The tree of an export. -/
def Export.sexp (e : Export) : Sexp :=
  .list [.atom "export", .str e.name,
    .list [.atom (if e.isFunction then "func" else "global"), .atom ("$" ++ e.name)]]

/-- The trees of a module. -/
def Module.sexps (m : Module) : List Sexp :=
  m.pages.toList.map (fun pages => .list [.atom "memory",
      .list [.atom "export", .str "memory"], .atom (toString pages.toNat)])
    ++ m.snippets.map (fun snippet => snippet.func.sexp) ++ m.forms.map Form.sexp
    ++ m.exports.map Export.sexp ++ [.list [.atom "start", .atom ("$" ++ initName)]]

/-- The names in a function satisfy a condition. -/
structure Func.Named (good : String → Prop) (f : Func) : Prop where
  /-- The name of the function. -/
  name : good f.name
  /-- The names of its parameters. -/
  params : ∀ v ∈ f.params, good v.1
  /-- The names of its local variables. -/
  locals : ∀ v ∈ f.locals, good v.1
  /-- The names that its instructions refer to. -/
  body : ∀ x ∈ f.body.pick Op.name?, good x

/-- A form is a global variable or a function, and the names in it satisfy a condition. -/
def Form.Named (good : String → Prop) : Form → Prop
  | .globalVar x _ => good x
  | .func f => f.Named good
  | .verbatim _ => False

/-- The name of a machine type is a word. -/
theorem ValType.isWord_name (type : ValType) : IsWord type.name := by
  cases type <;> decide

/-- The text of a declaration. -/
theorem Wasm.reads_declaration {keyword : String} {v : String × ValType} (hkeyword : IsWord keyword)
    (hv : IsName v.1) : Reads (declaration keyword v) [declarationSexp keyword v] := by
  have hname : Reads (keyword ++ " $" ++ v.1) [.atom keyword, .atom ("$" ++ v.1)] :=
    .named rfl hkeyword hv
  have htype := v.2.isWord_name.reads.blank
  have hitems := (hname.append htype (delimited_blank _)).list
  have htext : "(" ++ (keyword ++ " $" ++ v.1 ++ (" " ++ v.2.name)) ++ ")"
      = declaration keyword v := by
    simp only [declaration, String.append_assoc]
  rwa [htext] at hitems

/-- A declaration begins with a parenthesis. -/
theorem Wasm.delimited_declaration (keyword : String) (v : String × ValType) :
    Delimited (declaration keyword v) := by
  simp only [declaration, String.append_assoc]
  exact Delimited.append (by decide) (by decide) _

/-- The texts of the parameters of a function. -/
theorem Func.Named.reads_params {f : Func} (h : f.Named IsName) :
    Reads (String.join (f.params.map fun p => " " ++ Wasm.declaration "param" p))
        (f.params.map (Wasm.declarationSexp "param")) ∧
      Delimited (String.join (f.params.map fun p => " " ++ Wasm.declaration "param" p)) := by
  refine Reads.join (fun v hv => ?_) fun v _ u => ?_
  · exact (Wasm.reads_declaration (by decide) (h.params v hv)).blank
  · rw [String.append_assoc]
    exact delimited_blank _

/-- The texts of the local variables of a function. -/
theorem Func.Named.reads_locals {f : Func} (h : f.Named IsName) :
    Reads (String.join (f.locals.map fun v => "\n  " ++ Wasm.localText v))
        (f.locals.map (Wasm.declarationSexp "local")) ∧
      Delimited (String.join (f.locals.map fun v => "\n  " ++ Wasm.localText v)) := by
  refine Reads.join (fun v hv => ?_) fun v _ u => ?_
  · exact Gap.indent.reads_text.append (Wasm.reads_declaration (by decide) (h.locals v hv))
      (Wasm.delimited_declaration _ _)
  · rw [String.append_assoc]
    exact Delimited.append (by decide) (by decide) _

/-- The text of the result of a function. -/
theorem Wasm.reads_result (result : Option ValType) :
    Reads (match result with | some type => " (result " ++ type.name ++ ")" | none => "")
        (result.toList.map fun type => .list [.atom "result", .atom type.name]) ∧
      Delimited (match result with | some type => " (result " ++ type.name ++ ")" | none => "") := by
  cases result with
  | none => exact ⟨.nil, by decide⟩
  | some type =>
    have hitems : Reads ("result " ++ type.name) [.atom "result", .atom type.name] :=
      .pair rfl (by decide) type.isWord_name
    have htext : " (result " ++ type.name ++ ")"
        = " " ++ ("(" ++ ("result " ++ type.name) ++ ")") := by
      rw [append_split " (result " " (" "result " type.name rfl, String.append_assoc,
        append_split " (" " " "(" _ rfl, @String.append_assoc "("]
    dsimp only
    rw [htext]
    exact ⟨hitems.list.blank, delimited_blank _⟩

/-- The text of a function. -/
theorem Func.Named.reads_funcText {f : Func} (h : f.Named IsName) :
    Reads (Wasm.funcText f) [f.sexp] := by
  have hbody := Instr.reads_renderRun f.body fun op hop x hx =>
    h.body x (List.mem_filterMap.2 ⟨op, hop, hx⟩)
  have hname : Reads ("func $" ++ f.name) [.atom "func", .atom ("$" ++ f.name)] :=
    .named rfl (by decide) h.name
  have hparams := h.reads_params
  have hresult := Wasm.reads_result f.result
  have hlocals := h.reads_locals
  -- each part is kept apart from the one before it
  have hitems := (((hname.append hparams.1 hparams.2).append hresult.1 hresult.2).append hlocals.1
    hlocals.2).append hbody.1 hbody.2
  -- the text puts the parenthesis and the keyword together
  have htext : "(" ++ ("func $" ++ f.name
      ++ String.join (f.params.map fun p => " " ++ Wasm.declaration "param" p)
      ++ (match f.result with | some type => " (result " ++ type.name ++ ")" | none => "")
      ++ String.join (f.locals.map fun v => "\n  " ++ Wasm.localText v)
      ++ f.body.render) ++ ")" = Wasm.funcText f := by
    unfold Wasm.funcText
    simp only [String.append_assoc]
    exact (append_split "(func $" "(" "func $" _ rfl).symm
  rw [← htext]
  exact hitems.list

/-- The text of a form. -/
theorem Form.Named.reads_text {form : Form} (h : form.Named IsName) :
    Reads form.text [form.sexp] := by
  cases form with
  | globalVar x type =>
    have hname : Reads ("global $" ++ x) [.atom "global", .atom ("$" ++ x)] :=
      .named rfl (by decide) h
    -- for each of the two types this is a closed text, which is read by computation
    have hvalue : Reads (" (mut " ++ type.name ++ ") (" ++ type.name ++ ".const 0)")
        [.list [.atom "mut", .atom type.name],
          .list [.atom (type.name ++ ".const"), .atom "0"]] := by
      cases type <;> exact fun _ _ => ⟨_, rfl, rfl⟩
    have hdelimited : Delimited (" (mut " ++ type.name ++ ") (" ++ type.name ++ ".const 0)") := by
      cases type <;> decide
    have htext : text (.globalVar x type) = "(" ++ ("global $" ++ x
        ++ (" (mut " ++ type.name ++ ") (" ++ type.name ++ ".const 0)")) ++ ")" := by
      unfold text
      simp only [String.append_assoc]
      rw [append_split "(global $" "(" "global $" _ rfl]
      rfl
    rw [htext]
    exact (hname.append hvalue hdelimited).list
  | func f => exact Func.Named.reads_funcText h
  | verbatim text => exact h.elim

/-- The codes of letters and digits. -/
theorem toNat_of_isAlphanum {c : Char} (h : c.isAlphanum = true) :
    48 ≤ c.toNat ∧ c.toNat ≤ 122 := by
  -- the tests on characters are comparisons of their codes
  delta Char.isAlphanum Char.isAlpha Char.isUpper Char.isLower Char.isDigit at h
  simp only [Bool.or_eq_true, Bool.and_eq_true, decide_eq_true_eq, ge_iff_le,
    UInt32.le_iff_toNat_le] at h
  have hcodes : (65 ≤ c.toNat ∧ c.toNat ≤ 90 ∨ 97 ≤ c.toNat ∧ c.toNat ≤ 122) ∨
      48 ≤ c.toNat ∧ c.toNat ≤ 57 := h
  omega

/-- The characters of words stand for themselves between quotes, apart from the backslash. -/
theorem isTextChar_of_isWordChar {c : Char} (h : isWordChar c = true) (hc : c ≠ '\\') :
    isTextChar c = true := by
  unfold isWordChar at h
  rw [Bool.or_eq_true] at h
  rcases h with h | h
  · -- letters and digits are neither quotes nor controls
    obtain ⟨hlow, hhigh⟩ := toNat_of_isAlphanum h
    have hquote : c ≠ '"' := by
      rintro rfl
      exact absurd hlow (by decide)
    simp only [isTextChar, Bool.and_eq_true, decide_eq_true_eq]
    exact ⟨⟨⟨hquote, hc⟩, by omega⟩, by omega⟩
  · -- of the marks only the backslash does not stand for itself
    have hmarks : ("!#$%&'*+-./:<=>?@\\^_`|~".toList.all fun d => d = '\\' || isTextChar d)
        = true := by
      decide
    have hmark := List.all_eq_true.1 hmarks c (List.contains_iff_mem.1 h)
    rw [Bool.or_eq_true, decide_eq_true_eq] at hmark
    exact hmark.resolve_left hc

/-- The text of an export. -/
theorem Export.reads_text {e : Export} (hname : IsName e.name) (hplain : '\\' ∉ e.name.toList) :
    Reads e.text [e.sexp] := by
  have hquoted : Reads ("\"" ++ e.name ++ "\"") [.str e.name] := Reads.quoted fun c hc =>
    isTextChar_of_isWordChar (hname c hc) fun heq => hplain (heq ▸ hc)
  have hkeyword : IsWord (if e.isFunction then "func" else "global") := by
    split <;> decide
  have htarget : Reads ((if e.isFunction then "func" else "global") ++ " $" ++ e.name)
      [.atom (if e.isFunction then "func" else "global"), .atom ("$" ++ e.name)] :=
    .named rfl hkeyword hname
  have hexport : Reads "export" [.atom "export"] := IsWord.reads (by decide)
  have hitems := (hexport.append hquoted.blank (delimited_blank _)).append htarget.list.blank
    (delimited_blank _)
  -- blanks and quotes have to be cut out of the words around them
  have htext : e.text = "(" ++ ("export" ++ (" " ++ ("\"" ++ e.name ++ "\""))
      ++ (" " ++ ("(" ++ ((if e.isFunction then "func" else "global") ++ " $" ++ e.name) ++ ")")))
      ++ ")" := by
    unfold text
    simp only [String.append_assoc]
    rw [append_split "(export \"" "(" "export \"" _ rfl,
      append_split "export \"" "export" " \"" _ rfl, append_split " \"" " " "\"" _ rfl,
      append_split "\" (" "\"" " (" _ rfl, append_split " (" " " "(" _ rfl]
    rfl
  rw [htext]
  exact hitems.list

-- the quote behind a backslash does not end the name
example : (Sexp.read (Export.text ⟨"a\\", false⟩)).isNone = true := by decide

/-- The text of a memory. -/
theorem Wasm.reads_memory (pages : Nat) :
    Reads ("(memory (export \"memory\") " ++ toString pages ++ ")") [.list [.atom "memory",
      .list [.atom "export", .str "memory"], .atom (toString pages)]] := by
  have hlead : Reads "memory (export \"memory\")" [.atom "memory",
    .list [.atom "export", .str "memory"]] := fun _ _ => ⟨_, rfl, rfl⟩
  have hitems := hlead.append (isWord_natural pages).reads.blank (delimited_blank _)
  rw [append_split "(memory (export \"memory\") " "(" "memory (export \"memory\") " _ rfl,
    append_split "memory (export \"memory\") " "memory (export \"memory\")" " " _ rfl]
  exact hitems.list

/-- The names in the library functions are made of characters of words. -/
theorem Snippet.named_func (snippet : Snippet) : snippet.func.Named IsName := by
  cases snippet <;> exact ⟨by decide, by decide, by decide, by decide⟩

/-- The text of a module reads as its trees. -/
theorem Module.reads_render {m : Module} (hforms : ∀ form ∈ m.forms, form.Named IsName)
    (hexports : ∀ e ∈ m.exports, IsName e.name ∧ '\\' ∉ e.name.toList) :
    Reads m.render m.sexps := by
  have hstart : Reads ("(start $" ++ initName ++ ")")
    [.list [.atom "start", .atom ("$" ++ initName)]] := fun _ _ => ⟨_, rfl, rfl⟩
  -- memory, library, forms, exports and the start, each on lines of its own
  refine Reads.lines (List.rel_append (List.rel_append (List.rel_append (List.rel_append ?_ ?_) ?_)
    ?_) (.cons hstart .nil))
  · cases m.pages with
    | none => exact .nil
    | some pages => exact .cons (Wasm.reads_memory _) .nil
  · rw [List.forall₂_map_left_iff, List.forall₂_map_right_iff, List.forall₂_same]
    exact fun snippet _ => snippet.named_func.reads_funcText
  · rw [List.forall₂_map_left_iff, List.forall₂_map_right_iff, List.forall₂_same]
    exact fun form hform => (hforms form hform).reads_text
  · rw [List.forall₂_map_left_iff, List.forall₂_map_right_iff, List.forall₂_same]
    exact fun e he => Export.reads_text (hexports e he).1 (hexports e he).2

end PatchCompiler
