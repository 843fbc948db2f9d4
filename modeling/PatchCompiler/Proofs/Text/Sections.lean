import PatchCompiler.Proofs.Text.Shape

/-! # The sections of the text of a module

The forms of a module stand in its text one after another, and each begins with a keyword. Main
statements: the forms that begin with the keyword of functions are the functions of the module, in
order, and there is a form that begins with the keyword of memories if the module has a memory. -/

namespace PatchCompiler

namespace Wasm

/-- Whether a text begins with a bracket and a keyword. -/
def begins (keyword text : String) : Bool := ("(" ++ keyword ++ " ").toList.isPrefixOf text.toList

/-- Text of the declaration of a memory. -/
def memoryText (pages : UInt32) : String :=
  "(memory (export \"memory\") " ++ toString pages.toNat ++ ")"

/-- The text of a memory begins as one, and not as a function. -/
theorem begins_memoryText (pages : UInt32) :
    begins "func" (memoryText pages) = false ∧ begins "memory" (memoryText pages) = true := by
  unfold memoryText
  -- the digits stay closed: they do not matter for how the text begins
  generalize toString pages.toNat = digits
  simp only [begins, String.toList_append, List.append_assoc]
  exact ⟨rfl, rfl⟩

/-- The text of a function begins as one, and not as a memory. -/
theorem begins_funcText (f : Func) :
    begins "func" (funcText f) = true ∧ begins "memory" (funcText f) = false := by
  simp only [begins, funcText, String.toList_append, List.append_assoc]
  exact ⟨rfl, rfl⟩

/-- The text of a form begins as a function exactly if the form is one. -/
theorem begins_formText {form : Form} (h : ∀ text, form ≠ .verbatim text) :
    begins "func" form.text = form.func?.isSome ∧ begins "memory" form.text = false := by
  cases form with
  | globalVar x type =>
    simp only [begins, Form.text, String.toList_append, List.append_assoc]
    exact ⟨rfl, rfl⟩
  | func f => exact begins_funcText f
  | verbatim text => exact absurd rfl (h text)

/-- The text of an export begins neither as a function nor as a memory. -/
theorem begins_exportText (e : Export) :
    begins "func" e.text = false ∧ begins "memory" e.text = false := by
  simp only [begins, Export.text, String.toList_append, List.append_assoc]
  exact ⟨rfl, rfl⟩

end Wasm

namespace Module

variable {m : Module}

/-- The forms of a module that begin with a keyword, in the order of its text. -/
def sections (m : Module) (keyword : String) : List String :=
  m.formTexts.filter (Wasm.begins keyword)

/-- The forms of a module are written in the order of its sections. -/
theorem formTexts_eq (m : Module) : m.formTexts = m.pages.toList.map Wasm.memoryText
    ++ m.snippets.map Snippet.text ++ m.forms.map Form.text ++ m.exports.map Export.text
    ++ ["(start $" ++ initName ++ ")"] := by
  unfold formTexts
  cases m.pages <;> rfl

/-- Texts that all begin with a keyword, or none of which does. -/
theorem filter_begins {α : Type} {text : α → String} {keyword : String} {answer : Bool}
    (h : ∀ x, Wasm.begins keyword (text x) = answer) (l : List α) :
    (l.map text).filter (Wasm.begins keyword) = if answer then l.map text else [] := by
  cases answer with
  | false => exact List.filter_eq_nil_iff.2 (List.forall_mem_map.2 fun x _ => by simp [h])
  | true => exact List.filter_eq_self.2 (List.forall_mem_map.2 fun x _ => h x)

/-- The functions among forms, none of which is given by its text only. -/
theorem filter_begins_func {forms : List Form} (h : ∀ text, .verbatim text ∉ forms) :
    (forms.map Form.text).filter (Wasm.begins "func")
      = (forms.filterMap Form.func?).map Wasm.funcText := by
  induction forms with
  | nil => rfl
  | cons form rest ih =>
    -- a form that is given by its text could begin with anything
    have hform : ∀ text, form ≠ .verbatim text := by
      rintro text rfl
      exact h text List.mem_cons_self
    have hrest := ih fun text htext => h text (List.mem_cons_of_mem _ htext)
    rw [List.map_cons, List.filter_cons, (Wasm.begins_formText hform).1, hrest]
    cases form <;> rfl

/-- The functions of a module, in the order of its text. -/
theorem sections_func (h : ∀ text, .verbatim text ∉ m.forms) :
    m.sections "func" = m.functions.map Wasm.funcText := by
  have hsnippet : ∀ snippet : Snippet, Wasm.begins "func" snippet.text = true :=
    fun snippet => (Wasm.begins_funcText snippet.func).1
  have hstart : ["(start $" ++ initName ++ ")"].filter (Wasm.begins "func") = [] := rfl
  -- of all parts of the text only library functions and forms begin with the keyword
  rw [sections, formTexts_eq, List.filter_append, List.filter_append, List.filter_append,
    List.filter_append, filter_begins fun pages => (Wasm.begins_memoryText pages).1,
    filter_begins hsnippet, filter_begins_func h,
    filter_begins fun e => (Wasm.begins_exportText e).1, hstart, functions, List.map_append,
    List.map_map]
  simp only [Bool.false_eq_true, if_true, if_false, List.nil_append, List.append_nil]
  rfl

/-- The memory of a module, if it has one. -/
theorem sections_memory (h : ∀ text, .verbatim text ∉ m.forms) :
    m.sections "memory" = m.pages.toList.map Wasm.memoryText := by
  have hsnippet : ∀ snippet : Snippet, Wasm.begins "memory" snippet.text = false :=
    fun snippet => (Wasm.begins_funcText snippet.func).2
  have hstart : ["(start $" ++ initName ++ ")"].filter (Wasm.begins "memory") = [] := rfl
  have hforms : (m.forms.map Form.text).filter (Wasm.begins "memory") = [] := by
    rw [List.filter_eq_nil_iff, List.forall_mem_map]
    intro form hform
    have hnot : ∀ text, form ≠ .verbatim text := by
      rintro text rfl
      exact h text hform
    rw [(Wasm.begins_formText hnot).2]
    exact Bool.false_ne_true
  rw [sections, formTexts_eq, List.filter_append, List.filter_append, List.filter_append,
    List.filter_append, filter_begins fun pages => (Wasm.begins_memoryText pages).2,
    filter_begins hsnippet, hforms, filter_begins fun e => (Wasm.begins_exportText e).2, hstart]
  simp only [Bool.false_eq_true, if_true, if_false, List.append_nil]

end Module

namespace Program

variable {p : Program} {m : Module} {map : SourceMap}

/-- The compiler writes no form that is given by its text only. -/
theorem not_verbatim (h : p.compile.outcome = .ok (m, map)) (text : String) :
    .verbatim text ∉ m.forms := by
  -- `Form.Named` leaves such forms out, whatever the condition on names is
  have hnamed := @named_of_compile p m map (fun _ => True) h (fun _ => trivial) trivial
    fun _ _ => trivial
  exact fun htext => hnamed _ htext

end Program

end PatchCompiler
