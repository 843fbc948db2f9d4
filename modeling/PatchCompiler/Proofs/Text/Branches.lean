import Mathlib.Data.List.Nodup
import PatchCompiler.Proofs.Text.Sexp

/-! # Loops and branches in a tree of words

In the text of a function a branch names a loop around it by its label. `Encloses` says which lists
are around a place of a tree, and `BranchesInward` that every branch belongs to the innermost loop
around it. Main statement: this holds of trees in which the label of a loop counts the loops around
it, from any number on, and each loop ends in its only branch. -/

namespace PatchCompiler

/-! ## Places in a tree of words -/

namespace Sexp

/-- The word that a list begins with. -/
def keyword : List Sexp → Option String
  | .atom text :: _ => some text
  | _ => none

/-- A list that begins with one word does not begin with another. -/
theorem keyword_ne {text word : String} {items : List Sexp} (h : text ≠ word) :
    keyword (.atom text :: items) ≠ some word :=
  fun heq => h (Option.some.inj heq)

/-- The label of a loop. -/
def loopLabel? : Sexp → Option String
  | .list (.atom "loop" :: .atom label :: _) => some label
  | _ => none

/-- A tree stands in another one, inside these lists from the innermost to the outermost. -/
inductive Encloses : Sexp → List Sexp → Sexp → Prop
  | here {x : Sexp} : Encloses x [] x
  | inside {items around : List Sexp} {y x : Sexp} : y ∈ items → Encloses y around x →
    Encloses (.list items) (around ++ [.list items]) x

mutual

/-- The branches of a tree that are in none of its loops. -/
def loose : Sexp → List Sexp
  | .list items =>
    if keyword items = some "loop" then []
    else if keyword items = some "br" then [.list items]
    else looseItems items
  | _ => []

/-- The branches of trees that are in none of their loops. -/
def looseItems : List Sexp → List Sexp
  | [] => []
  | x :: rest => x.loose ++ looseItems rest

end

/-- The branches of a form start the innermost loops around them again. -/
structure BranchesInward (form : Sexp) : Prop where
  /-- A branch has the label of the innermost loop around it. -/
  branch : ∀ around items, form.Encloses around (.list (.atom "br" :: items)) →
    ∃ label, items = [.atom label] ∧ around.findSome? loopLabel? = some label
  /-- A loop is a conditional whose last instruction is a branch to the loop, and the loop has no other
  branch of its own. -/
  loop : ∀ around items, form.Encloses around (.list (.atom "loop" :: items)) →
    ∃ (depth : Nat) (label : String) (test content : List Sexp), label = "$loop" ++ toString depth ∧
      items = [.atom label, .list (.atom "if" :: (test
        ++ [.list (.atom "then" :: (content ++ [.list [.atom "br", .atom label]]))]))] ∧
      looseItems items = [.list [.atom "br", .atom label]]
  /-- Loops inside each other have different labels. -/
  distinct : ∀ around x, form.Encloses around x → (around.filterMap loopLabel?).Nodup

/-! ## Loops whose labels count them -/

/-- The label of a loop inside a number of others, itself included. -/
def label (depth : Nat) : String := "$loop" ++ toString depth

/-- Loops at different depths have different labels. -/
theorem label_injective : Function.Injective label := by
  intro m n h
  -- the digits behind the common word are the same, and tell the number
  have hdigits : (toString m).toList = (toString n).toList := by
    have hlists := congrArg String.toList h
    rw [label, label, String.toList_append, String.toList_append] at hlists
    exact List.append_cancel_left hlists
  have hvalue : ∀ k : Nat, Nat.ofDigitChars 10 (toString k).toList 0 = k := fun k => by
    rw [show toString k = k.repr from rfl, Nat.toList_repr, Nat.ofDigitChars_ten_toDigits]
  rw [← hvalue m, ← hvalue n, hdigits]

/-- A branch to a loop. -/
def branchTo (depth : Nat) : Sexp := .list [.atom "br", .atom (label depth)]

/-- The part of a loop that is run again, and the branch behind it. -/
def again (depth : Nat) (content : List Sexp) : Sexp :=
  .list (.atom "then" :: (content ++ [branchTo depth]))

/-- The conditional of a loop. -/
def guarded (depth : Nat) (test content : List Sexp) : Sexp :=
  .list (.atom "if" :: (test ++ [again depth content]))

/-- A loop. -/
def loopOf (depth : Nat) (test content : List Sexp) : Sexp :=
  .list [.atom "loop", .atom (label depth), guarded depth test content]

/-- A tree that stands in a number of loops: the labels of its own loops go on from there, and each
has a branch at its end and nowhere else. -/
inductive Nested : Nat → Sexp → Prop
  | atom {depth : Nat} {text : String} : Nested depth (.atom text)
  | str {depth : Nat} {text : String} : Nested depth (.str text)
  | list {depth : Nat} {items : List Sexp} : keyword items ≠ some "loop" →
    keyword items ≠ some "br" → (∀ x ∈ items, Nested depth x) → Nested depth (.list items)
  | loop {depth : Nat} {test content : List Sexp} : (∀ x ∈ test, Nested (depth + 1) x) →
    (∀ x ∈ content, Nested (depth + 1) x) → Nested depth (loopOf (depth + 1) test content)

variable {depth : Nat} {test content items around : List Sexp} {x : Sexp}

/-- A list that is no loop and no branch is nested if its items are. -/
theorem nested_list (hloop : keyword items ≠ some "loop") (hbr : keyword items ≠ some "br") :
    (Sexp.list items).Nested depth ↔ ∀ x ∈ items, x.Nested depth := by
  constructor
  · -- without the keyword the list is no loop
    intro h
    cases h with
    | list _ _ hitems => exact hitems
    | loop _ _ => exact absurd rfl hloop
  · exact .list hloop hbr

/-! ### Branches in no loop -/

/-- The loose branches of two rows of trees follow each other. -/
theorem looseItems_append (first second : List Sexp) :
    looseItems (first ++ second) = looseItems first ++ looseItems second := by
  induction first with
  | nil => rfl
  | cons x rest ih => rw [List.cons_append, looseItems, looseItems, ih, List.append_assoc]

/-- Trees without loose branches have none together. -/
theorem looseItems_eq_nil (h : ∀ x ∈ items, x.loose = []) : looseItems items = [] := by
  induction items with
  | nil => rfl
  | cons x rest ih =>
    rw [looseItems, h x List.mem_cons_self, ih fun y hy => h y (List.mem_cons_of_mem _ hy)]
    rfl

/-- A nested tree has no loose branch. -/
theorem Nested.loose_eq (h : x.Nested depth) : x.loose = [] := by
  induction h with
  | atom | str => rw [loose]; simp
  | list hloop hbr _ ih => rw [loose, if_neg hloop, if_neg hbr, looseItems_eq_nil ih]
  | loop _ _ _ _ => rfl

/-- A list that is no loop and no branch has the loose branches of its items. -/
theorem loose_list {text : String} (hloop : text ≠ "loop") (hbr : text ≠ "br") :
    (Sexp.list (.atom text :: items)).loose = looseItems items := by
  rw [loose, if_neg (keyword_ne hloop), if_neg (keyword_ne hbr), looseItems]
  rfl

/-- The only branch of a loop's own is the one at its end. -/
theorem looseItems_loop (htest : ∀ x ∈ test, x.Nested (depth + 1))
    (hcontent : ∀ x ∈ content, x.Nested (depth + 1)) :
    looseItems [.atom (label (depth + 1)), guarded (depth + 1) test content]
      = [branchTo (depth + 1)] := by
  -- the test and the content have no branch outside of their own loops
  have hagain : (again (depth + 1) content).loose = [branchTo (depth + 1)] := by
    rw [again, loose_list (by decide) (by decide), looseItems_append,
      looseItems_eq_nil fun x hx => (hcontent x hx).loose_eq]
    rfl
  have hguarded : (guarded (depth + 1) test content).loose = [branchTo (depth + 1)] := by
    rw [guarded, loose_list (by decide) (by decide), looseItems_append,
      looseItems_eq_nil fun x hx => (htest x hx).loose_eq, looseItems, hagain]
    rfl
  rw [looseItems, looseItems, hguarded]
  rfl

/-! ### What stands where -/

/-- The labels of loops inside each other, from the innermost to the outermost. -/
def labels (depth : Nat) : (count : Nat) → List String
  | 0 => []
  | count + 1 => labels (depth + 1) count ++ [label (depth + 1)]

/-- Labels inside a number of loops count further. -/
theorem mem_labels {text : String} {count : Nat} (h : text ∈ labels depth count) :
    ∃ n, depth < n ∧ text = label n := by
  induction count generalizing depth with
  | zero => cases h
  | succ count ih =>
    rcases List.mem_append.1 h with h | h
    · obtain ⟨n, hn, rfl⟩ := ih h
      exact ⟨n, by omega, rfl⟩
    · exact ⟨depth + 1, by omega, List.mem_singleton.1 h⟩

/-- Loops inside each other have different labels. -/
theorem nodup_labels (depth count : Nat) : (labels depth count).Nodup := by
  induction count generalizing depth with
  | zero => exact List.nodup_nil
  | succ count ih =>
    -- labels further in have greater numbers
    refine List.nodup_append.2 ⟨ih (depth + 1), List.nodup_singleton _, fun a ha b hb => ?_⟩
    obtain ⟨n, hn, rfl⟩ := mem_labels ha
    rw [List.mem_singleton.1 hb]
    exact fun heq => absurd (label_injective heq) (by omega)

/-- The innermost of loops inside each other counts all of them. -/
theorem head?_labels (depth count : Nat) :
    (labels depth (count + 1)).head? = some (label (depth + (count + 1))) := by
  induction count generalizing depth with
  | zero => rfl
  | succ count ih =>
    rw [labels, List.head?_append, ih, Option.some_or]
    congr 2
    omega

/-- The parts that make up a loop. -/
inductive LoopPart (depth : Nat) : Sexp → Prop
  | branch : LoopPart depth (branchTo depth)
  | again {content : List Sexp} : LoopPart depth (again depth content)
  | guarded {test content : List Sexp} : LoopPart depth (guarded depth test content)

/-- A tree stands in these lists, which begin in a number of loops: their own loops have the labels
that follow, and the tree is nested in all of them or is a part of the innermost one, which is no loop
further out than `floor`. -/
def Stands (floor depth : Nat) (around : List Sexp) (x : Sexp) : Prop :=
  ∃ count, around.filterMap loopLabel? = labels depth count ∧
    (x.Nested (depth + count) ∨ floor < depth + count ∧ x.LoopPart (depth + count))

/-- Without its keyword a list has no label of a loop. -/
theorem loopLabel?_of_keyword (h : keyword items ≠ some "loop") : loopLabel? (.list items) = none := by
  unfold loopLabel?
  split
  · rename_i heq
    cases heq
    exact absurd rfl h
  · rfl

namespace Stands

variable {floor : Nat}

/-- A nested tree stands in no lists. -/
theorem nested (h : x.Nested depth) : Stands floor depth [] x := ⟨0, rfl, .inl h⟩

/-- A part of a loop stands in no lists inside the loop. -/
theorem part (h : x.LoopPart (depth + 1)) : Stands depth (depth + 1) [] x :=
  ⟨0, rfl, .inr ⟨Nat.lt_succ_self depth, h⟩⟩

/-- A tree that stands above a floor stands above a lower one. -/
theorem mono {floor' : Nat} (h : Stands floor' depth around x) (hle : floor ≤ floor') :
    Stands floor depth around x := by
  obtain ⟨count, hlabels, hx⟩ := h
  exact ⟨count, hlabels, hx.imp_right fun hx => ⟨Nat.lt_of_le_of_lt hle hx.1, hx.2⟩⟩

/-- A list around that is no loop. -/
theorem within {y : Sexp} (h : Stands floor depth around x) (hy : loopLabel? y = none) :
    Stands floor depth (around ++ [y]) x := by
  obtain ⟨count, hlabels, hx⟩ := h
  refine ⟨count, ?_, hx⟩
  rw [List.filterMap_append, hlabels, List.filterMap_cons, hy]
  exact List.append_nil _

/-- A loop around. -/
theorem withinLoop {y : Sexp} (h : Stands floor (depth + 1) around x)
    (hy : loopLabel? y = some (label (depth + 1))) : Stands floor depth (around ++ [y]) x := by
  obtain ⟨count, hlabels, hx⟩ := h
  -- the loop around counts as one more
  have hcount : depth + 1 + count = depth + (count + 1) := by omega
  refine ⟨count + 1, ?_, hcount ▸ hx⟩
  rw [List.filterMap_append, hlabels, List.filterMap_cons, hy]
  rfl

/-- What is around an item of a list that is no loop is also the list. -/
theorem of_list (hx : (Sexp.list items).Encloses around x) (hloop : keyword items ≠ some "loop")
    (hself : x = .list items → Stands floor depth [] x)
    (hitems : ∀ y ∈ items, ∀ around, y.Encloses around x → Stands floor depth around x) :
    Stands floor depth around x := by
  cases hx with
  | here => exact hself rfl
  | inside hy hin => exact (hitems _ hy _ hin).within (loopLabel?_of_keyword hloop)

/-- A word stands by itself. -/
theorem of_atom {text : String} (hx : (Sexp.atom text).Encloses around x) :
    Stands floor depth around x := by
  cases hx
  exact .nested .atom

end Stands

/-- What stands in a nested tree. -/
theorem Nested.stands {root : Sexp} (h : root.Nested depth) (hx : root.Encloses around x) :
    Stands depth depth around x := by
  induction h generalizing around with
  | atom => exact .of_atom hx
  | str =>
    cases hx
    exact .nested .str
  | list hloop hbr hitems ih =>
    refine .of_list hx hloop (fun heq => ?_) fun y hy _ hin => ih y hy hin
    exact heq ▸ .nested (.list hloop hbr hitems)
  | @loop depth test content htest hcontent ihtest ihcontent =>
    -- from the branch outwards: it, the part that ends in it, the conditional, and the loop
    have hbranch : ∀ around, (branchTo (depth + 1)).Encloses around x →
        Stands depth (depth + 1) around x := by
      refine fun _ hin => .of_list hin (keyword_ne (by decide)) (fun heq => ?_) ?_
      · exact heq ▸ .part .branch
      · simp only [List.forall_mem_cons]
        exact ⟨fun _ => .of_atom, fun _ => .of_atom, List.forall_mem_nil _⟩
    have hagain : ∀ around, (again (depth + 1) content).Encloses around x →
        Stands depth (depth + 1) around x := by
      refine fun _ hin => .of_list hin (keyword_ne (by decide)) (fun heq => ?_) ?_
      · exact heq ▸ .part .again
      · simp only [List.forall_mem_cons, List.forall_mem_append]
        exact ⟨fun _ => .of_atom, fun y hy _ hin => (ihcontent y hy hin).mono (Nat.le_succ depth),
          hbranch, List.forall_mem_nil _⟩
    have hguarded : ∀ around, (guarded (depth + 1) test content).Encloses around x →
        Stands depth (depth + 1) around x := by
      refine fun _ hin => .of_list hin (keyword_ne (by decide)) (fun heq => ?_) ?_
      · exact heq ▸ .part .guarded
      · simp only [List.forall_mem_cons, List.forall_mem_append]
        exact ⟨fun _ => .of_atom, fun y hy _ hin => (ihtest y hy hin).mono (Nat.le_succ depth),
          hagain, List.forall_mem_nil _⟩
    cases hx with
    | here => exact .nested (.loop htest hcontent)
    | inside hy hin =>
      refine Stands.withinLoop ?_ rfl
      simp only [List.mem_cons, List.not_mem_nil, or_false] at hy
      rcases hy with rfl | rfl | rfl
      · exact .of_atom hin
      · exact .of_atom hin
      · exact hguarded _ hin

/-- The branches that stand somewhere in a nested tree belong to a loop around them. -/
theorem Stands.branch {floor : Nat} (h : Stands floor depth around (.list (.atom "br" :: items))) :
    ∃ count, around.filterMap loopLabel? = labels depth count ∧ floor < depth + count ∧
      items = [.atom (label (depth + count))] := by
  obtain ⟨count, hlabels, hx⟩ := h
  generalize hbranch : Sexp.list (.atom "br" :: items) = x at hx
  rcases hx with hx | ⟨hfloor, hx⟩
  · -- a nested list is no branch, so that the branch is a part of a loop
    cases hx with
    | list _ hbr _ =>
      cases hbranch
      exact absurd rfl hbr
    | _ => simp [loopOf] at hbranch
  · cases hx with
    | branch =>
      cases hbranch
      exact ⟨count, hlabels, hfloor, rfl⟩
    | _ => simp [Sexp.again, Sexp.guarded] at hbranch

/-- The loops that stand somewhere in a nested tree. -/
theorem Stands.loop {floor : Nat} (h : Stands floor depth around (.list (.atom "loop" :: items))) :
    ∃ n test content, items = [.atom (label (n + 1)), Sexp.guarded (n + 1) test content] ∧
      (∀ x ∈ test, x.Nested (n + 1)) ∧ ∀ x ∈ content, x.Nested (n + 1) := by
  obtain ⟨count, _, hx⟩ := h
  generalize hloop : Sexp.list (.atom "loop" :: items) = x at hx
  rcases hx with hx | ⟨_, hx⟩
  · -- a part of a loop is no loop itself
    cases hx with
    | list hne _ _ =>
      cases hloop
      exact absurd rfl hne
    | @loop _ test content htest hcontent =>
      cases hloop
      exact ⟨depth + count, test, content, rfl, htest, hcontent⟩
    | _ => cases hloop
  · cases hx <;> simp [branchTo, Sexp.again, Sexp.guarded] at hloop

/-- Nested trees branch inward. -/
theorem Nested.branchesInward {form : Sexp} (h : form.Nested depth) : form.BranchesInward where
  branch around items hx := by
    obtain ⟨count, hlabels, hcount, hitems⟩ := (h.stands hx).branch
    -- a branch stands in at least one loop
    obtain ⟨count, rfl⟩ := Nat.exists_eq_succ_of_ne_zero (by omega : count ≠ 0)
    refine ⟨_, hitems, ?_⟩
    rw [← List.head?_filterMap, hlabels]
    exact head?_labels depth count
  loop around items hx := by
    obtain ⟨n, test, content, rfl, htest, hcontent⟩ := (h.stands hx).loop
    exact ⟨n + 1, label (n + 1), test, content, rfl, rfl, looseItems_loop htest hcontent⟩
  distinct around x hx := by
    obtain ⟨count, hlabels, _⟩ := h.stands hx
    exact hlabels ▸ nodup_labels depth count

end Sexp

end PatchCompiler
