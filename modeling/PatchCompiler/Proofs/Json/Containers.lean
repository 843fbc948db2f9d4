import PatchCompiler.Proofs.Json.Scalars

/-! # Reading what was written: containers

A list is read back when its items are, and a record when its members are the fields of the record
in order, where only required fields have to be there (`Fills`). A reader has to be allowed as many
levels as the containers of the value nest (`Value.depth`). -/

namespace PatchCompiler

namespace Json

variable {α β τ : Type}

/-! ## Depth -/

mutual

/-- How deep the containers of a value nest. -/
def Value.depth : Value → Nat
  | .list items => Value.depthItems items + 1
  | .object members => Value.depthMembers members + 1
  | _ => 0

/-- Depth of the deepest of the items. -/
def Value.depthItems : List Value → Nat
  | [] => 0
  | item :: rest => max item.depth (Value.depthItems rest)

/-- Depth of the deepest of the members. -/
def Value.depthMembers : List (String × Value) → Nat
  | [] => 0
  | (_, value) :: rest => max value.depth (Value.depthMembers rest)

end

/-- A list fits into levels if there is one more than its items need. -/
theorem Value.depth_list_le {items : List Value} {levels : Nat} :
    (Value.list items).depth ≤ levels ↔
      ∃ inner, levels = inner + 1 ∧ ∀ item ∈ items, item.depth ≤ inner := by
  have deepest (inner : Nat) :
      Value.depthItems items ≤ inner ↔ ∀ item ∈ items, item.depth ≤ inner := by
    induction items with
    | nil => simp [Value.depthItems]
    | cons item items ih => rw [Value.depthItems, Nat.max_le, ih, List.forall_mem_cons]
  cases levels with
  | zero => simp [Value.depth]
  | succ levels => simp [Value.depth, deepest]

/-- An object fits into levels if there is one more than its members need. -/
theorem Value.depth_object_le {members : List (String × Value)} {levels : Nat} :
    (Value.object members).depth ≤ levels ↔
      ∃ inner, levels = inner + 1 ∧ ∀ m ∈ members, m.2.depth ≤ inner := by
  have deepest (inner : Nat) :
      Value.depthMembers members ≤ inner ↔ ∀ m ∈ members, m.2.depth ≤ inner := by
    induction members with
    | nil => simp [Value.depthMembers]
    | cons m members ih => rw [Value.depthMembers, Nat.max_le, ih, List.forall_mem_cons]
  cases levels with
  | zero => simp [Value.depth]
  | succ levels => simp [Value.depth, deepest]

/-! ## Entries of a container -/

/-- What stands in front of an entry of a container, which may be the first one. -/
def comma (first : Bool) : List Char := if first then [] else [',']

/-- Nothing stands in front of a first entry. -/
theorem comma_true (text : List Char) : comma true ++ text = text := rfl

/-- A comma stands in front of every other entry. -/
theorem comma_false (text : List Char) : comma false ++ text = ',' :: text := rfl

/-- Entries with commas between them. -/
def separated : (first : Bool) → List (List Char) → List Char
  | _, [] => []
  | first, entry :: rest => comma first ++ (entry ++ separated false rest)

/-- Text of a member. -/
def memberText (member : String × Value) : List Char :=
  (stringText member.1).toList ++ (':' :: member.2.render.toList)

/-- The text of items is the texts of each one, with commas between them. -/
theorem toList_renderItems : ∀ values : List Value,
    (Value.renderItems values).toList = separated true (values.map (·.render.toList))
  | [] => rfl
  | [value] => by simp [Value.renderItems, separated, comma]
  | value :: next :: rest => by
    simp [Value.renderItems, separated, comma, toList_renderItems (next :: rest)]

/-- The text of members is the texts of each one, with commas between them. -/
theorem toList_renderMembers : ∀ members : List (String × Value),
    (Value.renderMembers members).toList = separated true (members.map memberText)
  | [] => rfl
  | [(name, value)] => by simp [Value.renderMembers, separated, comma, memberText]
  | (name, value) :: next :: rest => by
    simp [Value.renderMembers, separated, comma, memberText, toList_renderMembers (next :: rest)]

/-- The first of the members: its name, a colon and its value, and the other members. -/
theorem separated_member (first : Bool) (name : String) (value : Value)
    (members : List (String × Value)) (rest : List Char) :
    separated first (((name, value) :: members).map memberText) ++ rest
      = comma first ++ ((stringText name).toList ++ ':' :: (value.render.toList
        ++ (separated false (members.map memberText) ++ rest))) := by
  simp [separated, memberText]

/-- There are at most as many entries as characters, and one. -/
theorem length_le_separated (first : Bool) (entries : List (List Char)) :
    entries.length ≤ (separated first entries).length + 1 := by
  have between : ∀ entries, entries.length ≤ (separated false entries).length := by
    intro entries
    induction entries with
    | nil => exact Nat.le_refl 0
    | cons entry rest ih =>
      simp only [separated, comma, List.length_append, List.length_cons]
      simp
      omega
  cases entries with
  | nil => exact Nat.zero_le _
  | cons entry rest =>
    have := between rest
    simp only [separated, List.length_append, List.length_cons]
    omega

/-- A comma or the end of the container follows an entry. -/
theorem stops_separated {close : Char} (hclose : close = ']' ∨ close = '}')
    (entries : List (List Char)) (rest : List Char) :
    Stops (separated false entries ++ close :: rest) := by
  intro c hc
  cases entries with
  | nil =>
    obtain rfl := Option.some.inj hc
    exact .inr hclose
  | cons entry entries =>
    obtain rfl := Option.some.inj hc
    exact .inl rfl

/-! ## Lists -/

namespace Passes

/-- A further item is found behind its comma. -/
theorem nextItem (first : Bool) {c : Char} (hc : c = '"' ∨ c = '{') (rest : List Char) :
    Passes (Json.nextItem first) (comma first ++ c :: rest) (c :: rest) true := by
  cases first with
  | true => rcases hc with rfl | rfl <;> exact (Passes.next rfl).bind (.pure true _)
  | false =>
    rcases hc with rfl | rfl <;>
      exact (Passes.next rfl).bind ((Passes.eat ',' _).bind ((Passes.next rfl).bind (.pure true _)))

/-- The end of a list is found where it stands. -/
theorem nextItem_end (first : Bool) (rest : List Char) :
    Passes (Json.nextItem first) (']' :: rest) (']' :: rest) false :=
  (Passes.next rfl).bind (.pure false _)

/-- Items that are read back one by one are read back as a list. -/
theorem items {item : Reader α} {encode : α → Value} {values : List α}
    (hitem : ∀ a ∈ values, Takes item (encode a) a ∧ (encode a).Marked) (rest : List Char)
    {fuel : Nat} (hfuel : values.length < fuel) (first : Bool) :
    Passes (Json.items item fuel first)
      (separated first (values.map fun a => (encode a).render.toList) ++ ']' :: rest)
      (']' :: rest) values := by
  induction values generalizing fuel first with
  | nil =>
    obtain ⟨fuel, rfl⟩ := Nat.exists_eq_succ_of_ne_zero (Nat.ne_of_gt hfuel)
    exact (nextItem_end first rest).bind (.pure [] _)
  | cons a values ih =>
    obtain ⟨fuel, rfl⟩ := Nat.exists_eq_succ_of_ne_zero (Nat.ne_of_gt (Nat.zero_lt_of_lt hfuel))
    obtain ⟨takes, c, text, hc, begins⟩ := hitem a List.mem_cons_self
    have later := ih (fun b hb => hitem b (List.mem_cons_of_mem a hb))
      (Nat.lt_of_succ_lt_succ hfuel) false
    have head := takes _ (stops_separated (.inl rfl)
      (values.map fun a => (encode a).render.toList) rest)
    rw [hc] at head
    rw [List.map_cons, separated, hc, List.append_assoc, List.append_assoc]
    exact (nextItem first begins _).bind (head.bind (later.bind (.pure _ _)))

end Passes

/-- A list is read back if its items are. -/
theorem Takes.list {levels : Nat} {item : (inner : Nat) → inner < levels → Reader α}
    {encode : α → Value} {values : List α}
    (hdepth : (Value.list (values.map encode)).depth ≤ levels)
    (hitem : ∀ inner bound, ∀ a ∈ values, (encode a).depth ≤ inner →
      Takes (item inner bound) (encode a) a ∧ (encode a).Marked) :
    Takes (Json.list levels item) (.list (values.map encode)) values := by
  obtain ⟨inner, rfl, fits⟩ := Value.depth_list_le.mp hdepth
  intro rest _
  have text : (Value.list (values.map encode)).render.toList ++ rest
      = '[' :: (separated true (values.map fun a => (encode a).render.toList) ++ ']' :: rest) := by
    rw [Value.render, String.toList_append, String.toList_append, toList_renderItems, List.map_map,
      List.append_assoc]
    rfl
  rw [text]
  refine (Passes.need rfl).bind ?_
  rw [if_pos rfl]
  refine Passes.enclosed (.opening ((Passes.enough _).bind ?_)) (.closeList rest)
  refine Passes.items (fun a ha => hitem _ _ a ha (fits _ (List.mem_map_of_mem ha))) rest ?_ true
  have := length_le_separated true (values.map fun a => (encode a).render.toList)
  rw [List.length_append, List.length_cons]
  rw [List.length_map] at this
  omega

/-! ## Records -/

/-- The members are the fields of a record in order, where fields that are not required may be left
out, and reading them turns one record into another. -/
inductive Fills : List (Field α) → α → List (String × Value) → α → Prop
  | done (record : α) : Fills [] record [] record
  | take {f : Field α} {fields : List (Field α)} {value : Value} {change : α → α}
      {record record' : α} {members : List (String × Value)} :
      Takes f.read value change → Fills fields (change record) members record' →
        Fills (f :: fields) record ((f.name, value) :: members) record'
  | skip {f : Field α} {fields : List (Field α)} {record record' : α}
      {members : List (String × Value)} :
      f.presence ≠ .required → Fills fields record members record' →
        Fills (f :: fields) record members record'

/-- Fields of different names are found by their names. -/
theorem find?_field {earlier later : List (Field α)} {f : Field α}
    (h : ((earlier ++ f :: later).map Field.name).Nodup) :
    (earlier ++ f :: later).find? (·.name = f.name) = some f := by
  have other : earlier.find? (·.name = f.name) = none := by
    rw [List.find?_eq_none]
    intro g hg hname
    rw [List.map_append, List.nodup_append] at h
    exact h.2.2 g.name (List.mem_map_of_mem hg) f.name (List.mem_map_of_mem List.mem_cons_self)
      (of_decide_eq_true hname)
  rw [List.find?_append, other, List.find?_cons_of_pos (by simp)]
  rfl

namespace Passes

/-- Where the name of a member follows, there is a quote. -/
theorem nextName (name : String) (rest : List Char) :
    Passes Json.next ((stringText name).toList ++ rest) ((stringText name).toList ++ rest)
        (some '"')
      ∧ Passes Json.nextName ((stringText name).toList ++ rest) ((stringText name).toList ++ rest)
        () := by
  rw [toList_stringText]
  exact ⟨.next rfl, (Passes.peek _).bind (.pure () _)⟩

/-- A further member is found behind its comma. -/
theorem nextMember (first : Bool) (name : String) (rest : List Char) :
    Passes (Json.nextMember first) (comma first ++ ((stringText name).toList ++ rest))
      ((stringText name).toList ++ rest) true := by
  obtain ⟨next, quote⟩ := nextName name rest
  cases first with
  | true =>
    rw [comma_true]
    exact next.bind (quote.bind (.pure true _))
  | false =>
    rw [comma_false]
    exact (Passes.next rfl).bind ((Passes.eat ',' _).bind (next.bind (quote.bind (.pure true _))))

/-- The end of an object is found where it stands. -/
theorem nextMember_end (first : Bool) (rest : List Char) :
    Passes (Json.nextMember first) ('}' :: rest) ('}' :: rest) false :=
  (Passes.next rfl).bind (.pure false _)

/-- If only names of earlier fields have been seen, that of the next field has not. -/
theorem not_contains_seen {earlier fields : List (Field α)} {f : Field α} {seen : List String}
    (hnames : ((earlier ++ f :: fields).map Field.name).Nodup)
    (hseen : ∀ name ∈ seen, name ∈ earlier.map Field.name) : ¬seen.contains f.name = true := by
  intro hcontains
  rw [List.map_append, List.nodup_append] at hnames
  exact hnames.2.2 f.name (hseen _ (List.contains_iff_mem.mp hcontains)) f.name
    (List.mem_map_of_mem List.mem_cons_self) rfl

/-- If only names of earlier fields have been seen, it is so after one more field was read. -/
theorem mem_earlier_of_seen {earlier : List (Field α)} {seen : List String}
    (hseen : ∀ name ∈ seen, name ∈ earlier.map Field.name) (f : Field α) :
    ∀ name ∈ f.name :: seen, name ∈ (earlier ++ [f]).map Field.name := by
  intro name hname
  rw [List.map_append]
  rcases List.mem_cons.mp hname with rfl | hname
  · exact List.mem_append_right _ List.mem_cons_self
  · exact List.mem_append_left _ (hseen name hname)

/-- Fields are read in order; the names of those that are required are seen. -/
theorem members (earlier : List (Field α)) {fields : List (Field α)} {record record' : α}
    {entries : List (String × Value)} (h : Fills fields record entries record')
    (hnames : ((earlier ++ fields).map Field.name).Nodup) (seen : List String)
    (hseen : ∀ name ∈ seen, name ∈ earlier.map Field.name) {fuel : Nat}
    (hfuel : entries.length < fuel) (first : Bool) (rest : List Char) :
    ∃ seen', Passes (Json.members (earlier ++ fields) fuel first seen record)
        (separated first (entries.map memberText) ++ '}' :: rest) ('}' :: rest) (seen', record')
      ∧ seen ⊆ seen' ∧ ∀ f ∈ fields, f.presence = .required → f.name ∈ seen' := by
  -- the reader always searches all fields, so those that are done move to `earlier`
  induction h generalizing earlier seen fuel first with
  | done record =>
    obtain ⟨fuel, rfl⟩ := Nat.exists_eq_succ_of_ne_zero (Nat.ne_of_gt hfuel)
    exact ⟨seen, (nextMember_end first rest).bind (.pure _ _), List.Subset.refl seen, by simp⟩
  | @take f fields value change record record' entries takes _ ih =>
    obtain ⟨fuel, rfl⟩ := Nat.exists_eq_succ_of_ne_zero (Nat.ne_of_gt (Nat.zero_lt_of_lt hfuel))
    have hunseen := not_contains_seen hnames hseen
    have found := find?_field hnames
    rw [List.append_cons] at hnames found ⊢
    obtain ⟨seen', passes, hsub, hreq⟩ := ih (earlier ++ [f]) hnames (f.name :: seen)
      (mem_earlier_of_seen hseen f) (Nat.lt_of_succ_lt_succ hfuel) false
    refine ⟨seen', ?_, fun name hname => hsub (List.mem_cons_of_mem _ hname), ?_⟩
    · rw [separated_member]
      refine (nextMember first f.name _).bind ((Passes.quotedString f.name _).bind ?_)
      rw [found]
      dsimp only
      rw [if_neg hunseen]
      refine (Passes.colon _).bind ((takes _ (stops_separated (.inr rfl) _ rest)).bind passes)
    · exact List.forall_mem_cons.mpr ⟨fun _ => hsub List.mem_cons_self, hreq⟩
  | @skip f fields record record' entries hpresence _ ih =>
    rw [List.append_cons] at hnames ⊢
    obtain ⟨seen', passes, hsub, hreq⟩ := ih (earlier ++ [f]) hnames seen
      (fun name hname => mem_earlier_of_seen hseen f name (List.mem_cons_of_mem _ hname)) hfuel
      first
    exact ⟨seen', passes, hsub, List.forall_mem_cons.mpr ⟨fun h => absurd h hpresence, hreq⟩⟩

end Passes

/-- No field is missing exactly if every required one has been seen. -/
theorem missing?_eq_none_iff {fields : List (Field α)} {seen : List String} :
    missing? fields seen = none ↔ ∀ f ∈ fields, f.presence = .required → f.name ∈ seen := by
  rw [missing?, Option.map_eq_none_iff, List.find?_eq_none]
  simp only [Bool.and_eq_true, decide_eq_true_eq, Bool.not_eq_true', List.contains_eq_mem,
    decide_eq_false_iff_not, not_and, Decidable.not_not]

/-- The text of an object is its members within braces. -/
theorem toList_render_object (members : List (String × Value)) :
    (Value.object members).render.toList
      = '{' :: (separated true (members.map memberText) ++ ['}']) := by
  rw [Value.render, String.toList_append, String.toList_append, toList_renderMembers]
  rfl

/-- An object is as long as it has members. -/
theorem length_members_lt (entries : List (String × Value)) (rest : List Char) :
    entries.length < (separated true (entries.map memberText) ++ '}' :: rest).length + 1 := by
  have := length_le_separated true (entries.map memberText)
  rw [List.length_append, List.length_cons]
  rw [List.length_map] at this
  omega

/-- A record that is given by its fields, of which each is understood within the levels it needs. -/
theorem Takes.record {levels : Nat} {expected : String} {blank record : α}
    {fields : (inner : Nat) → inner < levels → List (Field α)} {entries : List (String × Value)}
    (hdepth : (Value.object entries).depth ≤ levels)
    (hnames : ∀ inner bound, ((fields inner bound).map Field.name).Nodup)
    (h : ∀ inner bound, (∀ m ∈ entries, m.2.depth ≤ inner) →
      Fills (fields inner bound) blank entries record) :
    Takes (Json.record levels expected blank fields) (.object entries) record := by
  obtain ⟨inner, rfl, fits⟩ := Value.depth_object_le.mp hdepth
  intro rest _
  rw [toList_render_object, List.cons_append, List.append_assoc]
  obtain ⟨seen, passes, -, hrequired⟩ := Passes.members [] (h _ _ fits) (hnames _ _) []
    (by simp) (length_members_lt entries rest) true rest
  refine (Passes.need rfl).bind ?_
  refine Passes.enclosed (.opening ((Passes.enough _).bind (passes.bind ?_))) (.closeObject rest)
  dsimp only
  rw [missing?_eq_none_iff.mpr hrequired]
  exact .pure record _

/-! ## Choices -/

/-- The name of an alternative is understood if it is among the names. -/
theorem Passes.alternative {names : List (String × τ)} {name : String} {tag : τ}
    (h : names.lookup name = some tag) (text : List Char) :
    Passes (Json.alternative names name) text text tag := by
  rw [Json.alternative, h]
  exact .pure tag text

/-- An alternative with data is read when its name is known and its data is understood. -/
theorem Takes.choice {levels : Nat} {names : List (String × τ)} {bare : τ → Reader α}
    {data : (inner : Nat) → inner < levels → τ → Reader α} {name : String} {tag : τ} {value : Value}
    {a : α} (hdepth : (Value.object [(name, value)]).depth ≤ levels)
    (hname : names.lookup name = some tag)
    (h : ∀ inner bound, value.depth ≤ inner → Takes (data inner bound tag) value a) :
    Takes (Json.choice levels names bare data) (.object [(name, value)]) a := by
  obtain ⟨inner, rfl, fits⟩ := Value.depth_object_le.mp hdepth
  have h := h inner (Nat.lt_succ_self inner) (fits _ List.mem_cons_self)
  intro rest _
  rw [toList_render_object, List.cons_append, List.append_assoc, separated_member, comma_true,
    List.map_nil, separated, List.nil_append]
  obtain ⟨next, quote⟩ := Passes.nextName name (':' :: (value.render.toList ++ '}' :: rest))
  refine (Passes.next rfl).bind (.opening (next.bind (quote.bind ?_)))
  refine (Passes.quotedString name _).bind ((Passes.alternative hname _).bind ?_)
  refine (Passes.colon _).bind ((h _ (stops_separated (.inr rfl) [] rest)).bind ?_)
  exact (Passes.next rfl).bind ((Passes.eat '}' rest).bind (.pure a rest))

/-- An alternative without data is read when its name is known. -/
theorem Takes.enumeration (levels : Nat) {names : List (String × τ)} {name : String} {tag : τ}
    (hname : names.lookup name = some tag) :
    Takes (Json.enumeration levels names) (.string name) tag := by
  intro rest _
  have hname' := Passes.quotedString name rest
  rw [Value.render]
  rw [toList_stringText, List.cons_append] at hname' ⊢
  exact (Passes.next rfl).bind (hname'.bind ((Passes.alternative hname _).bind (.pure tag _)))

/-! ## Records inside records -/

/-- A string is read back as a value of any shape. -/
theorem Takes.plain_string (levels : Nat) (s : String) :
    Takes (plain levels) (.string s) (.string s) := by
  intro rest _
  have quoted := Passes.quotedString s rest
  rw [plain, Value.render]
  rw [toList_stringText, List.cons_append] at quoted ⊢
  exact (Passes.need rfl).bind (quoted.bind (.pure _ rest))

/-- A truth value is read back as a value of any shape. -/
theorem Takes.plain_bool (levels : Nat) (b : Bool) : Takes (plain levels) (.bool b) (.bool b) := by
  intro rest _
  rw [plain]
  cases b with
  | true => exact (Passes.need rfl).bind ((Passes.literal "true" rfl rest).bind (.pure _ rest))
  | false => exact (Passes.need rfl).bind ((Passes.literal "false" rfl rest).bind (.pure _ rest))

/-- An integer that a number can hold is read back as a value of any shape. -/
theorem Takes.plain_int (levels : Nat) {n : Int} (low : Int64.minValue.toInt ≤ n)
    (high : n ≤ maxSignificand) : Takes (plain levels) (.int n) (.int n) := by
  intro rest hrest
  obtain ⟨c, hc, first⟩ := Passes.need_number n rest
  rw [plain, Value.render]
  refine first.bind ?_
  -- no other value begins as numbers do
  split
  case h_7 =>
    rw [if_pos hc]
    exact (Passes.number low high hrest).bind (.pure _ rest)
  all_goals exact absurd hc (by decide)

/-- The members are the fields of an outer record in order, where fields that are not required may
be left out, with other members anywhere between them that are plain values. -/
inductive Mixes (other : Reader Value) :
    List (Field α) → α → List (String × Value) → List (String × Value) → α → Prop
  | done (record : α) : Mixes other [] record [] [] record
  | take {f : Field α} {fields : List (Field α)} {value : Value} {change : α → α}
      {record record' : α} {members others : List (String × Value)} :
      Takes f.read value change → Mixes other fields (change record) members others record' →
        Mixes other (f :: fields) record ((f.name, value) :: members) others record'
  | skip {f : Field α} {fields : List (Field α)} {record record' : α}
      {members others : List (String × Value)} :
      f.presence ≠ .required → Mixes other fields record members others record' →
        Mixes other (f :: fields) record members others record'
  | keep {fields : List (Field α)} {name : String} {value : Value} {record record' : α}
      {members others : List (String × Value)} :
      Takes other value value → Mixes other fields record members others record' →
        Mixes other fields record ((name, value) :: members) ((name, value) :: others) record'

/-- Fields are read in order, and members that are no fields are kept as they are. -/
theorem Passes.mixedMembers (earlier : List (Field α)) {fields : List (Field α)}
    {other : Reader Value} {record record' : α} {entries others : List (String × Value)}
    (h : Mixes other fields record entries others record')
    (hnames : ((earlier ++ fields).map Field.name).Nodup)
    (hothers : ∀ m ∈ others, m.1 ∉ (earlier ++ fields).map Field.name) (seen : List String)
    (hseen : ∀ name ∈ seen, name ∈ earlier.map Field.name) {fuel : Nat}
    (hfuel : entries.length < fuel) (first : Bool) (rest : List Char) :
    ∃ seen', Passes (Json.mixedMembers (earlier ++ fields) other fuel first seen record)
        (separated first (entries.map memberText) ++ '}' :: rest) ('}' :: rest)
        (seen', record', others)
      ∧ seen ⊆ seen' ∧ ∀ f ∈ fields, f.presence = .required → f.name ∈ seen' := by
  -- as for `Passes.members`, the fields that are done move to `earlier`
  induction h generalizing earlier seen fuel first with
  | done record =>
    obtain ⟨fuel, rfl⟩ := Nat.exists_eq_succ_of_ne_zero (Nat.ne_of_gt hfuel)
    exact ⟨seen, (nextMember_end first rest).bind (.pure _ _), List.Subset.refl seen, by simp⟩
  | @take f fields value change record record' entries others takes _ ih =>
    obtain ⟨fuel, rfl⟩ := Nat.exists_eq_succ_of_ne_zero (Nat.ne_of_gt (Nat.zero_lt_of_lt hfuel))
    have hunseen := not_contains_seen hnames hseen
    have found := find?_field hnames
    rw [List.append_cons] at hnames hothers found ⊢
    obtain ⟨seen', passes, hsub, hreq⟩ := ih (earlier ++ [f]) hnames hothers (f.name :: seen)
      (mem_earlier_of_seen hseen f) (Nat.lt_of_succ_lt_succ hfuel) false
    refine ⟨seen', ?_, fun name hname => hsub (List.mem_cons_of_mem _ hname), ?_⟩
    · rw [separated_member]
      refine (nextMember first f.name _).bind ((Passes.quotedString f.name _).bind ?_)
      rw [found]
      dsimp only
      rw [if_neg hunseen]
      refine (Passes.colon _).bind ((takes _ (stops_separated (.inr rfl) _ rest)).bind passes)
    · exact List.forall_mem_cons.mpr ⟨fun _ => hsub List.mem_cons_self, hreq⟩
  | @skip f fields record record' entries others hpresence _ ih =>
    rw [List.append_cons] at hnames hothers ⊢
    obtain ⟨seen', passes, hsub, hreq⟩ := ih (earlier ++ [f]) hnames hothers seen
      (fun name hname => mem_earlier_of_seen hseen f name (List.mem_cons_of_mem _ hname)) hfuel
      first
    exact ⟨seen', passes, hsub, List.forall_mem_cons.mpr ⟨fun h => absurd h hpresence, hreq⟩⟩
  | @keep fields name value record record' entries others takes _ ih =>
    obtain ⟨fuel, rfl⟩ := Nat.exists_eq_succ_of_ne_zero (Nat.ne_of_gt (Nat.zero_lt_of_lt hfuel))
    have unknown : (earlier ++ fields).find? (·.name = name) = none := by
      rw [List.find?_eq_none]
      intro g hg hname
      exact hothers (name, value) List.mem_cons_self
        (List.mem_map.mpr ⟨g, hg, of_decide_eq_true hname⟩)
    obtain ⟨seen', passes, hsub, hreq⟩ := ih earlier hnames
      (fun m hm => hothers m (List.mem_cons_of_mem _ hm)) seen hseen
      (Nat.lt_of_succ_lt_succ hfuel) false
    refine ⟨seen', ?_, hsub, hreq⟩
    rw [separated_member]
    refine (nextMember first name _).bind ((Passes.quotedString name _).bind ?_)
    rw [unknown]
    refine (Passes.colon _).bind ((takes _ (stops_separated (.inr rfl) _ rest)).bind ?_)
    exact passes.bind (.pure _ _)

/-- An object that holds the fields of an outer record and, beside them, the members from which an
inner record is taken. -/
theorem Takes.flatRecord {levels : Nat} {expected : String} {blank record record' : α}
    {outer : (inner : Nat) → inner < levels → List (Field α)} {fields : List (FlatField α)}
    {entries others : List (String × Value)} (hdepth : (Value.object entries).depth ≤ levels)
    (hnames : ∀ level bound, ((outer level bound).map Field.name).Nodup)
    (hothers : ∀ level bound, ∀ m ∈ others, m.1 ∉ (outer level bound).map Field.name)
    (houter : ∀ level bound, Mixes (plain level) (outer level bound) blank entries others record)
    (hinner : takeFields fields [] record others = .ok record') :
    Takes (Json.flatRecord levels expected blank outer fields) (.object entries) record' := by
  obtain ⟨level, rfl, -⟩ := Value.depth_object_le.mp hdepth
  intro rest _
  rw [toList_render_object, List.cons_append, List.append_assoc]
  obtain ⟨seen, passes, -, hrequired⟩ := Passes.mixedMembers [] (houter _ _) (hnames _ _)
    (hothers _ _) [] (by simp) (length_members_lt entries rest) true rest
  refine (Passes.need rfl).bind ?_
  rw [if_pos rfl]
  refine Passes.enclosed (.opening ((Passes.enough _).bind (passes.bind ?_))) (.closeObject rest)
  dsimp only
  rw [missing?_eq_none_iff.mpr hrequired, hinner]
  exact .pure record' _

/-! ## Whole texts -/

/-- A text that a reader understands is decoded. -/
theorem Takes.decode {reader : Reader α} {value : Value} {a : α} (h : Takes reader value a) :
    Json.decode reader value.render = .ok a := by
  have whole := h [] (by rintro c ⟨⟩)
  rw [List.append_nil] at whole
  have passes : Passes (document reader) value.render.toList [] a :=
    whole.bind (Passes.next_end.bind (.pure a []))
  obtain ⟨offset, h⟩ := passes 0
  rw [Json.decode, h]

end Json

end PatchCompiler
