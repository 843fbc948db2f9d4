import PatchCompiler.Proofs.Json.Containers

/-! # What readers can give

`Gives` forgets the text: a value is given by a reader if there is a text from which the reader
gives it. What is given by a compound reader is put together from what is given by its parts, and
each container takes one of the levels that are left. A record is made of its defaults and of the
fields that were read (`Built`), among them all that are required. -/

namespace PatchCompiler

namespace Json

variable {α β τ : Type}

/-- The reader gives the value for some text. -/
def Gives (reader : Reader α) (a : α) : Prop :=
  ∃ cursor cursor', reader cursor = .ok a cursor'

namespace Gives

variable {reader : Reader α} {a : α} {b : β}

/-- What readers in turn give, the last one gives from a value of the first one. -/
theorem of_bind {next : α → Reader β} (h : Gives (reader >>= next) b) :
    ∃ a, Gives reader a ∧ Gives (next a) b := by
  obtain ⟨cursor, cursor', h⟩ := h
  change EStateM.bind reader next cursor = _ at h
  rw [EStateM.bind] at h
  cases hr : reader cursor with
  | ok a middle =>
    rw [hr] at h
    exact ⟨a, ⟨cursor, middle, hr⟩, middle, cursor', h⟩
  | error fault middle =>
    rw [hr] at h
    cases h

/-- A reader whose value is changed gives a changed value. -/
theorem of_map {f : α → β} (h : Gives (f <$> reader) b) : ∃ a, Gives reader a ∧ b = f a := by
  obtain ⟨cursor, cursor', h⟩ := h
  change EStateM.map f reader cursor = _ at h
  rw [EStateM.map] at h
  cases hr : reader cursor with
  | ok a middle =>
    rw [hr] at h
    exact ⟨a, ⟨cursor, middle, hr⟩, (EStateM.Result.ok.inj h).1.symm⟩
  | error fault middle =>
    rw [hr] at h
    cases h

/-- A result gives only itself. -/
theorem of_pure {a' : α} (h : Gives (pure a) a') : a' = a := by
  obtain ⟨cursor, cursor', h⟩ := h
  exact (EStateM.Result.ok.inj h).1.symm

/-! ## Readers that give nothing -/

/-- A fault gives no value. -/
theorem not_throw (fault : Fault) : ¬Gives (throw fault : Reader α) a := by
  rintro ⟨cursor, cursor', h⟩
  cases h

/-- Readers in turn give no value if the last one gives none. -/
theorem not_bind {next : α → Reader β} (h : ∀ a, ¬Gives (next a) b) :
    ¬Gives (reader >>= next) b := by
  intro hbind
  obtain ⟨a, -, hnext⟩ := of_bind hbind
  exact h a hnext

/-- Readers in turn give no value if the first one gives none. -/
theorem not_bind_left {next : α → Reader β} (h : ∀ {a}, ¬Gives reader a) :
    ¬Gives (reader >>= next) b := by
  intro hbind
  obtain ⟨a, hreader, -⟩ := of_bind hbind
  exact h hreader

/-- A problem at the cursor gives no value. -/
theorem not_fail (problem : Problem) : ¬Gives (fail problem) a := not_bind fun _ => not_throw _

/-- A problem at the next character gives no value. -/
theorem not_failNext (problem : Problem) : ¬Gives (failNext problem) a :=
  not_bind fun _ => not_throw _

/-- A problem without a place gives no value. -/
theorem not_failUnplaced (problem : Problem) : ¬Gives (failUnplaced problem) a := not_throw _

/-- A value of another type gives no value. -/
theorem not_invalidType (expected : String) : ¬Gives (invalidType expected) a := by
  have refused (found : Found) : ¬Gives (fail (.invalidType found expected)) a := not_fail _
  refine not_bind fun c => ?_
  dsimp only
  split
  case h_7 => split <;> exact not_bind refused
  all_goals first
    | exact not_bind refused
    | exact not_bind fun _ => not_bind refused

/-! ## Containers -/

/-- What a container gives, its contents give. -/
theorem of_enclosed {close : Reader Unit} (h : Gives (enclosed reader close) a) :
    Gives reader a := by
  obtain ⟨cursor, cursor', h⟩ := h
  rw [enclosed] at h
  cases hr : reader cursor with
  | ok a' middle =>
    rw [hr] at h
    dsimp only at h
    split at h
    · exact ⟨cursor, middle, hr.trans (by rw [(EStateM.Result.ok.inj h).1])⟩
    · cases h
  | error fault middle =>
    rw [hr] at h
    dsimp only at h
    split at h <;> cases h

/-- What a container gives, its contents give with one level less. -/
theorem of_opening {levels : Nat} {contents : (inner : Nat) → inner < levels → Reader α}
    (h : Gives (opening levels contents) a) :
    ∃ inner bound, levels = inner + 1 ∧ Gives (contents inner bound) a := by
  cases levels with
  | zero => exact absurd h (not_failNext _)
  | succ inner =>
    obtain ⟨-, -, h⟩ := of_bind h
    exact ⟨inner, _, rfl, h⟩

/-- A value that may be missing was read if it is there. -/
theorem of_optional {o : Option α} (h : Gives (optional reader) o) : ∀ a ∈ o, Gives reader a := by
  intro a ha
  obtain ⟨c, -, h⟩ := of_bind h
  split at h
  · obtain ⟨-, -, h⟩ := of_bind h
    obtain rfl := of_pure h
    cases ha
  · obtain ⟨a', h', h⟩ := of_bind h
    obtain rfl := of_pure h
    obtain rfl := Option.some.inj ha
    exact h'

/-- The items of a list were each read. -/
theorem of_items {fuel : Nat} {first : Bool} {values : List α}
    (h : Gives (items reader fuel first) values) : ∀ a ∈ values, Gives reader a := by
  induction fuel generalizing first values with
  | zero => exact absurd h (not_failNext _)
  | succ fuel ih =>
    obtain ⟨more, -, h⟩ := of_bind h
    split at h
    · obtain ⟨head, hhead, h⟩ := of_bind h
      obtain ⟨tail, htail, h⟩ := of_bind h
      obtain rfl := of_pure h
      exact List.forall_mem_cons.mpr ⟨hhead, ih htail⟩
    · obtain rfl := of_pure h
      exact List.forall_mem_nil _

/-- The items of a list were each read with one level less. -/
theorem of_list {levels : Nat} {item : (inner : Nat) → inner < levels → Reader α} {values : List α}
    (h : Gives (list levels item) values) :
    ∃ inner bound, levels = inner + 1 ∧ ∀ a ∈ values, Gives (item inner bound) a := by
  obtain ⟨c, -, h⟩ := of_bind h
  split at h
  · obtain ⟨inner, bound, hlevels, h⟩ := of_opening (of_enclosed h)
    obtain ⟨fuel, -, h⟩ := of_bind h
    exact ⟨inner, bound, hlevels, of_items h⟩
  · exact absurd h (not_invalidType _)

/-- A choice is made by a bare name or by an object, which takes a level. -/
theorem of_choice {levels : Nat} {names : List (String × τ)} {bare : τ → Reader α}
    {data : (inner : Nat) → inner < levels → τ → Reader α}
    (h : Gives (choice levels names bare data) a) :
    (∃ tag, Gives (bare tag) a) ∨
      ∃ inner bound tag, levels = inner + 1 ∧ Gives (data inner bound tag) a := by
  obtain ⟨c, -, h⟩ := of_bind h
  split at h
  · obtain ⟨inner, bound, hlevels, h⟩ := of_opening h
    obtain ⟨d, -, h⟩ := of_bind h
    dsimp only at h
    split at h
    · exact absurd h (not_bind_left (not_failNext _))
    · exact absurd h (not_bind_left (not_failNext _))
    · obtain ⟨-, -, h⟩ := of_bind h
      obtain ⟨name, -, h⟩ := of_bind h
      obtain ⟨tag, -, h⟩ := of_bind h
      obtain ⟨-, -, h⟩ := of_bind h
      obtain ⟨value, hvalue, h⟩ := of_bind h
      obtain ⟨e, -, h⟩ := of_bind h
      split at h
      · obtain ⟨-, -, h⟩ := of_bind h
        obtain rfl := of_pure h
        exact .inr ⟨inner, bound, tag, hlevels, hvalue⟩
      · exact absurd h (not_fail _)
      · exact absurd h (not_fail _)
  · obtain ⟨name, -, h⟩ := of_bind h
    obtain ⟨tag, -, h⟩ := of_bind h
    exact .inl ⟨tag, h⟩
  · exact absurd h (not_failNext _)
  · exact absurd h (not_failNext _)

end Gives

/-! ## Records -/

/-- A record that was made from the defaults by reading the named fields, the last one first. -/
inductive Built (fields : List (Field α)) (blank : α) : List String → α → Prop
  | start : Built fields blank [] blank
  | set {f : Field α} {change : α → α} {seen : List String} {record : α} :
      Built fields blank seen record → f ∈ fields → Gives f.read change →
        Built fields blank (f.name :: seen) (change record)

/-- A record that was made from the defaults by reading fields, among them all that are required. -/
def Made (fields : List (Field α)) (blank record : α) : Prop :=
  ∃ seen, Built fields blank seen record
    ∧ ∀ f ∈ fields, f.presence = .required → f.name ∈ seen

/-- Reading the field leaves a part of the record as it is. -/
def Field.Keeps (f : Field α) (part : α → β) : Prop :=
  ∀ change, Gives f.read change → ∀ record, part (change record) = part record

/-- A field has its name. -/
@[simp] theorem field_name {name : String} {presence : Presence} {set : β → α → α}
    {reader : Reader β} : (field name presence set reader).name = name := rfl

/-- A field keeps a part of the record that it does not set. -/
theorem Field.keeps_field {name : String} {presence : Presence} {set : τ → α → α}
    {reader : Reader τ} {part : α → β} (h : ∀ value record, part (set value record) = part record) :
    (field name presence set reader).Keeps part := by
  intro change hchange record
  obtain ⟨value, -, rfl⟩ := hchange.of_map
  exact h value record

/-- The part of a record that only one field sets was read, or it is not required and was left as it
is by default. -/
theorem Made.part (earlier : List (Field α)) {later : List (Field α)} {blank record : α}
    {name : String} {presence : Presence} {set : β → α → α} {reader : Reader β}
    (h : Made (earlier ++ field name presence set reader :: later) blank record) (part : α → β)
    (hset : ∀ value record, part (set value record) = value)
    (hothers : ∀ f ∈ earlier ++ later, f.name ≠ name ∧ f.Keeps part) :
    Gives reader (part record) ∨ presence ≠ .required ∧ part record = part blank := by
  obtain ⟨seen, built, hrequired⟩ := h
  have hname : presence = .required → name ∈ seen :=
    hrequired (field name presence set reader) (by simp)
  have read : Gives reader (part record) ∨ name ∉ seen ∧ part record = part blank := by
    -- required names are seen at the end only, so that this is no part of the invariant
    clear hname hrequired
    induction built with
    | start => exact .inr ⟨List.not_mem_nil, rfl⟩
    | @set f change seen record _ hf hchange ih =>
      have hfield : f = field name presence set reader ∨ f ∈ earlier ++ later := by
        simpa [or_left_comm] using hf
      rcases hfield with rfl | hother
      · obtain ⟨value, hvalue, rfl⟩ := hchange.of_map
        exact .inl ((hset value record).symm ▸ hvalue)
      · obtain ⟨hne, keeps⟩ := hothers f hother
        rw [keeps change hchange record]
        exact ih.imp_right fun h => ⟨List.not_mem_cons_of_ne_of_not_mem hne.symm h.1, h.2⟩
  exact read.imp_right fun h => ⟨mt hname h.1, h.2⟩

namespace Gives

/-- Members build a record on from the fields that were seen. -/
theorem of_members {fields : List (Field α)} {blank : α} {fuel : Nat} {first : Bool}
    {seen seen' : List String} {record record' : α} (built : Built fields blank seen record)
    (h : Gives (members fields fuel first seen record) (seen', record')) :
    Built fields blank seen' record' := by
  induction fuel generalizing first seen record with
  | zero => exact absurd h (not_failNext _)
  | succ fuel ih =>
    obtain ⟨more, -, h⟩ := of_bind h
    split at h
    · obtain ⟨name, -, h⟩ := of_bind h
      split at h
      · obtain ⟨-, -, h⟩ := of_bind h
        obtain ⟨-, -, h⟩ := of_bind h
        exact ih built h
      · rename_i f found
        dsimp only at h
        split at h
        · exact absurd h (not_bind_left (not_failUnplaced _))
        · obtain ⟨-, -, h⟩ := of_bind h
          obtain ⟨change, hchange, h⟩ := of_bind h
          have hname : f.name = name := by simpa using List.find?_some found
          exact ih (hname ▸ built.set (List.mem_of_find?_eq_some found) hchange) h
    · cases of_pure h
      exact built

/-- The fields of a list are read in order; those that are left out at its end have defaults. -/
theorem of_listRecord {fields later : List (Field α)} {blank : α} {expected : String} {index : Nat}
    {seen : List String} {record record' : α} (built : Built fields blank seen record)
    (hlater : later ⊆ fields) (h : Gives (listRecord expected index later record) record') :
    ∃ seen', Built fields blank seen' record' ∧ seen ⊆ seen'
      ∧ ∀ f ∈ later, f.presence = .required → f.name ∈ seen' := by
  induction later generalizing index seen record with
  | nil =>
    obtain rfl := of_pure h
    exact ⟨seen, built, List.Subset.refl seen, List.forall_mem_nil _⟩
  | cons f later ih =>
    obtain ⟨hf, hlater⟩ := List.cons_subset.mp hlater
    obtain ⟨more, -, h⟩ := of_bind h
    split at h
    · obtain ⟨change, hchange, h⟩ := of_bind h
      obtain ⟨seen', built', hsub, hrequired⟩ := ih (built.set hf hchange) hlater h
      refine ⟨seen', built', fun name hname => hsub (List.mem_cons_of_mem _ hname), ?_⟩
      exact List.forall_mem_cons.mpr ⟨fun _ => hsub List.mem_cons_self, hrequired⟩
    · split at h
      · rename_i hdefault
        obtain ⟨seen', built', hsub, hrequired⟩ := ih built hlater h
        refine ⟨seen', built', hsub, List.forall_mem_cons.mpr ⟨fun hreq => ?_, hrequired⟩⟩
        cases hdefault.symm.trans hreq
      · exact absurd h (not_failUnplaced _)

/-- A record that was read was made from its fields, with one level less. -/
theorem of_record {levels : Nat} {expected : String} {blank record : α}
    {fields : (inner : Nat) → inner < levels → List (Field α)}
    (h : Gives (Json.record levels expected blank fields) record) :
    ∃ inner bound, levels = inner + 1 ∧ Made (fields inner bound) blank record := by
  obtain ⟨c, -, h⟩ := of_bind h
  split at h
  · obtain ⟨inner, bound, hlevels, h⟩ := of_opening (of_enclosed h)
    obtain ⟨seen, built, -, hrequired⟩ := of_listRecord .start (List.Subset.refl _) h
    exact ⟨inner, bound, hlevels, seen, built, hrequired⟩
  · obtain ⟨inner, bound, hlevels, h⟩ := of_opening (of_enclosed h)
    obtain ⟨fuel, -, h⟩ := of_bind h
    obtain ⟨⟨seen, record'⟩, hmembers, h⟩ := of_bind h
    dsimp only at h
    split at h
    · exact absurd h (not_failUnplaced _)
    · rename_i complete
      obtain rfl := of_pure h
      exact ⟨inner, bound, hlevels, seen, of_members .start hmembers,
        missing?_eq_none_iff.mp complete⟩
  · exact absurd h (not_invalidType _)

/-- A record with a flattened one in it was read with one level less. -/
theorem of_flatRecord {levels : Nat} {expected : String} {blank record : α}
    {outer : (inner : Nat) → inner < levels → List (Field α)} {fields : List (FlatField α)}
    (h : Gives (flatRecord levels expected blank outer fields) record) :
    ∃ inner, levels = inner + 1 := by
  obtain ⟨c, -, h⟩ := of_bind h
  split at h
  · obtain ⟨inner, -, hlevels, -⟩ := of_opening (of_enclosed h)
    exact ⟨inner, hlevels⟩
  · exact absurd h (not_invalidType _)

/-- What is decoded from a text, the reader gives. -/
theorem of_decode {reader : Reader α} {text : String} {a : α}
    (h : Json.decode reader text = .ok a) : Gives reader a := by
  rw [Json.decode] at h
  split at h
  · rename_i result cursor hread
    obtain rfl := Except.ok.inj h
    obtain ⟨a, ha, hrest⟩ := of_bind ⟨_, _, hread⟩
    obtain ⟨c, -, hrest⟩ := of_bind hrest
    split at hrest
    · exact absurd hrest (not_failNext _)
    · obtain rfl := of_pure hrest
      exact ha
  · cases h

end Gives

end Json

end PatchCompiler
