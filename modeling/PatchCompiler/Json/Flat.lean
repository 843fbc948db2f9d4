import PatchCompiler.Json.Record

/-! # Records inside records

Some objects hold the members of two records side by side. The members of the outer one are read as
they come; all others are kept as plain values, from which the inner record is taken at the end. -/

namespace PatchCompiler

namespace Json

/-! ## Plain values -/

/-- Members of an object as plain values; the fuel bounds their number. -/
def plainMembers (value : Reader Value) :
    (fuel : Nat) → (first : Bool) → Reader (List (String × Value))
  | 0, _ => failNext .endOfObject
  | fuel + 1, first => do
    if ← nextMember first then
      let name ← quotedString
      colon
      let v ← value
      return (name, v) :: (← plainMembers value fuel false)
    else return []

/-- Any value. -/
def plain (levels : Nat) : Reader Value := do
  match ← need with
  | 'n' =>
    literal "null"
    return .null
  | 't' =>
    literal "true"
    return .bool true
  | 'f' =>
    literal "false"
    return .bool false
  | '"' => return .string (← quotedString)
  | '[' =>
    return .list (← enclosed (opening levels fun inner _ => allItems (plain inner)) closeList)
  | '{' =>
    return .object (← enclosed
      (opening levels fun inner _ => do plainMembers (plain inner) (← enough) true) closeObject)
  | c => if beginsNumber c then return (← number).value else failNext .expectedValue
termination_by levels

/-! ## Taking typed values from plain ones -/

/-- A truth value. -/
def Value.toBool : Value → Except Problem Bool
  | .bool value => .ok value
  | value => .error (.invalidType value.found "a boolean")

/-- An unsigned 32-bit integer. -/
def Value.toUInt32 : Value → Except Problem UInt32
  | .int n =>
    if 0 ≤ n ∧ n.toNat < UInt32.size then .ok (UInt32.ofNat n.toNat)
    else .error (.invalidValue (.int n) "u32")
  | value => .error (.invalidType value.found "u32")

/-- The alternative a name stands for. -/
def alternativeOf {τ : Type} (names : List (String × τ)) (name : String) : Except Problem τ :=
  match names.lookup name with
  | some tag => .ok tag
  | none => .error (.unknownVariant name (names.map Prod.fst))

/-- A choice between alternatives that carry no data; null and the empty object stand for none. -/
def Value.toEnumeration {τ : Type} (names : List (String × τ)) : Value → Except Problem τ
  | .string name => alternativeOf names name
  | .object [(name, data)] => do
    let tag ← alternativeOf names name
    match data with
    | .null | .object [] => .ok tag
    | data => .error (.invalidType data.found "unit")
  | .object _ => .error (.invalidValue .object "map with a single key")
  | value => .error (.invalidType value.found "string or map")

/-- A field of a record that is taken from plain values. -/
structure FlatField (α : Type) where
  /-- Name of the field. -/
  name : String
  /-- Whether it has to be there. -/
  required : Bool
  /-- The change its value makes to the record. -/
  read : Value → Except Problem (α → α)

/-- A field that sets a part of a record. -/
def flatField {α β : Type} (name : String) (required : Bool) (set : β → α → α)
    (value : Value → Except Problem β) : FlatField α :=
  ⟨name, required, fun v => (value v).map set⟩

/-- Take the fields of a record from plain members, in the order of the members. -/
def takeFields {α : Type} (fields : List (FlatField α)) :
    (seen : List String) → (record : α) → List (String × Value) → Except Problem α
  | seen, record, [] =>
    match fields.find? fun f => f.required && !seen.contains f.name with
    | some f => .error (.missingField f.name)
    | none => .ok record
  | seen, record, (name, value) :: rest =>
    match fields.find? (·.name = name) with
    | none => takeFields fields seen record rest
    | some f =>
      if seen.contains name then .error (.duplicateField name)
      else do
        let change ← f.read value
        takeFields fields (name :: seen) (change record) rest

/-! ## Objects of two records -/

/-- Members up to the end of an object: the names of the outer record's fields among them, the outer
record, and all other members in order. -/
def mixedMembers {α : Type} (fields : List (Field α)) (other : Reader Value) :
    (fuel : Nat) → (first : Bool) → (seen : List String) → (record : α) →
      Reader (List String × α × List (String × Value))
  | 0, _, _, _ => failNext .endOfObject
  | fuel + 1, first, seen, record => do
    if ← nextMember first then
      let name ← quotedString
      match fields.find? (·.name = name) with
      | none =>
        colon
        let value ← other
        let (seen, record, rest) ← mixedMembers fields other fuel false seen record
        return (seen, record, (name, value) :: rest)
      | some f =>
        if seen.contains name then failUnplaced (.duplicateField name)
        colon
        let change ← f.read
        mixedMembers fields other fuel false (name :: seen) (change record)
    else return (seen, record, [])

/-- An object that holds the fields of an outer and of an inner record. -/
def flatRecord {α : Type} (levels : Nat) (expected : String) (blank : α)
    (outer : (inner : Nat) → inner < levels → List (Field α)) (inner : List (FlatField α)) :
    Reader α := do
  if (← need) = '{' then
    enclosed (opening levels fun level bound => do
      let fields := outer level bound
      let (seen, record, others) ← mixedMembers fields (plain level) (← enough) true [] blank
      match missing? fields seen with
      | some name => failUnplaced (.missingField name)
      | none =>
        match takeFields inner [] record others with
        | .ok record => return record
        | .error problem => failUnplaced problem) closeObject
  else invalidType expected

end Json

end PatchCompiler
