import PatchCompiler.Json.Skip

/-! # Typed values

Readers for scalars, lists, optional values, records and choices. `levels` is the number of
containers that may still be opened; what a container holds is read with one level less. A record is
an object or a list of its fields in order. A choice is an object whose only member names the
alternative, or the bare name. -/

namespace PatchCompiler

namespace Json

/-- Refuse a value of another type than the expected one. The value is read as far as needed to say
what it is. -/
def invalidType {α : Type} (expected : String) : Reader α := do
  let found ← match ← peek with
    | some 'n' => do
      literal "null"
      pure Found.null
    | some 't' => do
      literal "true"
      pure (Found.bool true)
    | some 'f' => do
      literal "false"
      pure (Found.bool false)
    | some '"' => Found.string <$> quotedString
    | some '[' => pure Found.list
    | some '{' => pure Found.object
    | some c => if beginsNumber c then Numeric.found <$> number else failNext .expectedValue
    | none => failNext .expectedValue
  fail (.invalidType found expected)

/-! ## Scalars -/

/-- An integer between two bounds. -/
def integer (low high : Int) (expected : String) : Reader Int := do
  if beginsNumber (← need) then
    match ← number with
    | .int n =>
      if low ≤ n ∧ n ≤ high then return n else fail (.invalidValue (.int n) expected)
    | .float x => fail (.invalidType (.float x) expected)
  else invalidType expected

/-- A signed 32-bit integer. -/
def int32 : Reader Int32 := do return Int32.ofInt (← integer Int32.minValue.toInt Int32.maxValue.toInt "i32")

/-- An unsigned 16-bit integer. -/
def uint16 : Reader UInt16 := do return UInt16.ofNat (← integer 0 (.ofNat (UInt16.size - 1)) "u16").toNat

/-- An unsigned 32-bit integer. -/
def uint32 : Reader UInt32 := do return UInt32.ofNat (← integer 0 (.ofNat (UInt32.size - 1)) "u32").toNat

/-- A count of up to 64 bits. -/
def count : Reader UInt64 := do return UInt64.ofNat (← integer 0 (.ofNat (UInt64.size - 1)) "usize").toNat

/-- The double nearest to an integer. -/
def ofInt (n : Int) : Binary64 :=
  let magnitude := Binary64.ofNat n.natAbs
  if n < 0 then magnitude.neg else magnitude

/-- Any number. -/
def float : Reader Binary64 := do
  if beginsNumber (← need) then
    match ← number with
    | .int n => return ofInt n
    | .float x => return x
  else invalidType "f64"

/-- A string. -/
def string : Reader String := do
  if (← need) = '"' then quotedString else invalidType "a string"

/-- A truth value. -/
def bool : Reader Bool := do
  match ← need with
  | 't' =>
    literal "true"
    return true
  | 'f' =>
    literal "false"
    return false
  | _ => invalidType "a boolean"

/-- The value `null`. -/
def unit : Reader Unit := do
  if (← need) = 'n' then literal "null" else invalidType "unit"

/-- A value or `null`. -/
def optional {α : Type} (value : Reader α) : Reader (Option α) := do
  if (← next) = some 'n' then
    literal "null"
    return none
  else return some (← value)

/-! ## Lists -/

/-- A list. -/
def list {α : Type} (levels : Nat) (item : (inner : Nat) → inner < levels → Reader α) :
    Reader (List α) := do
  if (← need) = '[' then
    enclosed (opening levels fun inner bound => allItems (item inner bound)) closeList
  else invalidType "a sequence"

/-! ## Records -/

/-- Whether a field of a record has to be there. -/
inductive Presence where
  /-- It has to be there. -/
  | required
  /-- It may be missing, both from an object and from the end of a list. -/
  | defaulted
  /-- It may be missing from an object, but not from a list. -/
  | optional
  deriving DecidableEq, Repr

/-- A field of a record. Reading it gives the change it makes to the record, which starts out with
the defaults of the fields that may be missing. -/
structure Field (α : Type) where
  /-- Name of the field. -/
  name : String
  /-- Whether it has to be there. -/
  presence : Presence
  /-- Reads its value. -/
  read : Reader (α → α)

/-- A field that sets a part of a record. -/
def field {α β : Type} (name : String) (presence : Presence) (set : β → α → α) (value : Reader β) :
    Field α :=
  ⟨name, presence, set <$> value⟩

/-- The first field that has to be there and was not seen. -/
def missing? {α : Type} (fields : List (Field α)) (seen : List String) : Option String :=
  (fields.find? fun f => f.presence = .required && !seen.contains f.name).map Field.name

/-- Members up to the end of an object, and the names of the fields among them; the fuel bounds
their number. Unknown members are passed over. -/
def members {α : Type} (fields : List (Field α)) :
    (fuel : Nat) → (first : Bool) → (seen : List String) → (record : α) → Reader (List String × α)
  | 0, _, _, _ => failNext .endOfObject
  | fuel + 1, first, seen, record => do
    if ← nextMember first then
      let name ← quotedString
      match fields.find? (·.name = name) with
      | none =>
        colon
        skipValue
        members fields fuel false seen record
      | some f =>
        if seen.contains name then failUnplaced (.duplicateField name)
        colon
        let change ← f.read
        members fields fuel false (name :: seen) (change record)
    else return (seen, record)

/-- The contents of an object that holds a record. -/
def objectRecord {α : Type} (fields : List (Field α)) (blank : α) : Reader α := do
  let (seen, record) ← members fields (← enough) true [] blank
  match missing? fields seen with
  | some name => failUnplaced (.missingField name)
  | none => return record

/-- What a list of fields should have been. -/
def recordLength (expected : String) (size : Nat) : String :=
  expected ++ " with " ++ toString size ++ (if size = 1 then " element" else " elements")

/-- The contents of a list that holds a record: the fields from an index on. -/
def listRecord {α : Type} (expected : String) :
    (index : Nat) → (fields : List (Field α)) → (record : α) → Reader α
  | _, [], record => return record
  | index, f :: rest, record => do
    if ← nextItem (index = 0) then
      let change ← f.read
      listRecord expected (index + 1) rest (change record)
    else if f.presence = .defaulted then listRecord expected (index + 1) rest record
    else failUnplaced (.invalidLength index expected)

/-- A record: an object, or a list of the fields in order. -/
def record {α : Type} (levels : Nat) (expected : String) (blank : α)
    (fields : (inner : Nat) → inner < levels → List (Field α)) : Reader α := do
  match ← need with
  | '[' =>
    enclosed (opening levels fun inner bound =>
      let fields := fields inner bound
      listRecord (recordLength expected fields.length) 0 fields blank) closeList
  | '{' =>
    enclosed (opening levels fun inner bound => objectRecord (fields inner bound) blank) closeObject
  | _ => invalidType expected

/-! ## Choices -/

/-- The alternative a name stands for. -/
def alternative {τ : Type} (names : List (String × τ)) (name : String) : Reader τ :=
  match names.lookup name with
  | some tag => return tag
  | none => fail (.unknownVariant name (names.map Prod.fst))

/-- A choice between named alternatives: the bare name, or an object whose only member has the name
and carries the data of the alternative. -/
def choice {τ α : Type} (levels : Nat) (names : List (String × τ)) (bare : τ → Reader α)
    (data : (inner : Nat) → inner < levels → τ → Reader α) : Reader α := do
  match ← next with
  | some '{' =>
    opening levels fun inner bound => do
      match ← next with
      | some '}' => failNext .expectedValue
      | none => failNext .endOfObject
      | some _ => nextName
      let tag ← alternative names (← quotedString)
      colon
      let value ← data inner bound tag
      match ← next with
      | some '}' =>
        eat
        return value
      | some _ => fail .expectedValue
      | none => fail .endOfObject
  | some '"' => bare (← alternative names (← quotedString))
  | some _ => failNext .expectedValue
  | none => failNext .endOfValue

/-- A choice between alternatives that carry no data. -/
def enumeration {τ : Type} (levels : Nat) (names : List (String × τ)) : Reader τ :=
  choice levels names pure fun _ _ tag => do
    unit
    return tag

end Json

end PatchCompiler
