import PatchCompiler.Json.Number
import PatchCompiler.Json.Text

/-! # Values nobody wants

The value of an unknown member is checked and passed over. Its containers may nest to any depth: the
brackets that are still open are kept in a list. -/

namespace PatchCompiler

namespace Json

/-- A kind of container. -/
inductive Bracket where
  /-- A list. -/
  | list
  /-- An object. -/
  | object
  deriving DecidableEq, Repr

namespace Bracket

/-- The character that ends a container. -/
def close : Bracket → Char
  | .list => ']'
  | .object => '}'

/-- The text ends inside a container. -/
def atEnd : Bracket → Problem
  | .list => .endOfList
  | .object => .endOfObject

/-- A container goes on without a comma. -/
def noComma : Bracket → Problem
  | .list => .expectedListEnd
  | .object => .expectedObjectEnd

/-- Pass over the name of a member and its colon, if the container is an object. -/
def skipName : Bracket → Reader Unit
  | .list => return
  | .object => do
    match ← next with
    | some '"' =>
      skipString
      colon
    | some _ => failNext .keyNotString
    | none => failNext .endOfObject

end Bracket

/-- After a value: close as many containers as end here. Gives the containers left when another
value follows in the innermost one, and nothing when all are closed. -/
def skipEnds : List Bracket → Reader (Option (List Bracket))
  | [] => return none
  | bracket :: outer => do
    match ← next with
    | none => failNext bracket.atEnd
    | some c =>
      if c = ',' then
        eat
        bracket.skipName
        return some (bracket :: outer)
      else if c = bracket.close then
        eat
        skipEnds outer
      else failNext bracket.noComma

/-- After an opening bracket: the containers left when a value follows, and nothing when all are
closed. -/
def skipOpened (bracket : Bracket) (outer : List Bracket) : Reader (Option (List Bracket)) := do
  eat
  match ← next with
  | none => failNext bracket.atEnd
  | some c =>
    if c = bracket.close then
      eat
      skipEnds outer
    else
      bracket.skipName
      return some (bracket :: outer)

/-- Pass over a value inside open containers, up to the next value or the end of all containers. -/
def skipStep (outer : List Bracket) : Reader (Option (List Bracket)) := do
  let c ← need
  match c with
  | 'n' =>
    literal "null"
    skipEnds outer
  | 't' =>
    literal "true"
    skipEnds outer
  | 'f' =>
    literal "false"
    skipEnds outer
  | '"' =>
    skipString
    skipEnds outer
  | '[' => skipOpened .list outer
  | '{' => skipOpened .object outer
  | c =>
    if beginsNumber c then
      skipNumber
      skipEnds outer
    else failNext .expectedValue

/-- Pass over values until all containers are closed; the fuel bounds their number. -/
def skipAll : (fuel : Nat) → List Bracket → Reader Unit
  | 0, _ => failNext .endOfValue
  | fuel + 1, outer => do
    match ← skipStep outer with
    | some outer => skipAll fuel outer
    | none => return

/-- Pass over a value. -/
def skipValue : Reader Unit := do skipAll (← enough) []

end Json

end PatchCompiler
