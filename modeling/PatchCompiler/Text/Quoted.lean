import PatchCompiler.Text.Shown

/-! # Quoted text

Text is quoted for a message between double quotes. Quotes and backslashes are escaped, a few
controls have short names, and every other character that cannot be shown appears by its number. -/

namespace PatchCompiler

namespace Text

/-- The number of a character in hexadecimal, between braces. -/
def numbered (c : Char) : List Char :=
  '\\' :: 'u' :: '{' :: (Nat.toDigits 16 c.toNat ++ ['}'])

/-- A character inside quotes. -/
def quotedChar (c : Char) : List Char :=
  match c with
  | '\x00' => ['\\', '0']
  | '\t' => ['\\', 't']
  | '\r' => ['\\', 'r']
  | '\n' => ['\\', 'n']
  | '"' => ['\\', '"']
  | '\\' => ['\\', '\\']
  | c => if isShown c then [c] else numbered c

/-- Text between quotes. -/
def quoted (text : String) : String :=
  String.ofList ('"' :: (text.toList.flatMap quotedChar ++ ['"']))

end Text

end PatchCompiler
