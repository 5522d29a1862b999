import Directives.Text.Printable
import Directives.Text.Combining

/-! Text in double quotes for messages. Every quoted text has one line and shows each character
either as itself or by an escape. -/
namespace Directives.Text

def codePointEscape (c : Char) : List Char :=
  "\\u\x7b".toList ++ Nat.toDigits 16 c.toNat ++ "\x7d".toList

def quoteChar (c : Char) : List Char :=
  match c with
  | '\t' => ['\\', 't']
  | '\r' => ['\\', 'r']
  | '\n' => ['\\', 'n']
  | '"' => ['\\', '"']
  | '\\' => ['\\', '\\']
  | '\x00' => ['\\', '0']
  | c => if isCombining c || !isPrintable c then codePointEscape c else [c]

/-- Text between double quotes, with the characters that would mislead a reader escaped. -/
def quoted (text : String) : String :=
  String.ofList ('"' :: (text.toList.flatMap quoteChar ++ ['"']))

end Directives.Text
