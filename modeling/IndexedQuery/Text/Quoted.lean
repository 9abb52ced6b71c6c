import IndexedQuery.Text.DefaultIgnorable
import IndexedQuery.Text.GraphemeExtend
import IndexedQuery.Text.Unprintable

namespace IndexedQuery.Text

/-- The voiced and the semi-voiced sound mark of halfwidth kana. They extend the grapheme before
them but are letters with a cell of their own. -/
def isHalfwidthSoundMark (c : Char) : Bool :=
  c = '\uff9e' || c = '\uff9f'

/-- Whether the character attaches itself to the one before it. -/
def attaches (c : Char) : Bool :=
  isGraphemeExtend c && !isHalfwidthSoundMark c

/-- Whether the character can be read in a text as it stands. -/
def isLegible (c : Char) : Bool :=
  isPrintable c && !isDefaultIgnorable c && !attaches c

def escapeCodePoint (c : Char) : List Char :=
  '\\' :: 'u' :: '\x7b' :: Nat.toDigits 16 c.toNat ++ ['\x7d']

def escapeChar (c : Char) : List Char :=
  match c with
  | '\x00' => ['\\', '0']
  | '\t' => ['\\', 't']
  | '\n' => ['\\', 'n']
  | '\r' => ['\\', 'r']
  | '"' => ['\\', '"']
  | '\\' => ['\\', '\\']
  | c => if isLegible c then [c] else escapeCodePoint c

/-- In double quotes, with an escape for every character that would not show, would attach itself to
its neighbour or would end the quotation. -/
def quoted (s : String) : String :=
  .ofList ('"' :: s.toList.flatMap escapeChar ++ ['"'])

end IndexedQuery.Text
