import IndexedQuery.Binary64.Decimal
import IndexedQuery.Text.Quoted
import IndexedQuery.Value

namespace IndexedQuery.Value

def text : Value → String
  | .null => "null"
  | .boolean true => "true"
  | .boolean false => "false"
  | .int64 n => n.toInt.repr
  | .float64 x => x.text
  | .string s => Text.quoted s
  | .dateTime ms => s!"datetime({ms.toInt.repr})"

end IndexedQuery.Value
