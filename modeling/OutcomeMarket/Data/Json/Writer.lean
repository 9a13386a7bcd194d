import OutcomeMarket.Binary64.Shortest
import OutcomeMarket.Data.Datum
import OutcomeMarket.Data.Json.Text

/-! Writing JSON, without any space. -/
namespace OutcomeMarket
namespace Json

mutual

/-- A value on one line. What stands for no value is written as null. -/
def write : Datum → String
  | .null | .missing | .unreadable => "null"
  | .bool true => "true"
  | .bool false => "false"
  | .int n => toString n
  | .real negative x => String.ofList (Decimal.signChars negative ++ x.toChars)
  | .text s => writeText s
  | .list items => "[" ++ ",".intercalate (writeItems items) ++ "]"
  | .record fields => "\x7b" ++ ",".intercalate (writeFields fields) ++ "\x7d"
  | .tagged _ d => write d

def writeItems : List Datum → List String
  | [] => []
  | d :: ds => write d :: writeItems ds

def writeFields : List (String × Datum) → List String
  | [] => []
  | (key, d) :: fields => (writeText key ++ ":" ++ write d) :: writeFields fields

end

end Json
end OutcomeMarket
