import OutcomeMarket.Binary64.Shortest
import OutcomeMarket.Data.Datum
import OutcomeMarket.Decimal.Text
import OutcomeMarket.TextMap
import OutcomeMarket.Time.Reader
import OutcomeMarket.Time.Text

/-! How values stand in documents. A decimal is written as a text, so that its scale is kept, and read
from a number as well. A record names its fields; a list stands for a record whose fields come in their
order. -/
namespace OutcomeMarket

/-- Types whose values can be written into a document. -/
class ToDatum (α : Type) where
  toDatum : α → Datum

/-- Types whose values can be read from a document. -/
class OfDatum (α : Type) where
  ofDatum? : Datum → Option α

export ToDatum (toDatum)
export OfDatum (ofDatum?)

instance : ToDatum Bool := ⟨.bool⟩

/-- Truth values and counts need no tag. -/
instance : OfDatum Bool where
  ofDatum? d := match d.bare with
    | .bool b => some b
    | _ => none

instance : ToDatum Nat := ⟨fun n => .int n⟩

/-- Counts are integers; a number with a fraction or an exponent is none, whatever its value. -/
instance : OfDatum Nat where
  ofDatum? d := match d.bare with
    | .int n => n.toNat?
    | _ => none

instance : ToDatum String := ⟨.text⟩

instance : OfDatum String where
  ofDatum?
    | .text s => some s
    | _ => none

instance : ToDatum Decimal := ⟨fun d => .text d.toText⟩

instance : OfDatum Decimal where
  ofDatum? d := match d.meant with
    | .text s => (Decimal.read s).toOption
    | .int n => Decimal.ofInt? n
    | .real negative x => Decimal.ofBinary64? negative x
    | _ => none

instance : ToDatum Instant := ⟨fun t => .text t.toText⟩

instance : OfDatum Instant where
  ofDatum?
    | .text s => Instant.read? s
    | _ => none

instance {α : Type} [ToDatum α] : ToDatum (Option α) where
  toDatum
    | some a => toDatum a
    | none => .null

instance {α : Type} [OfDatum α] : OfDatum (Option α) where
  ofDatum? d := match d.meant with
    | .null | .missing => some none
    | _ => some <$> ofDatum? d

instance {α : Type} [ToDatum α] : ToDatum (List α) := ⟨fun as => .list (as.map toDatum)⟩

instance {α : Type} [OfDatum α] : OfDatum (List α) where
  ofDatum?
    | .list ds => ds.mapM ofDatum?
    | _ => none

instance {α : Type} [ToDatum α] : ToDatum (TextMap α) where
  toDatum m := .record (m.entries.map fun e => (e.1, toDatum e.2))

/-- Of two entries with one key the later one counts. -/
instance {α : Type} [OfDatum α] : OfDatum (TextMap α) where
  ofDatum?
    | .record fields =>
      fields.foldlM (fun m f => do return m.insert f.1 (← ofDatum? f.2)) TextMap.empty
    | _ => none

namespace Datum

/-- A value out of a few that have names. The name may stand alone or be the key of nothing. -/
def named? {α : Type} (ofName? : String → Option α) : Datum → Option α
  | .text s => ofName? s
  | .record [(s, .null)] => ofName? s
  | _ => none

/-- The fields of a record with the given names, none of them twice. Other fields do not matter. What was
left empty is a record without fields. -/
def fields? (names : List String) (d : Datum) : Option (List (String × Datum)) :=
  match d.bare with
  | .missing => some []
  | .record fields =>
    let known := fields.filter fun f => names.contains f.1
    if (known.map Prod.fst).Nodup then some known else none
  | .list ds => if ds.length ≤ names.length then some (names.zip ds) else none
  | _ => none

/-- The value of a field that has to be there. -/
def field? {α : Type} [OfDatum α] (fields : List (String × Datum)) (name : String) : Option α := do
  ofDatum? (← fields.lookup name)

/-- The value of a field that may be left out. -/
def fieldD {α : Type} [OfDatum α] (fields : List (String × Datum)) (name : String) (default : α) :
    Option α :=
  match fields.lookup name with
  | some d => ofDatum? d
  | none => some default

end Datum
end OutcomeMarket
