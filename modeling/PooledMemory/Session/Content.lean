import PooledMemory.Boxed
import PooledMemory.Text.Quoted

namespace PooledMemory.Session

/-- What a box holds, as far as it is shown. -/
inductive Content
  /-- The number, as far as a signed word holds it. -/
  | number (value : Int)
  /-- The first and the last of many bytes, and the sum of all. -/
  | digest (first last sum : Nat)
  | text (value : String)
  deriving DecidableEq, Repr

namespace Content

/-- The content of a value, given the characters of all texts by their numbers. -/
def ofValue (texts : Array String) (value : Value) : Content :=
  match value.type with
  | .bytes count =>
    let sum := value.bytes.foldl (fun (sum : Nat) b => sum + b.toNat) 0
    .digest (value.byte 0).toNat (value.byte (count - 1)).toNat sum
  | .text => .text ((texts[value.number.toNat]?).getD "")
  | _ => .number (ValueType.int64.truncate value.number)

/-- A value in a box as it is written for debugging. -/
def debugText (texts : Array String) (value : Value) : String :=
  let content :=
    match value.type with
    | .unit => "()"
    | .bytes _ => "[" ++ ", ".intercalate (value.bytes.toList.map fun b => toString b.toNat) ++ "]"
    | .wide align => s!"A{align}({value.number})"
    | .counted => s!"Counted({value.number})"
    | .text => Text.quoted ((texts[value.number.toNat]?).getD "")
    | _ => toString value.number
  "PoolBox(" ++ content ++ ")"

end Content

end PooledMemory.Session
