import FramedSasl.Numeral

/-! Documents as trees of null, scalars, sequences and maps, and the values that are read from
their nodes. A node that is not there is `none`. -/

namespace FramedSasl

inductive Tree where
  | null
  | scalar (bytes : Bytes)
  | sequence (items : List Tree)
  | map (entries : List (Bytes × Tree))

namespace Tree

/-- The value of a key of a map. -/
def get? (key : String) : Tree → Option Tree
  | map entries => entries.lookup (text key)
  | _ => none

def scalar? : Tree → Option Bytes
  | scalar bytes => some bytes
  | _ => none

/-- The texts of a sequence, or of a single scalar. Items of other kinds are passed over. -/
def texts : Option Tree → List Bytes
  | some (scalar bytes) => [bytes]
  | some (sequence items) => items.filterMap scalar?
  | _ => []

def text? (node : Option Tree) : Option Bytes := node.bind scalar?

end Tree

end FramedSasl
