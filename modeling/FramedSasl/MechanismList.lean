import FramedSasl.Bytes

/-! Lists of mechanism names: no name is empty and none comes twice. -/

namespace FramedSasl

inductive NameFlaw where
  | empty
  | duplicate (name : Bytes)
  deriving DecidableEq

/-- The first flaw of a list of names behind those in `seen`. -/
def nameFlawAfter? (seen : List Bytes) : List Bytes → Option NameFlaw
  | [] => none
  | name :: rest =>
    if name = [] then some .empty
    else if name ∈ seen then some (.duplicate name)
    else nameFlawAfter? (name :: seen) rest

def nameFlaw? (names : List Bytes) : Option NameFlaw := nameFlawAfter? [] names

end FramedSasl
