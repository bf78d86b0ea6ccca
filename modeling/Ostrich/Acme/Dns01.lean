import Ostrich.Lib.CutWalk

/-!
# DNS-01 answers (`ostrich-acme/src/validation.rs`)

What the validator reads from the answer section for `_acme-challenge.<domain>`: the chain of CNAME
records that starts at the query name, and the TXT records at the names of the chain.  The names are
those of the DNS library; the code compares them, and nothing else.
-/

namespace Ostrich.Acme.Dns01

variable {Name : Type*} [BEq Name]

/-- The longest chain of CNAME records that is followed. -/
def maxCnameChain : ℕ := 8

/-- The data of a record; a TXT record holds one or more character-strings. -/
inductive RData (Name : Type*) where
  | CNAME (target : Name)
  | TXT (txtData : List (List UInt8))
  | other

/-- A record of an answer section. -/
structure Record (Name : Type*) where
  name : Name
  data : RData Name

/-- Where the first CNAME record of `current` leads. -/
def nextCname (answers : List (Record Name)) (current : Name) : Option Name :=
  answers.findSome? fun record =>
    match record.data with
    | .CNAME target => if record.name == current then some target else none
    | _ => none

/-- Acceptable owner names: the query name, then each CNAME target in turn. -/
def cnameOwners (queryName : Name) (answers : List (Record Name)) : List Name :=
  CutWalk.walk (nextCname answers) maxCnameChain [queryName] queryName

/-- Whether a TXT answer section proves control of `queryName`. -/
def txtAnswersMatch (queryName : Name) (answers : List (Record Name)) (expected : List UInt8) :
    Bool :=
  let owners := cnameOwners queryName answers
  answers.any fun record =>
    match record.data with
    | .TXT txtData => owners.any (· == record.name) && txtData.flatten == expected
    | _ => false

end Ostrich.Acme.Dns01
