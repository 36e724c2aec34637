/-!
# Object identifiers

Catalog objects and columns are numbered.  Zero marks an identifier that is not resolved, and bit 31
marks identifiers of objects that live for one statement only.
-/

namespace SqlAnalysis

abbrev Oid := Nat

namespace Oid

def invalid : Oid := 0

def tempMark : Nat := 2147483648

def temp (serial : Nat) : Oid := serial ||| tempMark

def isValid (id : Oid) : Bool := id != invalid

def isTemp (id : Oid) : Bool := id &&& tempMark != 0

end Oid

end SqlAnalysis
