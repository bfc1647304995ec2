import SolText.Node.Basic

/-!
# Keywords of attributes

The words that stand for attributes of nodes in written code. What goes without saying has none.
-/

namespace SolText

/-- The keyword of a contract definition. -/
def ContractKind.keyword : ContractKind → String
  | contract => "contract"
  | interface => "interface"
  | library => "library"

/-- The keyword of a visibility. -/
def Visibility.keyword? : Visibility → Option String
  | unspecified => none
  | externally => some "external"
  | publicly => some "public"
  | internally => some "internal"
  | privately => some "private"

/-- The keyword of a mutability. -/
def Mutability.keyword? : Mutability → Option String
  | nonpayable => none
  | payable => some "payable"
  | view => some "view"
  | pure => some "pure"

/-- The keyword of a storage location. -/
def StorageLocation.keyword? : StorageLocation → Option String
  | unspecified => none
  | memory => some "memory"
  | storage => some "storage"
  | calldata => some "calldata"

end SolText
