import SolText.Forest.Basic
import SolText.Version
import SolText.Yul.Error

/-!
# Problems with writing
-/

namespace SolText

/-- Why a node could not be written. -/
inductive WriteError where
  /-- There is no rule for the kind. -/
  | noRule (kind : Kind) (dump : String)
  /-- The rule of one kind was given a node of another. -/
  | wrongKind (expected found : Kind) (dump : String)
  /-- The target has no spelling for the node. -/
  | unavailable (kind : Kind) (target : Version) (dump : String)
  /-- A rule writes a node inside itself. -/
  | endless (handle : Handle)
  | yul (error : Yul.Error)
  | forest (error : ForestError)
  deriving DecidableEq

/-- The wording of a problem with writing. -/
def WriteError.message : WriteError → String
  | noRule kind dump => "Unable to find writer for " ++ kind.name ++ " node:\n" ++ dump
  | wrongKind expected found dump =>
    "Writer for " ++ expected.name ++ " was handed a " ++ found.name ++ " node:\n" ++ dump
  | unavailable kind target dump =>
    kind.name ++ " is not available when targeting Solidity " ++ target.text ++ ":\n" ++ dump
  | endless handle => "Node " ++ handle.text ++ " is written inside itself"
  | yul error => error.message
  | forest error => error.message

end SolText
