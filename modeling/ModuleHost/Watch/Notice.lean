/-!
Notices about changes of files, and which of them matter to the outputs: those that tell of files that
have come, gone, been renamed or been written, and those that do not tell more.
-/

namespace ModuleHost.Watch

inductive Target where
  | any
  | file
  | folder
  | other
  deriving DecidableEq, Repr

inductive Modification where
  | any
  | data
  | metadata
  | name
  | other
  deriving DecidableEq, Repr

inductive Notice where
  | any
  | access
  | create (target : Target)
  | modify (modification : Modification)
  | remove (target : Target)
  | other
  deriving DecidableEq, Repr

def Notice.matters : Notice → Bool
  | .create target | .remove target => target = .file || target = .any
  | .modify modification => modification = .data || modification = .name || modification = .any
  | .any | .access | .other => false

end ModuleHost.Watch
