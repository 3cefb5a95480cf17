/-!
The version of the program.
-/

namespace ModuleHost

def version : String := "0.2.0"

def versionText : String :=
  "esbridge " ++ version

end ModuleHost
