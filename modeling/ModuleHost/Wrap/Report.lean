import ModuleHost.Json.Value
import ModuleHost.Wrap.Transform

/-!
Results of transforms as JSON values.
-/

namespace ModuleHost.Wrap

open ModuleHost.Json

def Diagnostic.toValue (d : Diagnostic) : Value :=
  .object
    [("code", .string d.code), ("message", .string d.message), ("specifier", .string d.specifier),
      ("modulePath", .string d.modulePath)]

def TransformError.toValue (e : TransformError) : Value :=
  .object [("code", .string e.code), ("message", .string e.message)]

end ModuleHost.Wrap
