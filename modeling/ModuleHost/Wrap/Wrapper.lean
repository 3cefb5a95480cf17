import ModuleHost.Wrap.Convert

/-!
The wrapper around a converted module: an asynchronous function, called at once, that declares the
object of exports, resolves the imports, runs the body, registers the exports and returns the module.
-/

namespace ModuleHost.Wrap

open ModuleHost.Text

def wrapperHead (config : Config) (path : String) : String :=
  "(async function() \x7b\n" ++
  "  const " ++ config.exportsIdent ++ " = \x7b\x7d;\n" ++
  "  const " ++ config.moduleIdent ++ " = " ++ inBraces ("exports: " ++ config.exportsIdent) ++
    ";\n" ++
  "  const " ++ config.importMetaIdent ++ " = " ++
    inBraces ("url: " ++ Json.quote path ++ ", hot: null") ++ ";\n\n"

def importSection (config : Config) (imports : List ImportRecord) : String :=
  String.join (imports.map fun r => r.statement config ++ "\n") ++
    (if imports.isEmpty then "" else "\n")

def registration (config : Config) (path : String) (hasExports : Bool) : String :=
  if hasExports then
    config.registerFn ++ "(" ++ Json.quote path ++ ", " ++ config.exportsIdent ++ ");\n"
  else ""

def Converted.wrap (config : Config) (path : String) (r : Converted) : String :=
  wrapperHead config path ++ importSection config r.imports ++
    String.ofList (trimEnd r.body.toList) ++ "\n\n" ++
    registration config path r.hasExports ++
    "  return " ++ config.moduleIdent ++ ";\n\x7d)();\n"

end ModuleHost.Wrap
