import ModuleHost.Syntax.Parse
import ModuleHost.Wrap.SourceMap
import ModuleHost.Wrap.Wrapper

/-!
The transform of one module: its text is read, its imports and exports are converted, the result is
wrapped, and a reference to a source map in the last line moves behind the wrapper. What looks like
a reference counts only if the reader of the module says that a comment starts there.
-/

namespace ModuleHost.Wrap

open ModuleHost.Syntax ModuleHost.Text

structure Output where
  code : String
  imports : List ImportRecord
  hasExports : Bool
  diagnostics : List Diagnostic

inductive TransformError where
  | parse (path : String) (refusal : Refusal)
  | emit (path : String) (fault : EmitFault)

namespace TransformError

def message : TransformError → String
  | .parse path r =>
    "Failed to parse " ++ path ++ " at " ++ toString r.position.line ++ ":" ++
      toString r.position.column ++ ": " ++ r.cause.message
  | .emit path fault => "Failed to emit " ++ path ++ ": " ++ fault.message

def code : TransformError → String
  | .parse .. => "TRANSFORM_PARSE_ERROR"
  | .emit .. => "TRANSFORM_EMIT_ERROR"

end TransformError

/-- The reference in the last line, provided that the line is a comment. -/
def confirmedReference (m : Module) (split : SourceMap.Split) : Option String :=
  if m.lineComments.contains split.lineStart then split.reference.map String.ofList else none

def transform (config : Config) (code path : String) :
    Except TransformError Output × List Log.Event :=
  match Module.parse code with
  | .error refusal => (.error (.parse path refusal), [])
  | .ok m =>
    -- the offset is one of the text as given, the comments are those of the text as read
    let split := SourceMap.split code.toList
    let reference := confirmedReference m split
    let bodyLength :=
      if reference.isSome then byteLength split.body else byteLength code.toList
    match convert config path bodyLength m with
    | (.error fault, events) => (.error (.emit path fault), events)
    | (.ok r, events) =>
      (.ok
        { code := SourceMap.attach (r.wrap config path) reference
          imports := r.imports
          hasExports := r.hasExports
          diagnostics := r.diagnostics },
        events ++
          [⟨.debug, "transformed module",
            [("path", .text path), ("imports", .count r.imports.length),
              ("has_exports", .flag r.hasExports)]⟩])

end ModuleHost.Wrap
