import ModuleHost.Syntax.Names

/-!
Templates: literal text with holes between backquotes. What a hole holds is up to the caller, since
values and types both have templates.
-/

namespace ModuleHost.Syntax.Read

def templateChunk (tagged : Bool) : Read Unit := do
  match ← required with
  | .chunk _ fault =>
    bump
    if let some f := fault then
      unless tagged do throw f
  | _ => unexpected "template token"

def templateParts (tagged : Bool) (hole : Read Unit) : Read Bool := do
  templateChunk tagged
  iterate (fun holes => do
    if ← is "`" then return .done holes
    expect holeOpen
    hole
    expect braceClose
    templateChunk tagged
    return .again true) false

def template (tagged : Bool) (hole : Read Unit) : Read Bool := do
  bump
  let holes ← templateParts tagged hole
  expect "`"
  return holes

end ModuleHost.Syntax.Read
