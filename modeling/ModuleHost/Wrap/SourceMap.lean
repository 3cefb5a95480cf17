import ModuleHost.Text.CharClass
import ModuleHost.Text.Trim

/-!
The reference to a source map that may stand in the last line of a module. `split` takes it off a
text and `attach` puts one on. Whether the line is a comment at all is for the reader of the module
to say.
-/

namespace ModuleHost.Wrap.SourceMap

open ModuleHost.Text

structure Split where
  body : List Char
  reference : Option (List Char)
  /-- Byte offset of the reference line; the length of the text if there is none. -/
  lineStart : Nat

def isLineBreak (c : Char) : Bool :=
  c = '\n' || c = '\r'

def trimLineBreaks (s : List Char) : List Char :=
  dropEndWhile isLineBreak s

def splitLastLine (s : List Char) : List Char × List Char :=
  -- only a line feed ends a line here
  let line := (s.reverse.takeWhile (· ≠ '\n')).reverse
  (s.take (s.length - line.length), line)

def label : List Char := "sourceMappingURL=".toList

/-- The value of a reference: at least one character, up to the white space at the end. -/
def value? : List Char → Option (List Char)
  | [] => none
  | c :: rest => some (c :: dropEndWhile isAsciiBlank rest)

def reference? : List Char → Option (List Char)
  | '/' :: '/' :: sign :: rest =>
    if sign = '#' || sign = '@' then
      (dropStart? label (rest.dropWhile isAsciiBlank)).bind value?
    else none
  | _ => none

def split (code : List Char) : Split :=
  let (before, line) := splitLastLine (trimLineBreaks code)
  match reference? line with
  | none => ⟨code, none, byteLength code⟩
  | some reference => ⟨trimLineBreaks before, some reference, byteLength before⟩

def attach (code : String) (reference : Option String) : String :=
  match reference with
  | none => code
  | some r =>
    let line := "//# sourceMappingURL=" ++ r
    if code.toList.getLast? = some '\n' then code ++ line else code ++ "\n" ++ line

end ModuleHost.Wrap.SourceMap
