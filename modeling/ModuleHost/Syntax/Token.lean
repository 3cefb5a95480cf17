import ModuleHost.Syntax.Fault

/-!
The words, marks and literals that program text is made of. Punctuation and operators are kept by
their spelling; `Token.text` is the spelling that messages quote.
-/

namespace ModuleHost.Syntax

def braceOpen : String := "\x7b"

def braceClose : String := "\x7d"

def holeOpen : String := "$\x7b"

inductive Token where
  | word (text : String)
  | mark (text : String)
  | string (value raw : String)
  | number (value raw : String)
  | bigInt (value raw : String)
  | regex (body flags : String)
  /-- Literal text of a template; the fault of a bad escape in it counts only without a tag. -/
  | chunk (raw : String) (fault : Option Fault)
  | tagName (name : String)
  | elementText (raw : String)
  | tagOpen
  | tagEnd
  | shebang
  | bad (fault : Fault)
  deriving DecidableEq

def Token.text : Token → String
  | .word t => t
  | .mark t => t
  | .string v raw => "string literal (" ++ v ++ ", " ++ raw ++ ")"
  | .number v raw => "numeric literal (" ++ v ++ ", " ++ raw ++ ")"
  | .bigInt v raw => "bigint literal (" ++ v ++ ", " ++ raw ++ ")"
  | .regex b f => "regexp literal (" ++ b ++ ", " ++ f ++ ")"
  | .chunk raw _ => "template token (" ++ raw ++ ")"
  | .tagName n => "jsx name (" ++ n ++ ")"
  | .elementText raw => "jsx text (" ++ raw ++ ")"
  | .tagOpen => "< (jsx tag start)"
  | .tagEnd => "> (jsx tag end)"
  | .shebang => "#!"
  | .bad f => "<lexing error: " ++ f.cause.message ++ ">"

def Token.spells (text : String) : Token → Bool
  | .word t | .mark t => t == text
  | _ => false

def keywords : List String :=
  ["await", "break", "case", "catch", "continue", "debugger", "default", "do", "else", "finally",
    "for", "function", "if", "return", "switch", "throw", "try", "var", "let", "const", "while",
    "with", "new", "this", "super", "class", "extends", "export", "import", "yield", "in",
    "instanceof", "typeof", "void", "delete"]

def reservedWords : List String :=
  ["let", "await", "yield", "null", "true", "false", "break", "case", "catch", "continue",
    "debugger", "default", "do", "export", "else", "finally", "for", "function", "if", "return",
    "switch", "throw", "try", "var", "const", "while", "with", "new", "this", "super", "class",
    "extends", "import", "in", "instanceof", "typeof", "void", "delete", "enum", "implements",
    "package", "protected", "interface", "private", "public"]

def isReserved (word : String) : Bool :=
  reservedWords.contains word

def isKeyword (word : String) : Bool :=
  keywords.contains word

/-- Names that module code may read but not bind. -/
def isRestricted (name : String) : Bool :=
  name == "eval" || name == "arguments"

def binaryPrecedence? : String → Option Nat
  | "??" | "||" => some 1
  | "&&" => some 2
  | "|" => some 3
  | "^" => some 4
  | "&" => some 5
  | "==" | "!=" | "===" | "!==" => some 6
  | "<" | ">" | "<=" | ">=" => some 7
  | "<<" | ">>" | ">>>" => some 8
  | "+" | "-" => some 9
  | "*" | "/" | "%" => some 10
  | "**" => some 11
  | _ => none

def isAssignment (mark : String) : Bool :=
  ["=", "+=", "-=", "*=", "/=", "%=", "**=", "<<=", ">>=", ">>>=", "&=", "|=", "^=", "&&=", "||=",
    "??="].contains mark

def Token.binaryPrecedence? : Token → Option Nat
  | .mark t => Syntax.binaryPrecedence? t
  | _ => none

def Token.isWord : Token → Bool
  | .word _ => true
  | _ => false

def Token.isKeyword : Token → Bool
  | .word t => Syntax.isKeyword t
  | _ => false

def Token.isName : Token → Bool
  | .word t => !isReserved t
  | _ => false

def Token.isAssignment : Token → Bool
  | .mark t => Syntax.isAssignment t
  | _ => false

/-- After these tokens the text goes on with an operand, not with an operator. -/
def Token.precedesOperand : Token → Bool
  | .word t =>
    ["await", "case", "default", "do", "else", "return", "throw", "new", "extends", "yield", "in",
      "instanceof", "typeof", "void", "delete"].contains t
  | .mark t =>
    !(["#", ".", ")", "]", braceClose, "`", "++", "--"].contains t)
  | .elementText _ => true
  | _ => false

def Token.startsOperand : Token → Bool
  | .word t =>
    !Syntax.isKeyword t || ["await", "function", "throw", "new", "this", "super", "class", "import",
      "yield", "typeof", "void", "delete"].contains t
  | .mark t =>
    ["!", "(", "[", braceOpen, "`", holeOpen, "++", "--", "~", "+", "-", "/", "<", "%"].contains t
  | .string .. | .number .. | .bigInt .. | .regex .. | .tagOpen => true
  | _ => false

end ModuleHost.Syntax
