/-!
What can be wrong with the text of a module. A fault pairs a cause with the byte offset it is
reported at, and `Cause.message` is the one place that words it.
-/

namespace ModuleHost.Syntax

inductive Cause where
  | endOfText
  | unexpectedCharacter (c : Char)
  | unterminatedString
  | unterminatedTemplate
  | unterminatedRegex
  | unterminatedComment
  | unterminatedElement
  | badEscape (expected : String)
  | invalidEscape
  | invalidUnicodeEscape
  | unicodeEscapeExpected
  | invalidNameCharacter
  | escapedReservedWord (word : String)
  | loneSeparator
  | digitExpected (radix : Nat)
  | exponentExpected
  | identifierAfterNumber
  | legacyOctalNumber
  | legacyOctalEscape
  | legacyDecimal
  | legacyComment
  | conflictMarker
  | textNeedsEscape (spellings : String)
  | expected (token got : String)
  | unexpected (got expected : String)
  | expressionExpected
  | identifierExpected
  | nameExpected
  | semicolonExpected
  | statementEndExpected
  | trailingComma
  | commaAfterRest
  | reservedName (name : String)
  | reservedImport
  | reservedShorthand
  | awaitAsName
  | awaitOutsideAsync
  | awaitInParameters
  | awaitStar
  | awaitOutsideForOf
  | yieldInParameters
  | restrictedBinding
  | restrictedUse
  | missingSource (name : String)
  | stringExportWithoutSource
  | stringImport (name : String)
  | typeOnlyImportTwice
  | typeOnlyExportTwice
  | nestedImportOrExport
  | decoratorsTwice
  | exportAfterDecorators
  | constWithoutValue
  | patternWithoutValue
  | emptyDeclarationList
  | notAPattern
  | notAssignable
  | invalidTarget
  | targetNotAssignable
  | misplacedRest
  | restParameterNotLast
  | restWithoutName
  | restWithDefault
  | optionalRest
  | optionalWithDefault
  | optionalPattern
  | defaultWithoutBody
  | misplacedParameterProperty
  | shorthandValue
  | optionalMember
  | accessorModifier
  | emptyParentheses
  | spreadInParentheses
  | lineBreakBeforeArrow
  | arrowNotAllowed
  | powerOfUnary
  | mixedCoalescing
  | deleteName
  | deleteOperand
  | newTargetOutside
  | constructorOptionalChain
  | taggedOptionalChain
  | invalidSuper
  | invalidSuperCall
  | invalidImport
  | nonNullOf (name : String)
  | spaceAfterHash
  | unknownRegexFlags
  | repeatedRegexFlag (flag : Char)
  | withStatement
  | returnOutside
  | breakOutside
  | breakLabel
  | continueOutside
  | continueLabel
  | repeatedLabel (name : String)
  | labelledFunction
  | labelledGenerator
  | declarationNotAllowed
  | lineBreakAfterThrow
  | secondDefaultCase
  | manyLoopVariables
  | loopVariableValue
  | loopVariableType
  | loopPattern
  | usingNotAllowed
  | usingPattern
  | usingWithoutValue
  | usingInForIn
  | strictDirective
  | secondConstructor
  | constructorAccessor
  | constructorGenerator
  | constructorAsync
  | constructorProperty
  | constructorReturnType
  | privateConstructor
  | staticPrototype
  | readonlyMethod
  | readonlyAccessor
  | getterParameters
  | setterParameters
  | setterParameterMissing
  | setterRest
  | overrideWithoutBase
  | repeatedModifier (word : String)
  | modifierOrder (first second : String)
  | modifierClash (first second : String)
  | modifierOnConstructor (word : String)
  | modifierOnBlock
  | modifierOnPrivate
  | modifierOnParameter (word : String)
  | varianceModifier (word : String)
  | constModifier (word : String)
  | declareMethod
  | abstractBody
  | abstractInterface
  | bodyInDeclaration
  | secondExtends
  | extendsAfterImplements
  | secondImplements
  | heritageNotAName
  | className
  | interfaceName
  | emptyTypeArguments
  | emptyTypeParameters
  | indexParameterCount
  | privateInInterface
  | numericEnumMember
  | computedEnumMember
  | commaInComputedKey
  | requiredAfterOptional
  | importTypeArgument
  | emptyAttribute
  | attributeValue
  | closingTag (name : String)
  | closingFragment
  | depthExceeded
  deriving DecidableEq

def Cause.message : Cause → String
  | .endOfText => "Unexpected eof"
  | .unexpectedCharacter c => "Unexpected character '" ++ c.toString ++ "'"
  | .unterminatedString => "Unterminated string constant"
  | .unterminatedTemplate => "Unterminated template"
  | .unterminatedRegex => "Unterminated regexp literal"
  | .unterminatedComment => "Unterminated block comment"
  | .unterminatedElement => "Unterminated JSX contents"
  | .badEscape e => "Bad character escape sequence, expected " ++ e
  | .invalidEscape => "Invalid string escape"
  | .invalidUnicodeEscape => "Invalid unicode escape"
  | .unicodeEscapeExpected => "Expected unicode escape"
  | .invalidNameCharacter => "Invalid character in identifier"
  | .escapedReservedWord w => "Unexpected escape sequence in reserved word: " ++ w
  | .loneSeparator => "A numeric separator is only allowed between two digits"
  | .digitExpected 2 => "Expected a binary digit"
  | .digitExpected 8 => "Expected an octal digit"
  | .digitExpected 16 => "Expected a hexadecimal digit"
  | .digitExpected _ => "Expected a decimal digit"
  | .exponentExpected => "Expected +, - or decimal digit after e"
  | .identifierAfterNumber => "Identifier cannot follow number"
  | .legacyOctalNumber =>
    "Legacy octal literals are not available when targeting ECMAScript 5 and higher"
  | .legacyOctalEscape => "Legacy octal escape is not permitted in strict mode"
  | .legacyDecimal => "Legacy decimal escape is not permitted in strict mode"
  | .legacyComment => "Legacy comments cannot be used in module code"
  | .conflictMarker => "Merge conflict marker encountered."
  | .textNeedsEscape s => "Unexpected token. Did you mean " ++ s ++ "?"
  | .expected t got => "Expected '" ++ t ++ "', got '" ++ got ++ "'"
  | .unexpected got e => "Unexpected token `" ++ got ++ "`. Expected " ++ e
  | .expressionExpected => "Expression expected"
  | .identifierExpected => "Expected ident"
  | .nameExpected => "Expected an identifier"
  | .semicolonExpected => "Expected a semicolon"
  | .statementEndExpected => "Expected ';', '\x7d' or <eof>"
  | .trailingComma => "Trailing comma is not allowed"
  | .commaAfterRest => "Trailing comma isn't permitted after a rest element"
  | .reservedName n => "`" ++ n ++ "` cannot be used as an identifier in strict mode"
  | .reservedImport => "cannot import as reserved word"
  | .reservedShorthand => "Cannot use a reserved word as a shorthand property"
  | .awaitAsName => "`await` cannot be used as an identifier in an async context"
  | .awaitOutsideAsync => "await isn't allowed in non-async function"
  | .awaitInParameters => "`await` expressions cannot be used in a parameter initializer"
  | .awaitStar =>
    "await* has been removed from the async functions proposal. Use Promise.all() instead."
  | .awaitOutsideForOf => "for await syntax is valid only for for-of statement"
  | .yieldInParameters => "'yield' cannot be used within generator parameters"
  | .restrictedBinding =>
    "'eval' and 'arguments' cannot be used as a binding identifier in strict mode"
  | .restrictedUse => "Invalid use of 'arguments' in strict mode"
  | .missingSource n => "`" ++ n ++ "` cannot be used without `from` clause"
  | .stringExportWithoutSource =>
    "A string literal cannot be used as an exported binding without `from`."
  | .stringImport n =>
    "A string literal cannot be used as an imported binding.\n- Did you mean `import \x7b \"" ++
      n ++ "\" as foo \x7d`?"
  | .typeOnlyImportTwice =>
    "The 'type' modifier cannot be used on a named import when 'import type' is used on its import statement."
  | .typeOnlyExportTwice =>
    "The 'type' modifier cannot be used on a named export when 'export type' is used on its export statement."
  | .nestedImportOrExport => "'import', and 'export' cannot be used outside of module code"
  | .decoratorsTwice =>
    "Decorators may not appear after `export` or `export default` if they also appear before `export`."
  | .exportAfterDecorators => "`export` is not allowed here"
  | .constWithoutValue => "'const' declarations must be initialized"
  | .patternWithoutValue => "Destructuring bindings require initializers"
  | .emptyDeclarationList => "Variable declaration list cannot be empty"
  | .notAPattern => "Not a pattern"
  | .notAssignable => "Cannot assign to this"
  | .invalidTarget => "Invalid assignment target"
  | .targetNotAssignable =>
    "The left-hand side of an assignment expression must be a variable or a property access."
  | .misplacedRest => "Rest element must be final element"
  | .restParameterNotLast => "A rest parameter must be last in a parameter list"
  | .restWithoutName => "`...` must be followed by an identifier in declaration contexts"
  | .restWithDefault => "A rest parameter cannot have an initializer"
  | .optionalRest => "A rest parameter cannot be optional"
  | .optionalWithDefault => "Parameter cannot have question mark and initializer"
  | .optionalPattern =>
    "A binding pattern parameter cannot be optional in an implementation signature."
  | .defaultWithoutBody =>
    "A parameter initializer is only allowed in a function or constructor implementation"
  | .misplacedParameterProperty =>
    "A parameter property is only allowed in a constructor implementation"
  | .shorthandValue => "assignment property is invalid syntax"
  | .optionalMember => "An object member cannot be declared optional"
  | .accessorModifier => "Modifiers cannot be used here"
  | .emptyParentheses => "Parenthesized expression cannot be empty"
  | .spreadInParentheses => "Parenthesized expression cannot contain spread operator"
  | .lineBreakBeforeArrow => "Unexpected line break between arrow head and arrow"
  | .arrowNotAllowed => "Arrow function is not allowed here"
  | .powerOfUnary => "** cannot be applied to unary expression"
  | .mixedCoalescing =>
    "Nullish coalescing operator(??) requires parens when mixing with logical operators"
  | .deleteName => "'delete' cannot be called on an identifier in strict mode"
  | .deleteOperand => "The operand of a 'delete' operator must be a property reference."
  | .newTargetOutside =>
    "'new.target' is only allowed in the body of a function declaration, function expression, or class."
  | .constructorOptionalChain => "Constructor in/after an optional chaining is not allowed."
  | .taggedOptionalChain => "Tagged template literal is not allowed in optional chain"
  | .invalidSuper => "Invalid access to super"
  | .invalidSuperCall => "Invalid `super()`"
  | .invalidImport => "Import is not allowed here"
  | .nonNullOf n => "Typescript non-null assertion operator is not allowed with '" ++ n ++ "'"
  | .spaceAfterHash => "Unexpected space between # and identifier"
  | .unknownRegexFlags => "Unknown regular expression flags."
  | .repeatedRegexFlag f => "Duplicated regular expression flag '" ++ f.toString ++ "'."
  | .withStatement =>
    "The 'with' statement is not supported. All symbols in a 'with' block will have type 'any'."
  | .returnOutside => "Return statement is not allowed here"
  | .breakOutside =>
    "A `break` statement can only be used within an enclosing iteration or switch statement"
  | .breakLabel => "A `break` statement can only jump to a label of an enclosing statement"
  | .continueOutside =>
    "A `continue` statement can only target a label of an enclosing iteration statement"
  | .continueLabel => "Jump target cannot cross function boundary"
  | .repeatedLabel n => "Label " ++ n ++ " is already declared"
  | .labelledFunction => "Function cannot be labelled in strict mode"
  | .labelledGenerator => "Generator or async function cannot be labelled"
  | .declarationNotAllowed => "Declaration is not allowed"
  | .lineBreakAfterThrow => "LineBreak cannot follow 'throw'"
  | .secondDefaultCase => "A switch block cannot have multiple defaults"
  | .manyLoopVariables => "Expected one variable binding"
  | .loopVariableValue => "Unexpected initializer in for in/of loop"
  | .loopVariableType =>
    "The left-hand side of a 'for...of' statement cannot use a type annotation"
  | .loopPattern => "The left-hand side of a 'for...in' statement cannot be a destructuring pattern"
  | .usingNotAllowed => "Using declaration is not allowed here"
  | .usingPattern => "Using declaration only allows identifiers"
  | .usingWithoutValue => "Using declaration requires initializer"
  | .usingInForIn => "Using declaration is not allowed in for-in loop"
  | .strictDirective =>
    "Illegal 'use strict' directive in function with non-simple parameter list."
  | .secondConstructor => "A class can only have one constructor"
  | .constructorAccessor => "Class constructor can't be an accessor."
  | .constructorGenerator => "Constructor can't be a generator"
  | .constructorAsync => "Constructor can't be an async function"
  | .constructorProperty => "Classes may not have a non-static field named 'constructor'"
  | .constructorReturnType => "Type annotation cannot appear on a constructor declaration"
  | .privateConstructor => "Classes can't have an element named '#constructor'"
  | .staticPrototype => "Classes may not have static property named 'prototype'"
  | .readonlyMethod => "A method cannot be readonly"
  | .readonlyAccessor => "A getter or a setter cannot be readonly"
  | .getterParameters => "A `get` accessor cannot have parameters"
  | .setterParameters => "A `set` accessor must have exactly one parameter"
  | .setterParameterMissing => "A `set` accessor should have exactly one parameter"
  | .setterRest => "Rest pattern is not allowed in setter"
  | .overrideWithoutBase =>
    "This member cannot have an 'override' modifier because its containing class does not extend another class."
  | .repeatedModifier w => "'" ++ w ++ "' modifier already seen."
  | .modifierOrder a b => "'" ++ a ++ "' modifier must precede '" ++ b ++ "' modifier."
  | .modifierClash a b => "'" ++ a ++ "' modifier cannot be used with '" ++ b ++ "' modifier."
  | .modifierOnConstructor w =>
    "'" ++ w ++ "' modifier cannot appear on a constructor declaration"
  | .modifierOnBlock => "Modifiers cannot appear here"
  | .modifierOnPrivate => "An accessibility modifier cannot be used with a private identifier."
  | .modifierOnParameter w => "'" ++ w ++ "' modifier cannot appear on a type parameter"
  | .varianceModifier w =>
    "'" ++ w ++ "' modifier can only appear on a type parameter of a class, interface or type alias"
  | .constModifier w =>
    "'" ++ w ++ "' modifier can only appear on a type parameter of a function, method or class"
  | .declareMethod => "`declare` modifier cannot appear on class elements of this kind"
  | .abstractBody => "An abstract method cannot have an implementation"
  | .abstractInterface => "`abstract` modifier can only appear on a class, method, or property declaration."
  | .bodyInDeclaration => "An implementation cannot be declared in ambient contexts"
  | .secondExtends => "`extends` clause already seen."
  | .extendsAfterImplements => "'extends' clause must precede 'implements' clause."
  | .secondImplements => "'implements' clause already seen."
  | .heritageNotAName =>
    "An interface can only extend an identifier/qualified-name with optional type arguments."
  | .className => "Invalid class name"
  | .interfaceName => "interface name is invalid"
  | .emptyTypeArguments => "Type argument list cannot be empty."
  | .emptyTypeParameters => "Type parameter list cannot be empty"
  | .indexParameterCount => "An index signature must have exactly one parameter"
  | .privateInInterface => "private names are not allowed in interface"
  | .numericEnumMember => "An enum member cannot have a numeric name"
  | .computedEnumMember => "Computed property names are not allowed in enums"
  | .commaInComputedKey => "A comma expression is not allowed in a computed property name"
  | .requiredAfterOptional => "A required element cannot follow an optional element."
  | .importTypeArgument => "Argument in an import type must be a string literal"
  | .emptyAttribute => "JSX attributes must only be assigned a non-empty expression"
  | .attributeValue =>
    "JSX value should be either an expression or a quoted JSX text"
  | .closingTag n => "Expected corresponding JSX closing tag for <" ++ n ++ ">"
  | .closingFragment => "Expected corresponding closing tag for JSX fragment"
  | .depthExceeded => "Nesting is too deep"

structure Fault where
  offset : Nat
  cause : Cause
  deriving DecidableEq

end ModuleHost.Syntax
