import WebModules.Script.Name

/-!
What can be wrong with a script.  A `Complaint` is the kind of the error; a `Fault` is a complaint
about a place of a text.  The wording is given by `Fault.message` alone.
-/

namespace WebModules.Script

inductive Complaint
  -- about characters
  | unexpectedCharacter (c : Char)
  | unterminatedString | unterminatedRegex | unterminatedTemplate | unterminatedComment
  | invalidStringEscape | badEscape (wanted : String) | invalidUnicodeEscape
  | legacyOctalEscape | legacyOctalNumber | legacyDecimal
  | unicodeEscapeExpected | invalidNameCharacter | escapedReservedWord (word : String)
  | nameAfterNumber | digitExpected (radix : Nat) | exponentExpected | misplacedSeparator
  | legacyComment | conflictMarker
  | duplicateRegexFlag (flag : Char) | unknownRegexFlags
  -- about tokens
  | expected (token : String)
  | unexpected (wanted : String)
  | endOfText | expressionExpected | nameExpected | typeNameExpected
  | statementNotEnded | semicolonExpected
  | tooDeep
  -- about names
  | notInStrictCode (name : String) | awaitAsName | unbindable
  | reservedShorthand | argumentsInField | spaceAfterHash | voidProperty
  -- about modules
  | importNotHere | nestedModuleItem | reservedImport | stringImport | stringExport
  | exportWithoutSource (name : String) | metaOnly
  | typeModifierOnTypeImport | typeModifierOnTypeExport
  -- about statements
  | constWithoutValue | patternWithoutValue | trailingComma
  | returnOutside | breakOutside | breakToNowhere | continueToNowhere | labelOutOfReach
  | duplicateLabel (name : String) | labelledFunction | labelledAsync
  | withStatement | declarationNotHere | lineBreakAfterThrow | duplicateDefault
  | severalLoopVariables | loopInitializer | loopVariableTyped | loopPattern | loopWithoutVariables
  | awaitOutsideForOf | asyncLoopTarget
  -- about expressions
  | invalidTarget | notAssignable | initializedShorthand | notAPattern
  | lineBreakBeforeArrow | arrowNotHere | emptyParens | spreadInParens | notAnExpression
  | mixedCoalescing | powerOfUnary | deleteOfName | deleteOfNonProperty
  | awaitOutsideAsync | awaitStar | awaitInParameters | yieldInParameters
  | newTargetOutside | optionalConstructor | optionalTemplate | superCallOptional
  | superNotHere | superCallNotHere | nonNullNotHere (what : String)
  -- about functions and their parameters
  | restNotLast | restElementNotLast | commaAfterRest | restInitializer | restOptional
  | restWithoutName | optionalWithInitializer | optionalPattern | annotationAfterInitializer
  | propertyOutsideConstructor | initializerWithoutBody | strictDirective
  | bodyInDeclaration | invalidParameterProperty
  -- about classes and objects
  | duplicateConstructor | generatorConstructor | asyncConstructor | privateConstructor
  | constructorField | constructorAccessor
  | getterParameter | setterParameter | restInSetter
  | invalidClassName | secondExtends | extendsAfterImplements | secondImplements | severalBases
  | repeatedModifier (name : String) | modifierOrder (first second : String)
  | modifierClash (first second : String) | overrideWithoutBase | modifierNotHere
  | declareOnMethod | modifierOnConstructor (name : String) | typeParametersOnConstructor
  | emptyTypeParameters | resultOfConstructor | abstractConstructor
  | readonlyMethod | readonlyAccessor | privateModifier (name : String) | accessOnPrivate
  | abstractInitializer | abstractBody | optionalMember | modifierOnAccessor
  | computedSequence | nestedDeclare
  -- about types
  | interfaceName | interfaceBase | severalIndexParameters | privateInInterface
  | importTypeArgument | numericEnumMember | computedEnumMember
  | requiredAfterOptional | setterWithoutParameter
  | typeParameterModifier (name : String) | varianceNotHere (name : String)
  | constTypeParameter
  deriving DecidableEq, Repr, Inhabited

/-- A complaint about the character at byte `pos` of a text.  `got` is the token that stood there,
as it is written, for the complaints that mention it. -/
structure Fault where
  complaint : Complaint
  pos : Nat
  got : String := ""
  deriving DecidableEq, Repr, Inhabited

/-- The hexadecimal digits of `n`, without leading zeros. -/
def hexDigits (n : Nat) : String := String.ofList (Nat.toDigits 16 n)

/-- Characters that are shown by their number: controls, and the invisible marks of a text. -/
def isHidden (c : Char) : Bool :=
  let n := c.toNat
  n < 32 || (127 ≤ n && n < 160) || n == 0xad || (0x200b ≤ n && n ≤ 0x200f)
    || (0x2028 ≤ n && n ≤ 0x202e) || (0x2060 ≤ n && n ≤ 0x206f) || n == 0xfeff
    || (0xe000 ≤ n && n ≤ 0xf8ff) || (0xfff0 ≤ n && n ≤ 0xfffb)

/-- A character between single quotes, escaped where it could not be seen. -/
def quotedChar (c : Char) : String :=
  let body :=
    if c == '\x00' then "\\0"
    else if c == '\t' then "\\t"
    else if c == '\n' then "\\n"
    else if c == '\r' then "\\r"
    else if c == '\'' then "\\'"
    else if c == '\\' then "\\\\"
    else if isHidden c then "\\u\x7b" ++ hexDigits c.toNat ++ "\x7d"
    else c.toString
  "'" ++ body ++ "'"

namespace Complaint

def message (got : String) : Complaint → String
  | unexpectedCharacter c => "Unexpected character " ++ quotedChar c
  | unterminatedString => "Unterminated string constant"
  | unterminatedRegex => "Unterminated regexp literal"
  | unterminatedTemplate => "Unterminated template"
  | unterminatedComment => "Unterminated block comment"
  | invalidStringEscape => "Invalid string escape"
  | badEscape wanted => "Bad character escape sequence, expected " ++ wanted
  | invalidUnicodeEscape => "Invalid unicode escape"
  | legacyOctalEscape => "Legacy octal escape is not permitted in strict mode"
  | legacyOctalNumber =>
    "Legacy octal literals are not available when targeting ECMAScript 5 and higher"
  | legacyDecimal => "Legacy decimal escape is not permitted in strict mode"
  | unicodeEscapeExpected => "Expected unicode escape"
  | invalidNameCharacter => "Invalid character in identifier"
  | escapedReservedWord word => "Unexpected escape sequence in reserved word: " ++ word
  | nameAfterNumber => "Identifier cannot follow number"
  | digitExpected 2 => "Expected a binary digit"
  | digitExpected 8 => "Expected an octal digit"
  | digitExpected 16 => "Expected a hexadecimal digit"
  | digitExpected _ => "Expected a decimal digit"
  | exponentExpected => "Expected +, - or decimal digit after e"
  | misplacedSeparator => "A numeric separator is only allowed between two digits"
  | legacyComment => "Legacy comments cannot be used in module code"
  | conflictMarker => "Merge conflict marker encountered."
  | duplicateRegexFlag flag => "Duplicated regular expression flag '" ++ flag.toString ++ "'."
  | unknownRegexFlags => "Unknown regular expression flags."
  | expected token => "Expected '" ++ token ++ "', got '" ++ got ++ "'"
  | unexpected wanted => "Unexpected token `" ++ got ++ "`. Expected " ++ wanted
  | endOfText => "Unexpected eof"
  | expressionExpected => "Expression expected"
  | nameExpected => "Expected ident"
  | typeNameExpected => "Expected an identifier"
  | statementNotEnded => "Expected ';', '\x7d' or <eof>"
  | semicolonExpected => "Expected a semicolon"
  | tooDeep => "Nesting too deep"
  | notInStrictCode name => "`" ++ name ++ "` cannot be used as an identifier in strict mode"
  | awaitAsName => "`await` cannot be used as an identifier in an async context"
  | unbindable => "'eval' and 'arguments' cannot be used as a binding identifier in strict mode"
  | reservedShorthand => "Cannot use a reserved word as a shorthand property"
  | argumentsInField => "'arguments' is only allowed in functions and class methods"
  | spaceAfterHash => "Unexpected space between # and identifier"
  | voidProperty => "Expected a semicolon"
  | importNotHere => "Import is not allowed here"
  | nestedModuleItem => "'import', and 'export' cannot be used outside of module code"
  | reservedImport => "cannot import as reserved word"
  | stringImport => "A string literal cannot be used as an imported binding.\n- Did you mean `import \x7b \""
      ++ got ++ "\" as foo \x7d`?"
  | stringExport => "A string literal cannot be used as an exported binding without `from`."
  | exportWithoutSource name => "`" ++ name ++ "` cannot be used without `from` clause"
  | metaOnly => "Unexpected token `" ++ got ++ "`. Expected meta"
  | typeModifierOnTypeImport =>
    "The 'type' modifier cannot be used on a named import when 'import type' is used on its import statement."
  | typeModifierOnTypeExport =>
    "The 'type' modifier cannot be used on a named export when 'export type' is used on its export statement."
  | constWithoutValue => "'const' declarations must be initialized"
  | patternWithoutValue => "Destructuring bindings require initializers"
  | trailingComma => "Trailing comma is not allowed"
  | returnOutside => "Return statement is not allowed here"
  | breakOutside =>
    "A 'break' statement can only be used within an enclosing iteration or switch statement"
  | breakToNowhere => "A 'break' statement can only jump to a label of an enclosing statement"
  | continueToNowhere =>
    "A 'continue' statement can only jump to a label of an enclosing iteration statement"
  | labelOutOfReach => "Jump target cannot cross function boundary"
  | duplicateLabel name => "Label " ++ name ++ " is already declared"
  | labelledFunction => "Function declarations can not be labelled in strict mode"
  | labelledAsync => "Generator or async function cannot be labelled"
  | withStatement =>
    "The 'with' statement is not supported. All symbols in a 'with' block will have type 'any'."
  | declarationNotHere => "Declaration is not allowed"
  | lineBreakAfterThrow => "LineBreak cannot follow 'throw'"
  | duplicateDefault => "A switch block cannot have multiple defaults"
  | severalLoopVariables => "Expected one variable binding"
  | loopInitializer => "Unexpected initializer in for in/of loop"
  | loopVariableTyped => "The left-hand side of a 'for...of' statement cannot use a type annotation"
  | loopPattern => "The left-hand side of a 'for...in' statement cannot be a destructuring pattern"
  | loopWithoutVariables => "Variable declaration list cannot be empty"
  | awaitOutsideForOf => "for await syntax is valid only for for-of statement"
  | asyncLoopTarget => "The left-hand side of a 'for...of' statement may not be 'async'."
  | invalidTarget => "Invalid assignment target"
  | notAssignable =>
    "The left-hand side of an assignment expression must be a variable or a property access."
  | initializedShorthand => "assignment property is invalid syntax"
  | notAPattern => "Not a pattern"
  | lineBreakBeforeArrow => "Unexpected line break between arrow head and arrow"
  | arrowNotHere => "An arrow function is not allowed here"
  | emptyParens => "Parenthesized expression cannot be empty"
  | spreadInParens => "Parenthesized expression cannot contain spread operator"
  | notAnExpression => "Invalid expression"
  | mixedCoalescing =>
    "Nullish coalescing operator(??) requires parens when mixing with logical operators"
  | powerOfUnary => "'**' cannot be applied to unary/await expression."
  | deleteOfName => "'delete' cannot be called on an identifier in strict mode"
  | deleteOfNonProperty => "The operand of a 'delete' operator must be a property reference."
  | awaitOutsideAsync => "await isn't allowed in non-async function"
  | awaitStar => "'await*' has been removed from the async functions proposal. Use Promise.all() instead."
  | awaitInParameters => "`await` expressions cannot be used in a parameter initializer."
  | yieldInParameters => "'yield' cannot be used as a parameter within generator"
  | newTargetOutside =>
    "'new.target' is only allowed in the body of a function declaration, function expression, or class."
  | optionalConstructor => "Constructor in/after an optional chaining is not allowed."
  | optionalTemplate => "Tagged template expressions are not permitted in an optional chain"
  | superCallOptional => "Super call cannot be optional"
  | superNotHere => "Invalid access to super"
  | superCallNotHere => "Invalid super call"
  | nonNullNotHere what => what ++ " cannot have a non-null assertion"
  | restNotLast => "A rest parameter must be last in a parameter list"
  | restElementNotLast => "Rest element must be final element"
  | commaAfterRest => "Trailing comma isn't permitted after a rest element"
  | restInitializer => "A rest parameter cannot have an initializer"
  | restOptional => "A rest parameter cannot be optional"
  | restWithoutName => "`...` must be followed by an identifier in declaration contexts"
  | optionalWithInitializer => "Parameter cannot have question mark and initializer"
  | optionalPattern => "A binding pattern parameter cannot be optional in an implementation signature."
  | annotationAfterInitializer => "Type annotations must come before default assignments"
  | propertyOutsideConstructor =>
    "A parameter property is only allowed in a constructor implementation"
  | initializerWithoutBody =>
    "A parameter initializer is only allowed in a function or constructor implementation"
  | strictDirective =>
    "Illegal 'use strict' directive in function with non-simple parameter list."
  | bodyInDeclaration => "An implementation cannot be declared in ambient contexts"
  | invalidParameterProperty => "A parameter property may not be declared using a binding pattern"
  | duplicateConstructor => "A class can only have one constructor"
  | generatorConstructor => "A constructor cannot be generator"
  | asyncConstructor => "Constructor can't be an async function"
  | privateConstructor => "Classes can't have a private field named '#constructor'."
  | constructorField => "Classes may not have a non-static field named 'constructor'"
  | constructorAccessor => "Class constructor can't be an accessor."
  | getterParameter => "A `get` accessor cannot have parameters"
  | setterParameter => "A `set` accessor must have exactly one parameter"
  | restInSetter => "Rest pattern is not allowed in setter"
  | invalidClassName => "Invalid class name"
  | secondExtends => "'extends' clause already seen."
  | extendsAfterImplements => "'extends' clause must precede 'implements' clause."
  | secondImplements => "'implements' clause already seen"
  | severalBases => "Classes can only extend a single class"
  | repeatedModifier name => "'" ++ name ++ "' modifier already seen."
  | modifierOrder first second => "'" ++ first ++ "' modifier must precede '" ++ second ++ "' modifier."
  | modifierClash first second =>
    "'" ++ first ++ "' modifier cannot be used with '" ++ second ++ "' modifier."
  | overrideWithoutBase =>
    "This member cannot have an 'override' modifier because its containing class does not extend another class."
  | modifierNotHere => "Modifiers cannot appear here"
  | declareOnMethod => "`declare` modifier cannot appear on class elements of this kind"
  | modifierOnConstructor name =>
    "'" ++ name ++ "' modifier cannot appear on a constructor declaration"
  | typeParametersOnConstructor => "Type parameters cannot appear on a constructor declaration"
  | emptyTypeParameters => "Type parameter list cannot be empty"
  | resultOfConstructor => "Type annotation cannot appear on a constructor declaration"
  | abstractConstructor =>
    "`abstract` modifier can only appear on a class or method declaration"
  | readonlyMethod => "A method cannot be readonly"
  | readonlyAccessor => "A getter or a setter cannot be readonly"
  | privateModifier name => "'" ++ name ++ "' modifier cannot be used with a private identifier"
  | accessOnPrivate => "An accessibility modifier cannot be used with a private identifier."
  | abstractInitializer => "Property cannot have an initializer because it is marked abstract."
  | abstractBody => "Abstract method cannot have an implementation"
  | optionalMember => "An object member cannot be declared optional"
  | modifierOnAccessor => "Modifiers cannot appear here"
  | computedSequence => "A comma expression is not allowed in a computed property name"
  | nestedDeclare => "A 'declare' modifier cannot be used in an already ambient context"
  | interfaceName => "interface name is invalid"
  | interfaceBase =>
    "An interface can only extend an identifier/qualified-name with optional type arguments."
  | severalIndexParameters => "An index signature must have exactly one parameter"
  | privateInInterface => "private names are not allowed in interface"
  | importTypeArgument => "Argument in an import type must be a string literal"
  | numericEnumMember => "An enum member cannot have a numeric name"
  | computedEnumMember => "Computed property names are not allowed in enums"
  | requiredAfterOptional => "A required element cannot follow an optional element"
  | setterWithoutParameter => "A 'set' accessor must have exactly one parameter"
  | typeParameterModifier name => "'" ++ name ++ "' modifier cannot appear on a type parameter"
  | varianceNotHere name =>
    "'" ++ name ++ "' modifier can only appear on a type parameter of a class, interface or type alias"
  | constTypeParameter =>
    "'const' modifier can only appear on a type parameter of a function, method or class"

end Complaint

def Fault.message (f : Fault) : String := f.complaint.message f.got

end WebModules.Script
