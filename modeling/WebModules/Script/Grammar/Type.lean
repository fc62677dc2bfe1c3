import WebModules.Script.Grammar.Pattern

/-!
Types.  A reader of the tree meets nothing in a type but the keys of the members of object types,
so the other parts are kept only where such members may stand inside them.
-/

namespace WebModules.Script.Clause

variable {α : Type}

/-- The items up to a closing token that `atEnd` finds, separated by commas. -/
def commaSeparated (atEnd : Clause Bool) (item : Clause α) : Clause (List α) := do
  let found ← repeating (fun (found : List α) => do
    if ← atEnd then return .inr found
    let found := (← item) :: found
    if ← eat .comma then return .inl found
    else if ← atEnd then return .inr found
    else
      expect .comma
      return .inl found) []
  return found.reverse

/-- A type after a given sign. -/
def typeAfter? (mark : Sign) : Clause (List Tree) := inType do
  if ← eat mark then return [← type] else return []

/-- A name, or several joined by dots. -/
def qualifiedName (reservedAllowed : Bool) : Clause Unit := do
  let name ← anyWord
  if name == "void" then report .here .voidProperty
  repeating (fun (_ : Unit) => do
    if ← eat .dot then
      if !(← isSign .hash) && !(← isAnyWord) then
        report .here .typeNameExpected
        return .inr ()
      else if reservedAllowed then
        let _ ← anyWord
        return .inl ()
      else
        let _ ← identifier false
        return .inl ()
    else return .inr ()) ()

/-- The types between angles after a name. -/
def typeArguments : Clause Tree := do
  let first ← mark
  let found ← inType do
    if ← isSign .shiftLeft then rescan .plain
    expect .less
    commaSeparated (isSign .greater) type
  expect .greater
  node .group first found

/-- Type arguments on the same line. -/
def typeArgumentsHere : Clause (List Tree) := do
  if !(← lineBreak) && ((← isSign .less) || (← isSign .shiftLeft)) then
    return [← rule .typeArguments]
  else return []

/-- Whether a binary operator or nothing that starts an expression follows, so that type arguments
before it are the end of an expression. -/
def endsInstantiation : Clause Bool := do
  match ← current with
  | .sign s =>
    if [.less, .greater, .plus, .minus, .openParen, .backtick].contains s then return false
    else if ← lineBreak then return true
    else if s.isBinary then return true
    else return !([.openBracket, .openBrace, .bang, .tilde, .increment, .decrement, .hash]
      : List Sign).contains s
  | .number | .bigint | .string | .regex => lineBreak
  | .word word =>
    if ← lineBreak then return true
    else if word == "import" then
      return !((← isAheadSign .openParen) || (← isAheadSign .less) || (← isAheadSign .dot))
    else if ["this", "super", "null", "true", "false", "function", "class", "new", "delete",
        "typeof", "void", "await", "yield"].contains word then return false
    else return isReserved word
  | _ => return true

/-- Type arguments, where the angle may as well be an operator. -/
def typeArguments? : Clause (List Tree) := do
  if ← isSign .less then
    let found ← attempt do
      let found ← rule .typeArguments
      if ← endsInstantiation then return some found else return none
    return found.toList
  else return []

/-- A type parameter, with its modifiers, bound and default. -/
def typeParameter : Clause Tree := do
  let first ← mark
  repeating (fun (_ : Unit) => do
    match ← modifier? ["public", "private", "protected", "readonly", "abstract", "const",
        "override", "in", "out"] false with
    | some name =>
      unless ["const", "in", "out"].contains name do
        report (.token ((← mark) - 1)) (.typeParameterModifier name)
      return .inl ()
    | none => return .inr ()) ()
  let _ ← anyWord
  let bound ← inType do
    if ← eatWord "extends" then return [← type] else return []
  let default ← typeAfter? .assign
  node .group first (bound ++ default)

/-- The parameters between angles. -/
def typeParameters : Clause Tree := inType do
  let first ← mark
  unless ← isSign .less do unexpected "< (jsx tag start)"
  take
  let found ← commaSeparated (isSign .greater) typeParameter
  expect .greater
  node .group first found

def typeParameters? : Clause (List Tree) := do
  if ← isSign .less then return [← rule .typeParameters] else return []

/-- The type of a result after `mark`, which may state what a parameter is. -/
def result (mark : Sign) : Clause Tree := inType do
  let first ← Clause.mark
  expect mark
  let asserts ← do
    if ← isWord "asserts" then pure ((← isAheadAnyWord) && !(← lineBreakAhead) && !(← isAheadWord "is"))
    else pure false
  if asserts then take
  let states ← do
    if (← isName) || (← isWord "this") then
      pure ((← isAheadWord "is") && !(← lineBreakAhead))
    else pure false
  if asserts || states then
    let _ ← anyWord
    if states then
      take
      node .group first [← type]
    else node .group first []
  else node .group first [← type]

def result? : Clause (List Tree) := do
  if ← isSign .colon then return [← rule (.result .colon)] else return []

/-- The parameters of a signature, with the closing parenthesis. -/
def signatureParameters : Clause (List Tree) := do
  let found ← rule .parameters
  if found.any fun p => p.shape == .initializedPattern then
    unexpected "an identifier, [ for an array pattern, \x7b for an object patter or ... for a rest pattern"
  expect .closeParen
  return found

/-- The type of a function, after `new` if it constructs. -/
def functionType : Clause Tree := do
  let first ← mark
  let generics ← typeParameters?
  expect .openParen
  let parameters ← signatureParameters
  let result ← rule (.result .arrow)
  node .group first (parameters ++ generics ++ [result])

/-- Whether a parenthesis starts the parameters of a function type. -/
def startsFunctionType : Clause Bool := do
  take
  if (← isSign .closeParen) || (← isSign .ellipsis) then return true
  let _ ← eatParameterModifier
  let isParameter ← if ← isAnyWord then do
      take
      pure true
    else if (← isSign .openBrace) || (← isSign .openBracket) then do
      let found ← attempt do return some (← rule .bindingTarget)
      pure found.isSome
    else pure false
  if isParameter then
    if ← isOneOf [.colon, .comma, .question, .assign] then return true
    if ← eat .closeParen then isSign .arrow else return false
  else return false

/-- A type that is no conditional type. -/
def plainType : Clause Tree := do
  let isFunction ← if ← isSign .less then pure true
    else if ← isSign .openParen then foresee startsFunctionType
    else pure false
  if isFunction then functionType
  else if (← isWord "new") || ((← isWord "abstract") && (← isAheadWord "new")) then
    let _ ← eatWord "abstract"
    expectWord "new"
    functionType
  else
    let first ← mark
    let operands (operator : Sign) (operand : Clause Tree) : Clause Tree := do
      let _ ← eat operator
      let leading ← operand
      let others ← collect do
        if ← eat operator then return some (← operand) else return none
      node .group first (leading :: others)
    operands .bitOr (operands .bitAnd (rule .typeOperator))

def typeBody : Clause Tree := do
  let first ← mark
  let checked ← rule .plainType
  if (← lineBreak) || (← context).noConditionalType then return checked
  else if ← eatWord "extends" then
    let bound ← within (fun c => { c with noConditionalType := true }) (rule .plainType)
    expect .question
    let positive ← within (fun c => { c with noConditionalType := false }) type
    expect .colon
    let negative ← within (fun c => { c with noConditionalType := false }) type
    node .group first [checked, bound, positive, negative]
  else return checked

/-- The end of a member of an object type. -/
def endMember : Clause Unit := do
  unless ← eat .comma do expectEnd

/-- Whether a bracket starts an index signature. -/
def startsIndexSignature : Clause Bool := do
  take
  if ← isName then
    take
    isOneOf [.colon, .comma]
  else return false

/-- An index signature, if one is next. -/
def indexSignature? : Clause (Option Tree) := do
  if !(← isSign .openBracket) then return none
  else if !(← foresee startsIndexSignature) then return none
  else
    let first ← mark
    take
    let name ← mark
    let _ ← anyWord
    if ← eat .comma then report (.token name) .severalIndexParameters else expect .colon
    let index ← inType type
    expect .closeBracket
    let value ← annotation?
    endMember
    return some (← node .group first (index :: value))

/-- A call or construct signature. -/
def callSignature : Clause Tree := do
  let first ← mark
  let generics ← typeParameters?
  expect .openParen
  let parameters ← signatureParameters
  let result ← result?
  endMember
  node .group first (parameters ++ result ++ generics)

/-- The key of a member of an object type, which is an expression. -/
def memberKey : Clause Tree := do
  if ← eat .openBracket then
    let key ← assignment
    expect .closeBracket
    return key
  else
    match ← need with
    | .number | .string => rule (.memberOrNew true)
    | _ =>
      let first ← mark
      if ← isSign .hash then
        let _ ← hashedName
        report (.token first) .privateInInterface
        node .privateName first []
      else
        let name ← anyWord
        node (.variable name) first []

/-- A property or method signature. -/
def propertySignature (first : Nat) (readonly : Bool) : Clause Tree := do
  let key ← memberKey
  let _ ← eat .question
  if ← isOneOf [.openParen, .less] then
    if readonly then fail .here .readonlyMethod
    let signature ← callSignature
    node .group first [key, signature]
  else
    let typing ← annotation?
    endMember
    node .group first (key :: typing)

/-- A getter or setter in an object type. -/
def accessorSignature (first : Nat) (readonly : Bool) : Clause Tree := do
  if readonly then fail .here .readonlyAccessor
  let isGetter ← eatWord "get"
  unless isGetter do expectWord "set"
  let key ← memberKey
  expect .openParen
  if isGetter then
    expect .closeParen
    let typing ← annotation?
    endMember
    node .group first (key :: typing)
  else
    let parameters ← signatureParameters
    if parameters.isEmpty then fail .here .setterWithoutParameter
    endMember
    node .group first (key :: parameters.take 1)

def typeMember : Clause Tree := do
  let constructs ← if ← isWord "new" then
      pure ((← isAheadSign .openParen) || (← isAheadSign .less))
    else pure false
  if constructs then
    take
    callSignature
  else if ← isOneOf [.openParen, .less] then callSignature
  else
    let first ← mark
    let readonly ← do pure (← modifier? ["readonly"] false).isSome
    indexSignature?.otherwise
      ((attempt do return some (← accessorSignature first readonly)).otherwise
        (propertySignature first readonly))

/-- The members of an object type between braces. -/
def typeMembers : Clause Tree := do
  let first ← mark
  expect .openBrace
  let found ← collect do
    if ← isSign .closeBrace then return none else return some (← typeMember)
  expect .closeBrace
  node .group first found

/-- Whether a brace starts a mapped type. -/
def startsMappedType : Clause Bool := do
  take
  if (← eat .plus) || (← eat .minus) then isWord "readonly"
  else
    let _ ← eatWord "readonly"
    if !(← eat .openBracket) then return false
    else if !(← isName) then return false
    else
      take
      isWord "in"

def mappedType : Clause Tree := do
  let first ← mark
  expect .openBrace
  if (← eat .plus) || (← eat .minus) then expectWord "readonly"
  else
    let _ ← eatWord "readonly"
  expect .openBracket
  let _ ← anyWord
  unless ← eatWord "in" do unexpected "in"
  let bound ← inType type
  let renamed ← if ← eatWord "as" then do pure [← type] else pure []
  expect .closeBracket
  if (← eat .plus) || (← eat .minus) then expect .question
  else
    let _ ← eat .question
  let value ← typeAfter? .colon
  expectEnd
  expect .closeBrace
  node .group first (bound :: renamed ++ value)

/-- An element of a tuple type, and whether it may be absent and whether it is a rest element. -/
def tupleElement : Clause (Tree × Bool × Bool) := do
  let first ← mark
  let _ ← attempt do
    let _ ← eat .ellipsis
    let _ ← anyWord
    let _ ← eat .question
    expect .colon
    return some ()
  if ← eat .ellipsis then
    let element ← type
    return (← node .group first [element], false, true)
  else
    let element ← type
    let optional ← eat .question
    return (← node .group first [element], optional, false)

def tupleType : Clause Tree := do
  let first ← mark
  take
  let elements ← commaSeparated (isSign .closeBracket) tupleElement
  expect .closeBracket
  let afterOptional := elements.dropWhile fun e => !e.2.1
  if afterOptional.any fun e => !e.2.1 && !e.2.2 then fail (.token first) .requiredAfterOptional
  node .group first (elements.map Prod.fst)

/-- A stretch of template text. -/
def templateText (tagged : Bool) : Clause Unit := do
  rescan .templateText
  match ← need with
  | .template cooked =>
    let number ← mark
    take
    unless cooked || tagged do failUncooked number
    rescan .templateEdge
  | _ => unexpected "template token"

/-- A template whose substitutions are read by `substitution`. -/
def templateOf (tagged : Bool) (substitution : Clause Tree) : Clause (List Tree) := do
  take
  templateText tagged
  let found ← collect do
    if ← isSign .backtick then return none
    else
      expect .dollarBrace
      let found ← substitution
      expect .closeBrace
      templateText tagged
      return some found
  expect .backtick
  return found

/-- The type of something imported from another module. -/
def importType : Clause Tree := do
  let first ← mark
  take
  expect .openParen
  match ← need with
  | .string => take
  | _ =>
    report .here .importTypeArgument
    take
  if ← eat .comma then
    if ← isSign .openBrace then
      let _ ← rule .object
  expect .closeParen
  if ← eat .dot then qualifiedName false
  let arguments ← if ← isSign .less then do pure [← rule .typeArguments] else pure []
  node .group first arguments

/-- The type of a value. -/
def queryType : Clause Tree := do
  let first ← mark
  take
  let queried ← if ← isWord "import" then do pure [← rule .importType]
    else do
      qualifiedName true
      pure []
  let arguments ← typeArgumentsHere
  node .group first (queried ++ arguments)

/-- A named type with its arguments. -/
def namedType : Clause Tree := do
  let first ← mark
  let modified ← eatParameterModifier
  qualifiedName true
  let arguments ← typeArgumentsHere
  if modified then report (.token first) .propertyOutsideConstructor
  node .group first arguments

/-- No type starts here. -/
def unexpectedType : Clause Tree :=
  unexpected ("an identifier, void, yield, null, await, break, a string literal, a numeric "
    ++ "literal, true, false, `, -, import, this, typeof, \x7b, [, (")

/-- The type `this`, or the claim that it has another one. -/
def thisType : Clause Tree := do
  let first ← mark
  take
  if !(← lineBreak) && (← eatWord "is") then node .group first [← inType type]
  else node .group first []

/-- A type that starts with a word of no other meaning. -/
def wordType (word : String) : Clause Tree := do
  let first ← mark
  if word == "asserts" && (← isAheadWord "this") then
    take
    take
    if ← eatWord "is" then node .group first [← inType type]
    else node .group first []
  else if !isKeyword word || ["void", "yield", "null", "await", "break"].contains word then
    if (word == "void" || word == "null") && !(← isAheadSign .dot) then
      take
      node .group first []
    else if ["any", "boolean", "bigint", "never", "number", "object", "string", "symbol",
        "unknown", "undefined", "intrinsic"].contains word && !(← isAheadSign .dot) then
      take
      node .group first []
    else namedType
  else unexpectedType

/-- The type of a negative number. -/
def negativeType : Clause Tree := do
  let first ← mark
  take
  match ← current with
  | .number | .bigint =>
    take
    node .group first []
  | _ => unexpected "numeric literal or bigint literal"

/-- A type without operators. -/
def atomicType : Clause Tree := do
  let first ← mark
  match ← need with
  | .word "import" => rule .importType
  | .word "typeof" => queryType
  | .word "true" | .word "false" =>
    take
    node .group first []
  | .word "this" => thisType
  | .word word => wordType word
  | .number | .bigint | .string =>
    take
    node .group first []
  | .sign .backtick => node .group first (← templateOf false type)
  | .sign .minus => negativeType
  | .sign .openBrace => if ← foresee startsMappedType then mappedType else typeMembers
  | .sign .openBracket => tupleType
  | .sign .openParen =>
    take
    let inner ← type
    expect .closeParen
    node .group first [inner]
  | _ => unexpectedType

/-- A type with the brackets of array and member types after it. -/
def arrayType : Clause Tree := do
  let first ← mark
  repeating (fun (inner : Tree) => do
    if !(← lineBreak) && (← eat .openBracket) then
      if ← eat .closeBracket then return .inl (← node .group first [inner])
      else
        let index ← type
        expect .closeBracket
        return .inl (← node .group first [inner, index])
    else return .inr inner) (← atomicType)

/-- A type with the words before it that make another type of it. -/
def typeOperator : Clause Tree := do
  let first ← mark
  match ← current with
  | .word "keyof" | .word "unique" | .word "readonly" =>
    take
    node .group first [← rule .typeOperator]
  | .word "infer" =>
    take
    let _ ← anyWord
    let bound ← attempt do
      expectWord "extends"
      let bound ← rule .plainType
      if (← context).noConditionalType || !(← isSign .question) then return some bound
      else return none
    node .group first bound.toList
  | _ => arrayType

end WebModules.Script.Clause
