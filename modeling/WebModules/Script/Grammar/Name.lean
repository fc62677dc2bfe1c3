import WebModules.Script.Clause

/-!
Names, modifiers and the keys of properties.
-/

namespace WebModules.Script

/-- The key of a property or class member. -/
inductive Key
  | word (name : String)
  | string
  | number
  | computed (inner : Tree)
  | hashed (name : String)
  deriving Inhabited

namespace Key

/-- The expressions in a key. -/
def parts : Key → List Tree
  | computed inner => [inner]
  | _ => []

def isHashed : Key → Bool
  | hashed _ => true
  | _ => false

def isWord (name : String) : Key → Bool
  | word other => other == name
  | _ => false

end Key

namespace Clause

variable {α : Type}

/-- The words that strict code allows as the name of a property but not of a variable. -/
def strictWords : List String :=
  ["enum", "yield", "let", "static", "implements", "interface", "package", "private", "protected",
    "public"]

/-- A word used as the name of a variable, label or function. -/
def identifier (yieldAllowed : Bool) : Clause String := do
  match ← need with
  | .word word =>
    let place := Place.token (← mark)
    take
    if strictWords.contains word then report place (.notInStrictCode word)
    let surroundings ← context
    if word == "await" then
      if surroundings.ambient then return word
      else if surroundings.staticBlock then fail place .nameExpected
      else fail place .awaitAsName
    else if word == "this" || word == "let" || (word == "yield" && yieldAllowed) then return word
    else if isKeyword word then fail place .nameExpected
    else
      if word == "arguments" && surroundings.classField then report place .argumentsInField
      return word
  | _ => fail .here .nameExpected

def anyWord : Clause String := do
  match ← need with
  | .word word =>
    take
    return word
  | _ => fail .here .nameExpected

/-- A string, by the number of its token. -/
def stringToken : Clause Nat := do
  let number ← mark
  match ← need with
  | .string => take
  | _ => unexpected "a string literal"
  return number

/-- A variable that is being declared. -/
def boundName : Clause Tree := do
  let first ← mark
  let name ← identifier true
  if isUnbindable name then report (.token first) .unbindable
  if (← context).generator && name == "yield" then report (.token first) .nameExpected
  node (.boundName name) first []

/-- A name after `#`, which must follow at once. -/
def hashedName : Clause String := do
  let first ← mark
  take
  unless ← adjacent do fail (.token first) .spaceAfterHash
  anyWord

/-- Whether, after a modifier, something follows on the same line that it can modify. -/
def canFollowModifier : Clause Bool := do
  if ← lineBreak then return false
  match ← current with
  | .word _ | .string | .number | .bigint => return true
  | .sign s => return [.openBracket, .openBrace, .times, .ellipsis, .hash].contains s
  | _ => return false

/-- Reads one of the given modifiers, if one is next and modifies what follows. -/
def modifier? (allowed : List String) (beforeBlock : Bool) : Clause (Option String) := do
  match ← need with
  | .word word =>
    if !allowed.contains word then return none
    else if beforeBlock && word == "static" && (← isAheadSign .openBrace) then return none
    else
      attempt do
        take
        if ← canFollowModifier then return some word else return none
  | _ => return none

/-- Reads one of the given modifiers, if one is next; the end of the text has none. -/
def eatModifier (allowed : List String) : Clause Bool := do
  if ← isFinish then return false else return (← modifier? allowed false).isSome

/-- Reads a modifier that belongs before a parameter of a constructor. -/
def eatParameterModifier : Clause Bool := do
  let modifiers := ["public", "protected", "private", "readonly"]
  match ← current with
  | .word word =>
    if modifiers.contains word
        && ((← isAheadAnyWord) || (← isAheadSign .openBrace) || (← isAheadSign .openBracket)) then
      let _ ← modifier? modifiers false
      return true
    else return false
  | _ => return false

/-- The key of a property. -/
def propertyKey : Clause Key := do
  match ← need with
  | .string =>
    take
    return .string
  | .number | .bigint =>
    take
    return .number
  | .word word =>
    take
    return .word word
  | .sign .openBracket =>
    take
    let first ← mark
    let inner ← withIn true assignment
    let inner ← if ← isSign .comma then do
        let others ← collect do
          if ← eat .comma then return some (← withIn true assignment) else return none
        report (.token first) .computedSequence
        node .sequence first (inner :: others)
      else pure inner
    expect .closeBracket
    return .computed inner
  | _ =>
    unexpected "identifier, string literal, numeric literal or [ for the computed key"

end Clause

end WebModules.Script
