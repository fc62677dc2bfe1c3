/-!
The arguments of the program: options, which may stand before and after the command, and the command
with its packages.
-/

namespace WebModules.CommandLine

inductive Command
  /-- Installs what the manifest lists. -/
  | install
  /-- Installs packages and lists them in the manifest. -/
  | add (packages : List String)
  | remove (packages : List String)
  /-- Tells which packages are installed. -/
  | list
  deriving DecidableEq, Repr, Inhabited

structure Options where
  /-- The only registry to be tried. -/
  registry : Option String
  outputDir : Option String
  deriving DecidableEq, Repr, Inhabited

namespace Options

def none : Options := ⟨.none, .none⟩

/-- Options before the command, with those after it in their places where there are any. -/
def overriddenBy (before after : Options) : Options :=
  ⟨after.registry <|> before.registry, after.outputDir <|> before.outputDir⟩

end Options

/-- What arguments ask for. -/
inductive Request
  | run (options : Options) (command : Command)
  | version
  | help
  /-- The arguments make no sense. -/
  | invalid
  deriving DecidableEq, Repr, Inhabited

/-- What an argument is by itself. -/
inductive Argument
  /-- An option with its value, unless the next argument is that. -/
  | registry (value : Option String)
  | outputDir (value : Option String)
  | version
  | help
  /-- All arguments after this one are words. -/
  | endOfOptions
  | word (text : String)
  | unknown
  deriving DecidableEq, Repr, Inhabited

namespace Argument

/-- The value that is written with an option after an equals sign. -/
def valueAfter? (name : String) (arg : List Char) : Option String :=
  if (name.toList ++ ['=']).isPrefixOf arg then some (String.ofList (arg.drop (name.length + 1)))
  else none

def ofLong (arg : List Char) : Argument :=
  match valueAfter? "--registry" arg, valueAfter? "--out-dir" arg with
  | some value, _ => registry value
  | _, some value => outputDir value
  | none, none =>
    if arg = "--registry".toList then registry none
    else if arg = "--out-dir".toList then outputDir none
    else if arg = "--version".toList then version
    else if arg = "--help".toList then help
    else unknown

/-- What an argument is after its hyphen, if that is the only one. -/
def ofShort : List Char → Argument
  | ['r'] => registry none
  | 'r' :: '=' :: value => registry (String.ofList value)
  | 'r' :: value => registry (String.ofList value)
  | 'V' :: _ => version
  | 'h' :: _ => help
  | _ => unknown

def of (arg : String) : Argument :=
  match arg.toList with
  | ['-', '-'] => endOfOptions
  | '-' :: '-' :: more => ofLong ('-' :: '-' :: more)
  | '-' :: c :: more => ofShort (c :: more)
  | _ => word arg

end Argument

/-- The value of an option: what is written with it, or else the next argument, if that is a word. -/
def takeValue? (written : Option String) (args : List String) : Option (String × List String) :=
  match written, args with
  | some value, args => some (value, args)
  | none, [] => none
  | none, arg :: args =>
    match Argument.of arg with
    | .word value => some (value, args)
    | _ => none

/-- Options with a registry, which may be given once. -/
def withRegistry? (o : Options) (value : String) : Option Options :=
  if o.registry.isSome then none else some { o with registry := some value }

/-- Options with an output directory, which may be given once and must be named. -/
def withOutputDir? (o : Options) (value : String) : Option Options :=
  if o.outputDir.isSome ∨ value.isEmpty then none else some { o with outputDir := some value }

/-- Takes an option off the front of arguments, with `arg` as what the first of them is. -/
def takeOption? (o : Options) (arg : Argument) (args : List String) :
    Option (Options × List String) :=
  match arg with
  | .registry written => do
    let (value, rest) ← takeValue? written args
    return (← withRegistry? o value, rest)
  | .outputDir written => do
    let (value, rest) ← takeValue? written args
    return (← withOutputDir? o value, rest)
  | _ => none

/-- The options and words after a command, of which there are at most a number. -/
inductive Tail
  | words (options : Options) (all : List String)
  | help
  | invalid
  deriving DecidableEq, Repr, Inhabited

def readTail (o : Options) (words : List String) : Nat → List String → Tail
  | 0, _ => .words o words
  | _ + 1, [] => .words o words
  | limit + 1, arg :: args =>
    match Argument.of arg with
    | .word text => readTail o (words ++ [text]) limit args
    | .endOfOptions => .words o (words ++ args)
    | .help => .help
    | .version | .unknown => .invalid
    | option =>
      match takeOption? o option args with
      | some (o, rest) => readTail o words limit rest
      | none => .invalid

/-- A command by its name and the words after it. -/
def command? (name : String) (words : List String) : Option Command :=
  match name, words with
  | "install", [] => some .install
  | "list", [] => some .list
  | "add", _ :: _ => some (.add words)
  | "remove", _ :: _ => some (.remove words)
  | _, _ => none

def commandNames : List String := ["install", "add", "remove", "list"]

/-- What the arguments from a command on ask for. -/
def readCommand (o : Options) (name : String) (args : List String) : Request :=
  if name = "help" then
    match args with
    | [] => .help
    | [about] => if (commandNames ++ ["help"]).contains about then .help else .invalid
    | _ => .invalid
  else if !commandNames.contains name then .invalid
  else
    match readTail .none [] args.length args with
    | .help => .help
    | .invalid => .invalid
    | .words after words =>
      match command? name words with
      | some command => .run (o.overriddenBy after) command
      | none => .invalid

/-- What up to a number of arguments ask for. -/
def readArguments (o : Options) : Nat → List String → Request
  | _, [] | 0, _ => .invalid
  | limit + 1, arg :: args =>
    match Argument.of arg with
    | .word name => readCommand o name args
    | .version => .version
    | .help => .help
    | .endOfOptions | .unknown => .invalid
    | option =>
      match takeOption? o option args with
      | some (o, rest) => readArguments o limit rest
      | none => .invalid

def parse (args : List String) : Request := readArguments .none args.length args

end WebModules.CommandLine
