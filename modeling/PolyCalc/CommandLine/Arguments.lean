import PolyCalc.Calculator.Operation

/-!
# Arguments of the Command Line

The command line names an operation, the first polynomial and, for a complete
calculation, the second operand; options may stand anywhere between them. There
are long options behind two dashes and short ones behind one, which may be
joined. The settings file follows its option as the next argument, or behind an
equals sign, or directly behind the short letter.

Operands may begin with a dash, like `-x^2`. Where an operand is expected, an
argument that could be an option is one only if every letter of it is known, or
its long name is; otherwise it is the operand. Behind two dashes alone every
argument is an operand.

An option may be given once. The arguments are understood one after the other:
a request for help or for the version is granted as soon as it is met, and a
fault that stands before it comes first.

A program has a library read its arguments, and these are the rules by which such
a library does so. The faults are worded freely here, apart from an operation that
is not known, whose wording is the calculator's. Runs depend on neither: they take
whatever reads arguments as a parameter.

## Main definitions

* `Request`: A calculation asked for.
* `Invocation`: What a command line asks for.
* `ArgumentFault`: Why a command line is not understood.
* `Arguments.parse`: The invocation of a list of arguments.
-/

namespace PolyCalc

/-- A calculation asked for on the command line. -/
structure Request where
  operation : Operation
  first : String
  second : Option String
  /-- The file that settings are taken from. -/
  config : Option String
  /-- Is the result to be saved? -/
  save : Bool
  /-- Is the table of terms to be shown? -/
  table : Bool
deriving DecidableEq, Repr

/-- What a command line asks for. -/
inductive Invocation where
  | calculation (request : Request)
  | help
  | version
deriving DecidableEq, Repr

/-- Why a command line is not understood. -/
inductive ArgumentFault where
  | unknownOption (option : String)
  | repeatedOption (option : String)
  /-- A value is missing, or empty. -/
  | missingValue (option : String)
  /-- An option that takes no value is given one. -/
  | unexpectedValue (option : String)
  | surplusArgument (text : String)
  | missingArgument (name : String)
  | unknownOperation (name : String)
deriving DecidableEq, Repr

/-- The cause in words. -/
def ArgumentFault.message : ArgumentFault → String
  | .unknownOption option => "unexpected argument '" ++ option ++ "'"
  | .repeatedOption option => "'" ++ option ++ "' cannot be used more than once"
  | .missingValue option => "a value is required for '" ++ option ++ "'"
  | .unexpectedValue option => "no value is expected for '" ++ option ++ "'"
  | .surplusArgument text => "unexpected argument '" ++ text ++ "'"
  | .missingArgument name => "the argument <" ++ name ++ "> is missing"
  | .unknownOperation name =>
    "unknown operation '" ++ name ++ "', expected add, subtract, multiply, divide or evaluate"

/-- The options. -/
inductive CommandOption where
  | config
  | save
  | table
  | help
  | version
deriving DecidableEq, Repr

namespace CommandOption

/-- The option with a long name. -/
def ofLong? (name : List Char) : Option CommandOption :=
  if name = "config".toList then some config
  else if name = "save".toList then some save
  else if name = "table".toList then some table
  else if name = "help".toList then some help
  else if name = "version".toList then some version
  else none

/-- The option with a short letter. -/
def ofShort? : Char → Option CommandOption
  | 'c' => some config
  | 's' => some save
  | 't' => some table
  | 'h' => some help
  | 'V' => some version
  | _ => none

/-- What an option is called in messages. -/
def label : CommandOption → String
  | config => "--config"
  | save => "--save"
  | table => "--table"
  | help => "--help"
  | version => "--version"

end CommandOption

/-- What has been understood of a command line so far. -/
structure Arguments where
  operation : Option Operation := none
  /-- The first polynomial and the second operand, as far as they are given. -/
  operands : List String := []
  config : Option String := none
  save : Bool := false
  table : Bool := false
  /-- Is the name of the settings file the next argument? -/
  awaitsConfig : Bool := false
  /-- Have the options ended? -/
  optionsEnded : Bool := false
deriving DecidableEq, Repr

/-- Why reading a command line ends before its last argument. -/
inductive Stop where
  | fault (fault : ArgumentFault)
  | help
  | version
deriving DecidableEq, Repr

namespace Arguments

/-- Is an operand expected, which may begin with a dash? -/
def expectsOperand (a : Arguments) : Bool :=
  a.operation.isSome && a.operands.length < 2

/-- The settings file set. -/
def setConfig (a : Arguments) (file : List Char) : Except Stop Arguments :=
  if a.config.isSome then throw (.fault (.repeatedOption CommandOption.config.label))
  else if file = [] then throw (.fault (.missingValue CommandOption.config.label))
  else pure { a with config := some (String.ofList file), awaitsConfig := false }

/-- An option without a value put into effect. The option for the settings file
    takes the next argument. -/
def apply (a : Arguments) (option : CommandOption) : Except Stop Arguments :=
  if a.awaitsConfig then throw (.fault (.missingValue CommandOption.config.label))
  else
    match option with
    | .config =>
      if a.config.isSome then throw (.fault (.repeatedOption option.label))
      else pure { a with awaitsConfig := true }
    | .save =>
      if a.save then throw (.fault (.repeatedOption option.label))
      else pure { a with save := true }
    | .table =>
      if a.table then throw (.fault (.repeatedOption option.label))
      else pure { a with table := true }
    | .help => throw .help
    | .version => throw .version

/-- An option with a value put into effect. -/
def applyValue (a : Arguments) (option : CommandOption) (value : List Char) :
    Except Stop Arguments :=
  if a.awaitsConfig then throw (.fault (.missingValue CommandOption.config.label))
  else
    match option with
    | .config => a.setConfig value
    | _ => throw (.fault (.unexpectedValue option.label))

/-- Joined short options put into effect. What follows the letter of the
    settings file, with or without an equals sign, is its name. -/
def applyShort (a : Arguments) : List Char → Except Stop Arguments
  | [] => pure a
  | letter :: rest =>
    match CommandOption.ofShort? letter with
    | none => throw (.fault (.unknownOption (String.ofList ['-', letter])))
    | some .config =>
      match rest with
      | [] => a.apply .config
      | '=' :: file => a.applyValue .config file
      | file => a.applyValue .config file
    | some option => do
      let a ← a.apply option
      a.applyShort rest

/-- An argument that is not an option: the name of the settings file where that
    is awaited, and else the operation or an operand. -/
def place (a : Arguments) (text : String) : Except Stop Arguments :=
  if a.awaitsConfig then a.setConfig text.toList
  else
    match a.operation with
    | none =>
      match Operation.ofName? text with
      | none => throw (.fault (.unknownOperation text))
      | some operation => pure { a with operation := some operation }
    | some _ =>
      if a.operands.length < 2 then pure { a with operands := a.operands ++ [text] }
      else throw (.fault (.surplusArgument text))

/-- A long option's name and, behind the first equals sign, its value. -/
def splitLong (s : List Char) : List Char × Option (List Char) :=
  match s.dropWhile (· ≠ '=') with
  | [] => (s, none)
  | _ :: value => (s.takeWhile (· ≠ '='), some value)

/-- The next argument put into effect. -/
def step (a : Arguments) (text : String) : Except Stop Arguments :=
  if a.optionsEnded then a.place text
  else
    match text.toList with
    | ['-', '-'] =>
      if a.awaitsConfig then throw (.fault (.missingValue CommandOption.config.label))
      else pure { a with optionsEnded := true }
    | '-' :: '-' :: long =>
      let (name, value) := splitLong long
      match CommandOption.ofLong? name with
      | some option =>
        match value with
        | none => a.apply option
        | some value => a.applyValue option value
      | none =>
        if a.expectsOperand then a.place text
        else throw (.fault (.unknownOption text))
    | '-' :: letter :: letters =>
      let short := letter :: letters
      if a.expectsOperand && short.any (fun c => (CommandOption.ofShort? c).isNone) then
        a.place text
      else a.applyShort short
    | _ => a.place text

/-- The calculation that the arguments ask for. -/
def toRequest (a : Arguments) : Except Stop Request :=
  if a.awaitsConfig then throw (.fault (.missingValue CommandOption.config.label))
  else
    match a.operation, a.operands with
    | none, _ => throw (.fault (.missingArgument "OPERATION"))
    | some _, [] => throw (.fault (.missingArgument "FIRST"))
    | some operation, first :: rest =>
      pure ⟨operation, first, rest.head?, a.config, a.save, a.table⟩

/-- What a list of arguments asks for. -/
def parse (arguments : List String) : Except ArgumentFault Invocation :=
  match arguments.foldlM step {} >>= toRequest with
  | .ok request => pure (.calculation request)
  | .error .help => pure .help
  | .error .version => pure .version
  | .error (.fault fault) => throw fault

end Arguments

end PolyCalc
