/-! The general form of a command line: options by long name or by letter, some of
them with a value, and plain arguments in between. -/
namespace PinUart.Cli

/-- An option of a command. -/
structure OptionForm where
  long : String
  short : Option Char := none
  takesValue : Bool := false
  deriving DecidableEq, Repr

/-- The arguments of a command, taken apart: plain ones, and options by long name
with the value that they were given. -/
structure Arguments where
  plain : List String := []
  options : List (String × Option String) := []
  deriving DecidableEq, Repr

namespace Arguments

def addPlain (arguments : Arguments) (text : String) : Arguments :=
  { arguments with plain := arguments.plain ++ [text] }

/-- Adds an option, unless it was given before. -/
def addOption? (arguments : Arguments) (form : OptionForm) (value : Option String) :
    Option Arguments :=
  if arguments.options.any (·.1 == form.long) then none
  else some { arguments with options := arguments.options ++ [(form.long, value)] }

def has (arguments : Arguments) (form : OptionForm) : Bool :=
  arguments.options.any (·.1 == form.long)

def value? (arguments : Arguments) (form : OptionForm) : Option String :=
  (arguments.options.lookup form.long).join

end Arguments

/-- An argument that names an option, and the value that is attached to it. -/
structure Mention where
  form : OptionForm
  attached : Option String

/-- A long name, with a value after an equals sign. -/
def mentionLong? (forms : List OptionForm) (name : List Char) : Option Mention := do
  let long := String.ofList (name.takeWhile (· != '='))
  let form ← forms.find? (·.long == long)
  match name.dropWhile (· != '=') with
  | [] => return ⟨form, none⟩
  | _ :: value => return ⟨form, some (String.ofList value)⟩

/-- A letter, with a value right behind it or after an equals sign. -/
def mentionShort? (forms : List OptionForm) (letter : Char) (tail : List Char) :
    Option Mention := do
  let form ← forms.find? (·.short == some letter)
  match tail with
  | [] => return ⟨form, none⟩
  | '=' :: value => return ⟨form, some (String.ofList value)⟩
  | value => return ⟨form, some (String.ofList value)⟩

/-- How one argument reads. -/
inductive Reading
  | plain
  | escape
  | mention (mention : Mention)
  | unknown

/-- A lone dash is a plain argument, and two dashes end the options. -/
def readArgument (forms : List OptionForm) (argument : String) : Reading :=
  match argument.toList with
  | ['-', '-'] => .escape
  | '-' :: '-' :: name => (mentionLong? forms name).elim .unknown .mention
  | '-' :: letter :: tail => (mentionShort? forms letter tail).elim .unknown .mention
  | _ => .plain

/-- An argument that cannot be the value of an option before it. -/
def looksLikeOption (argument : String) : Bool :=
  match argument.toList with
  | '-' :: _ :: _ => true
  | _ => false

/-- Takes the arguments of a command apart. An unknown or repeated option, a missing
value, or a value where none belongs answers nothing. -/
def takeApart? (forms : List OptionForm) (arguments : Arguments) : List String → Option Arguments
  | [] => some arguments
  | argument :: rest =>
    match readArgument forms argument with
    | .plain => takeApart? forms (arguments.addPlain argument) rest
    | .escape => some (rest.foldl Arguments.addPlain arguments)
    | .unknown => none
    | .mention mention =>
      match mention.form.takesValue, mention.attached with
      | false, some _ => none
      | true, none =>
        match rest with
        | [] => none
        | value :: rest =>
          if looksLikeOption value then none
          else
            (arguments.addOption? mention.form (some value)).bind fun arguments =>
              takeApart? forms arguments rest
      | _, attached =>
        (arguments.addOption? mention.form attached).bind fun arguments =>
          takeApart? forms arguments rest
  termination_by rest => rest.length

end PinUart.Cli
