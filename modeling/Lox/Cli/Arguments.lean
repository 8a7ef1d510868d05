/-!
# Command-line arguments

Arguments that begin with a dash are options, a dash alone excepted. Some
options are flags, alone or several letters behind one dash; others take a
value, behind an equals sign or as the next argument. Two dashes end the
options.
-/
namespace Lox.Cli

/-- The options of a command: each spelling with the name it stands for. -/
structure Spec where
  flags : List (String × String)
  values : List (String × String)
  /-- Whether options may follow other arguments. -/
  mixed : Bool

/-- What was found: flags and values in order, and the other arguments. -/
structure Arguments where
  flags : List String
  values : List (String × String)
  others : List String
  deriving DecidableEq, Repr

namespace Arguments

def empty : Arguments := ⟨[], [], []⟩

def addFlags (names : List String) (a : Arguments) : Arguments :=
  ⟨names ++ a.flags, a.values, a.others⟩

def addValue (name value : String) (a : Arguments) : Arguments :=
  ⟨a.flags, (name, value) :: a.values, a.others⟩

def addOther (arg : String) (a : Arguments) : Arguments :=
  ⟨a.flags, a.values, arg :: a.others⟩

/-- The last value given to an option. -/
def value? (a : Arguments) (name : String) : Option String :=
  a.values.reverse.lookup name

def isOption (arg : List Char) : Bool :=
  match arg with
  | '-' :: _ :: _ => true
  | _ => false

/-- The flags behind one dash. -/
def letters? (spec : Spec) : List Char → Option (List String)
  | [] => some []
  | c :: cs =>
      match spec.flags.lookup (String.ofList ['-', c]), letters? spec cs with
      | some name, some names => some (name :: names)
      | _, _ => none

/-- The flags that an argument without a value stands for. -/
def flags? (spec : Spec) (arg : String) : Option (List String) :=
  match spec.flags.lookup arg with
  | some name => some [name]
  | none =>
      match arg.toList with
      | '-' :: '-' :: _ => none
      | '-' :: cs => letters? spec cs
      | _ => none

/-- The name of a value option and the value behind its equals sign. -/
def attached? (spec : Spec) (arg : List Char) : Option (String × String) :=
  let name := arg.takeWhile (· != '=')
  match arg.dropWhile (· != '=') with
  | _ :: value => (spec.values.lookup (String.ofList name)).map (·, String.ofList value)
  | [] => none

/-- Sorts arguments into options and others; nothing if an option is unknown or
a value is missing or out of place. -/
def read? (spec : Spec) : List String → Option Arguments
  | [] => some empty
  | arg :: rest =>
      if arg == "--" then some ⟨[], [], rest⟩
      else if !isOption arg.toList then
        if spec.mixed then (read? spec rest).map (addOther arg) else some ⟨[], [], arg :: rest⟩
      else
        match attached? spec arg.toList with
        | some (name, value) => (read? spec rest).map (addValue name value)
        | none =>
            match spec.values.lookup arg with
            | some name =>
                match rest with
                | [] => none
                | value :: rest => (read? spec rest).map (addValue name value)
            | none =>
                match flags? spec arg with
                | some names => (read? spec rest).map (addFlags names)
                | none => none

end Arguments

end Lox.Cli
