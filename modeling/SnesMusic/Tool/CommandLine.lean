import SnesMusic.Tool.Argument
import SnesMusic.Tool.Build
import SnesMusic.Tool.Extract
import SnesMusic.Tool.Inspect

/-!
# Command lines

Arguments as options by their long or short names and values without a name, and the three commands
that they describe.
-/
namespace SnesMusic.Tool

/-- Why a command line is refused. -/
inductive UsageFault where
  | missingCommand
  | unknownCommand (name : String)
  | unknownOption (name : String)
  | missingValue (option : String)
  | surplusValue (option : String)
  | repeated (option : String)
  | missingArgument (name : String)
  | surplusArgument (value : String)
  | invalidValue (option value reason : String)
  deriving DecidableEq, Repr

def UsageFault.message : UsageFault → String
  | .missingCommand => "expected a command: inspect, extract or build"
  | .unknownCommand name => s!"unknown command `{name}`"
  | .unknownOption name => s!"unknown option `{name}`"
  | .missingValue option => s!"option `{option}` needs a value"
  | .surplusValue option => s!"option `{option}` takes no value"
  | .repeated option => s!"option `{option}` is given more than once"
  | .missingArgument name => s!"missing argument {name}"
  | .surplusArgument value => s!"unexpected argument `{value}`"
  | .invalidValue option value reason => s!"invalid value `{value}` for `{option}`: {reason}"

/-! ### Options -/

/-- How often an option may be given, and whether with a value. -/
inductive Arity where
  | flag
  | single
  | many
  deriving DecidableEq, Repr

/-- An option that a command knows. -/
structure Known where
  long : String
  short : Option Char := none
  arity : Arity
  deriving DecidableEq, Repr

/-- Options with their values, and values without a name, in the order they were given. -/
structure Given where
  options : List (String × String) := []
  arguments : List String := []
  deriving DecidableEq, Repr

namespace Given

def values (g : Given) (option : String) : List String :=
  (g.options.filter (·.1 == option)).map (·.2)

def has (g : Given) (option : String) : Bool := g.options.any (·.1 == option)

def value? (g : Given) (option : String) : Option String := (g.values option).head?

/-- Adds an option. -/
def add (g : Given) (known : Known) (value : String) : Except UsageFault Given :=
  if known.arity ≠ .many && g.has known.long then .error (.repeated known.long)
  else .ok { g with options := g.options ++ [(known.long, value)] }

end Given

/-- What an argument can begin with. -/
inductive Form where
  | argument
  | long (name : String) (value : Option String)
  | short (letters : List Char)
  /-- Only values without a name follow. -/
  | divider
  deriving DecidableEq, Repr

def Form.of (argument : String) : Form :=
  match argument.toList with
  | ['-', '-'] => .divider
  | '-' :: '-' :: name =>
    match Text.cutAt '=' name with
    | none => .long (String.ofList name) none
    | some (name, value) => .long (String.ofList name) (some (String.ofList value))
  | '-' :: letter :: letters => .short (letter :: letters)
  | _ => .argument

/-- Reads short options that share a hyphen. The value of the last one may follow at once; the
option that still waits for its value, if any, is given back. -/
def readLetters (known : List Known) (g : Given) :
    List Char → Except UsageFault (Given × Option Known)
  | [] => .ok (g, none)
  | letter :: rest =>
    match known.find? (·.short == some letter) with
    | none => .error (.unknownOption (String.ofList ['-', letter]))
    | some k =>
      if k.arity = .flag then do readLetters known (← g.add k "") rest
      else match rest with
        | [] => .ok (g, some k)
        | '=' :: value => do return (← g.add k (String.ofList value), none)
        | value => do return (← g.add k (String.ofList value), none)

/-- Reads arguments; `waiting` is the option that the next one is the value of. -/
def readArguments (known : List Known) (waiting : Option Known) (g : Given) :
    List String → Except UsageFault Given
  | [] =>
    match waiting with
    | some k => .error (.missingValue k.long)
    | none => .ok g
  | argument :: rest =>
    match waiting, Form.of argument with
    | some k, .argument => do readArguments known none (← g.add k argument) rest
    | some k, _ => .error (.missingValue k.long)
    | none, .argument =>
      readArguments known none { g with arguments := g.arguments ++ [argument] } rest
    | none, .divider => .ok { g with arguments := g.arguments ++ rest }
    | none, .short letters => do
      let (g, waiting) ← readLetters known g letters
      readArguments known waiting g rest
    | none, .long name value =>
      match known.find? (·.long == name) with
      | none => .error (.unknownOption ("--" ++ name))
      | some k =>
        match decide (k.arity = .flag), value with
        | true, none => do readArguments known none (← g.add k "") rest
        | true, some _ => .error (.surplusValue name)
        | false, some value => do readArguments known none (← g.add k value) rest
        | false, none => readArguments known (some k) g rest

/-! ### Commands -/

inductive Command where
  | inspect (o : Inspect.Options)
  | extract (o : Extract.Options)
  | build (o : Build.Options)
  deriving DecidableEq, Repr

/-- A command and whether details are shown. -/
structure Invocation where
  verbose : Bool
  command : Command
  deriving DecidableEq, Repr

def Command.script : Command → Script Unit
  | .inspect o => Tool.inspect o
  | .extract o => Tool.extract o
  | .build o => Tool.build o

/-- The names of files are not empty. -/
def fileName (name value : String) : Except UsageFault String :=
  if value.isEmpty then .error (.missingValue name) else .ok value

/-- The only argument. -/
def soleArgument (name : String) : List String → Except UsageFault String
  | [] => .error (.missingArgument name)
  | [value] => fileName name value
  | _ :: value :: _ => .error (.surplusArgument value)

/-- The values of an option with two parts. -/
def readEach {α : Type} (option : String) (read : String → Except ArgumentFault α) :
    List String → Except UsageFault (List α)
  | [] => .ok []
  | value :: rest =>
    match read value with
    | .error fault => .error (.invalidValue option value fault.message)
    | .ok a => (readEach option read rest).map (a :: ·)

def bankLimits (g : Given) : Except UsageFault (List (Bank × Nat)) :=
  readEach "limit" bankLimit (g.values "limit")

def knownLimit : Known := { long := "limit", arity := .many }

def knownInclude : Known := { long := "include", short := some 'i', arity := .many }

namespace Inspect

def known : List Known :=
  [knownInclude, { long := "exclude", short := some 'e', arity := .many }, knownLimit]

def Options.ofGiven (g : Given) : Except UsageFault Options := do
  let input ← soleArgument "INPUT" g.arguments
  let filters : Filters := { includes := g.values "include", excludes := g.values "exclude" }
  return { input, filters, limits := ← bankLimits g }

end Inspect

namespace Extract

def known : List Known := [
  { long := "outdir", short := some 'o', arity := .single }, knownInclude,
  { long := "flat", short := some 'f', arity := .flag }, { long := "raw", arity := .flag },
  { long := "no-json", arity := .flag }, knownLimit]

def Options.ofGiven (g : Given) : Except UsageFault Options := do
  let input ← soleArgument "INPUT" g.arguments
  let folder ← fileName "outdir" ((g.value? "outdir").getD "music")
  return {
    input, folder
    includes := g.values "include"
    flat := g.has "flat"
    raw := g.has "raw"
    state := !g.has "no-json"
    limits := ← bankLimits g }

end Extract

namespace Build

def known : List Known := [
  { long := "output", short := some 'o', arity := .single },
  { long := "bank", short := some 'b', arity := .single },
  { long := "replace", arity := .flag }, { long := "sample", arity := .many },
  { long := "strict", arity := .flag }, { long := "ignore-errors", arity := .flag }, knownLimit]

/-- The bank of an option, in small letters. -/
def bankOption (option : String) : Except UsageFault Bank :=
  match Bank.ofOption? option with
  | some bank => .ok bank
  | none => .error (.invalidValue "bank" option "no such bank")

def Options.ofGiven (g : Given) : Except UsageFault Options := do
  match g.arguments with
  | [] => throw (.missingArgument "ROM")
  | [_] => throw (.missingArgument "INPUTS")
  | input :: songs =>
    let input ← fileName "ROM" input
    let songs ← songs.mapM (fileName "INPUTS")
    let output ← (g.value? "output").mapM (fileName "output")
    let bank ← bankOption ((g.value? "bank").getD Bank.overworld.option)
    let samples ← readEach "sample" sampleFile (g.values "sample")
    return {
      input, songs, output, bank, samples
      replace := g.has "replace"
      strict := g.has "strict"
      ignoreErrors := g.has "ignore-errors"
      limits := ← bankLimits g }

end Build

/-- Reads a command with its arguments. -/
def readCommand (name : String) (arguments : List String) : Except UsageFault Command := do
  let given (known : List Known) := readArguments known none {} arguments
  match name with
  | "inspect" => return .inspect (← Inspect.Options.ofGiven (← given Inspect.known))
  | "extract" => return .extract (← Extract.Options.ofGiven (← given Extract.known))
  | "build" => return .build (← Build.Options.ofGiven (← given Build.known))
  | _ => throw (.unknownCommand name)

/-- Reads a command line. The option for details stands before the command. -/
def Invocation.ofArguments : List String → Except UsageFault Invocation
  | [] => .error .missingCommand
  | first :: rest =>
    if first = "-v" || first = "--verbose" then
      match rest with
      | [] => .error .missingCommand
      | name :: arguments =>
        (readCommand name arguments).map fun command => { verbose := true, command }
    else (readCommand first rest).map fun command => { verbose := false, command }

end SnesMusic.Tool
