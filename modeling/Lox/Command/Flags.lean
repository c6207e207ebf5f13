import Lox.Number.Whole
import Lox.Text.Quoted

/-!
# Flags

A command line is flags and then at most one script. A flag has one or two hyphens before its name.
A flag that is on or off may have a value after an equals sign; another one must have a value, there
or as the next argument. Flags end at the first argument that is none, or after `--`. Of a flag that
is given twice the last counts.
-/

namespace Lox

/-- What is wrong with the flags of a command line. -/
inductive FlagMistake
  | form (argument : Text)
  | undefined (name : Text)
  | noArgument (name : Text)
  | value (value name : Text) (mistake : Whole.Mistake)
  | truth (value name : Text)
  deriving DecidableEq, Repr

/-- The wording of what is wrong with a number. -/
def Whole.Mistake.message : Whole.Mistake → Text
  | form => utf8 "parse error"
  | range => utf8 "value out of range"

/-- The wording of what is wrong with the flags of a command line. -/
def FlagMistake.message : FlagMistake → Text
  | form argument => utf8 "bad flag syntax: " ++ argument
  | undefined name => utf8 "flag provided but not defined: -" ++ name
  | noArgument name => utf8 "flag needs an argument: -" ++ name
  | value v name mistake =>
    utf8 "invalid value " ++ Quoted.text v ++ utf8 " for flag -" ++ name ++ utf8 ": " ++
      mistake.message
  | truth v name =>
    utf8 "invalid boolean value " ++ Quoted.text v ++ utf8 " for -" ++ name ++ utf8 ": parse error"

/-- What the flags of a command line say. -/
structure Flags where
  config : Option Text
  logLevel : Text
  noColor : Bool
  maxDepth : Int
  watch : Bool
  tokens : Bool
  tree : Bool
  deriving DecidableEq, Repr

namespace Flags

/-- What no flags say. -/
def initial : Flags := ⟨none, [], false, 0, false, false, false⟩

/-- The settings file unless a flag names one. -/
def defaultConfig : Text := utf8 ".jlox.yaml"

/-- The flags. -/
inductive Flag
  | config
  | logLevel
  | noColor
  | maxDepth
  | watch
  | tokens
  | tree
  deriving DecidableEq, Repr

namespace Flag

/-- All flags by name. -/
def all : List Flag := [tree, config, logLevel, maxDepth, noColor, tokens, watch]

/-- The name of a flag. -/
def name : Flag → String
  | config => "config"
  | logLevel => "log-level"
  | noColor => "no-color"
  | maxDepth => "max-depth"
  | watch => "watch"
  | tokens => "tokens"
  | tree => "ast"

/-- What the usage says that a flag takes. -/
def parameter : Flag → String
  | config | logLevel => " string"
  | maxDepth => " int"
  | noColor | watch | tokens | tree => ""

/-- What the usage says about a flag. -/
def help : Flag → String
  | config => "path to the YAML config file (default \".jlox.yaml\")"
  | logLevel => "log level: debug, info, warn or error"
  | noColor => "disable colored diagnostics"
  | maxDepth => "maximum call depth of guest programs"
  | watch => "run the script again every time it changes"
  | tokens => "print the tokens of the script and exit"
  | tree => "print the syntax tree of the script and exit"

/-- Whether a flag is on or off. -/
def isSwitch : Flag → Bool
  | noColor | watch | tokens | tree => true
  | config | logLevel | maxDepth => false

end Flag

/-- How the command is used. -/
def usage : Text :=
  utf8 "Usage: jlox [flags] [script]\n" ++ Flag.all.flatMap fun f =>
    utf8 "  -" ++ utf8 f.name ++ utf8 f.parameter ++ utf8 "\n    \t" ++ utf8 f.help ++ utf8 "\n"

/-- The truth value that a word means. -/
def truth? (word : Text) : Option Bool :=
  if ["1", "t", "T", "TRUE", "true", "True"].any fun w => utf8 w == word then some true
  else if ["0", "f", "F", "FALSE", "false", "False"].any fun w => utf8 w == word then some false
  else none

/-- Sets a flag to a value. -/
def set (flags : Flags) (f : Flag) (value : Text) : Except FlagMistake Flags :=
  match f with
  | .config => .ok { flags with config := some value }
  | .logLevel => .ok { flags with logLevel := value }
  | .maxDepth =>
    match Whole.signed value with
    | .ok n => .ok { flags with maxDepth := n }
    | .error mistake => .error (.value value (utf8 f.name) mistake)
  | .noColor => switch fun b => { flags with noColor := b }
  | .watch => switch fun b => { flags with watch := b }
  | .tokens => switch fun b => { flags with tokens := b }
  | .tree => switch fun b => { flags with tree := b }
where
  switch (assign : Bool → Flags) : Except FlagMistake Flags :=
    match truth? value with
    | some b => .ok (assign b)
    | none => .error (.truth value (utf8 f.name))

/-- What a command line says. -/
inductive Parsed
  | help
  | mistaken (mistake : FlagMistake)
  | given (flags : Flags) (scripts : List Text)

/-- An argument by its form. -/
inductive Form
  | plain
  | endOfFlags
  | malformed
  | named (name : Text) (value : Option Text)

/-- The name of a flag and what follows an equals sign after it. The sign is not the first
character. -/
def splitValue (body : Text) : Text × Option Text :=
  match body with
  | [] => ([], none)
  | first :: rest =>
    let name := first :: rest.takeWhile (· != 0x3D)
    match rest.dropWhile (· != 0x3D) with
    | _ :: value => (name, some value)
    | [] => (name, none)

/-- The form of an argument. -/
def formOf (argument : Text) : Form :=
  match argument with
  | 0x2D :: 0x2D :: [] => .endOfFlags
  | 0x2D :: 0x2D :: body => named body
  | 0x2D :: b :: rest => named (b :: rest)
  | _ => .plain
where
  named (body : Text) : Form :=
    match body with
    | [] => .malformed
    | b :: _ =>
      if b == 0x2D || b == 0x3D then .malformed
      else
        let (name, value) := splitValue body
        .named name value

/-- The flag with a name. -/
def find? (name : Text) : Option Flag := Flag.all.find? fun f => utf8 f.name == name

/-- What arguments say that follow flags already read. -/
def parseAfter (flags : Flags) : List Text → Parsed
  | [] => .given flags []
  | argument :: rest =>
    match formOf argument with
    | .plain => .given flags (argument :: rest)
    | .endOfFlags => .given flags rest
    | .malformed => .mistaken (.form argument)
    | .named name value =>
      match find? name with
      | none =>
        if name == utf8 "help" || name == utf8 "h" then .help else .mistaken (.undefined name)
      | some f =>
        match value, f.isSwitch with
        | some v, _ =>
          match set flags f v with
          | .ok flags => parseAfter flags rest
          | .error mistake => .mistaken mistake
        | none, true =>
          match set flags f (utf8 "true") with
          | .ok flags => parseAfter flags rest
          | .error mistake => .mistaken mistake
        | none, false =>
          match rest with
          | [] => .mistaken (.noArgument name)
          | v :: rest =>
            match set flags f v with
            | .ok flags => parseAfter flags rest
            | .error mistake => .mistaken mistake

/-- What a command line says. -/
def parse (arguments : List Text) : Parsed := parseAfter initial arguments

end Flags

end Lox
