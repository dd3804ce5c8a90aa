/-!
# Options of the command line

An option has a long name, after two hyphens, and a letter, after one. Letters can be bundled behind
one hyphen. The value of an option is the rest of the bundle, or what follows an equals sign after
the long name, or else the next argument. Two hyphens alone end the options; what is no option is
kept apart, in order. No option may be given twice.
-/

namespace TopDown.CommandLine

/-- An option. -/
inductive Switch where
  /-- The language to parse. -/
  | grammar
  /-- The rule to start from. -/
  | rule
  /-- Show the grammar. -/
  | dump
  /-- Show decisions. -/
  | verbose
  /-- Show how the program is used. -/
  | help
deriving DecidableEq

namespace Switch

/-- All options, in the order in which they are explained. -/
def all : List Switch := [.grammar, .rule, .dump, .verbose, .help]

/-- The long name. -/
def name : Switch → String
  | .grammar => "grammar"
  | .rule => "rule"
  | .dump => "dump"
  | .verbose => "verbose"
  | .help => "help"

/-- The letter. -/
def letter : Switch → Char
  | .grammar => 'g'
  | .rule => 'r'
  | .dump => 'd'
  | .verbose => 'v'
  | .help => 'h'

/-- Whether the option has a value. -/
def takesValue : Switch → Bool
  | .grammar | .rule => true
  | .dump | .verbose | .help => false

/-- The option with the given letter. -/
def ofLetter? (c : Char) : Option Switch := all.find? (·.letter == c)

/-- The option with the given long name; a single letter is taken for the letter. -/
def ofName? (name : List Char) : Option Switch :=
  match name with
  | [c] => ofLetter? c
  | _ => all.find? (·.name.toList == name)

end Switch

/-- What is wrong with the arguments. The name is as it was typed. -/
inductive OptionError where
  /-- There is no such option. -/
  | unrecognized (name : String)
  /-- The option needs a value. -/
  | argumentMissing (name : String)
  /-- The option has no value. -/
  | unexpectedArgument (name : String)
  /-- The option was given twice. -/
  | duplicated (option : Switch)
deriving DecidableEq

/-- The error in words. -/
def OptionError.message : OptionError → String
  | .unrecognized name => s!"Unrecognized option: '{name}'"
  | .argumentMissing name => s!"Argument to option '{name}' missing"
  | .unexpectedArgument name => s!"Option '{name}' does not take an argument"
  | .duplicated option => s!"Option '{option.name}' given more than once"

/-- The arguments, sorted out. -/
structure Arguments where
  /-- The options with their values, the last first. -/
  given : List (Switch × Option String) := []
  /-- The other arguments, the last first. -/
  free : List String := []

/-- An argument that begins with a hyphen, as far as it goes by itself. -/
structure Word where
  /-- The options with their values, the last first. -/
  given : List (Switch × Option String)
  /-- An option whose value is the next argument, with its name as it was typed. -/
  open? : Option (Switch × String) := none

/-- Letters behind one hyphen, after options already read, the last first. -/
def readLetters (given : List (Switch × Option String)) : List Char → Except OptionError Word
  | [] => .ok ⟨given, none⟩
  | c :: rest =>
    match Switch.ofLetter? c with
    | none => .error (.unrecognized c.toString)
    | some option =>
      if !option.takesValue then readLetters ((option, none) :: given) rest
      else if rest.isEmpty then .ok ⟨given, some (option, c.toString)⟩
      else .ok ⟨(option, some (String.ofList rest)) :: given, none⟩

/-- A long name, with its value if there is an equals sign. -/
def readLong (text : List Char) : Except OptionError Word :=
  let name := text.takeWhile (· != '=')
  let shown := String.ofList name
  let value? :=
    match text.drop name.length with
    | [] => none
    | _ :: value => some (String.ofList value)
  match Switch.ofName? name with
  | none => .error (.unrecognized shown)
  | some option =>
    match option.takesValue, value? with
    | false, none => .ok ⟨[(option, none)], none⟩
    | false, some _ => .error (.unexpectedArgument shown)
    | true, some value => .ok ⟨[(option, some value)], none⟩
    | true, none => .ok ⟨[], some (option, shown)⟩

/-- Sorts out the arguments, after those already sorted. -/
def readArguments (a : Arguments) : List String → Except OptionError Arguments
  | [] => .ok a
  | argument :: rest =>
    let word :=
      match argument.toList with
      | ['-', '-'] => none
      | '-' :: '-' :: name => some (readLong name)
      | '-' :: c :: letters => some (readLetters [] (c :: letters))
      | _ => none
    match word with
    | none =>
      if argument = "--" then .ok { a with free := rest.reverse ++ a.free }
      else readArguments { a with free := argument :: a.free } rest
    | some (.error e) => .error e
    | some (.ok ⟨given, none⟩) => readArguments { a with given := given ++ a.given } rest
    | some (.ok ⟨given, some (option, name)⟩) =>
      match rest with
      | [] => .error (.argumentMissing name)
      | value :: rest =>
        readArguments { a with given := (option, some value) :: given ++ a.given } rest

/-- The first option that was given twice. -/
def Arguments.duplicated? (a : Arguments) : Option Switch :=
  Switch.all.find? fun option => 1 < (a.given.filter (·.1 = option)).length

/-- What the arguments ask for. -/
structure Options where
  /-- The language to parse. -/
  grammar : Option String
  /-- The rule to start from. -/
  rule : Option String
  /-- Whether to show the grammar. -/
  dump : Bool
  /-- Whether to show decisions. -/
  verbose : Bool
  /-- Whether to show how the program is used. -/
  help : Bool
  /-- The other arguments. -/
  free : List String

/-- What the arguments ask for, unless something is wrong with them. -/
def Options.parse (arguments : List String) : Except OptionError Options :=
  match readArguments {} arguments with
  | .error e => .error e
  | .ok a =>
    match a.duplicated? with
    | some option => .error (.duplicated option)
    | none =>
      let value (option : Switch) : Option String := (a.given.lookup option).join
      let isGiven (option : Switch) : Bool := (a.given.lookup option).isSome
      .ok ⟨value .grammar, value .rule, isGiven .dump, isGiven .verbose, isGiven .help,
        a.free.reverse⟩

end TopDown.CommandLine
