import RegisterMigration.Command.Invocation

/-!
# Arguments

The words after the program's name: the name of a command, its files and other operands,
and options, which start with two dashes and may stand anywhere after the command. An
option's value is the next word, or follows an equals sign.
-/

namespace RegisterMigration

/-- Arguments that name no invocation. -/
inductive UsageError where
  | noCommand
  | unknownCommand (word : String)
  | unknownOption (word : String)
  | noValue (option : String)
  | missingOption (option : String)
  | operands (expected : String)
  | number (option : String) (e : Text.NumberError)
  deriving Repr

/-- The wording of each cause. -/
def UsageError.message : UsageError → String
  | noCommand => "a command is required: validate, check, register, translate or compiler-spec"
  | unknownCommand word => s!"unrecognized command '{word}'"
  | unknownOption word => s!"unexpected argument '{word}'"
  | noValue option => s!"a value is required for '--{option}'"
  | missingOption option => s!"the option '--{option}' is required"
  | operands expected => s!"expected the operands {expected}"
  | number option e => s!"invalid value for '--{option}': {e.message}"

/-- Arguments sorted by what they are. -/
structure Arguments where
  operands : List String := []
  options : List (String × String) := []
  /-- Options without a value. -/
  flags : List String := []
  /-- How often more log records were asked for. -/
  verbosity : Nat := 0
  deriving Repr

namespace Arguments

/-- The options that take a value. -/
def valued : List String :=
  ["format", "space", "offset", "length", "register", "mask", "value"]

/-- The options without a value. -/
def plain : List String :=
  ["base"]

/-- The name of an option, and its value if that follows an equals sign. -/
def splitOption (word : List Char) : String × Option String :=
  match word.dropWhile (· != '=') with
  | [] => (String.ofList word, none)
  | _ :: v => (String.ofList (word.takeWhile (· != '=')), some (String.ofList v))

/-- Sorts arguments. -/
def sort : List String → Except UsageError Arguments
  | [] => .ok {}
  | word :: words =>
    match word.toList with
    | '-' :: '-' :: option =>
      match splitOption option with
      | (name, some v) =>
        if valued.contains name then
          (sort words).map fun a => { a with options := (name, v) :: a.options }
        else .error (.unknownOption word)
      | (name, none) =>
        if name == "verbose" then
          (sort words).map fun a => { a with verbosity := a.verbosity + 1 }
        else if plain.contains name then
          (sort words).map fun a => { a with flags := name :: a.flags }
        else if valued.contains name then
          match words with
          | v :: rest => (sort rest).map fun a => { a with options := (name, v) :: a.options }
          | [] => .error (.noValue name)
        else .error (.unknownOption word)
    | '-' :: 'v' :: more =>
      if more.all (· == 'v') then
        (sort words).map fun a => { a with verbosity := a.verbosity + 1 + more.length }
      else .error (.unknownOption word)
    | _ => (sort words).map fun a => { a with operands := word :: a.operands }

/-- The value of an option that has to be given. -/
def required (a : Arguments) (option : String) : Except UsageError String :=
  match a.options.lookup option with
  | some v => .ok v
  | none => .error (.missingOption option)

/-- The number that an option has to be given. -/
def requiredNumber (a : Arguments) (option : String) : Except UsageError UInt64 := do
  (Text.readNumber (← a.required option)).mapError (.number option)

/-- The layout that is asked for. -/
def format (a : Arguments) : Format :=
  .ofArgument (a.options.lookup "format")

/-- The invocation that arguments name. -/
def invocation (a : Arguments) : Except UsageError (Invocation String) :=
  match a.operands with
  | ["validate", file] => .ok (.validate file)
  | "validate" :: _ => .error (.operands "FILE")
  | ["check", old, new] => .ok (.check old new a.format)
  | "check" :: _ => .error (.operands "OLD NEW")
  | ["register", old, new] => do
    let offset ← a.requiredNumber "offset"
    let length ← a.requiredNumber "length"
    return .register old new ((a.options.lookup "space").getD "register") offset length a.format
  | "register" :: _ => .error (.operands "OLD NEW")
  | ["translate", old, new] => do
    let register ← a.required "register"
    let mask ← a.required "mask"
    let value ← a.required "value"
    return .value old new register mask value (a.flags.contains "base") a.format
  | "translate" :: _ => .error (.operands "OLD NEW")
  | ["compiler-spec", old, new, id] => .ok (.compilerSpec old new id)
  | "compiler-spec" :: _ => .error (.operands "OLD NEW ID")
  | word :: _ => .error (.unknownCommand word)
  | [] => .error .noCommand

end Arguments

end RegisterMigration
