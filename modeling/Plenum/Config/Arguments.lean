namespace Plenum.Config

structure Settings where
  listenAddress : String
  keyFile : Option String
  laoFile : Option String
  maxLineLength : Nat
  deriving DecidableEq, Repr

inductive ArgumentError
  | unknownArgument
  | invalidValue
  | valueValidation
  | argumentConflict
  | tooManyValues
  | displayHelp
  deriving DecidableEq, Repr

def ArgumentError.text : ArgumentError → String
  | unknownArgument => "unexpected argument found"
  | invalidValue => "a value is required for an option but none was supplied"
  | valueValidation => "invalid value for --max-line-len"
  | argumentConflict => "an option cannot be used multiple times"
  | tooManyValues => "unexpected value for --help"
  | displayHelp => "help was asked for"

-- The options that take a value.
inductive Setting
  | listenAddress
  | keyFile
  | laoFile
  | maxLineLength
  deriving DecidableEq, Repr

namespace Setting

def all : List Setting :=
  [listenAddress, keyFile, laoFile, maxLineLength]

def name : Setting → String
  | listenAddress => "listen-addr"
  | keyFile => "server-key-file"
  | laoFile => "lao-file"
  | maxLineLength => "max-line-len"

-- The variable of the environment that stands in for the option.
def environmentName? : Setting → Option String
  | listenAddress => some "POP_LISTEN_ADDR"
  | keyFile => some "POP_SERVER_KEY_FILE"
  | laoFile => some "POP_LAO_FILE"
  | maxLineLength => none

def ofName? (s : String) : Option Setting :=
  all.find? (·.name = s)

end Setting

-- What is shown when help is asked for.
def Settings.usage : String :=
  "Usage: plenum [OPTIONS]

Options:
      --listen-addr <ADDRESS>    Where to listen, as host:port [env: POP_LISTEN_ADDR] [default: 127.0.0.1:9000]
      --server-key-file <FILE>   The seed of the server; made if it is missing [env: POP_SERVER_KEY_FILE]
      --lao-file <FILE>          The LAOs, their organizers and attendees [env: POP_LAO_FILE]
      --max-line-len <BYTES>     The longest request line [default: 1048576]
  -h, --help                     Print help"

-- A number of 64 bits, possibly with a plus in front.
def number? (s : String) : Option Nat :=
  let ds := match s.toList with
    | '+' :: ds => ds
    | ds => ds
  if ds ≠ [] ∧ ds.all Char.isDigit ∧ Nat.ofDigitChars 10 ds 0 < UInt64.size then
    some (Nat.ofDigitChars 10 ds 0)
  else none

-- The values that were accepted, and an option that still waits: for its value, or for its value
-- to be checked. That comes with the next known option or the end, so that an unknown argument is
-- noticed first.
structure Arguments where
  given : List (Setting × String)
  waiting : Option (Setting × Option String)

namespace Arguments

def check (s : Setting) (value : String) : Except ArgumentError Unit :=
  match s with
  | .listenAddress => .ok ()
  | .keyFile | .laoFile => if value = "" then .error .invalidValue else .ok ()
  | .maxLineLength => if (number? value).isSome then .ok () else .error .valueValidation

def accept (a : Arguments) (s : Setting) (value : String) : Except ArgumentError Arguments := do
  if (a.given.lookup s).isSome then throw .argumentConflict
  check s value
  return { a with given := (s, value) :: a.given }

-- Settles the option that waits.
def settle (a : Arguments) : Except ArgumentError Arguments :=
  match a.waiting with
  | none => .ok a
  | some (_, none) => .error .invalidValue
  | some (s, some value) => ({ a with waiting := none } : Arguments).accept s value

-- The name and the attached value of an argument after its two dashes.
def splitValue (cs : List Char) : String × Option String :=
  match cs.dropWhile (· ≠ '=') with
  | [] => (String.ofList cs, none)
  | _ :: value => (String.ofList (cs.takeWhile (· ≠ '=')), some (String.ofList value))

def takeOption (a : Arguments) (cs : List Char) : Except ArgumentError Arguments := do
  let (name, value) := splitValue cs
  if name = "help" then
    if value.isSome then throw .tooManyValues
    let _ ← a.settle
    throw .displayHelp
  match Setting.ofName? name with
  | none => throw .unknownArgument
  | some s =>
    let a ← a.settle
    match value with
    | some v => a.accept s v
    | none => return { a with waiting := some (s, none) }

-- An argument that is not an option: the value that is waited for.
def takeValue (a : Arguments) (value : String) : Except ArgumentError Arguments :=
  match a.waiting with
  | some (s, none) => .ok { a with waiting := some (s, some value) }
  | _ => .error .unknownArgument

-- After two dashes alone everything is an argument of its own, and there are none.
def takeAll (a : Arguments) : List String → Except ArgumentError Arguments
  | [] => a.settle
  | arg :: rest =>
    match arg.toList with
    | ['-', '-'] => if rest = [] then a.settle else .error .unknownArgument
    | '-' :: '-' :: cs => do
      let a ← a.takeOption cs
      takeAll a rest
    | ['-'] => do
      let a ← a.takeValue arg
      takeAll a rest
    | '-' :: c :: _ => do
      if c ≠ 'h' then throw .unknownArgument
      let _ ← a.settle
      throw .displayHelp
    | _ => do
      let a ← a.takeValue arg
      takeAll a rest

-- Fills in from the environment what was not given.
def takeEnvironment (a : Arguments) (environment : List (String × String)) :
    Except ArgumentError Arguments :=
  Setting.all.foldlM (fun a s =>
    match a.given.lookup s, s.environmentName?.bind fun v => environment.lookup v with
    | none, some value => a.accept s value
    | _, _ => .ok a) a

def settings (a : Arguments) : Settings where
  listenAddress := (a.given.lookup .listenAddress).getD "127.0.0.1:9000"
  keyFile := a.given.lookup .keyFile
  laoFile := a.given.lookup .laoFile
  maxLineLength := ((a.given.lookup .maxLineLength).bind number?).getD 1048576

end Arguments

-- The host and the port of the address, divided by its last colon.
def Settings.hostAndPort? (s : Settings) : Option (String × UInt16) :=
  match (s.listenAddress.splitOn ":").reverse with
  | port :: part :: parts => do
    let n ← number? port
    if n < UInt16.size then some (String.intercalate ":" (part :: parts).reverse, .ofNat n) else none
  | _ => none

-- Reads the arguments after the program's name and the variables of the environment.
def Settings.read (arguments : List String) (environment : List (String × String)) :
    Except ArgumentError Settings := do
  let a ← Arguments.takeAll ⟨[], none⟩ arguments
  let a ← a.takeEnvironment environment
  return a.settings

end Plenum.Config
