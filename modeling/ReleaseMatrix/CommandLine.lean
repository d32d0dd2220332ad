/-
  Command lines — what a run is asked to do.

      --working-directory DIR    where the manifest is, and the configuration is looked for
      --constraint TEXT          the requirement, in place of the manifest's
      --include-future[ BOOL]
      --include-unsupported[ BOOL]
      --support-policy POLICY
      --catalog-url URL
      --catalog-file FILE
      --output FORMAT
      -v, --verbose    -h, --help    -V, --version

  A value is the next argument, unless that begins with `-`, or stands behind `=`.  No option may
  be given twice.  What an option's value is worth is only seen when the next option comes or the
  arguments end, and by then an argument that is no option at all has been complained about.

  An option that is not given may be set in the environment instead, as `INPUT_` and its name.

  1. **Arguments** — `Argument.ofText`, and what each does to what was read so far: `Reader.step`.
  2. **Reading** — `CommandLine.read`.
-/
import ReleaseMatrix.Report
import ReleaseMatrix.Settings

namespace ReleaseMatrix

/-- What a run is asked to do. -/
structure CommandLine where
  workingDirectory : String
  /-- The requirement, if it is not the manifest's. -/
  constraint : Option String
  overrides : Overrides
  format : Format
  verbose : Bool
deriving DecidableEq, Repr

namespace CommandLine

/-- Why no run follows: the command line is faulty, or it asks for something else. -/
inductive Rejection where
  | unknownArgument
  /-- A value is missing or not one of those possible. -/
  | invalidValue
  | unknownPolicy
  /-- An option is given twice, or two of them exclude each other. -/
  | conflict
  /-- A flag has a value. -/
  | surplusValue
  | help
  | version
deriving DecidableEq, Repr

/-! ## Options -/

/-- The options that have a value. -/
inductive Key where
  | workingDirectory
  | constraint
  | includeFuture
  | includeUnsupported
  | supportPolicy
  | catalogUrl
  | catalogFile
  | output
deriving DecidableEq, Repr

namespace Key

/-- The options, in the order in which the environment is asked. -/
def all : List Key :=
  [workingDirectory, constraint, includeFuture, includeUnsupported, supportPolicy, catalogUrl,
    catalogFile, output]

/-- The name of an option, without the dashes. -/
def name : Key → String
  | workingDirectory => "working-directory"
  | constraint => "constraint"
  | includeFuture => "include-future"
  | includeUnsupported => "include-unsupported"
  | supportPolicy => "support-policy"
  | catalogUrl => "catalog-url"
  | catalogFile => "catalog-file"
  | output => "output"

/-- The variable that stands in for an option. -/
def fallback? : Key → Option String
  | output => none
  | key => some ("INPUT_" ++ key.name.map Char.toUpper)

/-- The value of an option that stands without one. -/
def impliedValue? : Key → Option String
  | includeFuture | includeUnsupported => some "true"
  | _ => none

/-- The option of a name. -/
def named? (name : String) : Option Key := all.find? (·.name == name)

end Key

/-- The options that have none. -/
inductive Flag where
  | verbose
  | help
  | version
deriving DecidableEq, Repr

namespace Flag

/-- The flags. -/
def all : List Flag := [verbose, help, version]

/-- The name of a flag, without the dashes. -/
def name : Flag → String
  | verbose => "verbose"
  | help => "help"
  | version => "version"

/-- The letter of a flag. -/
def letter : Flag → Char
  | verbose => 'v'
  | help => 'h'
  | version => 'V'

/-- The flag of a name. -/
def named? (name : String) : Option Flag := all.find? (·.name == name)

/-- The flag of a letter. -/
def lettered? (c : Char) : Option Flag := all.find? (·.letter == c)

end Flag

/-! ## Values -/

/-- What has been given so far. -/
structure Given where
  workingDirectory : Option String
  constraint : Option String
  includeFuture : Option Bool
  includeUnsupported : Option Bool
  policy : Option SupportPolicy
  catalogUrl : Option String
  catalogFile : Option String
  format : Option Format
  verbose : Bool
deriving DecidableEq, Repr

namespace Given

/-- Nothing. -/
def nothing : Given := ⟨none, none, none, none, none, none, none, none, false⟩

/-- An option has been given. -/
def has (g : Given) : Key → Bool
  | .workingDirectory => g.workingDirectory.isSome
  | .constraint => g.constraint.isSome
  | .includeFuture => g.includeFuture.isSome
  | .includeUnsupported => g.includeUnsupported.isSome
  | .supportPolicy => g.policy.isSome
  | .catalogUrl => g.catalogUrl.isSome
  | .catalogFile => g.catalogFile.isSome
  | .output => g.format.isSome

/-- A path is not empty. -/
def path (value : String) : Except Rejection String :=
  if value.isEmpty then .error .invalidValue else .ok value

/-- A truth value. -/
def truth (value : String) : Except Rejection Bool :=
  if value = "true" then .ok true
  else if value = "false" then .ok false
  else .error .invalidValue

/-- A policy. -/
def policyOf (value : String) : Except Rejection SupportPolicy :=
  (SupportPolicy.read value).mapError fun _ => .unknownPolicy

/-- A format. -/
def formatOf (value : String) : Except Rejection Format :=
  match Format.named? value with
  | some f => .ok f
  | none => .error .invalidValue

/-- Takes the value of an option that has not been given. -/
def assign (g : Given) (key : Key) (value : String) : Except Rejection Given := do
  match key with
  | .workingDirectory => return { g with workingDirectory := some (← path value) }
  | .constraint => return { g with constraint := some value }
  | .includeFuture => return { g with includeFuture := some (← truth value) }
  | .includeUnsupported => return { g with includeUnsupported := some (← truth value) }
  | .supportPolicy => return { g with policy := some (← policyOf value) }
  | .catalogUrl => return { g with catalogUrl := some value }
  | .catalogFile => return { g with catalogFile := some (← path value) }
  | .output => return { g with format := some (← formatOf value) }

/-- Takes the value of an option, or the implied one. -/
def give (g : Given) (key : Key) (value? : Option String) : Except Rejection Given :=
  match value?.or key.impliedValue? with
  | none => .error .invalidValue
  | some value => if g.has key then .error .conflict else g.assign key value

/-- Takes a flag. -/
def raise (g : Given) : Flag → Except Rejection Given
  | .verbose => if g.verbose then .error .conflict else .ok { g with verbose := true }
  | .help => .error .help
  | .version => .error .version

end Given

/-! ## Arguments -/

/-- The form of an argument. -/
inductive Argument where
  /-- The two dashes behind which no options are. -/
  | terminator
  | long (name : String) (value? : Option String)
  | short (letters : List Char)
  | plain (text : String)
deriving DecidableEq, Repr

/-- The form of an argument. -/
def Argument.ofText (text : String) : Argument :=
  match text.toList with
  | ['-', '-'] => .terminator
  | '-' :: '-' :: cs =>
    let name := String.ofList (cs.takeWhile (· != '='))
    match cs.dropWhile (· != '=') with
    | [] => .long name none
    | _ :: value => .long name (some (String.ofList value))
  | '-' :: c :: cs => .short (c :: cs)
  | _ => .plain text

/-- What has been read so far. -/
structure Reader where
  given : Given
  /-- The last option and its value, if these still have to be taken. -/
  pending : Option (Key × Option String)
deriving DecidableEq, Repr

namespace Reader

/-- Takes what is pending. -/
def settle (r : Reader) : Except Rejection Given :=
  match r.pending with
  | none => .ok r.given
  | some (key, value?) => r.given.give key value?

/-- Takes a flag, after what is pending. -/
def raise (r : Reader) (flag : Flag) : Except Rejection Reader := do
  return ⟨← (← r.settle).raise flag, none⟩

/-- Takes the flag of a letter. -/
def raiseLetter (r : Reader) (c : Char) : Except Rejection Reader :=
  match Flag.lettered? c with
  | some flag => r.raise flag
  | none => .error .unknownArgument

/-- Takes an option, after what is pending; a value behind `=` is taken at once. -/
def start (r : Reader) (key : Key) (value? : Option String) : Except Rejection Reader := do
  let given ← r.settle
  match value? with
  | none => return ⟨given, some (key, none)⟩
  | some value => return ⟨← given.give key (some value), none⟩

/-- Takes one argument that is not the terminator. -/
def step (r : Reader) : Argument → Except Rejection Reader
  | .terminator => .error .unknownArgument
  | .long name value? =>
    match Key.named? name, Flag.named? name, value? with
    | some key, _, _ => r.start key value?
    | none, some flag, none => r.raise flag
    | none, some _, some _ => .error .surplusValue
    | none, none, _ => .error .unknownArgument
  | .short letters => letters.foldlM raiseLetter r
  | .plain text =>
    match r.pending with
    | some (key, none) => .ok { r with pending := some (key, some text) }
    | _ => .error .unknownArgument

/-- Takes the arguments one after the other; nothing may follow the terminator. -/
def run (r : Reader) : List String → Except Rejection Given
  | [] => r.settle
  | text :: rest =>
    match Argument.ofText text with
    | .terminator => if rest.isEmpty then r.settle else .error .unknownArgument
    | argument => do (← r.step argument).run rest

end Reader

/-! ## Reading -/

/-- The variables of the environment. -/
abbrev Environment := String → Option String

/-- What the environment gives for an option that is not given. -/
def fallBack (env : Environment) (g : Given) (key : Key) : Except Rejection Given :=
  match key.fallback?.bind env with
  | some value => if g.has key then .ok g else g.assign key value
  | none => .ok g

/-- What all in all is given; of a catalog's URL and its file only one may be. -/
def ofGiven (g : Given) : Except Rejection CommandLine :=
  if g.catalogUrl.isSome && g.catalogFile.isSome then .error .conflict
  else
    .ok
      { workingDirectory := g.workingDirectory.getD "."
        constraint := g.constraint
        overrides :=
          ⟨g.includeFuture, g.includeUnsupported, g.policy, g.catalogUrl, g.catalogFile⟩
        format := g.format.getD .github
        verbose := g.verbose }

/-- **Reading a command line** in an environment. -/
def read (args : List String) (env : Environment) : Except Rejection CommandLine := do
  let given ← (Reader.mk .nothing none).run args
  ofGiven (← Key.all.foldlM (fallBack env) given)

end CommandLine
end ReleaseMatrix
