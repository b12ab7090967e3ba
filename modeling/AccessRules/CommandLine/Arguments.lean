import AccessRules.CommandLine.Help
import AccessRules.Schema
import AccessRules.Text.Number

/-! The arguments of the command line: options common to all commands, then a command with an entity
type and options of its own. An option stands once, and its value behind it or in the same word. -/
namespace AccessRules.CommandLine

inductive Command where
  | compile
  | check (document : String)
  | query (limit : Option Nat)
  deriving DecidableEq, Repr

structure Invocation where
  configuration : Option String
  rules : String
  fixtures : Option String
  type : EntityType
  command : Command
  deriving DecidableEq, Repr

inductive Refusal where
  | usage
  | help (text : String)
  deriving DecidableEq, Repr

structure Flag where
  name : String
  letter : Option Char
  accepts : String → Bool

def isPath (s : String) : Bool := !s.isEmpty

def isCount (s : String) : Bool := (Text.position? s).isSome

def configFlag : Flag := ⟨"config", some 'c', isPath⟩
def rulesFlag : Flag := ⟨"rules", some 'r', isPath⟩
def fixturesFlag : Flag := ⟨"fixtures", none, isPath⟩
def logLevelFlag : Flag := ⟨"log-level", none, fun _ => true⟩
def documentFlag : Flag := ⟨"document", none, fun _ => true⟩
def limitFlag : Flag := ⟨"limit", none, isCount⟩

inductive Word where
  | long (name : String) (value : Option String)
  | short (letter : Char) (attached : List Char)
  | escape
  | plain (s : String)

def Word.ofString (s : String) : Word :=
  match s.toList with
  | ['-', '-'] => escape
  | '-' :: '-' :: cs =>
    match cs.dropWhile (· ≠ '=') with
    | _ :: value => long (String.ofList (cs.takeWhile (· ≠ '='))) (some (String.ofList value))
    | [] => long (String.ofList cs) none
  | '-' :: c :: cs => short c cs
  | _ => plain s

def isValue (s : String) : Bool :=
  match Word.ofString s with
  | .plain _ => true
  | _ => false

structure Given where
  values : List (String × String)
  words : List String

def Given.none : Given := ⟨[], []⟩

def Given.value? (given : Given) (flag : Flag) : Option String := given.values.lookup flag.name

def Given.set (flag : Flag) (value : String) (given : Given) : Except Refusal Given :=
  if (given.value? flag).isNone && flag.accepts value then
    .ok { given with values := (flag.name, value) :: given.values }
  else .error .usage

/-- Goes through words up to the first that is neither an option nor a value; with `wanted` such
words, through these as well. -/
def scan (flags : List Flag) (help : String) (wanted : Nat) (given : Given) :
    List String → Except Refusal (Given × List String)
  | [] => .ok (given, [])
  | word :: rest =>
    match Word.ofString word with
    | .escape =>
      if given.words.length + rest.length ≤ wanted then
        .ok ({ given with words := given.words ++ rest }, [])
      else .error .usage
    | .plain s =>
      if given.words.length < wanted then
        scan flags help wanted { given with words := given.words ++ [s] } rest
      else .ok (given, word :: rest)
    | .long name attached =>
      if name = "help" then .error (if attached.isNone then .help help else .usage)
      else match flags.find? fun flag => flag.name == name, attached, rest with
        | some flag, some value, rest => do scan flags help wanted (← given.set flag value) rest
        | some flag, none, value :: rest =>
          if isValue value then do scan flags help wanted (← given.set flag value) rest
          else .error .usage
        | _, _, _ => .error .usage
    | .short letter attached =>
      if letter = 'h' then .error (.help help)
      else match flags.find? fun flag => flag.letter == some letter, attached, rest with
        | some flag, [], value :: rest =>
          if isValue value then do scan flags help wanted (← given.set flag value) rest
          else .error .usage
        | some flag, c :: cs, rest => do
          let value := String.ofList (if c = '=' then cs else c :: cs)
          scan flags help wanted (← given.set flag value) rest
        | _, _, _ => .error .usage

def readCommand (flags : List Flag) (help : String) (build : Given → Option Command)
    (words : List String) : Except Refusal (EntityType × Command) := do
  let (given, rest) ← scan flags help 1 .none words
  match given.words, rest, build given with
  | [type], [], some command => .ok (⟨type⟩, command)
  | _, _, _ => .error .usage

def namedCommand (general name : String) (words : List String) :
    Except Refusal (EntityType × Command) :=
  match name with
  | "compile" => readCommand [] Help.compile (fun _ => some .compile) words
  | "check" =>
    readCommand [documentFlag] Help.check
      (fun given => (given.value? documentFlag).map .check) words
  | "query" =>
    readCommand [limitFlag] Help.query
      (fun given => some (.query ((given.value? limitFlag).bind Text.position?))) words
  | "help" =>
    match words with
    | [] => .error (.help general)
    | ["compile"] => .error (.help Help.compile)
    | ["check"] => .error (.help Help.check)
    | ["query"] => .error (.help Help.query)
    | _ => .error .usage
  | _ => .error .usage

/-- Reads all words. A variable stands in for the option that names the configuration file. -/
def Invocation.ofWords (environment : List (String × String)) (words : List String) :
    Except Refusal Invocation := do
  let fallback := environment.lookup Help.configurationVariable
  let general := Help.general fallback
  let (given, rest) ← scan [configFlag, rulesFlag, fixturesFlag, logLevelFlag] general 0 .none words
  match rest with
  | [] => .error .usage
  | name :: words => do
    let (type, command) ← namedCommand general name words
    let configuration := (given.value? configFlag).or fallback
    match given.value? rulesFlag with
    | some rules =>
      if configuration.all isPath then
        .ok ⟨configuration, rules, given.value? fixturesFlag, type, command⟩
      else .error .usage
    | none => .error .usage

end AccessRules.CommandLine
