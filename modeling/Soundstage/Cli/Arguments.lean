import Soundstage.Asset.Key

/-!
# The command line

What the arguments of the program ask for. Arguments are read from left to right, and the first
one that has no meaning makes the whole line meaningless. An option takes its value from behind an
equals sign or from the next argument, which must not look like an option itself. Behind a double
dash nothing is an option.
-/

namespace Soundstage.Cli

/-- A task for the program. -/
inductive Task where
  /-- Counts the commands of a script. -/
  | check (script : String)
  /-- Compiles a script and shows its plan. -/
  | plan (script : String) (config : Option String)
  /-- Compiles a script and renders it. -/
  | render (script : String) (config : Option String) (out : String)
  /-- Shows where an asset is kept. -/
  | key (asset : AssetKey) (extension : String)
  deriving DecidableEq, Repr

/-- What a command line asks for. -/
inductive Wish where
  | run (task : Task)
  | version
  | help
  deriving DecidableEq, Repr

/-- Why reading a command line ends early. -/
inductive Stop where
  | meaningless
  | version
  | help
  deriving DecidableEq, Repr

/-- The options that take a value. -/
inductive Parameter where
  | script
  | config
  | out
  | role
  | extension
  deriving DecidableEq, Repr

namespace Parameter

/-- The name of an option, as it is written behind two dashes. -/
def name : Parameter → String
  | script => "script"
  | config => "config"
  | out => "out"
  | role => "namespace"
  | extension => "ext"

/-- Whether an option can have a value: paths are not empty and roles have to exist. -/
def accepts (value : String) : Parameter → Bool
  | script | config | out => value ≠ ""
  | role => (Role.ofName? value).isSome
  | extension => true

end Parameter

/-- The words that tasks begin with. -/
inductive Verb where
  | check
  | plan
  | render
  | key
  deriving DecidableEq, Repr

namespace Verb

/-- How a verb is written. -/
def name : Verb → String
  | check => "check"
  | plan => "plan"
  | render => "render"
  | key => "key"

/-- The verb that is written as a word. -/
def ofName? (word : String) : Option Verb := [check, plan, render, key].find? (·.name = word)

/-- The options of a verb. -/
def parameters : Verb → List Parameter
  | check => [.script]
  | plan => [.script, .config]
  | render => [.script, .out, .config]
  | key => [.role, .extension]

/-- How many words a verb takes that belong to no option. -/
def words : Verb → Nat
  | key => 1
  | _ => 0

end Verb

/-- The form of an argument. -/
inductive Argument where
  | doubleDash
  | letters (flags : List Char)
  | long (name : String) (value : Option String)
  | word (text : String)
  deriving DecidableEq, Repr

/-- The form that an argument has. A dash alone is a word. -/
def Argument.ofText (text : String) : Argument :=
  match text.toList with
  | ['-', '-'] => doubleDash
  | '-' :: '-' :: rest =>
    let name := String.ofList (rest.takeWhile (· ≠ '='))
    match rest.dropWhile (· ≠ '=') with
    | [] => long name none
    | _ :: value => long name (some (String.ofList value))
  | '-' :: flag :: flags => letters (flag :: flags)
  | _ => word text

/-- What has been read of the arguments behind a verb. -/
structure Given where
  values : List (Parameter × String) := []
  words : List String := []
  verbose : Bool := false

namespace Given

/-- Notes that the program is to tell more, which can be said once. -/
def tellMore (g : Given) : Except Stop Given :=
  if g.verbose then .error .meaningless else .ok { g with verbose := true }

/-- Notes the value of an option, which can be given once. -/
def set (g : Given) (parameter : Parameter) (value : String) : Except Stop Given :=
  if (g.values.lookup parameter).isSome || !parameter.accepts value then .error .meaningless
  else .ok { g with values := g.values ++ [(parameter, value)] }

/-- Notes words that belong to no option. -/
def add (g : Given) (verb : Verb) (words : List String) : Except Stop Given :=
  if verb.words < g.words.length + words.length then .error .meaningless
  else .ok { g with words := g.words ++ words }

/-- Notes a flag of one letter. -/
def flag (g : Given) : Char → Except Stop Given
  | 'v' => g.tellMore
  | 'h' => .error .help
  | _ => .error .meaningless

/-- Reads the arguments behind a verb, the first of which is the value of the option `due` if there
is one. -/
def read (verb : Verb) (g : Given) (due : Option Parameter) : List String → Except Stop Given
  | [] => if due.isSome then .error .meaningless else .ok g
  | arg :: rest =>
    match due, Argument.ofText arg with
    | some parameter, .word value => do read verb (← g.set parameter value) none rest
    | some _, _ => .error .meaningless
    | none, .doubleDash => g.add verb rest
    | none, .word text => do read verb (← g.add verb [text]) none rest
    | none, .letters flags => do read verb (← flags.foldlM flag g) none rest
    | none, .long "verbose" none => do read verb (← g.tellMore) none rest
    | none, .long "help" none => .error .help
    | none, .long name value =>
      match verb.parameters.find? (·.name = name), value with
      | some parameter, some value => do read verb (← g.set parameter value) none rest
      | some parameter, none => read verb g (some parameter) rest
      | none, _ => .error .meaningless

/-- The task that a verb and the arguments behind it ask for, if all it needs has been given. -/
def task? (g : Given) : Verb → Option Task
  | .check => do return .check (← g.values.lookup .script)
  | .plan => do return .plan (← g.values.lookup .script) (g.values.lookup .config)
  | .render => do
    return .render (← g.values.lookup .script) (g.values.lookup .config) (← g.values.lookup .out)
  | .key => do
    let role ← Role.ofName? ((g.values.lookup .role).getD Role.voice.name)
    return .key ⟨role, ← g.words.head?⟩ ((g.values.lookup .extension).getD "opus")

end Given

/-- Reads a flag in front of the verb. -/
def leadingFlag (g : Given) : Char → Except Stop Given
  | 'V' => .error .version
  | letter => g.flag letter

/-- Reads the arguments from the verb on. -/
def readVerb (word : String) (rest : List String) : Except Stop Task :=
  match Verb.ofName? word with
  | some verb => do
    match (← ({} : Given).read verb none rest).task? verb with
    | some task => .ok task
    | none => .error .meaningless
  | none =>
    if word = "help" && (rest.isEmpty || (rest.length = 1 && rest.all (Verb.ofName? · |>.isSome)))
    then .error .help else .error .meaningless

/-- Reads all arguments; `g` is what has been read in front of the verb. -/
def readFrom (g : Given) : List String → Except Stop Task
  | [] => .error .meaningless
  | arg :: rest =>
    match Argument.ofText arg with
    | .word word => readVerb word rest
    | .letters flags => do readFrom (← flags.foldlM leadingFlag g) rest
    | .long "verbose" none => do readFrom (← g.tellMore) rest
    | .long "version" none => .error .version
    | .long "help" none => .error .help
    | _ => .error .meaningless

/-- What a command line asks for; no answer means that it has no meaning. -/
def Wish.ofArguments? (arguments : List String) : Option Wish :=
  match readFrom {} arguments with
  | .ok task => some (.run task)
  | .error .version => some .version
  | .error .help => some .help
  | .error .meaningless => none

end Soundstage.Cli
