import Bytecode.Command.Similarity
import Bytecode.Settings

/-!
# Command lines

What a command line asks for, or why it asks for nothing. Three options are known before and after
the command word; after it they win. Everything else belongs to one command.

* `Level.parse`: the arguments of one level, up to a command word or the end;
* `Level.check`: what is missing or given twice;
* `Request.ofArguments`: the whole line.
-/

namespace Bytecode.Command

/-- What the program can do. -/
inductive Verb where
  | disassemble
  | branches
  deriving DecidableEq, Repr

/-- Reads a command's name, in either case. -/
def Verb.ofText? (s : String) : Option Verb :=
  let name := lowerAscii s
  if name = "dis" then some .disassemble
  else if name = "branches" then some .branches
  else none

/-- Reads a command word of a command line, where case matters. -/
def Verb.ofWord? (s : String) : Option Verb :=
  if s = "dis" then some .disassemble
  else if s = "branches" then some .branches
  else none

/-- Why a command line is not carried out. -/
inductive Usage where
  | unknownArgument
  | invalidSubcommand
  | unrecognizedSubcommand
  | missingRequiredArgument
  | missingArgumentOrSubcommand
  | emptyValue
  | unexpectedMultipleUsage
  | helpDisplayed
  | versionDisplayed
  deriving DecidableEq, Repr

def Usage.name : Usage → String
  | .unknownArgument => "UnknownArgument"
  | .invalidSubcommand => "InvalidSubcommand"
  | .unrecognizedSubcommand => "UnrecognizedSubcommand"
  | .missingRequiredArgument => "MissingRequiredArgument"
  | .missingArgumentOrSubcommand => "MissingArgumentOrSubcommand"
  | .emptyValue => "EmptyValue"
  | .unexpectedMultipleUsage => "UnexpectedMultipleUsage"
  | .helpDisplayed => "HelpDisplayed"
  | .versionDisplayed => "VersionDisplayed"

/-- An option that takes a value. -/
inductive Key where
  | config
  | labelStem
  | indent
  | start
  | stop
  | format
  deriving DecidableEq, Repr

/-- Before the command word, or after it. -/
inductive Level where
  | top
  | command (verb : Verb)
  deriving DecidableEq, Repr

namespace Level

/-- The options of a level, by their long names. -/
def keys : Level → List (String × Key)
  | .command .disassemble =>
    [("config", .config), ("label-prefix", .labelStem), ("indent", .indent), ("from", .start),
      ("to", .stop), ("format", .format)]
  | _ => [("config", .config), ("label-prefix", .labelStem), ("indent", .indent)]

/-- Whether the level knows `--no-addresses`. -/
def hidesAddresses : Level → Bool
  | .command .disassemble => true
  | _ => false

end Level

/-- What one level was given. -/
structure Given where
  /-- Each use of an option, the latest first, with its value once there is one. -/
  uses : List (Key × Option String) := []
  /-- How often `--no-addresses` was given. -/
  hidden : Nat := 0
  listing : Option String := none
  /-- Whether the latest use still waits for its value. -/
  waiting : Bool := false
  /-- Whether `--` has ended the options. -/
  wordsOnly : Bool := false
  deriving DecidableEq, Repr

namespace Given

/-- Gives the latest use its value. -/
def fill (g : Given) (value : String) : Given :=
  match g.uses with
  | (key, none) :: uses => { g with uses := (key, some value) :: uses, waiting := false }
  | _ => { g with waiting := false }

/-- The value of an option: that of its first use. -/
def value? (g : Given) (key : Key) : Option String :=
  ((g.uses.reverse.filter fun u => u.1 = key).filterMap (·.2)).head?

def count (g : Given) (key : Key) : Nat := (g.uses.filter fun u => u.1 = key).length

end Given

/-! ## One level -/

/-- Splits a text at its first `=`, if it has one. -/
def splitEquals : List Char → List Char × Option (List Char)
  | [] => ([], none)
  | '=' :: cs => ([], some cs)
  | c :: cs => let (name, value) := splitEquals cs; (c :: name, value)

/-- An argument that starts with two hyphens; all hyphens at its start are dropped, and all equals
signs before its value. -/
def longOption (level : Level) (g : Given) (cs : List Char) : Except Usage Given :=
  let (name, value) := splitEquals (cs.dropWhile (· = '-'))
  let name := String.ofList name
  match level.keys.lookup name with
  | some key =>
    match value with
    | some v =>
      let text := String.ofList (v.dropWhile (· = '='))
      .ok { g with uses := (key, some text) :: g.uses, waiting := false }
    | none => .ok { g with uses := (key, none) :: g.uses, waiting := true }
  | none =>
    if name = "help" then .error .helpDisplayed
    else if name = "version" then .error .versionDisplayed
    else if name = "no-addresses" ∧ level.hidesAddresses then
      .ok { g with hidden := g.hidden + 1, waiting := false }
    else .error .unknownArgument

/-- An argument that starts with one hyphen. The only letters are those for help and version. -/
def shortOption (cs : List Char) : Usage :=
  match cs with
  | 'h' :: _ => .helpDisplayed
  | 'V' :: _ => .versionDisplayed
  | _ => .unknownArgument

/-- A word that is neither an option nor a value. -/
def plainWord (level : Level) (g : Given) (word : String) : Except Usage Given :=
  match level with
  | .top =>
    if ["dis", "branches", "help"].any (resembles word) then .error .invalidSubcommand
    else .error .unknownArgument
  | .command _ =>
    match g.listing with
    | none => .ok { g with listing := some word }
    | some _ => .error .unknownArgument

/-- What `help` followed by some words leads to. -/
def helpUsage (words : List String) : Usage :=
  match words with
  | [] => .helpDisplayed
  | [word] =>
    if word = "dis" ∨ word = "branches" ∨ word = "help" then .helpDisplayed
    else .unrecognizedSubcommand
  | _ => .unrecognizedSubcommand

/-- One argument that is no command word. -/
def argument (level : Level) (g : Given) (arg : String) : Except Usage Given :=
  if g.wordsOnly then plainWord level g arg
  else if arg = "--" then .ok { g with wordsOnly := true }
  else
    match arg.toList with
    | '-' :: '-' :: cs => longOption level g cs
    | '-' :: c :: cs => .error (shortOption (c :: cs))
    | _ => if g.waiting then .ok (g.fill arg) else plainWord level g arg

/-- Reads arguments up to a command word. Gives what the level was given, and the command with what
follows it. -/
def Level.parse (level : Level) (g : Given) :
    List String → Except Usage (Given × Option (Verb × List String))
  | [] => .ok (g, none)
  | arg :: args =>
    let word := level = .top ∧ !g.wordsOnly ∧ !g.waiting
    match if word then Verb.ofWord? arg else none with
    | some verb => .ok (g, some (verb, args))
    | none =>
      if word ∧ arg = "help" then .error (helpUsage args)
      else
        match argument level g arg with
        | .ok g => level.parse g args
        | .error u => .error u

/-! ## Checks -/

/-- Whether each option that was used has what goes with it, and once. -/
def checkKey (g : Given) (key : Key) : Except Usage Unit :=
  if g.count key = 0 then .ok ()
  else if (g.value? key).isNone then .error .emptyValue
  else if key = .stop ∧ g.count .start = 0 then .error .missingRequiredArgument
  else if 1 < g.count key then .error .unexpectedMultipleUsage
  else .ok ()

/-- A level is in order: a command has its listing, no option lacks its value, none is given twice,
and there is no end of a range without its start. -/
def Level.check (level : Level) (g : Given) : Except Usage Unit := do
  if level ≠ .top ∧ g.listing.isNone then throw .missingRequiredArgument
  if let (key, none) :: _ := g.uses then
    if g.waiting ∧ (g.value? key).isNone then throw .emptyValue
  level.keys.forM fun (_, key) => checkKey g key
  if 1 < g.hidden then throw .unexpectedMultipleUsage

/-! ## Whole lines -/

/-- What a command line asks for. -/
structure Request where
  verb : Verb
  listing : String
  config : Option String := none
  labelStem : Option String := none
  indent : Option String := none
  start : Option String := none
  stop : Option String := none
  format : Option String := none
  hideAddresses : Bool := false
  deriving DecidableEq, Repr

def Request.ofArguments (args : List String) : Except Usage Request := do
  let (top, rest) ← Level.top.parse {} args
  match rest with
  | none => throw .missingArgumentOrSubcommand
  | some (verb, args) =>
    let level := Level.command verb
    let (sub, _) ← level.parse {} args
    level.check sub
    Level.top.check top
    let shared (key : Key) := (sub.value? key).or (top.value? key)
    return {
      verb := verb
      listing := sub.listing.getD ""
      config := shared .config
      labelStem := shared .labelStem
      indent := shared .indent
      start := sub.value? .start
      stop := sub.value? .stop
      format := sub.value? .format
      hideAddresses := sub.hidden ≠ 0 }

end Bytecode.Command
