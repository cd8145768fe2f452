/-!
# Command-line arguments

An argument that starts with a dash is an option, unless it is a dash alone, a negative number, or a text
with a blank that is no option. A long option may be shortened as long as it stays clear; short options
may be written together. After a double dash everything is a file. Files are taken from one run of
arguments only: those in a second run are refused.
-/

namespace Dalvik

structure Arguments where
  files : List String
  interactive : Bool
  version : Bool
  deriving DecidableEq, Repr, Inhabited

namespace Arguments

inductive Switch where
  | help
  | interactive
  | version
  deriving DecidableEq, Repr

inductive Refusal where
  | usage
  | unrecognized (args : List String)
  | ambiguous (arg : String) (matching : List String)
  | valued (option : Switch) (value : String)
  deriving DecidableEq, Repr

def spellings : List (String × Switch) :=
  [("-h", .help), ("--help", .help), ("-i", .interactive), ("--interactive", .interactive),
   ("--version", .version)]

inductive Joined where
  | nothing
  | letters (s : String)
  | value (s : String)
  deriving DecidableEq, Repr

inductive Role where
  | file
  | divider
  | option (o : Switch) (joined : Joined)
  | unknown
  deriving DecidableEq, Repr

def starts (beginning s : String) : Bool :=
  beginning.toList.isPrefixOf s.toList

def cutValue (s : String) : String × Joined :=
  let name := String.ofList (s.toList.takeWhile (· != '='))
  match s.toList.dropWhile (· != '=') with
  | _ :: value => (name, .value (String.ofList value))
  | [] => (name, .nothing)

/-- The options that an argument can be short for, with their spellings. -/
def expansions (arg : String) : List (String × Role) :=
  if starts "--" arg then
    let (start, joined) := cutValue arg
    spellings.filterMap fun (s, o) => if starts start s then some (s, .option o joined) else none
  else
    let short := String.ofList (arg.toList.take 2)
    spellings.filterMap fun (s, o) =>
      if s == short then some (s, .option o (.letters (String.ofList (arg.toList.drop 2))))
      else if starts arg s then some (s, .option o .nothing)
      else none

def isNegativeNumber (arg : String) : Bool :=
  match arg.toList with
  | '-' :: cs =>
    match cs.dropWhile Char.isDigit with
    | [] => !cs.isEmpty
    | '.' :: rest => !rest.isEmpty && rest.all Char.isDigit
    | _ => false
  | _ => false

/-- What an argument is that comes before the double dash. -/
def roleOf (arg : String) : Except Refusal Role :=
  if !starts "-" arg || arg.length == 1 then .ok .file
  else
    match spellings.lookup arg, cutValue arg with
    | some o, _ => .ok (.option o .nothing)
    | none, (name, joined) =>
      match spellings.lookup name with
      | some o => .ok (.option o joined)
      | none =>
        match expansions arg with
        | [(_, s)] => .ok s
        | e :: es => .error (.ambiguous arg ((e :: es).map (·.1)))
        | [] => .ok (if isNegativeNumber arg || arg.toList.contains ' ' then .file else .unknown)

/-- What the arguments are; everything after a double dash is a file. -/
def rolesOf : List String → Except Refusal (List (String × Role))
  | [] => .ok []
  | a :: rest =>
    if a == "--" then .ok ((a, .divider) :: rest.map fun b => (b, .file))
    else do
      let s ← roleOf a
      pure ((a, s) :: (← rolesOf rest))

/-- The options that are written together, and what is left of them from a letter on that is none. -/
def lettersOf (o : Switch) : List Char → Except Refusal (List Switch × List String)
  | [] => .ok ([o], [])
  | c :: cs =>
    if c == '-' || c == '=' then
      .error (.valued o (String.ofList (if c == '=' then cs else c :: cs)))
    else
      match spellings.lookup (String.ofList ['-', c]) with
      | none => .ok ([o], [String.ofList ('-' :: c :: cs)])
      | some next => do
        let (os, extra) ← lettersOf next cs
        pure (o :: os, extra)

/-- The options of an argument, and what is left of it. No option takes a value. -/
def switchesOf (o : Switch) : Joined → Except Refusal (List Switch × List String)
  | .nothing => .ok ([o], [])
  | .letters s => lettersOf o s.toList
  | .value s => .error (.valued o s)

def apply (a : Arguments) : Switch → Except Refusal Arguments
  | .help => .error .usage
  | .interactive => .ok { a with interactive := true }
  | .version => .ok { a with version := true }

inductive Phase where
  | before
  | within
  | after
  deriving DecidableEq, Repr

def Phase.interrupted : Phase → Phase
  | .before => .before
  | _ => .after

/-- Goes through the arguments: what they ask for, and those that nobody takes. -/
def collect : Phase → Arguments → List (String × Role) → Except Refusal (Arguments × List String)
  | _, a, [] => .ok (a, [])
  | phase, a, (_, .option o joined) :: rest => do
    let (os, left) ← switchesOf o joined
    let (a, extra) ← collect phase.interrupted (← os.foldlM apply a) rest
    pure (a, left ++ extra)
  | phase, a, (arg, .unknown) :: rest => do
    let (a, extra) ← collect phase.interrupted a rest
    pure (a, arg :: extra)
  | .after, a, (arg, _) :: rest => do
    let (a, extra) ← collect .after a rest
    pure (a, arg :: extra)
  | _, a, (_, .divider) :: rest => collect .within a rest
  | _, a, (arg, .file) :: rest => collect .within { a with files := a.files ++ [arg] } rest

def parse (args : List String) : Except Refusal Arguments := do
  let (a, extra) ← collect .before ⟨[], false, false⟩ (← rolesOf args)
  if extra.isEmpty then pure a else throw (.unrecognized extra)

def usageLine : String := "usage: ismali [-h] [-i] [--version] [file ...]\n"

def usage : String :=
  usageLine ++
  "\nISmali (Interactive Smali interpreter) can execute Smali-Code snippetson the\n" ++
  "fly as well as import *.smali files and use them later on.\n" ++
  "\npositional arguments:\n" ++
  "  file               The Smali-Script files ('.ssf') to be interpreted. Note\n" ++
  "                     that files as input won't result in interactive mode. Use\n" ++
  "                     the '-i' flag to run the interactive mode afterwards.\n" ++
  "\noptions:\n" ++
  "  -h, --help         show this help message and exit\n" ++
  "  -i, --interactive  Runs the interactive mode after executing/ importing\n" ++
  "                     input files.\n" ++
  "  --version          Stores the current interpreter version\n"

def Switch.title : Switch → String
  | .help => "-h/--help"
  | .interactive => "-i/--interactive"
  | .version => "--version"

def Refusal.message : Refusal → String
  | .usage => Arguments.usage
  | .unrecognized args => "unrecognized arguments: " ++ " ".intercalate args
  | .ambiguous arg matching => s!"ambiguous option: {arg} could match " ++ ", ".intercalate matching
  | .valued o value => "argument " ++ o.title ++ s!": ignored explicit argument '{value}'"

end Arguments

end Dalvik
