/-! The arguments of the command line. Arguments are read from the left, and the first that asks
for the version, asks for help or is misused decides. -/

namespace BindingTree.CommandLine

structure BuildOptions where
  input : Option String := none
  /-- Whether a dump is asked for, and under which path. -/
  dump : Option (Option String) := none
  config : Option String := none
  strict : Bool := false
  deriving DecidableEq, Repr, Inhabited

inductive Command where
  | build (input : String) (options : BuildOptions)
  | schema (output : Option String)
  deriving DecidableEq, Repr

inductive Request where
  | run (logDir : Option String) (command : Command)
  | version
  | help
  | misuse
  deriving DecidableEq, Repr

/-- Whether an argument reads as an option rather than as a value. -/
def isOption (arg : String) : Bool := arg.toList.head? = some '-' && arg ≠ "-"

/-- The value that an argument carries after the name of an option and an equals sign. -/
def attached? (name arg : String) : Option String :=
  let front := name.toList ++ ['=']
  if front.isPrefixOf arg.toList then some (String.ofList (arg.toList.drop front.length)) else none

/-- The value of an option that wants one, and the arguments left. It stands in the argument of
the option or in the next one; `none` if the argument is another, `misuse` if the value is
missing. -/
inductive Value where
  | other
  | missing
  | given (value : String) (rest : List String)

def Value.ofText (text : String) (rest : List String) : Value :=
  if text = "" then .missing else .given text rest

def valueOf (name arg : String) (rest : List String) : Value :=
  if arg = name then
    match rest with
    | v :: rest => if isOption v then .missing else .ofText v rest
    | [] => .missing
  else match attached? name arg with
    | some v => .ofText v rest
    | none => .other

/-- The value of a short option, which may follow its letter at once. -/
def valueOfShort (letter : Char) (arg : String) (rest : List String) : Value :=
  match arg.toList with
  | ['-', c] =>
    if c = letter then valueOf arg arg rest else .other
  | '-' :: c :: '=' :: v => if c = letter then .ofText (String.ofList v) rest else .other
  | '-' :: c :: v => if c = letter then .ofText (String.ofList v) rest else .other
  | _ => .other

/-- Whether an argument is the long option `name` or a cluster that begins with the letter. -/
def isFlag (name : String) (letter : Char) (arg : String) : Bool :=
  arg = name || ['-', letter].isPrefixOf arg.toList

def finishBuild (logDir : Option String) (o : BuildOptions) : Request :=
  match o.input with
  | some input => .run logDir (.build input o)
  | none => .misuse

/-- Takes an argument as the input, which may be given once. -/
def takeInput (o : BuildOptions) (arg : String) : Option BuildOptions :=
  if o.input.isSome || arg = "" then none else some { o with input := some arg }

/-- Reads the arguments after the double dash, which are no options. -/
def readInputs (logDir : Option String) (o : BuildOptions) : List String → Request
  | [] => finishBuild logDir o
  | arg :: rest => match takeInput o arg with
    | some o => readInputs logDir o rest
    | none => .misuse

/-- Reads the arguments of `build`; `seenDir` tells whether it has named a log directory. -/
def readBuild (fuel : Nat) (logDir : Option String) (seenDir : Bool) (o : BuildOptions)
    (args : List String) : Request :=
  match fuel, args with
  | 0, _ | _, [] => finishBuild logDir o
  | fuel + 1, arg :: rest =>
    if arg = "--" then readInputs logDir o rest
    else if isFlag "--help" 'h' arg then .help
    else if arg = "--strict" then
      if o.strict then .misuse else readBuild fuel logDir seenDir { o with strict := true } rest
    else if arg = "--dump" then
      if o.dump.isSome then .misuse
      else match rest with
        | [] => readBuild fuel logDir seenDir { o with dump := some none } rest
        | v :: left =>
          if isOption v then readBuild fuel logDir seenDir { o with dump := some none } rest
          else if v = "" then .misuse
          else readBuild fuel logDir seenDir { o with dump := some (some v) } left
    else match attached? "--dump" arg with
      | some v =>
        if o.dump.isSome || v = "" then .misuse
        else readBuild fuel logDir seenDir { o with dump := some (some v) } rest
      | none => match valueOf "--config" arg rest, valueOf "--log-dir" arg rest with
        | .given v left, _ =>
          if o.config.isSome then .misuse
          else readBuild fuel logDir seenDir { o with config := some v } left
        | _, .given v left =>
          if seenDir then .misuse else readBuild fuel (some v) true o left
        | .other, .other =>
          if isOption arg then .misuse
          else match takeInput o arg with
            | some o => readBuild fuel logDir seenDir o rest
            | none => .misuse
        | _, _ => .misuse

/-- Reads the arguments of `schema`, which has an output at most. -/
def readSchema (fuel : Nat) (logDir : Option String) (seenDir : Bool) (output : Option String)
    (args : List String) : Request :=
  match fuel, args with
  | 0, _ | _, [] => .run logDir (.schema output)
  | fuel + 1, arg :: rest =>
    if arg = "--" then
      if rest = [] then .run logDir (.schema output) else .misuse
    else if isFlag "--help" 'h' arg then .help
    else
      let long := valueOf "--output" arg rest
      let asked := match long with
        | .other => valueOfShort 'o' arg rest
        | _ => long
      match asked, valueOf "--log-dir" arg rest with
      | .given v left, _ =>
        if output.isSome then .misuse else readSchema fuel logDir seenDir (some v) left
      | _, .given v left => if seenDir then .misuse else readSchema fuel (some v) true output left
      | _, _ => .misuse

/-- Reads the arguments up to the command. -/
def readCommand (fuel : Nat) (logDir : Option String) (args : List String) : Request :=
  match fuel, args with
  | 0, _ | _, [] => .misuse
  | fuel + 1, arg :: rest =>
    if isFlag "--help" 'h' arg then .help
    else if isFlag "--version" 'V' arg then .version
    else if arg = "build" then readBuild fuel logDir false {} rest
    else if arg = "schema" then readSchema fuel logDir false none rest
    else if arg = "help" then
      if rest ∈ [[], ["build"], ["schema"], ["help"]] then .help else .misuse
    else match valueOf "--log-dir" arg rest with
      | .given v left => if logDir.isSome then .misuse else readCommand fuel (some v) left
      | _ => .misuse

/-- Reads the arguments; each step takes at least one. -/
def Request.ofArguments (args : List String) : Request := readCommand (args.length + 1) none args

end BindingTree.CommandLine
