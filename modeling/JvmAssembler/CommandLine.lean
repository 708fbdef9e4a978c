import JvmAssembler.Sample
import JvmAssembler.Text.Hex

/-!
# Command line

The program lists the sample methods or assembles one and shows it.  Reading the
arguments and computing the report are pure; printing is left to `main`.

Options may stand before or after the positional argument.  Short options can be
written together, and an option's value can follow it directly, after an equals
sign, or as the next argument.  A double dash ends the options.
-/

namespace JvmAssembler.CommandLine

/-! ## Arguments -/

/-- What the program is asked to do. -/
inductive Command where
  | list
  | display (sample : String) (bytes : Bool) (className : String)
  deriving DecidableEq

/-- Meaning of the arguments. -/
inductive Request where
  | run (verbosity : Nat) (command : Command)
  | version
  | help
  | misuse
  deriving DecidableEq

/-- The request of a command that stands after options of this verbosity: they
count only where the command itself sets none. -/
def Request.orVerbosity (verbosity : Nat) : Request → Request
  | .run 0 command => .run verbosity command
  | request => request

/-- What was read of the arguments of `show`. -/
structure ShowArgs where
  sample : Option String := none
  bytes : Bool := false
  className : Option String := none
  verbosity : Nat := 0

/-- What to do after one argument: go on, take the next argument as the class
name, or stop. -/
inductive Step where
  | continue (args : ShowArgs)
  | className (args : ShowArgs)
  | stop (request : Request)

namespace ShowArgs

def setBytes (args : ShowArgs) : Step :=
  if args.bytes then .stop .misuse else .continue { args with bytes := true }

def setClassName (args : ShowArgs) (name : String) : Step :=
  if args.className.isSome then .stop .misuse
  else .continue { args with className := some name }

def setSample (args : ShowArgs) (name : String) : Step :=
  if args.sample.isSome then .stop .misuse
  else .continue { args with sample := some name }

/-- The request once all arguments are read. -/
def finish (args : ShowArgs) : Request :=
  match args.sample with
  | some sample =>
      .run args.verbosity (.display sample args.bytes (args.className.getD "demo.Samples"))
  | none => .misuse

/-- Read letters that follow a single dash. -/
def shortOptions (args : ShowArgs) : List Char → Step
  | [] => .continue args
  | 'v' :: rest => shortOptions { args with verbosity := args.verbosity + 1 } rest
  | 'b' :: rest =>
      match args.setBytes with
      | .continue args => shortOptions args rest
      | other => other
  | 'h' :: _ => .stop .help
  | ['c'] => if args.className.isSome then .stop .misuse else .className args
  | 'c' :: '=' :: value => args.setClassName (String.ofList value)
  | 'c' :: value => args.setClassName (String.ofList value)
  | _ => .stop .misuse

/-- Read a word that follows two dashes. -/
def longOption (args : ShowArgs) (word : String) : Step :=
  if word = "verbose" then .continue { args with verbosity := args.verbosity + 1 }
  else if word = "bytes" then args.setBytes
  else if word = "help" then .stop .help
  else if word = "class" then
    if args.className.isSome then .stop .misuse else .className args
  else if "class=".toList.isPrefixOf word.toList then
    args.setClassName (String.ofList (word.toList.drop 6))
  else .stop .misuse

/-- Read one argument before a double dash. -/
def argument (args : ShowArgs) (arg : String) : Step :=
  match arg.toList with
  | '-' :: '-' :: word => args.longOption (String.ofList word)
  | '-' :: letter :: letters => args.shortOptions (letter :: letters)
  | _ => args.setSample arg

/-- Read arguments after a double dash. -/
def positional (args : ShowArgs) : List String → Request
  | [] => args.finish
  | arg :: rest =>
      match args.setSample arg with
      | .continue args => args.positional rest
      | .className _ => .misuse
      | .stop request => request

/-- Read the arguments of `show`.  `pending` holds when the next argument is the
class name. -/
def parse (args : ShowArgs) (pending : Bool) : List String → Request
  | [] => if pending then .misuse else args.finish
  | arg :: rest =>
      if pending then
        match arg.toList with
        | '-' :: _ :: _ => .misuse
        | _ => parse { args with className := some arg } false rest
      else if arg = "--" then args.positional rest
      else
        match args.argument arg with
        | .continue args => args.parse false rest
        | .className args => args.parse true rest
        | .stop request => request

end ShowArgs

/-- The letters of short options that are written together. -/
def letters? (arg : String) : Option (List Char) :=
  match arg.toList with
  | '-' :: letter :: letters => if letter = '-' then none else some (letter :: letters)
  | _ => none

/-- Read an option that every command takes: by how much it raises the
verbosity, or what it requests instead of a command. -/
def commonOption? (arg : String) : Option (Except Request Nat) :=
  if arg = "--verbose" then some (.ok 1)
  else if arg = "--help" then some (.error .help)
  else
    (letters? arg).bind fun letters =>
      match letters.dropWhile (· = 'v') with
      | [] => some (.ok letters.length)
      | 'h' :: _ => some (.error .help)
      | _ => none

/-- Whether the argument asks for the version. -/
def asksVersion (arg : String) : Bool :=
  arg = "--version" ||
    ((letters? arg).bind fun letters => (letters.dropWhile (· = 'v')).head?) = some 'V'

/-- Read the arguments of `list`. -/
def parseList (verbosity : Nat) : List String → Request
  | [] => .run verbosity .list
  | arg :: rest =>
      match commonOption? arg with
      | some (.ok more) => parseList (verbosity + more) rest
      | some (.error request) => request
      | none => if arg = "--" && rest.isEmpty then .run verbosity .list else .misuse

/-- Read the arguments of `help`, which explains the program or the one command
that is named. -/
def parseHelp : List String → Request
  | [] => .help
  | [command] => if command ∈ ["list", "show", "help"] then .help else .misuse
  | _ => .misuse

/-- Read the arguments of the program. -/
def parse (verbosity : Nat) : List String → Request
  | [] => .misuse
  | arg :: rest =>
      if arg = "list" then (parseList 0 rest).orVerbosity verbosity
      else if arg = "show" then (ShowArgs.parse {} false rest).orVerbosity verbosity
      else if arg = "help" then parseHelp rest
      else if asksVersion arg then .version
      else
        match commonOption? arg with
        | some (.ok more) => parse (verbosity + more) rest
        | some (.error request) => request
        | none => .misuse

/-! ## Reports -/

/-- What the program prints and its exit code. -/
structure Report where
  exitCode : UInt32 := 0
  stdout : String := ""
  stderr : String := ""

/-- `text` with every line but the first indented by four spaces. -/
def indent (text : String) : String :=
  String.ofList (text.toList.flatMap fun c => if c = '\n' then "\n    ".toList else [c])

/-- The report of an error, with what was being done when it arose, if that is
worth saying. -/
def failure (stdout : String) (doing : Option String) (error : Error) : Report where
  exitCode := 1
  stdout := stdout
  stderr :=
    match doing with
    | none => "Error: " ++ error.message ++ "\n"
    | some doing =>
        "Error: " ++ doing ++ "\n\nCaused by:\n    " ++ indent error.message ++ "\n"

/-- `text` filled up with spaces to a width. -/
def padRight (width : Nat) (text : String) : String :=
  text.pushn ' ' (width - text.length)

/-- One line per sample. -/
def listing : String :=
  String.join (Sample.all.map fun sample =>
    padRight 14 sample.name ++ " " ++ sample.about ++ "\n")

/-- The encoded bytes of a method and the number of its constants. -/
def encodedText (code : List UInt8) (pool : ConstantPool) : String :=
  "code[" ++ toString code.length ++ "]: " ++ Text.hex " " code ++ "\n" ++
    "constant pool entries: " ++ toString pool.constants.size ++ "\n"

/-- Descriptor, limits and instructions of a method. -/
def methodText (method : AssembledMethod) (descriptor : String) : String :=
  method.name ++ descriptor ++ "\n" ++
    "  max_stack=" ++ toString method.maxStack ++ " max_locals=" ++ toString method.maxLocals ++
    "\n" ++ Instr.listing method.instrs

/-- Assemble a sample and show it. -/
def displaySample (name : String) (bytes : Bool) (className : String) (config : Config) :
    Report :=
  match Sample.find name with
  | .error error => failure "" none error
  | .ok sample =>
      let cls := Sample.classContext className config
      match sample.spec.assemble cls with
      | .error error => failure "" (some ("assembling sample '" ++ name ++ "'")) error
      | .ok method =>
          match method.descriptor cls.this with
          | .error error => failure "" none error
          | .ok descriptor =>
              let text := methodText method descriptor
              if bytes then
                match method.encode cls.this .new with
                | .error error _ => failure text none error
                | .ok code pool => { stdout := text ++ encodedText code pool }
              else { stdout := text }

/-- Text of the version request. -/
def versionText : String := "jfluent 0.1.0\n"

/-- Text of the help request. -/
def helpText : String :=
  "Fluent JVM method-body assembler\n\n" ++
  "Usage: jfluent [OPTIONS] <COMMAND>\n\n" ++
  "Commands:\n" ++
  "  list  List the bundled sample methods\n" ++
  "  show  Assemble a sample and print its listing\n" ++
  "  help  Print this message or the help of the given subcommand(s)\n\n" ++
  "Options:\n" ++
  "  -v, --verbose...  Log more (repeat for trace output)\n" ++
  "  -h, --help        Print help\n" ++
  "  -V, --version     Print version\n"

/-- Carry out a command. -/
def execute (config : Config) : Command → Report
  | .list => { stdout := listing }
  | .display sample bytes className => displaySample sample bytes className config

/-- The report for these arguments and settings. -/
def run (args : List String) (lookup : String → Option String) : Report :=
  match parse 0 args with
  | .version => { stdout := versionText }
  | .help => { stdout := helpText }
  | .misuse => { exitCode := 2, stderr := helpText }
  | .run verbosity command =>
      match Config.ofLookup lookup with
      | .error error => failure "" (some "reading JFLUENT_* configuration") error
      | .ok config =>
          execute { config with debugCode := config.debugCode || 1 < verbosity } command

end JvmAssembler.CommandLine
