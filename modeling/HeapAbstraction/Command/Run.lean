import HeapAbstraction.Command.Canon
import HeapAbstraction.Command.Flags
import HeapAbstraction.Options.Load

namespace HeapAbstraction

structure CommandResult where
  output : Bytes := []
  errors : Bytes := []
  exitCode : Nat := 0
  storage : Storage := {}

def startupScript : Bytes := "lib/_REPL_startup.py"

def scriptSuffix : Bytes := ".py"

def directoryScript : Bytes := "__init__.py"

def isSpace (code : Nat) : Bool :=
  (9 ≤ code && code ≤ 13) || code == 32 || code == 0x85 || code == 0xA0 || code == 0x1680 ||
    (0x2000 ≤ code && code ≤ 0x200A) || code == 0x2028 || code == 0x2029 || code == 0x202F || code == 0x205F ||
    code == 0x3000

def startsIdle : Bytes → Bool
  | [] => true
  | b :: _ => b == 35

def isBlankLine (line : Bytes) : Bool :=
  startsIdle (((Text.pieces line).dropWhile (fun
    | .scalar code _ => isSpace code
    | .stray _ => false)).flatMap Text.Piece.spelling)

def passStatement : Bytes := "pass"

def isPassLine (line : Bytes) : Bool :=
  line.take passStatement.length == passStatement &&
    startsIdle ((line.drop passStatement.length).dropWhile (fun b => b == 32 || b == 9))

def continuedLine : Bytes := [92]

def isIdle : Bool → List Bytes → Bool
  | _, [] => true
  | true, line :: rest =>
      let text := line.dropWhile (fun b => b == 32 || b == 9)
      if text = continuedLine then isIdle true rest else startsIdle text && isIdle false rest
  | false, line :: rest =>
      if line = continuedLine then isIdle true rest
      else (isBlankLine line || isPassLine line) && isIdle false rest

def splitLines : Bytes → Bytes → List Bytes
  | line, [] => [line]
  | line, b :: rest => if b == 10 then line :: splitLines [] rest else splitLines (line ++ [b]) rest

def isIdleScript (source : Bytes) : Bool := isIdle false (splitLines [] source)

def lowerByte (b : UInt8) : UInt8 := if 65 ≤ b && b ≤ 90 then b + 32 else b

-- the place of the script that an argument names: a directory stands for the script in it, and a name without a
-- suffix that is not there may leave the suffix out
def scriptPlace (s : Storage) (path : Bytes) : Path :=
  let place := Path.ofBytes path
  if s.isDirectory place then place ++ [directoryScript]
  else if place.suffix.isEmpty && !s.mayExist place.toBytes then Path.ofBytes (place.toBytes ++ scriptSuffix)
  else place

def scriptCandidates (path : Bytes) : List Bytes :=
  let script := if path.isEmpty then startupScript else path
  [script, script ++ scriptSuffix, script ++ "/" ++ directoryScript]

def scriptSource? (s : Storage) (path : Bytes) : Option Bytes :=
  let place := scriptPlace s path
  if place.suffix.map lowerByte == scriptSuffix then (s.readFile place.toBytes).toOption else none

def runScript (s : Storage) (path : Bytes) : CommandResult :=
  let script := if path.isEmpty then startupScript else path
  match scriptSource? s script with
  | none => { errors := "script: cannot run " ++ Text.quoted script ++ "\n", exitCode := 1, storage := s }
  | some source =>
      if isIdleScript source then { storage := s }
      else { errors := "script: cannot run " ++ Text.quoted script ++ "\n", exitCode := 1, storage := s }

def runWith (s : Storage) (flags : Flags) (arguments : List Bytes) (opts : Options) : CommandResult :=
  if flags.canon.isEmpty then runScript s (arguments.headD [])
  else
    match canonFile s flags.canon flags.catalog opts with
    | (after, output, .ok ()) => { output := output, storage := after }
    | (after, output, .error e) =>
        { output := output, errors := e.message ++ "\n", exitCode := if e.breaksOff then 2 else 1, storage := after }

def loadFor (s : Storage) (path : Bytes) : Except Options.LoadError Options :=
  if path.isEmpty then .ok {} else Options.load s path

def loadExitCode : Options.LoadError → Nat
  | .fault => 2
  | _ => 255

-- runs a command line. It exits with 2 if its flags are bad or its work breaks off, 255 if its options are bad, and 1
-- if its work fails
def run (s : Storage) (args : List Bytes) : CommandResult :=
  match Flags.parse {} args with
  | .error .help => { storage := s }
  | .error e => { errors := e.message ++ "\n", exitCode := 2, storage := s }
  | .ok (flags, arguments) =>
      match loadFor s flags.opts with
      | .error e => { errors := e.message ++ "\n", exitCode := loadExitCode e, storage := s }
      | .ok opts => runWith s flags arguments opts

end HeapAbstraction
