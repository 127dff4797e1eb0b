import HeapAbstraction.Bytes

namespace HeapAbstraction

structure Flags where
  opts : Bytes := []
  canon : Bytes := []
  catalog : Bytes := []
  metricsAddr : Bytes := []
deriving DecidableEq, Repr

inductive FlagError where
  | badForm (argument : Bytes)
  | unknown (name : Bytes)
  | noValue (name : Bytes)
  | help
deriving DecidableEq, Repr

def FlagError.message : FlagError → Bytes
  | .badForm argument => "bad flag syntax: " ++ argument
  | .unknown name => "flag provided but not defined: -" ++ name
  | .noValue name => "flag needs an argument: -" ++ name
  | .help => "flag: help requested"

namespace Flags

def set? (f : Flags) (name value : Bytes) : Option Flags :=
  if name = "opts" then some { f with opts := value }
  else if name = "canon" then some { f with canon := value }
  else if name = "catalog" then some { f with catalog := value }
  else if name = "metrics-addr" then some { f with metricsAddr := value }
  else none

inductive Argument where
  | flag (name : Bytes) (value : Option Bytes)
  | bad
  | endOfFlags
  | other
deriving DecidableEq, Repr

def splitValue (body : Bytes) : Argument :=
  let name := body.take 1 ++ (body.drop 1).takeWhile (· != 61)
  match body.drop name.length with
  | [] => .flag name none
  | _ :: value => .flag name (some value)

def argument : Bytes → Argument
  | [45, 45] => .endOfFlags
  | 45 :: b :: rest =>
      let body := if b == 45 then rest else b :: rest
      if body.head? == some 45 || body.head? == some 61 then .bad else splitValue body
  | _ => .other

def parse : Flags → List Bytes → Except FlagError (Flags × List Bytes)
  | f, [] => .ok (f, [])
  | f, a :: rest =>
      match argument a with
      | .other => .ok (f, a :: rest)
      | .endOfFlags => .ok (f, rest)
      | .bad => .error (.badForm a)
      | .flag name value? =>
          if (f.set? name []).isNone then
            .error (if name = "help" || name = "h" then .help else .unknown name)
          else match value? with
            | some value => parse ((f.set? name value).getD f) rest
            | none =>
                match rest with
                | [] => .error (.noValue name)
                | value :: more => parse ((f.set? name value).getD f) more

end Flags

end HeapAbstraction
