import HeapAbstraction.Bytes

namespace HeapAbstraction

abbrev Path := List Bytes

namespace Path

def here : Bytes := "."

def up : Bytes := ".."

def root : Bytes := "/"

def splitAux : Bytes → Bytes → List Bytes
  | part, [] => [part]
  | part, b :: rest => if b == 47 then part :: splitAux [] rest else splitAux (part ++ [b]) rest

def steps (path : Bytes) : List Bytes := splitAux [] path

def isStill (step : Bytes) : Bool := step.isEmpty || step == here

def start (path : Bytes) : Path := if path.head? == some 47 then [root] else []

def walk (path : Path) (step : Bytes) : Path :=
  if isStill step then path
  else if step == up then
    match path.getLast? with
    | none => [up]
    | some last => if last == up then path ++ [up] else if path == [root] then path else path.dropLast
  else path ++ [step]

def ofBytes (path : Bytes) : Path := (steps path).foldl walk (start path)

def toBytes : Path → Bytes
  | [] => here
  | first :: rest =>
      if first == root then root ++ List.intercalate [47] rest else List.intercalate [47] (first :: rest)

def suffixAux : Bytes → Bytes → Bytes
  | _, [] => []
  | after, b :: rest => if b == 46 then b :: after else suffixAux (b :: after) rest

def suffix (path : Path) : Bytes := suffixAux [] (path.getLast?.getD []).reverse

end Path

end HeapAbstraction
