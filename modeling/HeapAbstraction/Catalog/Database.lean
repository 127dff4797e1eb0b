import HeapAbstraction.Bytes

namespace HeapAbstraction

structure Database where
  entries : List (Bytes × Bytes) := []
deriving DecidableEq, Repr

namespace Database

def putEntry (key value : Bytes) : List (Bytes × Bytes) → List (Bytes × Bytes)
  | [] => [(key, value)]
  | (k, v) :: rest =>
      match Bytes.order key k with
      | .lt => (key, value) :: (k, v) :: rest
      | .eq => (key, value) :: rest
      | .gt => (k, v) :: putEntry key value rest

def put (db : Database) (key value : Bytes) : Database := ⟨putEntry key value db.entries⟩

def get? (db : Database) (key : Bytes) : Option Bytes := db.entries.lookup key

def startingWith (db : Database) (start : Bytes) : List (Bytes × Bytes) :=
  db.entries.filter (fun e => start.isPrefixOf e.1)

def fromKey (db : Database) (key : Bytes) : List (Bytes × Bytes) :=
  db.entries.dropWhile (fun e => Bytes.order e.1 key == .lt)

end Database

end HeapAbstraction
