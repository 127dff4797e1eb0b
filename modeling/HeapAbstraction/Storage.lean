import HeapAbstraction.Catalog.Basic
import HeapAbstraction.Storage.Path

namespace HeapAbstraction

inductive FileError where
  | missing (path : Bytes)
  | notDirectory (path : Bytes)
  | isDirectory (path : Bytes)
  | nameTooLong (path : Bytes)
  | badName (path : Bytes)
deriving DecidableEq, Repr

def FileError.message : FileError → Bytes
  | .missing path => "open " ++ path ++ ": no such file or directory"
  | .notDirectory path => "open " ++ path ++ ": not a directory"
  | .isDirectory path => "read " ++ path ++ ": is a directory"
  | .nameTooLong path => "open " ++ path ++ ": file name too long"
  | .badName path => "open " ++ path ++ ": invalid argument"

inductive Hold where
  | free
  | readers (more : Nat)
  | writer
deriving DecidableEq, Repr

namespace Hold

def acquire? : Hold → Bool → Option Hold
  | .free, true => some (.readers 0)
  | .free, false => some .writer
  | .readers more, true => some (.readers (more + 1))
  | _, _ => none

def release : Hold → Hold
  | .readers (more + 1) => .readers more
  | _ => .free

end Hold

inductive Item where
  | directory
  | file (content : Bytes)
  | database (content : Database) (hold : Hold)
deriving DecidableEq, Repr

structure Storage where
  items : List (Path × Item) := []
deriving DecidableEq, Repr

namespace Storage

def databaseFiles : List Bytes := ["MANIFEST", "KEYREGISTRY", "DISCARD"]

def writerFile : Bytes := "LOCK"

def databaseFile? (s : Storage) (path : Path) : Option Item :=
  match path.getLast?, s.items.lookup path.dropLast with
  | some name, some (.database _ hold) =>
      if databaseFiles.contains name || (name = writerFile && hold = .writer) then some (.file [0]) else none
  | _, _ => none

def item? (s : Storage) (path : Path) : Option Item := (s.items.lookup path).or (s.databaseFile? path)

def putItem (path : Path) (item : Item) : List (Path × Item) → List (Path × Item)
  | [] => [(path, item)]
  | (p, i) :: rest => if p = path then (path, item) :: rest else (p, i) :: putItem path item rest

def put (s : Storage) (path : Path) (item : Item) : Storage := ⟨putItem path item s.items⟩

def writeFile (s : Storage) (path content : Bytes) : Storage := s.put (Path.ofBytes path) (.file content)

def isFile (s : Storage) (path : Path) : Bool :=
  match s.item? path with
  | some (.file _) => true
  | _ => false

-- whether a path leads to something that holds other things. The directories around the storage are there, but
-- nothing is known of what they hold
def isDirectory (s : Storage) (path : Path) : Bool :=
  path.isEmpty || path.getLast? == some Path.up || path == [Path.root] ||
    s.items.any (fun (p, i) => path.isPrefixOf p && (p != path || !(i matches .file _)))

def nameLimit : Nat := 255

def pathLimit : Nat := 4095

def follow (s : Storage) (whole : Bytes) : Path → List Bytes → Except FileError Path
  | path, [] => .ok path
  | path, step :: rest =>
      let next := path.walk step
      if s.isFile path then .error (.notDirectory whole)
      else if nameLimit < step.length then .error (.nameTooLong whole)
      else if s.isFile next || s.isDirectory next then follow s whole next rest
      else .error (.missing whole)

def locate (s : Storage) (path : Bytes) : Except FileError Path :=
  if path.contains 0 then .error (.badName path)
  else if path.isEmpty then .error (.missing path)
  else if pathLimit < path.length then .error (.nameTooLong path)
  else s.follow path (Path.start path) (Path.steps path)

def readFile (s : Storage) (path : Bytes) : Except FileError Bytes := do
  match s.item? (← s.locate path) with
  | some (.file content) => return content
  | _ => .error (.isDirectory path)

def mayExist (s : Storage) (path : Bytes) : Bool :=
  match s.locate path with
  | .error (.missing _) => false
  | _ => true

def makeSteps : Storage → Path → List Bytes → Storage × Bool
  | s, path, [] => (s, s.isDirectory path)
  | s, path, step :: rest =>
      let next := path.walk step
      if s.isFile path || s.isFile next then (s, false)
      else if s.isDirectory next then makeSteps s next rest
      else if nameLimit < step.length then (s, false)
      else makeSteps (s.put next .directory) next rest

def makeDirectory (s : Storage) (path : Bytes) : Storage × Bool := s.makeSteps (Path.start path) (Path.steps path)

def databaseAt (s : Storage) (path : Bytes) : Database :=
  match s.item? (Path.ofBytes path) with
  | some (.database db _) => db
  | _ => {}

def writeDatabase (s : Storage) (path : Bytes) (db : Database) : Storage :=
  (s.makeDirectory path).1.put (Path.ofBytes path) (.database db .free)

def catalogPlace (s : Storage) (path : Bytes) (readOnly : Bool) : Storage × Option Path :=
  match s.locate path with
  | .ok place => (s, some place)
  | .error (.missing _) =>
      if readOnly then (s, none)
      else
        let (made, there) := s.makeDirectory path
        (made, if there then some (Path.ofBytes path) else none)
  | .error _ => (s, none)

def found? (s : Storage) (place : Path) (readOnly : Bool) : Option (Database × Hold) :=
  match s.item? place with
  | some (.database db hold) => some (db, hold)
  | some (.file _) => none
  | _ => if readOnly then none else some ({}, .free)

def openAt (s : Storage) (path : Bytes) (place : Path) (readOnly : Bool) : Storage × Except CatalogError Catalog :=
  match (s.found? place readOnly).bind (fun p => (p.2.acquire? readOnly).map (fun held => (p.1, held))) with
  | none => (s, .error (.cannotOpen path))
  | some (db, held) =>
      match Catalog.ofDatabase path readOnly db with
      | .error e => (s, .error e)
      | .ok c => (s.put place (.database db held), .ok c)

def openCatalog (s : Storage) (path : Bytes) (readOnly : Bool) : Storage × Except CatalogError Catalog :=
  if path.isEmpty then (s, if readOnly then .error .pathRequired else .ok {})
  else
    match s.catalogPlace path readOnly with
    | (made, some place) => made.openAt path place readOnly
    | (made, none) => (made, .error (.cannotOpen path))

def closeCatalog (s : Storage) (c : Catalog) : Storage × Catalog :=
  match c.flushed with
  | none => (s, c)
  | some db =>
      if c.path.isEmpty then (s, c.close)
      else
        let steps := Path.ofBytes c.path
        match s.item? steps with
        | some (.database _ hold) => (s.put steps (.database db hold.release), c.close)
        | _ => (s, c.close)

end Storage

end HeapAbstraction
