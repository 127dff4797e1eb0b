import HeapAbstraction.Catalog.Database
import HeapAbstraction.Catalog.Header
import HeapAbstraction.Encoding.Decode
import HeapAbstraction.Encoding.Encode
import HeapAbstraction.Fingerprint.Basic
import HeapAbstraction.Heap.Isomorphism
import HeapAbstraction.Visitor

namespace HeapAbstraction

inductive CatalogError where
  | pathRequired
  | cannotOpen (path : Bytes)
  | badHeader
  | incompatible (major minor : Nat)
  | readOnly
  | closed
deriving DecidableEq, Repr

namespace CatalogError

def kind? : CatalogError → Option ErrorKind
  | .pathRequired => some .badCatalogParam
  | .cannotOpen _ => none
  | .badHeader => some .badEncoding
  | .incompatible _ _ => some .badCatalogParam
  | .readOnly => some .badCatalogParam
  | .closed => none

def message : CatalogError → Bytes
  | .pathRequired => ErrorKind.badCatalogParam.inContext "DbPathName must be specified for read-only catalog"
  | .cannotOpen path => "opening catalog " ++ Text.quoted path
  | .badHeader => ErrorKind.badEncoding.inContext "catalog state"
  | .incompatible major minor =>
      ErrorKind.badCatalogParam.inContext
        ("catalog version " ++ Bytes.ofNat major ++ "." ++ Bytes.ofNat minor ++ " is incompatible")
  | .readOnly => ErrorKind.badCatalogParam.inContext "catalog is read-only"
  | .closed => "catalog is closed"

end CatalogError

structure Catalog where
  path : Bytes := []
  readOnly : Bool := false
  header : Header := .initial
  dirty : Bool := true
  database : Option Database := some {}
deriving DecidableEq, Repr

namespace Catalog

def headerKey : Bytes := [0, 0, 1]

def heapMark : UInt8 := 1

def sizeKey (nodes : Nat) : Bytes := heapMark :: Bytes.bigEndian 2 nodes

def classKey (h : Heap) : Bytes := sizeKey (h.countOf .node) ++ Bytes.bigEndian 8 h.fingerprint.toNat

def heapKey (h : Heap) (number : Nat) : Bytes := classKey h ++ Bytes.bigEndian 8 number

def nodesOfKey (key : Bytes) : Nat := Bytes.toNatBE ((key.drop 1 ++ [0, 0]).take 2)

def heapOf? (value : Bytes) : Option Heap := (Heap.decode value).toOption

def ofDatabase (path : Bytes) (readOnly : Bool) (db : Database) : Except CatalogError Catalog :=
  match db.get? headerKey with
  | none => .ok { path := path, readOnly := readOnly, database := some db }
  | some value =>
      let (header, complete) := Header.read value
      if !complete then .error .badHeader
      else if header.isCompatible then
        .ok { path := path, readOnly := readOnly, header := header, dirty := false, database := some db }
      else .error (.incompatible header.major header.minor)

def size (c : Catalog) : Int := (Int64.ofNat c.header.count).toInt

def hasClassOf (db : Database) (h : Heap) : Bool :=
  (db.startingWith (classKey h)).any (fun e =>
    match heapOf? e.2 with
    | some stored => stored.equals h
    | none => false)

def insert (c : Catalog) (h : Heap) : Except CatalogError (Bool × Catalog) :=
  if c.readOnly then .error .readOnly
  else match c.database with
    | none => .error .closed
    | some db =>
        if hasClassOf db h then .ok (false, c)
        else
          let number := (c.header.count + 1) % 0x10000000000000000
          .ok (true, { c with
            header := { c.header with count := number }
            dirty := true
            database := some (db.put (heapKey h number) h.encode) })

-- the heaps with at least `min` nodes, where only the low 16 bits of `min` count, and at most `max` nodes if that is
-- positive; small heaps come first. Entries that cannot be decoded are passed over
def select (c : Catalog) (min max : Int) : Except CatalogError (List Heap) :=
  match c.database with
  | none => .error .closed
  | some db =>
      let start := sizeKey (min % 65536).toNat
      let entries := (db.fromKey start).takeWhile (fun e =>
        e.1.head? == some heapMark && !(0 < max && max < nodesOfKey e.1))
      .ok (entries.filterMap (fun e => heapOf? e.2))

def forEachHit {σ : Type} (c : Catalog) (min max : Int) (v : Visitor σ Heap) (memory : σ) :
    Except CatalogError (List Heap × σ) :=
  v.visit memory <$> c.select min max

def flushed (c : Catalog) : Option Database :=
  if c.dirty && !c.readOnly then c.database.map (fun db => db.put headerKey c.header.write) else c.database

def close (c : Catalog) : Catalog := { c with database := none }

end Catalog

end HeapAbstraction
