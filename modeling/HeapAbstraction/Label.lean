import HeapAbstraction.Bytes

namespace HeapAbstraction

inductive Kind where
  | node
  | nonterminal
  | variable
deriving DecidableEq, Repr

namespace Kind

def name : Kind → Bytes
  | .node => "node"
  | .nonterminal => "nonterminal"
  | .variable => "variable"

def code : Kind → Nat
  | .node => 1
  | .nonterminal => 2
  | .variable => 3

def ofCode? : Nat → Option Kind
  | 1 => some .node
  | 2 => some .nonterminal
  | 3 => some .variable
  | _ => none

theorem ofCode?_code (k : Kind) : ofCode? k.code = some k := by cases k <;> rfl

def nameOfCode (n : Nat) : Bytes :=
  match ofCode? n with
  | some k => k.name
  | none => "?"

end Kind

-- a hyperedge label with its number of tentacles. Ranks are 32-bit numbers, and only a rank that is the length of a
-- tentacle list ever labels a hyperedge
structure Nonterminal where
  label : Bytes
  rank : Int
deriving DecidableEq, Repr

namespace Nonterminal

-- by label, then by rank; the difference of the ranks wraps at 32 bits
def compare (a b : Nonterminal) : Int :=
  match Bytes.order a.label b.label with
  | .lt => -1
  | .gt => 1
  | .eq => Int.bmod (a.rank - b.rank) 0x100000000

end Nonterminal

inductive Label where
  | node (type : Bytes)
  | nonterminal (nt : Nonterminal)
  | variable (name : Bytes)
deriving DecidableEq, Repr

namespace Label

instance : Inhabited Label := ⟨.node []⟩

def kind : Label → Kind
  | .node _ => .node
  | .nonterminal _ => .nonterminal
  | .variable _ => .variable

def name : Label → Bytes
  | .node t => t
  | .nonterminal nt => nt.label
  | .variable x => x

def rank : Label → Int
  | .nonterminal nt => nt.rank
  | _ => 0

end Label

inductive EdgeLabel where
  | selector (name : Bytes)
  | tentacle (ordinal : Nat)
deriving DecidableEq, Repr

namespace EdgeLabel

def isSelector : EdgeLabel → Bool
  | .selector _ => true
  | .tentacle _ => false

def name : EdgeLabel → Bytes
  | .selector s => s
  | .tentacle _ => []

end EdgeLabel

end HeapAbstraction
