import HeapAbstraction.Grammar.Basic
import HeapAbstraction.Heap.Compaction
import HeapAbstraction.Heap.Folding
import HeapAbstraction.HeapSet
import HeapAbstraction.Options.Basic

namespace HeapAbstraction

def Heap.foldRule (h : Heap) (nt : Nonterminal) (rule : Heap) (m : Morphism) : Except HeapError Heap := do
  let matching ← Matching.ofMorphism rule h m
  match h.fold matching nt with
  | .ok folded => folded.build
  | .error e => .error e.error

namespace Grammar

section

variable (opts : Options) (counter : LabelCounter)

def ruleEmbeddings (first : Bool) (rule h : Heap) : Counted (List Morphism) :=
  Graph.counted (Graph.distantEmbeddings opts.minDistance opts.isConstant first rule.graph h.graph)

def foldCounted (counter : LabelCounter) (h : Heap) (nt : Nonterminal) (rule : Heap) (m : Morphism) :
    Task HeapError Heap := do
  let folded ← Task.ofExcept (h.foldRule nt rule m)
  counter.count .fault .folds nt.label
  return folded

def foldOnce (h : Heap) : List (Nonterminal × Heap) → Task HeapError (Option Heap)
  | [] => return none
  | (nt, rule) :: rest => do
      match ← Task.counted (ruleEmbeddings opts true rule h) with
      | m :: _ => return some (← foldCounted counter h nt rule m)
      | [] => foldOnce h rest

def foldRepeatedly (g : Grammar) : Nat → Heap → Task HeapError Heap
  | 0, h => return h
  | n + 1, h => do
      match ← foldOnce opts counter h g.allRules with
      | some folded => foldRepeatedly g n folded
      | none => return h

structure Exploration where
  seen : HeapSet := {}
  fixed : HeapSet := {}
  fresh : List Heap := []

def foldEach (h : Heap) (nt : Nonterminal) (rule : Heap) :
    Exploration → List Morphism → Task HeapError Exploration
  | x, [] => return x
  | x, m :: rest => do
      let folded ← foldCounted counter h nt rule m
      let (added, seen) ← Task.counted (x.seen.insert folded)
      foldEach h nt rule { x with seen := seen, fresh := if added then x.fresh ++ [folded] else x.fresh } rest

def foldRules (h : Heap) :
    Exploration → Bool → List (Nonterminal × Heap) → Task HeapError (Exploration × Bool)
  | x, folded, [] => return (x, folded)
  | x, folded, (nt, rule) :: rest => do
      let found ← Task.counted (ruleEmbeddings opts false rule h)
      let x ← foldEach counter h nt rule x found
      foldRules h x (folded || !found.isEmpty) rest

def foldLevel (g : Grammar) : Exploration → List Heap → Task HeapError Exploration
  | x, [] => return x
  | x, h :: rest => do
      let (x, folded) ← foldRules opts counter h x false g.allRules
      if folded then foldLevel g x rest
      else
        let (_, fixed) ← Task.counted (x.fixed.insert h)
        foldLevel g { x with fixed := fixed } rest

def foldLevels (g : Grammar) : Nat → Exploration → List Heap → Task HeapError Exploration
  | 0, x, _ => return x
  | n + 1, x, level => do
      let x ← foldLevel opts counter g { x with fresh := [] } level
      if x.fresh.isEmpty then return x else foldLevels g n x x.fresh

def foldEverywhere (g : Grammar) (h : Heap) : Task HeapError (List Heap) := do
  let (_, seen) ← Task.counted (({} : HeapSet).insert h)
  let x ← foldLevels opts counter g (h.weight + 1) { seen := seen } [h]
  return x.fixed.items

def canonicalForms (g : Grammar) (h : Heap) : Task HeapError (List Heap) :=
  if opts.confluent then List.singleton <$> foldRepeatedly opts counter g (h.weight + 1) h
  else foldEverywhere opts counter g h

end

def canonicalize (opts : Options) (g : Grammar) (h : Heap) (counter : LabelCounter := .text) :
    Task HeapError (List Heap) := do
  let results ← canonicalForms opts counter g h
  Task.counted (Counted.count .canonicalizations 1)
  Task.counted (Counted.count .canonicalResults results.length)
  return results

end Grammar

end HeapAbstraction
