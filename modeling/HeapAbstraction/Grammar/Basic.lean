import HeapAbstraction.HeapFile.Definitions
import HeapAbstraction.Heap.Isomorphism
import HeapAbstraction.Visitor

namespace HeapAbstraction

inductive RuleError where
  | externals (nt : Nonterminal) (found : Nat)
  | nonShrinking (nt : Nonterminal)
  | builderInvalid
deriving DecidableEq, Repr

namespace RuleError

def kind : RuleError → ErrorKind
  | .externals .. => .rankMismatch
  | .nonShrinking _ => .nonShrinkingRule
  | .builderInvalid => .builderInvalid

def message : RuleError → Bytes
  | .externals nt found =>
      ErrorKind.rankMismatch.inContext ("rule for " ++ HeapError.ranked nt ++ " has " ++ Bytes.ofNat found ++
        " external nodes")
  | .nonShrinking nt => ErrorKind.nonShrinkingRule.inContext ("rule for " ++ HeapError.ranked nt)
  | .builderInvalid => ErrorKind.builderInvalid.text

end RuleError

namespace Heap

def selectorCount (h : Heap) : Nat :=
  ((h.elements.filter (isLiveOf .node)).map (fun e => e.selectorNames.length)).foldr (· + ·) 0

def edgeCount (h : Heap) : Nat := h.countOf .nonterminal + h.countOf .variable

def weight (h : Heap) : Nat := 2 * (h.countOf .node + h.selectorCount) + h.edgeCount

end Heap

def checkRule (nt : Nonterminal) (rule : Heap) : Except RuleError Unit :=
  if (rule.externalCount : Int) ≠ nt.rank then .error (.externals nt rule.externalCount)
  else if rule.countOf .node + rule.selectorCount = rule.externalCount ∧ rule.edgeCount < 2 then
    .error (.nonShrinking nt)
  else .ok ()

structure Grammar where
  rules : List (Nonterminal × List Heap) := []

namespace Grammar

def nonterminals (g : Grammar) : List Nonterminal := g.rules.map Prod.fst

def rulesFor (g : Grammar) (nt : Nonterminal) : List Heap := (g.rules.lookup nt).getD []

def allRules (g : Grammar) : List (Nonterminal × Heap) :=
  g.rules.flatMap (fun p => p.2.map (fun rule => (p.1, rule)))

def forEachRule {σ : Type} (g : Grammar) (v : Visitor σ (Nonterminal × Heap)) (memory : σ) :
    List (Nonterminal × Heap) × σ :=
  v.visit memory g.allRules

def ruleCount (g : Grammar) : Nat := (g.rules.map (fun p => p.2.length)).foldr (· + ·) 0

def insertRule (nt : Nonterminal) (rule : Heap) : List (Nonterminal × List Heap) → List (Nonterminal × List Heap)
  | [] => [(nt, [rule])]
  | (k, rules) :: rest =>
      if k = nt then
        (k, if rules.any (fun r => r.equals rule) then rules else rules ++ [rule]) :: rest
      else if nt.compare k < 0 then (nt, [rule]) :: (k, rules) :: rest
      else (k, rules) :: insertRule nt rule rest

def addRule (g : Grammar) (nt : Nonterminal) (rule : Heap) : Except RuleError Grammar := do
  checkRule nt rule
  return { rules := insertRule nt rule g.rules }

def addRules (g : Grammar) : List (Nonterminal × Heap) → Except RuleError Grammar
  | [] => .ok g
  | (nt, rule) :: rest => do (← g.addRule nt rule).addRules rest

def ofDefinitions (defs : HeapFile.Definitions) : Except RuleError Grammar :=
  ({} : Grammar).addRules (defs.rules.map (fun r => (r.nonterminal, r.body.heap)))

end Grammar

structure GrammarBuilder where
  grammar : Option Grammar := some {}

namespace GrammarBuilder

def addRule (b : GrammarBuilder) (nt : Nonterminal) (rule : Heap) : Except RuleError GrammarBuilder :=
  match b.grammar with
  | none => .error .builderInvalid
  | some g => do return ⟨some (← g.addRule nt rule)⟩

def addRules (b : GrammarBuilder) (nt : Nonterminal) : List Heap → GrammarBuilder × Except RuleError Unit
  | [] => (b, .ok ())
  | rule :: rest =>
      match b.addRule nt rule with
      | .ok b => b.addRules nt rest
      | .error e => (b, .error e)

def build (b : GrammarBuilder) : Except RuleError (GrammarBuilder × Grammar) :=
  match b.grammar with
  | none => .error .builderInvalid
  | some g => .ok (⟨none⟩, g)

end GrammarBuilder

end HeapAbstraction
