import HeapAbstraction.Text.Utf8

namespace HeapAbstraction

inductive Measure where
  | searches
  | found
  | folds (label : Bytes)
  | materializations (label : Bytes)
  | canonicalizations
  | canonicalResults
deriving DecidableEq, Repr

abbrev Metrics := List (Measure × Nat)

def Metrics.total (m : Metrics) (measure : Measure) : Nat :=
  ((m.filter (fun p => p.1 == measure)).map Prod.snd).foldr (· + ·) 0

structure Counted (α : Type) where
  value : α
  work : Metrics
deriving Repr

namespace Counted

instance : Monad Counted where
  pure a := ⟨a, []⟩
  bind x f :=
    let y := f x.value
    ⟨y.value, x.work ++ y.work⟩

@[simp]
theorem value_pure {α : Type} (a : α) : (pure a : Counted α).value = a := rfl

@[simp]
theorem value_bind {α β : Type} (x : Counted α) (f : α → Counted β) :
    (x >>= f).value = (f x.value).value := rfl

def count (measure : Measure) (amount : Nat) : Counted Unit := ⟨(), [(measure, amount)]⟩

end Counted

abbrev Task (ε α : Type) := ExceptT ε Counted α

namespace Task

def counted {ε α : Type} (x : Counted α) : Task ε α := ExceptT.lift x

def ofExcept {ε α : Type} (x : Except ε α) : Task ε α := ExceptT.mk (pure x)

def result {ε α : Type} (x : Task ε α) : Except ε α := x.run.value

end Task

-- What counts by label may refuse a label, and then nothing is counted.
structure LabelCounter where
  accepts : Bytes → Bool

namespace LabelCounter

def text : LabelCounter := ⟨Text.isValidUtf8⟩

def count {ε : Type} (counter : LabelCounter) (refused : ε) (measure : Bytes → Measure) (label : Bytes) : Task ε Unit :=
  if counter.accepts label then Task.counted (Counted.count (measure label) 1) else Task.ofExcept (.error refused)

end LabelCounter

end HeapAbstraction
