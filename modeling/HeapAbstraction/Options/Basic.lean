import HeapAbstraction.Bytes

namespace HeapAbstraction

structure Options where
  minDistance : Int := 0
  aggressive : Bool := false
  constants : List Bytes := ["null", "true", "false", "0", "1"]
  confluent : Bool := true
deriving DecidableEq, Repr

def Options.isConstant (opts : Options) (name : Bytes) : Bool := opts.aggressive && opts.constants.contains name

end HeapAbstraction
