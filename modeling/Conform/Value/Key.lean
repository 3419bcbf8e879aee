import Conform.Value.Equality

/-! Values as keys. A mutable container is no key, nor is a signaling number, nor a tuple that holds such a
value. -/

namespace Conform

/-- What keeps a value from being a key. -/
inductive KeyFault where
  | mutable (title : String)
  | signaling
  deriving DecidableEq, Repr

/-- The name of a type with its module, where it has one. -/
def ValueType.title : ValueType → String
  | .deque => "collections.deque"
  | .ordered => "collections.OrderedDict"
  | t => t.name

namespace Value

mutual

def keyFault? : Value → Option KeyFault
  | .seq .tuple xs => keyFaultIn xs
  | .decimal d => if d.isSignaling then some .signaling else none
  | v => if v.isHashable then none else some (.mutable v.type.title)
termination_by structural v => v

def keyFaultIn : List Value → Option KeyFault
  | [] => none
  | x :: xs => (keyFault? x).or (keyFaultIn xs)
termination_by structural xs => xs

end

end Value

end Conform
