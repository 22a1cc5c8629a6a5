import AppAssembly.Value.Basic

/-!
# Equality of values

Plain data is compared by content, numbers as floating-point numbers compare. Objects, callables
and factories are equal if they are the same one; methods, if receiver and name are the same.
-/

namespace AppAssembly.Value

mutual

def same : Value → Value → Bool
  | null, null => true
  | bool a, bool b => a == b
  | int a, int b => a == b
  | float a, float b => a == b
  | str a, str b => a == b
  | list as, list bs => sameAll as bs
  | object a, object b => a.tag == b.tag
  | callable a, callable b => a.tag == b.tag
  | method a m, method b n => a.tag == b.tag && m == n
  | factory a, factory b => a.tag == b.tag
  | _, _ => false

/-- Whether two lists of values are equal. -/
def sameAll : List Value → List Value → Bool
  | [], [] => true
  | a :: as, b :: bs => same a b && sameAll as bs
  | _, _ => false

end

end AppAssembly.Value
