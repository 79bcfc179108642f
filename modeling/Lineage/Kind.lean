namespace Lineage

/-- The sorts of values. Messages name a value by its kind. -/
inductive Kind where
  | null
  | bool
  | int
  | float
  | text
  | action
  | list
  | tuple
  | mapping
  | element
  | directive
  | function
  | incomparable
  | anything
  | nothing
  | typeName
  | properties
  | predicate
  | anyOf
  | abstractCheck
  deriving DecidableEq, Repr

/-- The word for a kind in messages. -/
def Kind.name : Kind → String
  | null => "NoneType"
  | bool => "bool"
  | int => "int"
  | float => "float"
  | text => "str"
  | action => "Action"
  | list => "list"
  | tuple => "tuple"
  | mapping => "dict"
  | element => "Element"
  | directive => "VisitResult"
  | function => "function"
  | incomparable => "Strict"
  | anything => "Anything"
  | nothing => "Nothing"
  | typeName => "TypeName"
  | properties => "PropertyPattern"
  | predicate => "Predicate"
  | anyOf => "AnyOf"
  | abstractCheck => "Check"

end Lineage
