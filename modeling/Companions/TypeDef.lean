import Companions.Member
/-!
Type nodes: the declarations that an assembly image is made of, and the debug symbols of an assembly,
which tell for each type the place where it was declared.
-/
namespace Companions

structure SourceLocation where
  document : String
  line : UInt32
  deriving DecidableEq, Repr, Inhabited

/-- A row without a location is hidden: the type was generated. -/
structure SymbolEntry where
  typeName : String
  location : Option SourceLocation := none
  deriving DecidableEq, Repr, Inhabited

structure Symbols where
  assembly : String
  entries : List SymbolEntry := []
  deriving DecidableEq, Repr, Inhabited

namespace Symbols

/-- The location in the first row of that name. -/
def location? (s : Symbols) (typeName : String) : Option SourceLocation :=
  (s.entries.find? (·.typeName = typeName)).bind (·.location)

def hiddenCount (s : Symbols) : Nat := s.entries.countP (·.location.isNone)

end Symbols

/-- Position of a node in its image. Nodes are added and never removed, so ids stay valid. -/
abbrev TypeId := Nat

inductive TypeKind where
  | classType
  | structType
  | interfaceType
  deriving DecidableEq, Repr, Inhabited

structure TypeDef where
  /-- Empty for nested types. -/
  space : String := ""
  name : String
  kind : TypeKind
  flags : TypeFlags
  /-- Interfaces and the root object type have no base. -/
  base : Option TypeRef := none
  interfaces : List TypeRef := []
  genericParams : List String := []
  declaring : Option TypeId := none
  nested : List TypeId := []
  fields : List Field := []
  methods : List Method := []
  attributes : List CustomAttribute := []
  /-- Carried by the symbols, not by the image. -/
  source : Option SourceLocation := none
  deriving DecidableEq, Repr, Inhabited

namespace TypeDef

/-- A public declaration without members; an interface is abstract as well. -/
def ofKind (kind : TypeKind) (space name : String) : TypeDef where
  space := space
  name := name
  kind := kind
  flags := if kind = .interfaceType then .union .isPublic .isAbstract else .isPublic

def isInterface (d : TypeDef) : Bool := d.kind = .interfaceType

def isGenericDefinition (d : TypeDef) : Bool := !d.genericParams.isEmpty

def isNested (d : TypeDef) : Bool := d.declaring.isSome

/-- Instance constructors in declaration order. -/
def constructors (d : TypeDef) : List Method := d.methods.filter (·.isConstructor)

def field? (d : TypeDef) (name : String) : Option Field := d.fields.find? (·.name = name)

end TypeDef
end Companions
