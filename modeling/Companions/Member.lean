import Companions.TypeRef
import Companions.Flags
/-!
Members of a type: fields, methods with their short bodies, and custom attributes.
-/
namespace Companions

structure Field where
  name : String
  flags : FieldFlags
  type : TypeRef
  deriving DecidableEq, Repr, Inhabited

namespace Field

def ofPublic (name : String) (type : TypeRef) : Field := ⟨name, .isPublic, type⟩

def isPublic (f : Field) : Bool := f.flags.contains .isPublic

end Field

structure Parameter where
  name : String
  type : TypeRef
  deriving DecidableEq, Repr, Inhabited

/-- A method as seen from a possibly instantiated declaring type. -/
structure MethodRef where
  declaringType : TypeRef
  name : String
  parameters : List TypeRef
  returnType : TypeRef
  deriving DecidableEq, Repr, Inhabited

inductive Instruction where
  | loadThis
  | call (method : MethodRef)
  | ret
  deriving DecidableEq, Repr, Inhabited

structure Method where
  name : String
  flags : MethodFlags
  parameters : List Parameter := []
  returnType : TypeRef
  body : List Instruction := []
  deriving DecidableEq, Repr, Inhabited

namespace Method

/-- A constructor without a body, as a referenced assembly declares it. -/
def constructor (parameters : List Parameter) (void : TypeRef) : Method :=
  ⟨Name.constructor, .constructor, parameters, void, []⟩

/-- A parameterless constructor that calls `base` on the receiver and returns. -/
def callingBase (base : MethodRef) (void : TypeRef) : Method :=
  ⟨Name.constructor, .constructor, [], void, [.loadThis, .call base, .ret]⟩

/-- Static methods of that name construct nothing. -/
def isConstructor (m : Method) : Bool :=
  m.name = Name.constructor && !m.flags.contains .isStatic

/-- The method as declared on `declaring`. -/
def reference (m : Method) (declaring : TypeRef) : MethodRef :=
  ⟨declaring, m.name, m.parameters.map (·.type), m.returnType⟩

/-- A body that stands at all ends with a return. -/
def returns (m : Method) : Bool := m.body.isEmpty || m.body.getLast? = some .ret

end Method

inductive AttributeValue where
  | type (type : TypeRef)
  | string (text : String)
  | int (value : Int64)
  | bool (value : Bool)
  deriving DecidableEq, Repr, Inhabited

structure AttributeArgument where
  type : TypeRef
  value : AttributeValue
  deriving DecidableEq, Repr, Inhabited

/-- An attribute on a type: the constructor it is made with, and the values passed to it. -/
structure CustomAttribute where
  constructor : MethodRef
  arguments : List AttributeArgument := []
  deriving DecidableEq, Repr, Inhabited

def CustomAttribute.type (a : CustomAttribute) : TypeRef := a.constructor.declaringType

end Companions
