import Companions.Image.Basic
import Companions.Image.Error
/-!
The structural rules that a written image obeys, checked in a fixed order so that the first
broken one is reported.
-/
namespace Companions.Image

/-- Every root is a node without declaring type. -/
def checkRoots (m : Image) : List TypeId → Except Malformation Unit
  | [] => .ok ()
  | id :: ids =>
    match m.get? id with
    | none => .error (.danglingRoot id)
    | some d => if d.declaring.isSome then .error (.nestedRoot d.name) else checkRoots m ids

/-- The declaring type exists and lists the node. -/
def checkDeclaring (m : Image) (id : TypeId) (d : TypeDef) : Except Malformation Unit :=
  match d.declaring with
  | none => .ok ()
  | some parent =>
    match m.get? parent with
    | none => .error (.danglingDeclaring d.name)
    | some p => if id ∈ p.nested then .ok () else .error (.unlisted d.name)

def checkNested (m : Image) (d : TypeDef) : Except Malformation Unit :=
  if d.nested.all (· < m.types.length) then .ok () else .error (.danglingNested d.name)

/-- No field bears a name that an earlier one has. -/
def checkFields (fullName : String) : (seen : List String) → List Field → Except Malformation Unit
  | _, [] => .ok ()
  | seen, f :: fs =>
    if f.name ∈ seen then .error (.duplicateField f.name fullName)
    else checkFields fullName (f.name :: seen) fs

def checkConstructors (fullName : String) (d : TypeDef) : Except Malformation Unit :=
  if d.constructors.all (·.returns) then .ok () else .error (.missingReturn fullName)

/-- Checks the nodes in order, the first having id `id`; `seen` are the full names so far. -/
def checkTypes (m : Image) : (id : TypeId) → (seen : List String) → List TypeDef →
    Except Malformation Unit
  | _, _, [] => .ok ()
  | id, seen, d :: ds => do
    m.checkDeclaring id d
    m.checkNested d
    let fullName := m.fullName id
    if fullName ∈ seen then throw (.duplicateType fullName)
    checkFields fullName [] d.fields
    checkConstructors fullName d
    checkTypes m (id + 1) (fullName :: seen) ds

/-- Roots first, then node by node: links, full name, fields, constructors. -/
def check (m : Image) : Except Malformation Unit := do
  m.checkRoots m.roots
  m.checkTypes 0 [] m.types

def validate (m : Image) : Except ImageError Unit :=
  m.check.mapError (.malformed m.identity.name)

end Companions.Image
