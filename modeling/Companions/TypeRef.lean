import Companions.Text.Basic
/-!
Naming conventions of the metadata, and type references: a named type of some assembly, an
instantiation, an array, or a generic parameter. A reference is syntax; what it stands for is decided
by a context.
-/
namespace Companions

namespace Name

/-- Name of every instance constructor. -/
def constructor : String := ".ctor"

/-- The type whose attribute parameters take any type as argument. -/
def typeDescriptor : String := "System.Type"

def imageExtension : String := "dll"

def symbolsExtension : String := "pdb"

/-- A type name in a namespace; the empty namespace adds nothing. -/
def qualify (space name : String) : String :=
  if space = "" then name else space ++ "." ++ name

/-- The full name of a type nested in `declaring`. -/
def nest (declaring name : String) : String := declaring ++ "/" ++ name

/-- Whether `needle` occurs in `haystack`, capitals and small ASCII letters being the same. -/
def containsIgnoreCase (haystack needle : String) : Bool :=
  Text.contains (Text.lower needle.toList) (Text.lower haystack.toList)

end Name

inductive TypeRef where
  | named (scope fullName : String)
  | generic (element : TypeRef) (arguments : List TypeRef)
  | array (element : TypeRef)
  | param (position : UInt16) (name : String)
  deriving Repr, Inhabited

namespace TypeRef

mutual

def decEq : (a b : TypeRef) → Decidable (a = b)
  | .named s f, .named t g =>
    if h : s = t ∧ f = g then isTrue (by rw [h.1, h.2]) else isFalse (by simp_all)
  | .generic e as, .generic f bs =>
    match decEq e f, decEqAll as bs with
    | isTrue h, isTrue k => isTrue (by rw [h, k])
    | isFalse h, _ => isFalse (by simp_all)
    | _, isFalse k => isFalse (by simp_all)
  | .array e, .array f =>
    match decEq e f with
    | isTrue h => isTrue (by rw [h])
    | isFalse h => isFalse (by simp_all)
  | .param p n, .param q m =>
    if h : p = q ∧ n = m then isTrue (by rw [h.1, h.2]) else isFalse (by simp_all)
  | .named .., .generic .. => isFalse (by simp)
  | .named .., .array .. => isFalse (by simp)
  | .named .., .param .. => isFalse (by simp)
  | .generic .., .named .. => isFalse (by simp)
  | .generic .., .array .. => isFalse (by simp)
  | .generic .., .param .. => isFalse (by simp)
  | .array .., .named .. => isFalse (by simp)
  | .array .., .generic .. => isFalse (by simp)
  | .array .., .param .. => isFalse (by simp)
  | .param .., .named .. => isFalse (by simp)
  | .param .., .generic .. => isFalse (by simp)
  | .param .., .array .. => isFalse (by simp)

def decEqAll : (as bs : List TypeRef) → Decidable (as = bs)
  | [], [] => isTrue rfl
  | a :: as, b :: bs =>
    match decEq a b, decEqAll as bs with
    | isTrue h, isTrue k => isTrue (by rw [h, k])
    | isFalse h, _ => isFalse (by simp_all)
    | _, isFalse k => isFalse (by simp_all)
  | [], _ :: _ => isFalse (by simp)
  | _ :: _, [] => isFalse (by simp)

end

instance : DecidableEq TypeRef := decEq

def isGeneric : TypeRef → Bool
  | .generic .. => true
  | _ => false

def isArray : TypeRef → Bool
  | .array _ => true
  | _ => false

/-- What an instantiation or an array is made of; any other reference itself. -/
def elementType : TypeRef → TypeRef
  | .generic e _ => e
  | .array e => e
  | t => t

/-- The arguments of an instantiation; nothing else has any. -/
def arguments : TypeRef → List TypeRef
  | .generic _ as => as
  | _ => []

/-- Full name of the declared type behind the reference. -/
def fullName : TypeRef → Option String
  | .named _ f => some f
  | .generic e _ => e.fullName
  | _ => none

/-- Assembly of the declared type behind the reference. -/
def scope : TypeRef → Option String
  | .named s _ => some s
  | .generic e _ => e.scope
  | _ => none

/-- The last segment of the full name, behind any namespace and declaring type. -/
def simpleName : TypeRef → String
  | .named _ f => String.ofList (Text.afterLast (fun c => c = '.' || c = '/') f.toList)
  | .generic e _ => e.simpleName
  | .array e => e.simpleName ++ "[]"
  | .param _ n => n

mutual

/-- Full name and assembly in one text. An instantiation carries the unique names of its
arguments, each in brackets; a parameter is known by its position alone. -/
def uniqueName : TypeRef → String
  | .named s f => f ++ "/" ++ s
  | .generic (.named s f) as => f ++ "[" ++ ",".intercalate (uniqueNames as) ++ "]" ++ "/" ++ s
  | .generic e as => e.uniqueName ++ "[" ++ ",".intercalate (uniqueNames as) ++ "]"
  | .array e => e.uniqueName ++ "[]"
  | .param p _ => "!" ++ Nat.repr p.toNat

/-- The unique names of arguments, each in brackets. -/
def uniqueNames : List TypeRef → List String
  | [] => []
  | a :: as => ("[" ++ a.uniqueName ++ "]") :: uniqueNames as

end

/-- Identity of the declaration behind a reference. -/
def definitionName : TypeRef → String
  | .generic e _ => e.uniqueName
  | t => t.uniqueName

mutual

/-- The reference as a reader writes it, assemblies left out. -/
def display : TypeRef → String
  | .named _ f => f
  | .generic e as => e.display ++ "<" ++ ",".intercalate (displayAll as) ++ ">"
  | .array e => e.display ++ "[]"
  | .param _ n => n

def displayAll : List TypeRef → List String
  | [] => []
  | a :: as => a.display :: displayAll as

end

mutual

/-- Every parameter with a matching argument becomes that argument. The element of an
instantiation is a definition and stays. -/
def bind (args : List TypeRef) : TypeRef → TypeRef
  | .named s f => .named s f
  | .generic e as => .generic e (bindAll args as)
  | .array e => .array (bind args e)
  | .param p n => args[p.toNat]?.getD (.param p n)

def bindAll (args : List TypeRef) : List TypeRef → List TypeRef
  | [] => []
  | a :: as => bind args a :: bindAll args as

end

/-- The reference with `args` in place of its parameters. -/
def substitute (t : TypeRef) (args : List TypeRef) : TypeRef := bind args t

mutual

/-- How deep instantiations stand inside arguments; arrays and elements do not count. -/
def nesting : TypeRef → Nat
  | .named .. => 0
  | .generic _ as => nestingAll as + 1
  | .array e => e.nesting
  | .param .. => 0

def nestingAll : List TypeRef → Nat
  | [] => 0
  | a :: as => max a.nesting (nestingAll as)

end

theorem bindAll_eq_map (args as : List TypeRef) : bindAll args as = as.map (bind args) := by
  induction as with
  | nil => rfl
  | cons a as ih => simp [bindAll, ih]

theorem uniqueNames_eq_map (as : List TypeRef) :
    uniqueNames as = as.map fun a => "[" ++ a.uniqueName ++ "]" := by
  induction as with
  | nil => rfl
  | cons a as ih => simp [uniqueNames, ih]

mutual

theorem bind_nil : (t : TypeRef) → bind [] t = t
  | .named .. => rfl
  | .generic e as => by simp [bind, bindAll_nil as]
  | .array e => by simp [bind, bind_nil e]
  | .param .. => by simp [bind]

theorem bindAll_nil : (as : List TypeRef) → bindAll [] as = as
  | [] => rfl
  | a :: as => by simp [bindAll, bind_nil a, bindAll_nil as]

end

end TypeRef
end Companions
