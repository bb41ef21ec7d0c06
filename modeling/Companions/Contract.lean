import Companions.TypeRef
/-!
Host contracts: where the host declares its marker interfaces, templates and attributes, and the
two tables made of them: how a component shape is stored, and which companions are synthesized.
They are part of the configuration of a pass.
-/
namespace Companions

/-- A type that a host assembly declares. -/
structure HostType where
  assembly : String
  fullName : String
  deriving DecidableEq, Repr, Inhabited

def HostType.ref (h : HostType) : TypeRef := .named h.assembly h.fullName

/-- How a component shape is stored on an authoring type: one value, or an array. -/
inductive Storage where
  | single
  | sequence
  deriving DecidableEq, Repr, Inhabited

structure ContractRule where
  contract : TypeRef
  storage : Storage
  deriving DecidableEq, Repr, Inhabited

/-- What a shape must be assignable to: the first argument of a generic contract, and any other
contract itself. -/
def ContractRule.predicate (r : ContractRule) : TypeRef :=
  r.contract.arguments.head?.getD r.contract

/-- What one companion pass searches for and builds. -/
structure CompanionRequest where
  /-- Put behind the source type's name. -/
  suffix : String
  /-- A type that satisfies one of these is a source type. -/
  contracts : List TypeRef := []
  /-- The definition that companions instantiate. -/
  template : TypeRef
  /-- Other definitions that count as companions too. -/
  recognized : List TypeRef := []
  deriving DecidableEq, Repr, Inhabited

/-- A request, and the attribute that marks what it injects. -/
structure CompanionPass where
  request : CompanionRequest
  marker : Option TypeRef
  deriving DecidableEq, Repr, Inhabited

structure Contracts where
  componentData : HostType := ⟨"Unity.Entities", "Unity.Entities.IComponentData"⟩
  bufferElementData : HostType := ⟨"Unity.Entities", "Unity.Entities.IBufferElementData"⟩
  enumerable : HostType := ⟨"netstandard", "System.Collections.Generic.IEnumerable`1"⟩
  authoringInterface : HostType := ⟨"Ecs.Authoring", "Ecs.Authoring.IGenericComponentAuthoring"⟩
  authoringBase : HostType := ⟨"Ecs.Authoring", "Ecs.Authoring.GenericComponentAuthoring"⟩
  /-- One generic base for each number of components. -/
  authoringTemplates : List HostType :=
    [⟨"Ecs.Authoring", "Ecs.Authoring.GenericComponentAuthoring`1"⟩,
      ⟨"Ecs.Authoring", "Ecs.Authoring.GenericComponentAuthoring`2"⟩,
      ⟨"Ecs.Authoring", "Ecs.Authoring.GenericComponentAuthoring`3"⟩]
  baker : HostType := ⟨"Unity.Entities", "Unity.Entities.Baker`1"⟩
  genericBaker : HostType := ⟨"Ecs.Authoring", "Ecs.Authoring.GenericBaker`1"⟩
  genericDrawer : HostType := ⟨"Ecs.Authoring.Editor", "Ecs.Authoring.Editor.GenericDrawer`1"⟩
  genericInspectorEditor : HostType :=
    ⟨"Ecs.Authoring.Editor", "Ecs.Authoring.Editor.GenericInspectorEditor`1"⟩
  propertyDrawerAttribute : HostType :=
    ⟨"UnityEditor.CoreModule", "UnityEditor.CustomPropertyDrawer"⟩
  customEditorAttribute : HostType := ⟨"UnityEditor.CoreModule", "UnityEditor.CustomEditor"⟩
  deriving DecidableEq, Repr, Inhabited

namespace Contracts

def templates (c : Contracts) : List TypeRef := c.authoringTemplates.map (·.ref)

/-- The first rule that applies wins. -/
def rules (c : Contracts) : List ContractRule :=
  [⟨c.componentData.ref, .single⟩,
    ⟨.generic c.enumerable.ref [c.bufferElementData.ref], .sequence⟩]

def drawerPass (c : Contracts) : CompanionPass where
  request := {
    suffix := "CustomDrawer"
    contracts := [c.componentData.ref, c.bufferElementData.ref]
    template := c.genericDrawer.ref }
  marker := some c.propertyDrawerAttribute.ref

def editorPass (c : Contracts) : CompanionPass where
  request := {
    suffix := "AuthoringEditor"
    contracts := [c.authoringBase.ref]
    template := c.genericInspectorEditor.ref }
  marker := some c.customEditorAttribute.ref

def bakerPass (c : Contracts) : CompanionPass where
  request := {
    suffix := "Baker"
    contracts := [c.authoringInterface.ref]
    template := c.genericBaker.ref
    recognized := [c.baker.ref] }
  marker := none

/-- Drawers, inspector editors where wanted, bakers. -/
def passes (c : Contracts) (inspectorEditors : Bool) : List CompanionPass :=
  c.drawerPass :: (if inspectorEditors then [c.editorPass] else []) ++ [c.bakerPass]

end Contracts

structure Config where
  /-- A name that contains one of these, in whatever case, is left alone. -/
  ignoredAssemblies : List String := ["CodeGen", "Ecs.Authoring", "Unity", "UniRx"]
  /-- File to which the activity log is appended, if any. -/
  logPath : Option String := some "Logs/PostProcess.log"
  /-- Whether references may be answered from what earlier passes loaded. -/
  resolveAdditional : Bool := true
  /-- Whether authoring components get inspector editors. -/
  injectInspectorEditors : Bool := false
  contracts : Contracts := {}
  deriving DecidableEq, Repr, Inhabited

namespace Config

/-- The file that is looked for beside an assembly. -/
def fileName : String := "ecsgen.json"

def shouldProcess (c : Config) (assembly : String) : Bool :=
  !c.ignoredAssemblies.any (Name.containsIgnoreCase assembly)

end Config
end Companions
