import Companions.Contract
import Companions.Json.Decode
/-!
Configurations as JSON. Every field has a default, so that a text overlays the defaults field by
field.
-/
namespace Companions
open Json (required optional)

namespace HostType

def toJson (h : HostType) : Json :=
  Json.object [("assembly", .text h.assembly), ("fullName", .text h.fullName)]

def ofJson? : (levels : Nat) → Json → Option HostType
  | 0, _ => none
  | _ + 1, j => do
    let [assembly, fullName] ← j.record? ["assembly", "fullName"] | none
    return ⟨← required Json.asText? assembly, ← required Json.asText? fullName⟩

end HostType

namespace Contracts

def fieldNames : List String :=
  ["componentData", "bufferElementData", "enumerable", "authoringInterface", "authoringBase",
    "authoringTemplates", "baker", "genericBaker", "genericDrawer", "genericInspectorEditor",
    "propertyDrawerAttribute", "customEditorAttribute"]

def toJson (c : Contracts) : Json :=
  Json.object (fieldNames.zip
    [c.componentData.toJson, c.bufferElementData.toJson, c.enumerable.toJson,
      c.authoringInterface.toJson, c.authoringBase.toJson,
      .list HostType.toJson c.authoringTemplates, c.baker.toJson, c.genericBaker.toJson,
      c.genericDrawer.toJson, c.genericInspectorEditor.toJson, c.propertyDrawerAttribute.toJson,
      c.customEditorAttribute.toJson])

def ofJson? : (levels : Nat) → Json → Option Contracts
  | 0, _ => none
  | n + 1, j => do
    let [componentData, bufferElementData, enumerable, authoringInterface, authoringBase,
        authoringTemplates, baker, genericBaker, genericDrawer, genericInspectorEditor,
        propertyDrawerAttribute, customEditorAttribute] ← j.record? fieldNames | none
    let default : Contracts := {}
    return {
      componentData := ← optional default.componentData (HostType.ofJson? n) componentData
      bufferElementData :=
        ← optional default.bufferElementData (HostType.ofJson? n) bufferElementData
      enumerable := ← optional default.enumerable (HostType.ofJson? n) enumerable
      authoringInterface :=
        ← optional default.authoringInterface (HostType.ofJson? n) authoringInterface
      authoringBase := ← optional default.authoringBase (HostType.ofJson? n) authoringBase
      authoringTemplates :=
        ← optional default.authoringTemplates (Json.asList? HostType.ofJson? n) authoringTemplates
      baker := ← optional default.baker (HostType.ofJson? n) baker
      genericBaker := ← optional default.genericBaker (HostType.ofJson? n) genericBaker
      genericDrawer := ← optional default.genericDrawer (HostType.ofJson? n) genericDrawer
      genericInspectorEditor :=
        ← optional default.genericInspectorEditor (HostType.ofJson? n) genericInspectorEditor
      propertyDrawerAttribute :=
        ← optional default.propertyDrawerAttribute (HostType.ofJson? n) propertyDrawerAttribute
      customEditorAttribute :=
        ← optional default.customEditorAttribute (HostType.ofJson? n) customEditorAttribute }

end Contracts

namespace Config

def toJson (c : Config) : Json :=
  Json.object [("ignoredAssemblies", .list .text c.ignoredAssemblies),
    ("logPath", .nullable .text c.logPath), ("resolveAdditional", .bool c.resolveAdditional),
    ("injectInspectorEditors", .bool c.injectInspectorEditors), ("contracts", c.contracts.toJson)]

def ofJson? : (levels : Nat) → Json → Option Config
  | 0, _ => none
  | n + 1, j => do
    let [ignored, logPath, resolveAdditional, inspectorEditors, contracts] ← j.record?
      ["ignoredAssemblies", "logPath", "resolveAdditional", "injectInspectorEditors",
        "contracts"] | none
    let default : Config := {}
    return {
      ignoredAssemblies :=
        ← optional default.ignoredAssemblies (Json.asList? (fun _ => Json.asText?) n) ignored
      logPath := ← optional default.logPath (Json.asNullable? Json.asText?) logPath
      resolveAdditional := ← optional default.resolveAdditional Json.asBool? resolveAdditional
      injectInspectorEditors :=
        ← optional default.injectInspectorEditors Json.asBool? inspectorEditors
      contracts := ← optional default.contracts (Contracts.ofJson? n) contracts }

/-- The configuration that a text gives. -/
def parse? (text : Bytes) : Option Config := (Json.read? text).bind (ofJson? Json.maxNesting)

end Config
end Companions
