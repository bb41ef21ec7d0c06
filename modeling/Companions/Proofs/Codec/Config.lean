import Companions.Codec.Config
import Companions.Proofs.Json.Record
/-!
Configurations are laid over the defaults. An object may tell any of the fields, in any order and
among members with other names; what it tells is read, and what it leaves out has its default. For
the contracts inside the same holds once more.
-/
namespace Companions
open Json (known optional)

namespace HostType

theorem ofJson?_toJson (h : HostType) (n : Nat) : ofJson? (n + 1) h.toJson = some h := by
  rw [ofJson?]
  simp [toJson, Json.record?_object]

theorem blind : Json.Blind ofJson? := by
  intro n j
  cases n with
  | zero => rfl
  | succ n =>
      rw [ofJson?, ofJson?, Json.record?_plain]
      cases j.record? ["assembly", "fullName"] with
      | none => rfl
      | some fields =>
          obtain _ | ⟨assembly, _ | ⟨fullName, _ | ⟨other, rest⟩⟩⟩ := fields
          · rfl
          · rfl
          · simp [Json.required_plain Json.asText?_plain]
          · rfl

end HostType

namespace Contracts
variable {c : Contracts} {T : Finset String} {ms : List (Bytes × Json)}

/-- The value is that of a field, however texts are escaped. -/
def Tells (c : Contracts) (name : String) (j : Json) : Prop := c.toJson.field? name = some j.plain

/-- The object has the fields in `T`. -/
def Carried (c : Contracts) (T : Finset String) (ms : List (Bytes × Json)) : Prop :=
  Json.Carries fieldNames T c.Tells ms

/-- The fields in `T` from these contracts, all others from the defaults. -/
def overlay (c : Contracts) (T : Finset String) : Contracts :=
  let default : Contracts := {}
  { componentData := if "componentData" ∈ T then c.componentData else default.componentData
    bufferElementData :=
      if "bufferElementData" ∈ T then c.bufferElementData else default.bufferElementData
    enumerable := if "enumerable" ∈ T then c.enumerable else default.enumerable
    authoringInterface :=
      if "authoringInterface" ∈ T then c.authoringInterface else default.authoringInterface
    authoringBase := if "authoringBase" ∈ T then c.authoringBase else default.authoringBase
    authoringTemplates :=
      if "authoringTemplates" ∈ T then c.authoringTemplates else default.authoringTemplates
    baker := if "baker" ∈ T then c.baker else default.baker
    genericBaker := if "genericBaker" ∈ T then c.genericBaker else default.genericBaker
    genericDrawer := if "genericDrawer" ∈ T then c.genericDrawer else default.genericDrawer
    genericInspectorEditor :=
      if "genericInspectorEditor" ∈ T then c.genericInspectorEditor
      else default.genericInspectorEditor
    propertyDrawerAttribute :=
      if "propertyDrawerAttribute" ∈ T then c.propertyDrawerAttribute
      else default.propertyDrawerAttribute
    customEditorAttribute :=
      if "customEditorAttribute" ∈ T then c.customEditorAttribute
      else default.customEditorAttribute }

theorem ofJson?_carried (h : c.Carried T ms) (n : Nat) :
    ofJson? (n + 3) (.obj ms) = some (c.overlay T) := by
  have fields (name : String) : c.toJson.field? name = _ := Json.field?_object _ name
  have host (name : String) (x : HostType) (written : c.toJson.field? name = some x.toJson)
      (default : HostType) :
      optional default (HostType.ofJson? (n + 2)) ((known fieldNames ms).lookup name) =
        some (if name ∈ T then x else default) := by
    refine h.field default fun j told => ?_
    rw [← HostType.blind, ← Option.some.inj (written.symm.trans told)]
    exact x.ofJson?_toJson (n + 1)
  have hosts (default : List HostType) :
      optional default (Json.asList? HostType.ofJson? (n + 2))
        ((known fieldNames ms).lookup "authoringTemplates") =
        some (if "authoringTemplates" ∈ T then c.authoringTemplates else default) := by
    refine h.field default fun j told => ?_
    rw [← HostType.blind.list, ← Option.some.inj ((fields _).symm.trans told)]
    exact Json.asList?_list fun x _ => x.ofJson?_toJson n
  rw [ofJson?, h.record?]
  generalize known fieldNames ms = found at host hosts ⊢
  simp only [fieldNames, List.map_cons, List.map_nil, Option.bind_eq_bind, Option.bind_some, hosts,
    host "componentData" c.componentData (fields _),
    host "bufferElementData" c.bufferElementData (fields _),
    host "enumerable" c.enumerable (fields _),
    host "authoringInterface" c.authoringInterface (fields _),
    host "authoringBase" c.authoringBase (fields _), host "baker" c.baker (fields _),
    host "genericBaker" c.genericBaker (fields _), host "genericDrawer" c.genericDrawer (fields _),
    host "genericInspectorEditor" c.genericInspectorEditor (fields _),
    host "propertyDrawerAttribute" c.propertyDrawerAttribute (fields _),
    host "customEditorAttribute" c.customEditorAttribute (fields _)]
  rfl

end Contracts

namespace Config
variable {c : Config} {S T : Finset String} {ms : List (Bytes × Json)}

def fieldNames : List String :=
  ["ignoredAssemblies", "logPath", "resolveAdditional", "injectInspectorEditors", "contracts"]

/-- The value is that of a field, however texts are escaped; that of the contracts is an object with
the contract fields in `T`. -/
inductive Tells (c : Config) (T : Finset String) : String → Json → Prop where
  | field {name : String} {j : Json} (other : name ≠ "contracts")
      (h : c.toJson.field? name = some j.plain) : Tells c T name j
  | contracts {ms : List (Bytes × Json)} (h : c.contracts.Carried T ms) :
      Tells c T "contracts" (.obj ms)

theorem Tells.plain {name : String} {j : Json} (h : c.Tells T name j) (other : name ≠ "contracts") :
    c.toJson.field? name = some j.plain := by
  cases h with
  | field _ h => exact h
  | contracts h => exact absurd rfl other

/-- The object has the fields in `S`, and in the contracts those in `T`. -/
def Carried (c : Config) (S T : Finset String) (ms : List (Bytes × Json)) : Prop :=
  Json.Carries fieldNames S (c.Tells T) ms

/-- The fields in `S` from this configuration, of its contracts those in `T`, and all others from
the defaults. -/
def overlay (c : Config) (S T : Finset String) : Config :=
  let default : Config := {}
  { ignoredAssemblies :=
      if "ignoredAssemblies" ∈ S then c.ignoredAssemblies else default.ignoredAssemblies
    logPath := if "logPath" ∈ S then c.logPath else default.logPath
    resolveAdditional :=
      if "resolveAdditional" ∈ S then c.resolveAdditional else default.resolveAdditional
    injectInspectorEditors :=
      if "injectInspectorEditors" ∈ S then c.injectInspectorEditors
      else default.injectInspectorEditors
    contracts := if "contracts" ∈ S then c.contracts.overlay T else default.contracts }

theorem ofJson?_carried (h : c.Carried S T ms) (n : Nat) :
    ofJson? (n + 4) (.obj ms) = some (c.overlay S T) := by
  have fields (name : String) : c.toJson.field? name = _ := Json.field?_object _ name
  have ignored (default : List String) :
      optional default (Json.asList? (fun _ => Json.asText?) (n + 3))
        ((known fieldNames ms).lookup "ignoredAssemblies") =
        some (if "ignoredAssemblies" ∈ S then c.ignoredAssemblies else default) := by
    refine h.field default fun j told => ?_
    have plain := told.plain (by decide)
    rw [← Json.Blind.ofText.list, ← Option.some.inj ((fields _).symm.trans plain)]
    exact Json.asList?_list fun s _ => Json.asText?_text s
  have logPath (default : Option String) :
      optional default (Json.asNullable? Json.asText?) ((known fieldNames ms).lookup "logPath") =
        some (if "logPath" ∈ S then c.logPath else default) := by
    refine h.field default fun j told => ?_
    have plain := told.plain (by decide)
    rw [← Json.asNullable?_plain Json.asText?_plain, ← Option.some.inj ((fields _).symm.trans plain)]
    exact Json.asNullable?_nullable nofun fun s _ => Json.asText?_text s
  have flag (name : String) (other : name ≠ "contracts") (b : Bool)
      (written : c.toJson.field? name = some (.bool b)) (default : Bool) :
      optional default Json.asBool? ((known fieldNames ms).lookup name) =
        some (if name ∈ S then b else default) := by
    refine h.field default fun j told => ?_
    rw [← Json.asBool?_plain, ← Option.some.inj (written.symm.trans (told.plain other))]
    rfl
  have contracts (default : Contracts) :
      optional default (Contracts.ofJson? (n + 3)) ((known fieldNames ms).lookup "contracts") =
        some (if "contracts" ∈ S then c.contracts.overlay T else default) := by
    refine h.field default fun j told => ?_
    cases told with
    | field other _ => exact absurd rfl other
    | contracts carried => exact Contracts.ofJson?_carried carried n
  rw [ofJson?]
  change (Json.record? fieldNames (.obj ms) >>= _) = _
  rw [h.record?]
  generalize known fieldNames ms = found at ignored logPath flag contracts ⊢
  simp only [fieldNames, List.map_cons, List.map_nil, Option.bind_eq_bind, Option.bind_some, ignored,
    logPath, contracts, flag "resolveAdditional" (by decide) c.resolveAdditional (fields _),
    flag "injectInspectorEditors" (by decide) c.injectInspectorEditors (fields _)]
  rfl

/-- A configuration file overlays the defaults field by field. From every text of an object that has
some fields of a configuration, in any order and among any members with other names, these fields
are read, and all others have their defaults. -/
theorem parse?_overlay {text : Bytes} (carried : c.Carried S T ms)
    (spelled : (Json.obj ms).Spells text) : parse? text = some (c.overlay S T) := by
  rw [parse?, Json.read?_spelled spelled, Option.bind_some]
  exact ofJson?_carried carried 123

/-- Without a log, with a baker of its own, and with fields that no member tells. -/
def hostConfig : Config where
  ignoredAssemblies := []
  logPath := none
  contracts := { baker := ⟨"Host", "Host.Baker"⟩, genericDrawer := ⟨"Host", "Host.Drawer"⟩ }

def bakerMembers : List (Bytes × Json) :=
  [(Json.encode "baker", .obj
    [(Json.encode "assembly", .str ([0x5C, 0x75, 0x30, 0x30, 0x34, 0x38] ++ utf8 "ost")),
      (Json.encode "fullName", .text "Host.Baker")])]

def hostMembers : List (Bytes × Json) :=
  [(Json.encode "note", .arr [.num ⟨false, [0x31], [0x35], some (false, [0x33])⟩]),
    (Json.encode "contracts", .obj bakerMembers), (Json.encode "logPath", .null)]

/-- An escape for a letter, blanks, an exponent with a plus sign. -/
def hostText : Bytes := utf8
  ("\x7b \"note\": [1.5E+3],\n \"contracts\": \x7b\"baker\":\x7b\"assembly\":" ++
    "\"\\u0048ost\",\"fullName\": \"Host.Baker\"\x7d\x7d, \"logPath\": null \x7d\n")

theorem bakerMembers_carried : hostConfig.contracts.Carried {"baker"} bakerMembers := by
  have known : Json.known Contracts.fieldNames bakerMembers =
      [("baker", .obj
        [(Json.encode "assembly", .str ([0x5C, 0x75, 0x30, 0x30, 0x34, 0x38] ++ utf8 "ost")),
          (Json.encode "fullName", .text "Host.Baker")])] := by rfl
  constructor
  · simp [bakerMembers]
  · rw [known]
    decide
  · intro name
    rw [known]
    simp
  · intro m hm
    rw [known, List.mem_singleton] at hm
    rw [hm]
    exact (Json.field?_object _ _).trans (by rfl)

theorem hostMembers_carried :
    hostConfig.Carried {"logPath", "contracts"} {"baker"} hostMembers := by
  have known : Json.known fieldNames hostMembers =
      [("contracts", .obj bakerMembers), ("logPath", .null)] := by rfl
  constructor
  · simp [hostMembers]
  · rw [known]
    decide
  · intro name
    rw [known]
    simp [or_comm]
  · intro m hm
    rw [known, List.mem_pair] at hm
    rcases hm with rfl | rfl
    · exact .contracts bakerMembers_carried
    · exact .field (by decide) ((Json.field?_object _ _).trans (by rfl))

theorem hostText_overlaid :
    hostConfig.Carried {"logPath", "contracts"} {"baker"} hostMembers ∧
    (Json.obj hostMembers).Spells hostText ∧
    parse? hostText =
      some { logPath := none, contracts := { baker := ⟨"Host", "Host.Baker"⟩ } } := by
  have spelled : (Json.obj hostMembers).Spells hostText := Json.read?_eq_some_iff.mp (by rfl)
  refine ⟨hostMembers_carried, spelled, ?_⟩
  exact (parse?_overlay hostMembers_carried spelled).trans (by decide)

end Config
end Companions
