import Companions.File.Disk
import Companions.Proofs.Frame
import Companions.Proofs.Resolver
import Companions.Proofs.Image.RoundTrip
/-!
Whether what comes out of an assembly in memory can be read again. What the assembly brings along
was read, so it nests no deeper than a reader follows. What a run adds was not: it is validated, but
validation does not look at nesting, and a field or a companion that nests too deep is written all
the same.
-/
namespace Companions

theorem Field.depth_toJson_succ_le_iff {f : Field} {n : Nat} :
    f.toJson.depth ≤ n + 1 ↔ f.type.toJson.depth ≤ n := by
  simp [toJson, Json.depth_object_succ_le_iff]

/-- With further fields a node is within a bound on nesting exactly if it was before and so are the
fields. -/
theorem TypeDef.Extends.depth_le_iff {d d' : TypeDef} {added : List Field}
    (h : d.Extends added d') {n : Nat} : d'.toJson.depth ≤ n + 3 ↔
      d.toJson.depth ≤ n + 3 ∧ ∀ f ∈ added, f.type.toJson.depth ≤ n := by
  have nested (ids : List TypeId) : (Json.list .nat ids).depth ≤ n + 2 :=
    Json.depth_list_succ_le_iff.mpr fun _ _ => Nat.zero_le _
  have fields (fs : List Field) :
      (Json.list Field.toJson fs).depth ≤ n + 2 ↔ ∀ f ∈ fs, f.type.toJson.depth ≤ n :=
    Json.depth_list_succ_le_iff.trans <| forall₂_congr fun _ _ => Field.depth_toJson_succ_le_iff
  rw [h.same, toJson, toJson, Json.depth_object_succ_le_iff, Json.depth_object_succ_le_iff]
  -- the members are those of `d` but for the flags, the nested ids and the fields
  simp only [List.forall_mem_cons, List.forall_mem_append, Json.depth_text, nested, fields]
  tauto

/-- If the old nodes were within a bound on nesting, the nodes of an extended image are exactly if
the added fields and the new nodes are. -/
theorem Image.Extends.depth_le_iff {m m' : Image} {fields : List AuthoringField}
    (h : m.Extends m.size fields m') (owners : ∀ f ∈ fields, f.owner < m.size) {n : Nat}
    (before : ∀ d ∈ m.types, d.toJson.depth ≤ n + 3) :
    (∀ d ∈ m'.types, d.toJson.depth ≤ n + 3) ↔ (∀ f ∈ fields, f.type.toJson.depth ≤ n) ∧
      ∀ id d, m.size ≤ id → m'.get? id = some d → d.toJson.depth ≤ n + 3 := by
  constructor
  · intro shallow
    refine ⟨fun f hf => ?_, fun id d _ node => shallow d (List.mem_of_getElem? node)⟩
    obtain ⟨d, d', -, node, extended⟩ := h.old (owners f hf)
    have parts := extended.depth_le_iff.mp (shallow d' (List.mem_of_getElem? node))
    exact parts.2 f.declaration (AuthoringField.mem_declarations.mpr ⟨f, hf, rfl, rfl⟩)
  · rintro ⟨fields, fresh⟩ e he
    obtain ⟨id, node⟩ := List.mem_iff_getElem?.mp he
    by_cases known : id < m.size
    · obtain ⟨d, d', was, node', extended⟩ := h.old known
      obtain rfl := Option.some.inj (node.symm.trans node')
      refine extended.depth_le_iff.mpr ⟨before d (List.mem_of_getElem? was), fun g hg => ?_⟩
      obtain ⟨f, hf, -, rfl⟩ := AuthoringField.mem_declarations.mp hg
      exact fields f hf
    · exact fresh id e (Nat.not_lt.mp known) node

namespace Processor

variable {σ : Type} [FileSystem σ]

/-- What comes out of an assembly in memory is read again exactly if every field and every node that
was added nest no deeper than a reader follows: a node stands three levels deep in an image, and the
type of a field three levels deeper. Ids are numbers of 32 bits. -/
theorem process_readable_iff {p p' : Processor} {budget : Nat} {name : String} {image : Bytes}
    {symbols : Option Bytes} {references : List Path} {s : σ} {out : ImageBytes}
    (h : ((p.process budget name image symbols references).run s).value = (p', .done (some out))) :
    ∃ m o, Image.read image symbols = .ok m ∧
      ((p.run budget m references).run s).value = (p', .done o) ∧ o.image.write = .ok out ∧
      (o.image.size ≤ UInt32.size →
        ((∃ m', Image.read out.image (some out.symbols) = .ok m') ↔
          (∀ f ∈ o.fields, f.type.toJson.depth ≤ Json.maxNesting - 6) ∧
          ∀ id d, m.size ≤ id → o.image.get? id = some d →
            d.toJson.depth ≤ Json.maxNesting - 3)) := by
  obtain ⟨-, m, o, found, ran, wrote⟩ := process_done_iff.mp h
  refine ⟨m, o, found, ran, wrote, fun room => ?_⟩
  obtain ⟨valid, rfl⟩ := Image.write_ok_iff.mp wrote
  rw [Image.read_encode_iff valid (valid.addressed room)]
  obtain ⟨r, c, -, -, rfl, result⟩ := done_of_run ran
  obtain ⟨extended, owners⟩ := Context.postProcess_extends result
  exact extended.depth_le_iff (n := 121) owners (Image.nests_of_read found)

/-- Arrays of arrays, `n` deep. -/
def nestedArrays : Nat → TypeRef
  | 0 => .named "System" "System.Int32"
  | n + 1 => .array (nestedArrays n)

/-- A buffer element, its drawer, and an authoring type for buffers of nested arrays. -/
def bufferGame (n : Nat) : Image := .rebuildLookup {
  identity := { name := "Game" }
  types := [
    { name := "Buffer`1", kind := .structType, flags := .isPublic, genericParams := ["T"],
      interfaces := [(Contracts.bufferElementData {}).ref] },
    { name := "BufferDrawer", kind := .classType, flags := .isPublic,
      base := some (.generic (Contracts.genericDrawer {}).ref [.named "Game" "Buffer`1"]) },
    { name := "BufferAuthoring", kind := .classType, flags := .isPublic,
      base := some (.generic (.named "Ecs.Authoring" "Ecs.Authoring.GenericComponentAuthoring`1")
        [.generic (.named "Game" "Buffer`1") [nestedArrays n]]) }]
  roots := [0, 1, 2] }

/-- What is added to the authoring type: an array of its component. -/
def bufferField (n : Nat) : AuthoringField :=
  ⟨2, "Value", .generic (.named "Game" "Buffer`1") [nestedArrays n], .sequence⟩

def bufferOutcome (n : Nat) : Image :=
  (bufferGame n).update 2 fun d => { d with fields := [(bufferField n).declaration] }

/-- Where the game can be read and the pass over it ends as said, the outcome is written. -/
theorem bufferGame_processed {n : Nat} (shallow : (bufferGame n).envelope.depth ≤ Json.maxNesting)
    (current : (bufferGame n).reread (bufferGame n).symbols = bufferGame n)
    (pass : (({ target := bufferGame n } : Context).postProcess 8 {}).result = .done
      (bufferOutcome n, [bufferField n], [⟨"CustomDrawer", []⟩, ⟨"Baker", []⟩], ⟨[], []⟩))
    (accepted : (bufferGame n).validate = .ok ()) (kept : (bufferOutcome n).validate = .ok ()) :
    ∃ p' o, Image.read (bufferGame n).encode.image (some (bufferGame n).encode.symbols) =
        .ok (bufferGame n) ∧
      ((({} : Processor).run 8 (bufferGame n) []).run ({} : Disk)).value = (p', .done o) ∧
      o.image = bufferOutcome n ∧ o.fields = [bufferField n] ∧
      ((({} : Processor).process 8 "Game" (bufferGame n).encode.image
        (some (bufferGame n).encode.symbols) []).run ({} : Disk)).value =
          (p', .done (some (bufferOutcome n).encode)) := by
  have valid := Image.validate_ok_iff.mp accepted
  have room : (bufferGame n).size ≤ UInt32.size := (by decide : 3 ≤ UInt32.size)
  have found : Image.read (bufferGame n).encode.image (some (bufferGame n).encode.symbols) =
      .ok (bufferGame n) := by
    have outcome := Image.read_encode valid (valid.addressed room) (bufferGame n).symbols
    rwa [if_pos shallow, current] at outcome
  obtain ⟨r, opened⟩ := opened_alone {} ({} : Disk) (m := bufferGame n) rfl
  obtain ⟨o, ran, image, fields, -⟩ := run_of_done opened pass
  have wrote : o.image.write = .ok (bufferOutcome n).encode := by
    rw [image]
    exact Image.write_ok_iff.mpr ⟨Image.validate_ok_iff.mp kept, rfl⟩
  exact ⟨_, o, found, ran, image, fields, process_done_iff.mpr ⟨by rfl, _, o, found, ran, wrote⟩⟩

/-- With 117 levels of arrays the outcome is as deep as it may be. -/
theorem bufferGame_readable : ∃ p' out m,
    ((({} : Processor).process 8 "Game" (bufferGame 117).encode.image
      (some (bufferGame 117).encode.symbols) []).run ({} : Disk)).value = (p', .done (some out)) ∧
    Image.read out.image (some out.symbols) = .ok m := by
  obtain ⟨p', o, found, ran, image, fields, processed⟩ := bufferGame_processed (n := 117)
    (by decide +kernel) (by decide +kernel) (by decide +kernel) (by rfl) (by rfl)
  obtain ⟨m, o', found', ran', -, readable⟩ := process_readable_iff processed
  obtain rfl := Except.ok.inj (found.symm.trans found')
  obtain rfl := Attempt.done.inj (Prod.mk.inj (ran.symm.trans ran')).2
  rw [image, fields] at readable
  obtain ⟨m', again⟩ := (readable (by decide)).mpr ⟨by decide +kernel, fun id d new node => by
    have inside : id < 3 := (List.getElem?_eq_some_iff.mp node).1
    exact absurd new (Nat.not_le.mpr inside)⟩
  exact ⟨p', _, m', processed, again⟩

/-- With 118 the game itself is read, and what is written for it is not. -/
theorem bufferGame_unreadable : ∃ p' out,
    ((({} : Processor).process 8 "Game" (bufferGame 118).encode.image
      (some (bufferGame 118).encode.symbols) []).run ({} : Disk)).value = (p', .done (some out)) ∧
    Image.read out.image (some out.symbols) = .error .decode := by
  obtain ⟨p', o, -, -, -, -, processed⟩ := bufferGame_processed (n := 118)
    (by decide +kernel) (by decide +kernel) (by decide +kernel) (by rfl) (by rfl)
  refine ⟨p', _, processed, ?_⟩
  have valid := Image.validate_ok_iff.mp (by rfl : (bufferOutcome 118).validate = .ok ())
  have outcome := Image.read_encode valid (valid.addressed (by decide)) (bufferOutcome 118).symbols
  rwa [if_neg (by decide +kernel)] at outcome

end Processor
end Companions
