import Mathlib.Data.List.Nodup
import Mathlib.Logic.Relation
import Companions.File.Disk
import Companions.Proofs.Resolver
/-!
The closure of the references of an image. The loop takes identities from a queue and puts behind
it what each new image lists, so what was taken and what is left are together what the images of
the context list, in the order in which they came in. This is kept at every turn, and the rest
follows from it where the loop ends.
-/
namespace Companions

/-! ## Contexts -/

namespace Context

/-- What the images list, in the order in which they came in. -/
def listing (c : Context) : List Identity := c.images.flatMap (·.references)

theorem knows_iff {c : Context} {name : String} :
    c.knows name ↔ c.references.contains name ∨ name = c.target.name := by
  simp [knows]

theorem get?_of_new {c : Context} {name : String} (new : c.knows name = false) :
    c.references.get? name = none := by
  cases found : c.references.get? name with
  | none => rfl
  | some m =>
      rw [knows_iff.mpr (.inl (Option.isSome_iff_exists.mpr ⟨m, found⟩))] at new
      cases new

section

variable {c : Context} {m : Image} (new : c.knows m.name = false)
include new

theorem entries_addReference :
    (c.addReference m).references.entries = c.references.entries ++ [(m.name, m)] := by
  rw [addReference, Table.insertNew, Table.contains, get?_of_new new]
  rfl

theorem values_addReference : (c.addReference m).references.values = c.references.values ++ [m] := by
  rw [Table.values, entries_addReference new, List.map_append]
  rfl

theorem size_addReference : (c.addReference m).references.size = c.references.size + 1 := by
  rw [Table.size, entries_addReference new, List.length_append]
  rfl

theorem images_addReference : (c.addReference m).images = c.images ++ [m] := by
  rw [images, values_addReference new]
  rfl

theorem listing_addReference : (c.addReference m).listing = c.listing ++ m.references := by
  rw [listing, images_addReference new, List.flatMap_append, List.flatMap_singleton]
  rfl

end

theorem knows_addReference {c : Context} {m : Image} {name : String} (known : c.knows name) :
    (c.addReference m).knows name := by
  rcases knows_iff.mp known with present | same
  · refine knows_iff.mpr (.inl ?_)
    obtain ⟨held, found⟩ := Option.isSome_iff_exists.mp present
    exact Option.isSome_iff_exists.mpr
      ⟨held, Table.extends_insertNew c.references m.name m name held found⟩
  · exact knows_iff.mpr (.inr same)

theorem knows_added (c : Context) (m : Image) : (c.addReference m).knows m.name := by
  refine knows_iff.mpr (.inl ?_)
  rw [Table.contains, addReference, Table.get?_insertNew, if_pos rfl]
  rfl

end Context

/-! ## The loop -/

/-- Where the loop stands. -/
structure Closing where
  context : Context
  resolver : Resolver
  queue : List Identity

namespace Closing

def start (target : Image) (r : Resolver) : Closing := ⟨{ target := target }, r, target.references⟩

variable {σ : Type} [FileSystem σ]

/-- One turn: the first identity of the queue is known by name, or it is resolved, or it is not. -/
inductive Step (s : σ) : Closing → Closing → Prop where
  | skip {c : Context} {r : Resolver} {i : Identity} {queue : List Identity}
      (known : c.knows i.name) : Step s ⟨c, r, i :: queue⟩ ⟨c, r, queue⟩
  | found {c : Context} {r r' : Resolver} {i : Identity} {m : Image} {queue : List Identity}
      (new : c.knows i.name = false) (room : c.references.size < maxReferences)
      (answer : ((r.resolve i).run s).value = (r', some m)) :
      Step s ⟨c, r, i :: queue⟩ ⟨c.addReference m, r', queue ++ m.references⟩
  | missed {c : Context} {r r' : Resolver} {i : Identity} {queue : List Identity}
      (new : c.knows i.name = false) (room : c.references.size < maxReferences)
      (answer : ((r.resolve i).run s).value = (r', none)) :
      Step s ⟨c, r, i :: queue⟩ ⟨c, r', queue⟩

abbrev Steps (s : σ) : Closing → Closing → Prop := Relation.ReflTransGen (Step s)

def Ended (s : σ) (x : Closing) : Prop := ∀ y, ¬ Step s x y

/-- On the way the resolver, as it then is, is asked about the identity. -/
def Requested (s : σ) (target : Image) (r : Resolver) (now : Resolver) (i : Identity) : Prop :=
  ∃ c queue, Steps s (start target r) ⟨c, now, i :: queue⟩ ∧ c.knows i.name = false ∧
    c.references.size < maxReferences

/-- Whenever an identity is asked about, the answer is the same one, and an image of that
identity. -/
structure Consistent (s : σ) (target : Image) (r : Resolver) (answer : Identity → Option Image) :
    Prop where
  answers : ∀ now i, Requested s target r now i → ((now.resolve i).run s).value.2 = answer i
  identity : ∀ i m, answer i = some m → m.identity = i

variable {s : σ} {x y z : Closing}

theorem Step.unique (h : Step s x y) (h' : Step s x z) : y = z := by
  cases h with
  | skip known =>
      cases h' with
      | skip known => rfl
      | found new | missed new =>
          rw [known] at new
          cases new
  | found new room answer =>
      cases h' with
      | skip known =>
          rw [known] at new
          cases new
      | found new' room' answer' =>
          cases answer.symm.trans answer'
          rfl
      | missed new' room' answer' => cases answer.symm.trans answer'
  | missed new room answer =>
      cases h' with
      | skip known =>
          rw [known] at new
          cases new
      | found new' room' answer' => cases answer.symm.trans answer'
      | missed new' room' answer' =>
          cases answer.symm.trans answer'
          rfl

/-- Whatever the loop comes by, it ends where it ends. -/
theorem Ended.last (ended : Ended s y) (run : Steps s x y) (other : Steps s x z) : Steps s z y := by
  have unique : Relator.RightUnique (Step s) := fun _ _ _ => Step.unique
  rcases Relation.ReflTransGen.total_of_right_unique unique run other with onward | back
  · rcases Relation.ReflTransGen.cases_head onward with rfl | ⟨w, step, -⟩
    · exact .refl
    · exact absurd step (ended w)
  · exact back

/-- The loop only ends before the limit with nothing left. -/
theorem Ended.queue (ended : Ended s x) (room : x.context.references.size < maxReferences) :
    x.queue = [] := by
  obtain ⟨c, r, _ | ⟨i, queue⟩⟩ := x
  · rfl
  · cases known : c.knows i.name with
    | true => exact absurd (.skip known) (ended _)
    | false =>
        generalize answer : ((r.resolve i).run s).value = found
        obtain ⟨r', _ | m⟩ := found
        · exact absurd (.missed known room answer) (ended _)
        · exact absurd (.found known room answer) (ended _)

/-! ## What every turn keeps -/

variable {target : Image} {r : Resolver} {answer : Identity → Option Image}

theorem Consistent.found (h : Consistent s target r answer) {c : Context} {now now' : Resolver}
    {i : Identity} {queue : List Identity} {m : Image}
    (run : Steps s (start target r) ⟨c, now, i :: queue⟩) (new : c.knows i.name = false)
    (room : c.references.size < maxReferences)
    (found : ((now.resolve i).run s).value = (now', some m)) : answer i = some m ∧ m.identity = i := by
  have agreed := h.answers now i ⟨c, queue, run, new, room⟩
  rw [found] at agreed
  exact ⟨agreed.symm, h.identity i m agreed.symm⟩

/-- The answer to an identity, if it has the name. -/
def named (answer : Identity → Option Image) (name : String) (i : Identity) : Option Image :=
  if i.name = name then answer i else none

/-- A reference was asked for because the target or an earlier reference lists it. -/
def Origin (s : σ) (target : Image) (r : Resolver) (answer : Identity → Option Image)
    (before : List Image) (m : Image) : Prop :=
  (∃ lister ∈ target :: before, m.identity ∈ lister.references) ∧
    (∃ now, Requested s target r now m.identity) ∧ answer m.identity = some m

/-- What holds where the loop stands, after the identities that it took from the queue. -/
structure Explored (s : σ) (target : Image) (r : Resolver) (answer : Identity → Option Image)
    (taken : List Identity) (x : Closing) : Prop where
  unchanged : x.context.target = target
  keys : ∀ e ∈ x.context.references.entries, e.1 = e.2.name
  distinct : (x.context.images.map Image.name).Nodup
  order : taken ++ x.queue = x.context.listing
  settled : ∀ i ∈ taken, x.context.knows i.name ∨ answer i = none
  first : ∀ name m, x.context.references.get? name = some m →
    taken.findSome? (named answer name) = some m
  origin : ∀ before m after, x.context.references.values = before ++ m :: after →
    Origin s target r answer before m

theorem explored_start (s : σ) (target : Image) (r : Resolver) (answer : Identity → Option Image) :
    Explored s target r answer [] (start target r) where
  unchanged := rfl
  keys := nofun
  distinct := List.nodup_singleton target.name
  order := (List.flatMap_singleton Image.references target).symm
  settled := nofun
  first := nofun
  origin before m after split := by
    cases before <;> cases split

section

variable {c : Context} {now now' : Resolver} {i : Identity} {taken queue : List Identity}

/-- An identity that adds no image. -/
theorem Explored.pass (h : Explored s target r answer taken ⟨c, now, i :: queue⟩)
    (idle : c.knows i.name ∨ answer i = none) :
    Explored s target r answer (taken ++ [i]) ⟨c, now', queue⟩ where
  unchanged := h.unchanged
  keys := h.keys
  distinct := h.distinct
  order := by
    rw [List.append_assoc]
    exact h.order
  settled j hj := by
    rcases List.mem_append.mp hj with old | new
    · exact h.settled j old
    · obtain rfl := List.mem_singleton.mp new
      exact idle
  first name m held := by rw [List.findSome?_append, h.first name m held, Option.some_or]
  origin := h.origin

/-- Nothing that was taken under a new name was answered. -/
theorem Explored.unanswered (h : Explored s target r answer taken ⟨c, now, i :: queue⟩)
    (new : c.knows i.name = false) : taken.findSome? (named answer i.name) = none := by
  refine List.findSome?_eq_none_iff.mpr fun j hj => ?_
  rw [named]
  split
  · next same =>
      rcases h.settled j hj with known | none
      · rw [same, new] at known
        cases known
      · exact none
  · rfl

theorem Explored.fresh (h : Explored s target r answer taken ⟨c, now, queue⟩) {name : String}
    (new : c.knows name = false) : name ∉ c.images.map Image.name := by
  intro mem
  have known : c.knows name := by
    rcases List.mem_cons.mp mem with own | held
    · exact Context.knows_iff.mpr (.inr own)
    · obtain ⟨m, hm, rfl⟩ := List.mem_map.mp held
      obtain ⟨e, he, rfl⟩ := List.mem_map.mp hm
      refine Context.knows_iff.mpr (.inl (Table.contains_iff.mpr ?_))
      exact List.mem_map.mpr ⟨e, he, h.keys e he⟩
  rw [new] at known
  cases known

/-- An identity that adds an image. -/
theorem Explored.add {m : Image}
    (h : Explored s target r answer taken ⟨c, now, m.identity :: queue⟩)
    (new : c.knows m.name = false) (requested : Requested s target r now m.identity)
    (found : answer m.identity = some m) :
    Explored s target r answer (taken ++ [m.identity])
      ⟨c.addReference m, now', queue ++ m.references⟩ where
  unchanged := h.unchanged
  keys e he := by
    rw [Context.entries_addReference new] at he
    rcases List.mem_append.mp he with old | added
    · exact h.keys e old
    · obtain rfl := List.mem_singleton.mp added
      rfl
  distinct := by
    rw [Context.images_addReference new, List.map_append]
    refine List.nodup_append.mpr ⟨h.distinct, List.nodup_singleton m.name, ?_⟩
    intro a ha b hb same
    rw [same, List.mem_singleton.mp hb] at ha
    exact h.fresh new ha
  order := by
    rw [Context.listing_addReference new, ← h.order]
    simp
  settled j hj := by
    rcases List.mem_append.mp hj with old | added
    · exact (h.settled j old).imp_left Context.knows_addReference
    · obtain rfl := List.mem_singleton.mp added
      exact .inl (Context.knows_added c m)
  first name m' held := by
    rw [Context.addReference, Table.get?_insertNew] at held
    rw [List.findSome?_append]
    split at held
    · next same =>
        subst same
        rw [Context.get?_of_new new] at held
        cases held
        have before : taken.findSome? (named answer m.name) = none := h.unanswered new
        rw [before]
        simp [named, Image.name, found]
    · rw [h.first name m' held, Option.some_or]
  origin before m' after split := by
    rw [Context.values_addReference new] at split
    rcases List.eq_nil_or_concat after with rfl | ⟨rest, last, rfl⟩
    · obtain ⟨rfl, same⟩ := List.append_inj' split rfl
      cases same
      refine ⟨?_, ⟨now, requested⟩, found⟩
      have listed : m.identity ∈ c.listing :=
        h.order ▸ List.mem_append_right taken List.mem_cons_self
      rw [← h.unchanged]
      exact List.mem_flatMap.mp listed
    · rw [List.concat_eq_append, ← List.cons_append, ← List.append_assoc] at split
      exact h.origin before m' rest (List.append_inj' split rfl).1

end

/-- Wherever the loop comes by, what it took and found is accounted for. -/
theorem explored (consistent : Consistent s target r answer) (run : Steps s (start target r) x) :
    ∃ taken, Explored s target r answer taken x := by
  induction run with
  | refl => exact ⟨[], explored_start s target r answer⟩
  | tail run step ih =>
      obtain ⟨taken, h⟩ := ih
      cases step with
      | skip known => exact ⟨_, h.pass (.inl known)⟩
      | missed new room missed =>
          have agreed := consistent.answers _ _ ⟨_, _, run, new, room⟩
          rw [missed] at agreed
          exact ⟨_, h.pass (.inr agreed.symm)⟩
      | found new room found =>
          obtain ⟨agreed, rfl⟩ := consistent.found run new room found
          exact ⟨_, h.add new ⟨_, _, run, new, room⟩ agreed⟩

/-! ## The construction runs the loop -/

theorem steps_skip {c : Context} {now : Resolver} {queue : List Identity} :
    Steps s ⟨c, now, queue⟩ ⟨c, now, queue.dropWhile fun i => c.knows i.name⟩ := by
  induction queue with
  | nil => exact .refl
  | cons i queue ih =>
      cases known : c.knows i.name with
      | true =>
          rw [List.dropWhile_cons, if_pos known]
          exact .head (.skip known) ih
      | false => rw [List.dropWhile_cons, if_neg (by simp [known])]

theorem ended_full {c : Context} {now : Resolver} {queue : List Identity}
    (full : maxReferences ≤ c.references.size) :
    Ended s ⟨c, now, queue.dropWhile fun i => c.knows i.name⟩ := by
  intro y step
  generalize rest : queue.dropWhile (fun i => c.knows i.name) = left at step
  cases step with
  | skip known =>
      have new := List.head?_dropWhile_not (fun i => c.knows i.name) queue
      rw [rest] at new
      simp [known] at new
  | found new room => omega
  | missed new room => omega

/-- What the turns up to the next image do. -/
inductive Takes (s : σ) (c : Context) (now : Resolver) (queue : List Identity) :
    Resolver × Option (Image × List Identity) → Prop where
  | nothing {now' : Resolver} (steps : Steps s ⟨c, now, queue⟩ ⟨c, now', []⟩) :
      Takes s c now queue (now', none)
  | image {now' : Resolver} {m : Image} {rest : List Identity} (new : c.knows m.name = false)
      (steps : Steps s ⟨c, now, queue⟩ ⟨c.addReference m, now', rest ++ m.references⟩) :
      Takes s c now queue (now', some (m, rest))

section

variable {c : Context} {now now' : Resolver} {i : Identity} {queue : List Identity}

theorem Takes.head {v : Resolver × Option (Image × List Identity)}
    (step : Step s ⟨c, now, i :: queue⟩ ⟨c, now', queue⟩) (h : Takes s c now' queue v) :
    Takes s c now (i :: queue) v := by
  cases h with
  | nothing steps => exact .nothing (steps.head step)
  | image new steps => exact .image new (steps.head step)

theorem nextReference_takes (consistent : Consistent s target r answer)
    (run : Steps s (start target r) ⟨c, now, queue⟩) (room : c.references.size < maxReferences) :
    Takes s c now queue ((c.nextReference now queue).run s).value := by
  induction queue generalizing now with
  | nil => exact .nothing .refl
  | cons i queue ih =>
      rw [Context.nextReference]
      cases new : c.knows i.name with
      | true =>
          have step : Step s ⟨c, now, i :: queue⟩ ⟨c, now, queue⟩ := .skip new
          rw [if_pos rfl]
          exact (ih (run.tail step)).head step
      | false =>
          rw [if_neg (by simp), Script.value_bind, (Resolver.asks_resolve now i).files]
          generalize found : ((now.resolve i).run s).value = answered
          obtain ⟨now', _ | m⟩ := answered
          · have step : Step s ⟨c, now, i :: queue⟩ ⟨c, now', queue⟩ := .missed new room found
            dsimp only
            rw [Script.value_bind, Script.files_say]
            exact (ih (run.tail step)).head step
          · obtain ⟨-, rfl⟩ := consistent.found run new room found
            exact .image new (.single (.found new room found))

theorem close_ends (consistent : Consistent s target r answer) {n : Nat}
    (run : Steps s (start target r) ⟨c, now, queue⟩)
    (limit : n + c.references.size = maxReferences) :
    ∃ last, Steps s ⟨c, now, queue⟩ last ∧ Ended s last ∧
      ((Context.close n c now queue).run s).value = (last.resolver, last.context) := by
  induction n generalizing c now queue with
  | zero =>
      refine ⟨_, steps_skip, ended_full (by omega), ?_⟩
      rw [Context.close]
      split
      · rw [Script.value_bind]
        rfl
      · rfl
  | succ n ih =>
      rw [Context.close, Script.value_bind, (Context.asks_nextReference c now queue).files]
      have takes := nextReference_takes consistent run (by omega)
      generalize ((c.nextReference now queue).run s).value = taken at takes
      cases takes with
      | nothing steps =>
          refine ⟨_, steps, fun y step => ?_, rfl⟩
          cases step
      | image new steps =>
          have size := Context.size_addReference new
          obtain ⟨last, further, ended, value⟩ := ih (run.trans steps) (by omega)
          exact ⟨last, steps.trans further, ended, value⟩

end

/-! ## The closure -/

/-- The references of a context are closed as far as there are answers and room. -/
structure Closed (s : σ) (target : Image) (r : Resolver) (answer : Identity → Option Image)
    (c : Context) : Prop where
  unchanged : c.target = target
  distinct : (c.images.map Image.name).Nodup
  origin : ∀ before m after, c.references.values = before ++ m :: after →
    Origin s target r answer before m
  complete : c.references.size < maxReferences →
    ∀ lister ∈ c.images, ∀ i ∈ lister.references,
      i.name = target.name ∨ (∃ m ∈ c.references.values, m.name = i.name) ∨ answer i = none
  first : ∀ name m, c.references.get? name = some m →
    m.name = name ∧ c.listing.findSome? (named answer name) = some m

theorem Explored.closed {taken : List Identity} (h : Explored s target r answer taken x)
    (ended : Ended s x) : Closed s target r answer x.context where
  unchanged := h.unchanged
  distinct := h.distinct
  origin := h.origin
  complete room lister mem i lists := by
    have order := h.order
    rw [ended.queue room, List.append_nil] at order
    have listed : i ∈ x.context.listing := List.mem_flatMap.mpr ⟨lister, mem, lists⟩
    rcases h.settled i (order ▸ listed) with known | none
    · rcases Context.knows_iff.mp known with present | same
      · obtain ⟨m, found⟩ := Option.isSome_iff_exists.mp present
        exact .inr (.inl ⟨m, Table.mem_values found, (h.keys _ (Table.mem_entries found)).symm⟩)
      · exact .inl (h.unchanged ▸ same)
    · exact .inr (.inr none)
  first name m found := by
    refine ⟨(h.keys _ (Table.mem_entries found)).symm, ?_⟩
    rw [← h.order, List.findSome?_append, h.first name m found, Option.some_or]

/-- With a resolver that answers consistently, the loop over the references ends, whatever turns it
has taken, in the context that is built; and the references of this are closed. -/
theorem build_closed (consistent : Consistent s target r answer) :
    ∃ last, Steps s (start target r) last ∧ Ended s last ∧
      (∀ x, Steps s (start target r) x → Steps s x last) ∧
      ((Context.build target r).run s).value = (last.resolver, last.context) ∧
      Closed s target r answer last.context := by
  obtain ⟨last, run, ended, value⟩ := close_ends consistent (n := maxReferences) .refl rfl
  obtain ⟨taken, h⟩ := explored consistent run
  refine ⟨last, run, ended, fun x other => ended.last run other, ?_, h.closed ended⟩
  rw [Context.build, Script.value_bind, Script.value_bind, value]
  rfl

/-! ## Resolvers that look nowhere else -/

theorem resolve_own (i : Identity) (additional : r.resolveAdditional = false)
    (directories : r.directories = []) (s : σ) :
    ((r.resolve i).run s).value = (r, r.used.get? i.display) := by
  rw [Resolver.resolve]
  cases r.used.get? i.display with
  | some m => rfl
  | none =>
      rw [additional, directories]
      rfl

/-- A resolver that only knows the images of its pass is consistent. -/
theorem consistent_own (s : σ) (target : Image) (keyed : r.used.Keyed)
    (additional : r.resolveAdditional = false) (directories : r.directories = []) :
    Consistent s target r fun i => r.used.get? i.display where
  answers now i requested := by
    obtain ⟨c, queue, run, -⟩ := requested
    have stays {x : Closing} (run : Steps s (start target r) x) : x.resolver = r := by
      induction run with
      | refl => rfl
      | tail _ step ih =>
          cases step with
          | skip known => exact ih
          | found new room answer | missed new room answer =>
              cases ih
              rw [resolve_own _ additional directories] at answer
              exact (congrArg Prod.fst answer).symm
    obtain rfl : now = r := stays run
    rw [resolve_own i additional directories]
  identity i m found := keyed.identity found

/-! A game with two libraries, of which one is also listed in an older version that is not there. -/

def core : Image := { identity := { name := "Core", version := ⟨2, 0, 0, 0⟩ } }

def tools : Image where
  identity := { name := "Tools" }
  references := [{ name := "Core", version := ⟨1, 0, 0, 0⟩ }]

def game : Image where
  identity := { name := "Game" }
  references := [{ name := "Core", version := ⟨1, 0, 0, 0⟩ }, tools.identity, core.identity]

def libraries : Resolver :=
  (({ cache := {}, resolveAdditional := false } : Resolver).register core).register tools

theorem libraries_closed :
    Closed ({} : Disk) game libraries (fun i => libraries.used.get? i.display)
      (.ofImages game [tools, core]) := by
  have keyed : libraries.used.Keyed := (Table.keyed_empty.insertNew core).insertNew tools
  have consistent := consistent_own ({} : Disk) game keyed rfl rfl
  have built : ((Context.build game libraries).run ({} : Disk)).value.2 =
      .ofImages game [tools, core] := by decide +kernel
  obtain ⟨last, -, -, -, value, closed⟩ := build_closed consistent
  rw [value] at built
  exact built ▸ closed

end Closing
end Companions
