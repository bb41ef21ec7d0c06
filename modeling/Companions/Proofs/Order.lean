import Companions.Proofs.Finding
import Companions.Proofs.Likeness
/-!
Contexts built with two resolvers over one cache that were seeded with the same references in
another order. What is used, held and known may come to differ between the two, but only under names
that the context has an assembly for by then, and those are not asked for again.
-/
namespace Companions

open Image (Holds)

variable {σ : Type} [FileSystem σ] {s : σ} {start : Cache} {references : List Path}

/-- The identity is referenced by the target, or by an image that can come to be referenced. -/
def Asked (s : σ) (start : Cache) (target : Image) (i : Identity) : Prop :=
  i ∈ target.references ∨ ∃ m, start.Genuine s m ∧ i ∈ m.references

namespace Resolver

/-- If the library that is asked for is in the first directory, it is in the second: the same file,
and it can be loaded if it can in the first. -/
def Offers (s : σ) (i : Identity) (d e : Path) : Prop := FileSystem.isFile s (candidate i d) →
  FileSystem.isFile s (candidate i e) ∧
    Cache.keyOf s (candidate i d) = Cache.keyOf s (candidate i e) ∧
    ((∃ j, Holds s (candidate i d) j) → ∃ j, Holds s (candidate i e) j)

variable {i : Identity} {asked : Identity → Prop} {known : String → Prop} {r r' : Resolver}

/-- A resolver that was seeded with all references, and perhaps was asked since. -/
structure Ready (s : σ) (start : Cache) (references : List Path) (r : Resolver) : Prop where
  sound : r.Sound s start references
  holding : r.Holding s start references

/-- Whatever one resolver has, the other has, but for names that are known. -/
structure Covered (s : σ) (asked : Identity → Prop) (known : String → Prop) (r r' : Resolver) :
    Prop where
  used : ∀ i : Identity, (r.used.get? i.display).isSome → (r'.used.get? i.display).isSome
  held : ∀ i, (r.cache.get? i).isSome → known i.name ∨ (r'.cache.get? i).isSome
  paths : ∀ k m, r.cache.atPath? k = some m → known m.name ∨ (r'.cache.atPath? k).isSome
  directories : ∀ d ∈ r.directories, ∃ e ∈ r'.directories, ∀ i, asked i → Offers s i d e

/-- Two resolvers that have the same, but for names that are known. -/
structure Matched (s : σ) (start : Cache) (references references' : List Path)
    (asked : Identity → Prop) (known : String → Prop) (r r' : Resolver) : Prop where
  ready : r.Ready s start references
  ready' : r'.Ready s start references'
  additional : r.resolveAdditional = r'.resolveAdditional
  forth : Covered s asked known r r'
  back : Covered s asked known r' r

theorem Matched.symm {references' : List Path}
    (h : Matched s start references references' asked known r r') :
    Matched s start references' references asked known r' r :=
  ⟨h.ready', h.ready, h.additional.symm, h.back, h.forth⟩

section

variable {references' : List Path} (orderly : Orderly s start)
  (h : Matched s start references references' asked known r r') (wanted : asked i)
  (unknown : ¬ known i.name)

include orderly h wanted unknown

/-- What the first one's cache serves for a library, the second one's serves for it as well. -/
theorem Matched.serves {p : Path} (source : Candidate s i r.directories p)
    (serves : r.cache.Serves s p i) :
    ∃ q, Candidate s i r'.directories q ∧ r'.cache.Serves s q i := by
  obtain ⟨d, hd, there, rfl⟩ := source
  obtain ⟨e, he, offers⟩ := h.forth.directories d hd
  obtain ⟨there', same, loads⟩ := offers i wanted there
  refine ⟨candidate i e, ⟨e, he, there', rfl⟩, ?_⟩
  have one {j : Identity} (serves' : r'.cache.Serves s (candidate i e) j) : i = j :=
    orderly.serves_unique h.ready.sound.cache h.ready'.sound.cache same serves serves'
  -- where only the first cache knows the path, the name is known; else the second one can load it
  have found : ∃ j, r'.cache.Serves s (candidate i e) j := by
    cases there' : r'.cache.atPath? (Cache.keyOf s (candidate i e)) with
    | some m => exact ⟨m.identity, .inl ⟨m, there', rfl⟩⟩
    | none =>
        rcases serves with ⟨m, led, rfl⟩ | ⟨-, holds⟩
        · obtain named | led' := h.forth.paths _ m led
          · exact absurd named unknown
          · rw [same, there'] at led'
            cases led'
        · obtain ⟨j, holds'⟩ := loads ⟨i, holds⟩
          exact ⟨j, .inr ⟨there', holds'⟩⟩
  obtain ⟨j, serves'⟩ := found
  obtain rfl := one serves'
  exact serves'

/-- What the first one finds, the second one finds. -/
theorem Matched.found (found : (r.resolves s i).2.isSome) : (r'.resolves s i).2.isSome := by
  rw [resolves_isSome_iff orderly h.ready'.sound]
  rcases (resolves_isSome_iff orderly h.ready.sound).mp found with
    used | ⟨allowed, held⟩ | ⟨p, source, serves⟩
  · exact .inl (h.forth.used i used)
  · exact .inr (.inl ⟨h.additional ▸ allowed, (h.forth.held i held).resolve_left unknown⟩)
  · exact .inr (.inr (h.serves orderly wanted unknown source serves))

/-- What came to the first cache is of the name that was asked for, or it came to the second cache,
since neither resolver found anything and both looked everywhere. -/
theorem Matched.gained :
    r.cache.Gains s
      (fun p => ∀ j, start.Serves s p j → (r.resolves s i).2.isSome ∧ j.name = i.name ∨
        ∃ m, (r'.resolves s i).1.cache.atPath? (Cache.keyOf s p) = some m ∧ m.identity = j)
      (r.resolves s i).1.cache := by
  have searched := resolves_searched h.ready.sound i
  have searched' := resolves_searched h.ready'.sound i
  cases found : (r.resolves s i).2.isSome with
  | true =>
      refine (named_of_found orderly h.ready.sound h.ready.holding found).mono ?_
      exact fun p named j serves => .inl ⟨rfl, named j serves⟩
  | false =>
      -- both have looked into all directories, and loaded what can be loaded there
      have none : (r'.resolves s i).2 = none := by
        refine Option.not_isSome_iff_eq_none.mp fun found' => ?_
        exact Bool.false_ne_true (found.symm.trans (h.symm.found orderly wanted unknown found'))
      refine searched.gains.mono ?_
      rintro p ⟨d, hd, there, rfl⟩ j serves
      obtain ⟨e, he, offers⟩ := h.forth.directories d hd
      obtain ⟨there', same, loads⟩ := offers i wanted there
      have led : ((r'.resolves s i).1.cache.atPath? (Cache.keyOf s (candidate i d))).isSome := by
        rcases serves with ⟨m, old, -⟩ | ⟨-, holds⟩
        · have kept := searched'.sound.cache.gains.paths _ m old
          exact Option.isSome_iff_exists.mpr ⟨m, kept⟩
        · rw [same]
          exact searched'.exhausted none _ ⟨e, he, there', rfl⟩ (loads ⟨j, holds⟩)
      obtain ⟨m, led⟩ := Option.isSome_iff_exists.mp led
      refine .inr ⟨m, led, ?_⟩
      exact orderly.serves_unique searched'.sound.cache
        (orderly.grown_start references) rfl (.inl ⟨m, led, rfl⟩) serves

theorem Matched.covered :
    Covered s asked (fun name => known name ∨ (r.resolves s i).2.isSome ∧ name = i.name)
      (r.resolves s i).1 (r'.resolves s i).1 := by
  have searched := resolves_searched h.ready.sound i
  have searched' := resolves_searched h.ready'.sound i
  have gained := h.gained orderly wanted unknown
  exact {
    used := fun j used => by
      rw [searched.used] at used
      rw [searched'.used]
      exact used.imp (h.forth.used j) (And.imp_left (h.found orderly wanted unknown))
    held := fun j held => by
      obtain ⟨m, held⟩ := Option.isSome_iff_exists.mp held
      obtain old | ⟨-, p, either, new, loaded⟩ := gained.held j m held
      · exact (h.forth.held j (Option.isSome_iff_exists.mpr ⟨m, old⟩)).imp .inl searched'.gains.get?
      · have holds : Holds s p j := ⟨m, loaded, searched.sound.cache.keyed.images.identity held⟩
        obtain named | ⟨m', led, rfl⟩ :=
          either j (.inr ⟨h.ready.sound.cache.gains.unknown new, holds⟩)
        · exact .inl (.inr named)
        · obtain ⟨key, -, there⟩ := Option.bind_eq_some_iff.mp led
          have found := searched'.sound.cache.keyed.get? there
          exact .inr (Option.isSome_iff_exists.mpr ⟨m', found⟩)
    paths := fun k m led => by
      obtain old | ⟨new, p, either, rfl, holds⟩ := gained.known k m led
      · exact (h.forth.paths k m old).imp .inl searched'.gains.atPath?
      · obtain named | ⟨m', led', -⟩ :=
          either _ (.inr ⟨h.ready.sound.cache.gains.unknown new, holds⟩)
        · exact .inl (.inr named)
        · exact .inr (Option.isSome_iff_exists.mpr ⟨m', led'⟩)
    directories := by
      rw [searched.directories, searched'.directories]
      exact h.forth.directories }

end

theorem Ready.resolves (h : r.Ready s start references) (i : Identity) :
    (r.resolves s i).1.Ready s start references where
  sound := (resolves_searched h.sound i).sound
  holding p hp j serves :=
    ((resolves_searched h.sound i).used j).mpr (.inl (h.holding p hp j serves))

/-- Asked for an identity of a name that is not known, both resolvers find it or both do not, and
they have the same afterwards but for the names known by then. -/
theorem Matched.resolves {references' : List Path} (orderly : Orderly s start)
    (h : Matched s start references references' asked known r r') (wanted : asked i)
    (unknown : ¬ known i.name) :
    Matched s start references references' asked
        (fun name => known name ∨ (r.resolves s i).2.isSome ∧ name = i.name)
        (r.resolves s i).1 (r'.resolves s i).1 ∧
      ((r.resolves s i).2 = none ∧ (r'.resolves s i).2 = none ∨
        ∃ m m', (r.resolves s i).2 = some m ∧ (r'.resolves s i).2 = some m' ∧ m.Likewise m' ∧
          m.name = i.name ∧ start.Genuine s m) := by
  have searched := resolves_searched h.ready.sound i
  have searched' := resolves_searched h.ready'.sound i
  have both : (r.resolves s i).2.isSome ↔ (r'.resolves s i).2.isSome :=
    ⟨h.found orderly wanted unknown, h.symm.found orderly wanted unknown⟩
  refine ⟨⟨h.ready.resolves i, h.ready'.resolves i, ?_, h.covered orderly wanted unknown, ?_⟩, ?_⟩
  · rw [searched.additional, searched'.additional, h.additional]
  · simpa only [both] using h.symm.covered orderly wanted unknown
  · cases found : (r.resolves s i).2 with
    | none =>
        rw [found] at both
        exact .inl ⟨rfl, Option.not_isSome_iff_eq_none.mp fun there => nomatch both.mpr there⟩
    | some m =>
        rw [found] at both
        obtain ⟨m', found'⟩ := Option.isSome_iff_exists.mp (both.mp rfl)
        obtain ⟨same, genuine⟩ := searched.answer m found
        obtain ⟨same', genuine'⟩ := searched'.answer m' found'
        refine .inr ⟨m, m', rfl, found', ?_, congrArg Identity.name same, genuine⟩
        exact orderly.likewise genuine genuine' (same.trans same'.symm)

theorem Covered.mono {known' : String → Prop} (h : Covered s asked known r r')
    (le : ∀ name, known name → known' name) : Covered s asked known' r r' where
  used := h.used
  held i held := (h.held i held).imp_left (le _)
  paths k m led := (h.paths k m led).imp_left (le _)
  directories := h.directories

theorem Matched.mono {references' : List Path} {known' : String → Prop}
    (h : Matched s start references references' asked known r r')
    (le : ∀ name, known name → known' name) :
    Matched s start references references' asked known' r r' :=
  ⟨h.ready, h.ready', h.additional, h.forth.mono le, h.back.mono le⟩

theorem Seeded.ready {allowed : Bool} (h : Seeded s start references allowed references r) :
    r.Ready s start references where
  sound := h.sound
  holding p hp i serves := (h.used i).mpr ⟨p, hp, serves⟩

/-- A resolver that was seeded with some of the references of another has nothing that the other has
not. -/
theorem Seeded.covered {references' : List Path} {allowed allowed' : Bool}
    (h : Seeded s start references allowed references r)
    (h' : Seeded s start references' allowed' references' r')
    (among : ∀ p ∈ references, p ∈ references')
    (alike : ∀ p ∈ references', ∀ q ∈ references', ∀ d e, p.parent? = some d → q.parent? = some e →
      e.same d → ∀ i, asked i → Offers s i d e) : Covered s asked (fun _ => False) r r' where
  used i used := by
    obtain ⟨p, hp, serves⟩ := (h.used i).mp used
    exact (h'.used i).mpr ⟨p, among p hp, serves⟩
  held i held := by
    refine .inr ((h'.held i).mpr ?_)
    exact ((h.held i).mp held).imp_right fun ⟨p, hp, serves⟩ => ⟨p, among p hp, serves⟩
  paths k m led := by
    refine .inr ((h'.known k).mpr ?_)
    have led := (h.known k).mp (Option.isSome_iff_exists.mpr ⟨m, led⟩)
    exact led.imp_right fun ⟨p, hp, leads⟩ => ⟨p, among p hp, leads⟩
  directories d hd := by
    obtain ⟨p, hp, parent⟩ := h.directories d hd
    obtain ⟨e, he, same⟩ := h'.probed p (among p hp) d parent
    obtain ⟨q, hq, parent'⟩ := h'.directories e he
    exact ⟨e, he, alike p (among p hp) q hq d e parent parent' same⟩

end Resolver

/-! ## Contexts -/

namespace Table

theorem contains_map {α β : Type} (f : α → β) (t : Table α) (key : String) :
    (t.map f).contains key = t.contains key := by
  rw [contains, contains, get?_map, Option.isSome_map]

theorem map_insertNew {α β : Type} (f : α → β) (t : Table α) (key : String) (a : α) :
    (t.insertNew key a).map f = (t.map f).insertNew key (f a) := by
  rw [insertNew, insertNew, contains_map]
  split
  · rfl
  · simp [map]

theorem contains_insertNew {α : Type} (t : Table α) (key name : String) (a : α) :
    (t.insertNew key a).contains name ↔ t.contains name ∨ name = key := by
  rw [contains, contains, get?_insertNew]
  split
  · next same => simp [same]
  · next other => simp [other]

end Table

namespace Context

variable {c d : Context} {r r' : Resolver} {references' : List Path} {asked : Identity → Prop}

theorem Alike.knows (h : c.Alike d) (name : String) : c.knows name = d.knows name := by
  have names : c.references.contains name = d.references.contains name := by
    rw [← Table.contains_map Image.shape, h.references, Table.contains_map]
  rw [Context.knows, Context.knows, names, h.target]

theorem Alike.addReference (h : c.Alike d) {m m' : Image} (same : m.Likewise m') :
    (c.addReference m).Alike (d.addReference m') where
  target := h.target
  references := by
    simp only [Context.addReference, Table.map_insertNew, h.references, same.shape, same.name]

theorem knows_addReference_iff (c : Context) (m : Image) (name : String) :
    (c.addReference m).knows name ↔ c.knows name ∨ name = m.name := by
  have target : (c.addReference m).target = c.target := rfl
  rw [Context.knows, Context.knows, target, Bool.or_eq_true, Bool.or_eq_true, Context.addReference,
    Table.contains_insertNew]
  tauto

/-- Resolvers that have the same but for names the context knows. -/
abbrev Matched (s : σ) (start : Cache) (references references' : List Path)
    (asked : Identity → Prop) (c : Context) (r r' : Resolver) : Prop :=
  Resolver.Matched s start references references' asked (fun name => c.knows name) r r'

/-- What the next reference of a queue leaves and gives. -/
def nexts (s : σ) (c : Context) (r : Resolver) (queue : List Identity) :
    Resolver × Option (Image × List Identity) := ((c.nextReference r queue).run s).value

theorem nexts_cons (c : Context) (r : Resolver) (i : Identity) (queue : List Identity) :
    c.nexts s r (i :: queue) = if c.knows i.name then c.nexts s r queue
      else match r.resolves s i with
        | (r, some m) => (r, some (m, queue))
        | (r, none) => c.nexts s r queue := by
  rw [nexts, nextReference]
  split
  · rfl
  · rw [(Resolver.asks_resolve r i).value_bind, ← Resolver.resolves]
    obtain ⟨r, _ | m⟩ := r.resolves s i <;> rfl

section

variable (orderly : Orderly s start)
  (further : ∀ m, start.Genuine s m → ∀ i ∈ m.references, asked i)

include orderly further

/-- Matched resolvers come to the same next reference, and are matched in the context with it. -/
theorem nexts_matched (alike : c.Alike d)
    (h : Matched s start references references' asked c r r') {queue : List Identity}
    (wanted : ∀ i ∈ queue, asked i) :
    (c.nexts s r queue).2 = none ∧ (d.nexts s r' queue).2 = none ∨
    ∃ m m' rest, (c.nexts s r queue).2 = some (m, rest) ∧ (d.nexts s r' queue).2 = some (m', rest) ∧
      m.Likewise m' ∧ (∀ i ∈ rest ++ m.references, asked i) ∧
      Matched s start references references' asked (c.addReference m)
        (c.nexts s r queue).1 (d.nexts s r' queue).1 := by
  induction queue generalizing r r' with
  | nil => exact .inl ⟨rfl, rfl⟩
  | cons i queue ih =>
      obtain ⟨first, others⟩ := List.forall_mem_cons.mp wanted
      rw [nexts_cons, nexts_cons, ← alike.knows]
      split
      · exact ih h others
      · next unknown =>
          have resolves := h.resolves orderly first unknown
          generalize r.resolves s i = x at resolves ⊢
          generalize r'.resolves s i = x' at resolves ⊢
          obtain ⟨r, a⟩ := x
          obtain ⟨r', a'⟩ := x'
          obtain ⟨matched, ⟨rfl, rfl⟩ | ⟨m, m', rfl, rfl, same, name, genuine⟩⟩ := resolves
          · refine ih (matched.mono ?_) others
            rintro name (known | ⟨found, -⟩)
            · exact known
            · cases found
          · refine .inr ⟨m, m', queue, rfl, rfl, same, ?_, matched.mono fun other known => ?_⟩
            · exact fun j hj => (List.mem_append.mp hj).elim (others j) (further m genuine j)
            · rw [knows_addReference_iff, name]
              exact known.imp_right And.right

end

theorem close_zero (c : Context) (r : Resolver) (queue : List Identity) :
    ((close 0 c r queue).run s).value = (r, c) := by
  unfold close
  split <;> rfl

theorem close_succ (n : Nat) (c : Context) (r : Resolver) (queue : List Identity) :
    ((close (n + 1) c r queue).run s).value =
      match c.nexts s r queue with
      | (r, none) => (r, c)
      | (r, some (m, queue)) =>
        ((close n (c.addReference m) r (queue ++ m.references)).run s).value := by
  rw [close, (asks_nextReference c r queue).value_bind, ← nexts]
  obtain ⟨r, _ | ⟨m, queue⟩⟩ := c.nexts s r queue <;> rfl

theorem close_alike (orderly : Orderly s start)
    (further : ∀ m, start.Genuine s m → ∀ i ∈ m.references, asked i) (n : Nat) (alike : c.Alike d)
    (h : Matched s start references references' asked c r r') {queue : List Identity}
    (wanted : ∀ i ∈ queue, asked i) :
    ((close n c r queue).run s).value.2.Alike ((close n d r' queue).run s).value.2 := by
  induction n generalizing c d r r' queue with
  | zero =>
      rw [close_zero, close_zero]
      exact alike
  | succ n ih =>
      rw [close_succ, close_succ]
      have next := nexts_matched orderly further alike h wanted
      generalize c.nexts s r queue = x at next ⊢
      generalize d.nexts s r' queue = x' at next ⊢
      obtain ⟨r, a⟩ := x
      obtain ⟨r', a'⟩ := x'
      obtain ⟨rfl, rfl⟩ | ⟨m, m', rest, rfl, rfl, same, wanted, matched⟩ := next
      · exact alike
      · dsimp only
        rw [← same.references]
        exact ih (alike.addReference same) matched wanted

end Context

end Companions
