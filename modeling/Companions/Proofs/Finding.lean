import Companions.Proofs.Serving
/-!
What a resolver finds, told by what it uses, what its cache holds and what files its directories
offer, and not by the order in which any of them came.
-/
namespace Companions

open Image (Holds)

variable {σ : Type} [FileSystem σ] {s : σ} {start : Cache} {references : List Path}
  {i : Identity} {places : List Path} {r : Resolver}

namespace Resolver

/-- The file is looked for and is there in one of the directories. -/
def Candidate (s : σ) (i : Identity) (places : List Path) (p : Path) : Prop :=
  ∃ d ∈ places, FileSystem.isFile s (candidate i d) ∧ p = candidate i d

theorem exists_join (d : Path) (name : String) :
    ∃ front, (d.join name).text.toList = front ++ name.toList ∧ Path.Slashed front := by
  unfold Path.join
  split
  · exact ⟨[], rfl, .inl rfl⟩
  · split
    · next ends => exact ⟨d.text.toList, by simp, .inr ends⟩
    · exact ⟨d.text.toList ++ ['/'], by simp, .inr (by simp)⟩

/-- What is looked for is a library, of the name that is asked for unless that has slashes. -/
theorem candidate_isLibrary (i : Identity) (d : Path) :
    ∃ name, (candidate i d).IsLibrary name ∧ ('/' ∉ i.name.toList → name = i.name) := by
  -- the library's name is what follows the last slash of the one that is asked for
  obtain ⟨front, back, pieces, plain, slashed⟩ := Path.exists_last_piece i.name.toList
  obtain ⟨before, path, slashed'⟩ := exists_join d (i.name ++ "." ++ Name.imageExtension)
  refine ⟨String.ofList back, ⟨by simpa using plain, before ++ front, ?_, slashed'.append slashed⟩,
    fun none => ?_⟩
  · rw [candidate, path]
    simp [pieces]
  · rcases slashed with rfl | ends
    · exact String.toList_inj.mp (by simp [pieces])
    · refine absurd ?_ none
      rw [pieces]
      exact List.mem_append_left back (List.mem_of_getLast? ends)

/-- A resolver whose cache came out of the first one by loading, and which uses images of it. -/
structure Sound (s : σ) (start : Cache) (references : List Path) (r : Resolver) : Prop where
  cache : start.Grown s references r.cache
  keyed : r.used.Keyed
  used : ∀ k m, r.used.get? k = some m → start.Genuine s m

/-- What looking for an identity leaves and gives. -/
structure Searched (s : σ) (start : Cache) (references : List Path) (i : Identity)
    (places : List Path) (r : Resolver) (x : Resolver × Option Image) : Prop where
  sound : x.1.Sound s start references
  directories : x.1.directories = r.directories
  additional : x.1.resolveAdditional = r.resolveAdditional
  answer : ∀ m, x.2 = some m → m.identity = i ∧ start.Genuine s m
  used : ∀ j : Identity, (x.1.used.get? j.display).isSome ↔
    (r.used.get? j.display).isSome ∨ x.2.isSome ∧ j = i
  gains : r.cache.Gains s (Candidate s i places) x.1.cache
  exhausted : x.2 = none → ∀ p, Candidate s i places p → (∃ j, Holds s p j) →
    (x.1.cache.atPath? (Cache.keyOf s p)).isSome

theorem used_register {m : Image} {j : Identity} :
    ((r.register m).used.get? j.display).isSome ↔
      (r.used.get? j.display).isSome ∨ j = m.identity := by
  rw [register, Table.get?_insertNew]
  split
  · next same => simp [Identity.display_injective same]
  · next other => simp [show j ≠ m.identity from fun same => other (congrArg _ same)]

theorem Sound.register (h : r.Sound s start references) {m : Image}
    (genuine : start.Genuine s m) : (r.register m).Sound s start references where
  cache := h.cache
  keyed := h.keyed.insertNew m
  used k m' held := by
    rw [Resolver.register, Table.get?_insertNew] at held
    split at held
    · cases old : r.used.get? m.identity.display with
      | none =>
          rw [old] at held
          exact Option.some.inj held ▸ genuine
      | some m'' =>
          rw [old] at held
          exact Option.some.inj held ▸ h.used _ m'' old
    · exact h.used k m' held

theorem Sound.caches (h : r.Sound s start references) {c : Cache}
    (grown : start.Grown s references c) : { r with cache := c }.Sound s start references where
  cache := grown
  keyed := h.keyed
  used := h.used

/-- A cache that came out of the resolver's when the library was loaded. -/
theorem Sound.grown (h : r.Sound s start references) {c : Cache} (keyed : c.Keyed) {d : Path}
    (gains : r.cache.Gains s (· = candidate i d) c) : start.Grown s references c := by
  obtain ⟨name, library, -⟩ := candidate_isLibrary i d
  refine ⟨keyed, h.cache.gains.trans (gains.mono ?_)⟩
  rintro p rfl
  exact .inr ⟨name, library⟩

theorem Candidate.cons {d p : Path} (h : Candidate s i places p) :
    Candidate s i (d :: places) p := by
  obtain ⟨e, he, there⟩ := h
  exact ⟨e, List.mem_cons_of_mem d he, there⟩

/-- A search that goes on where a first directory gave nothing else. -/
theorem Searched.after {d : Path} {c : Cache} {x : Resolver × Option Image}
    (gains : r.cache.Gains s (Candidate s i (d :: places)) c)
    (first : ∀ p, FileSystem.isFile s (candidate i d) → p = candidate i d → (∃ j, Holds s p j) →
      (c.atPath? (Cache.keyOf s p)).isSome)
    (h : Searched s start references i places { r with cache := c } x) :
    Searched s start references i (d :: places) r x where
  sound := h.sound
  directories := h.directories
  additional := h.additional
  answer := h.answer
  used := h.used
  gains := gains.trans (h.gains.mono fun _ => .cons)
  exhausted none p hp holds := by
    obtain ⟨e, he, there, same⟩ := hp
    rcases List.mem_cons.mp he with rfl | he
    · exact h.gains.atPath? (first p there same holds)
    · exact h.exhausted none p ⟨e, he, there, same⟩ holds

theorem probes_nil (r : Resolver) (i : Identity) : r.probes s i [] = (r, none) := rfl

theorem probes_searched (sound : r.Sound s start references) (i : Identity) (places : List Path) :
    Searched s start references i places r (r.probes s i places) := by
  induction places generalizing r with
  | nil =>
      rw [probes_nil]
      exact {
        sound := sound
        directories := rfl
        additional := rfl
        answer := nofun
        used := fun j => by simp
        gains := .refl s _ _
        exhausted := fun _ p hp => by
          obtain ⟨d, hd, -⟩ := hp
          cases hd }
  | cons d places ih =>
      rw [probes_cons]
      split
      · next there =>
          obtain ⟨e, failed, nothing⟩ | ⟨c, m, loaded, serves, keyed, known, held, gains⟩ :=
            Cache.loads_cases (s := s) sound.cache.keyed (candidate i d)
          · rw [failed]
            refine (ih sound).after (.refl s _ _) ?_
            rintro p - rfl ⟨j, holds⟩
            by_contra unknown
            exact nothing j (.inr ⟨Option.not_isSome_iff_eq_none.mp unknown, holds⟩)
          · have grown := sound.grown keyed gains
            have gains : r.cache.Gains s (Candidate s i (d :: places)) c :=
              gains.mono fun p same => ⟨d, List.mem_cons_self, there, same⟩
            rw [loaded]
            dsimp only
            split
            · next same =>
                exact {
                  sound := (sound.caches grown).register (grown.genuine held)
                  directories := rfl
                  additional := rfl
                  answer := fun m' answer => Option.some.inj answer ▸ ⟨same, grown.genuine held⟩
                  used := fun j => by
                    subst same
                    simpa using used_register
                  gains := gains
                  exhausted := nofun }
            · refine (ih (sound.caches grown)).after gains ?_
              rintro p - rfl -
              exact Option.isSome_iff_exists.mpr ⟨m, known⟩
      · next missing =>
          refine (ih sound).after (.refl s _ _) ?_
          exact fun p there => absurd there missing

theorem resolves_searched (sound : r.Sound s start references) (i : Identity) :
    Searched s start references i r.directories r (r.resolves s i) := by
  cases held : r.used.get? i.display with
  | some m =>
      rw [resolves_used held]
      exact {
        sound := sound
        directories := rfl
        additional := rfl
        answer := fun m' answer => Option.some.inj answer ▸
          ⟨sound.keyed.identity held, sound.used _ m held⟩
        used := fun j => by
          refine (or_iff_left_of_imp ?_).symm
          rintro ⟨-, rfl⟩
          exact Option.isSome_iff_exists.mpr ⟨m, held⟩
        gains := .refl s _ _
        exhausted := nofun }
  | none =>
      rw [resolves_new held]
      split
      · next m found =>
          have cached : r.cache.get? i = some m := by
            split at found
            · exact found
            · cases found
          have same := sound.cache.keyed.images.identity cached
          exact {
            sound := sound.register (sound.cache.genuine cached)
            directories := rfl
            additional := rfl
            answer := fun m' answer => Option.some.inj answer ▸ ⟨same, sound.cache.genuine cached⟩
            used := fun j => by
              subst same
              simpa using used_register
            gains := .refl s _ _
            exhausted := nofun }
      · exact probes_searched sound i r.directories

/-! ## What is found -/

variable (orderly : Orderly s start)

include orderly

/-- An identity is found in directories exactly if the cache serves it for a file there. -/
theorem probes_isSome_iff (sound : r.Sound s start references) :
    (r.probes s i places).2.isSome ↔ ∃ p, Candidate s i places p ∧ r.cache.Serves s p i := by
  induction places generalizing r with
  | nil =>
      rw [probes_nil]
      exact ⟨nofun, fun ⟨_, ⟨_, listed, _⟩, _⟩ => nomatch listed⟩
  | cons d places ih =>
      have step : (∃ p, Candidate s i (d :: places) p ∧ r.cache.Serves s p i) ↔
          FileSystem.isFile s (candidate i d) ∧ r.cache.Serves s (candidate i d) i ∨
          ∃ p, Candidate s i places p ∧ r.cache.Serves s p i := by
        simp only [Candidate, List.exists_mem_cons_iff, or_and_right, exists_or, and_assoc,
          exists_and_left, exists_eq_left]
      rw [step, probes_cons]
      split
      · next there =>
          obtain ⟨e, failed, nothing⟩ | ⟨c, m, loaded, serves, keyed, known, held, gains⟩ :=
            Cache.loads_cases (s := s) sound.cache.keyed (candidate i d)
          · rw [failed, or_iff_right fun first => nothing i first.2]
            exact ih sound
          · rw [loaded]
            dsimp only
            split
            · next same => exact iff_of_true rfl (.inl ⟨there, same ▸ serves⟩)
            · next other =>
                have grown := sound.grown keyed gains
                have first : ¬ (FileSystem.isFile s (candidate i d) ∧
                    r.cache.Serves s (candidate i d) i) := fun first =>
                  other (orderly.serves_unique sound.cache sound.cache rfl serves first.2)
                rw [or_iff_right first, ih (sound.caches grown)]
                simp only [orderly.serves_after gains known other]
      · next missing => rw [or_iff_right fun first => missing first.1, ih sound]

theorem resolves_isSome_iff (sound : r.Sound s start references) :
    (r.resolves s i).2.isSome ↔ (r.used.get? i.display).isSome ∨
      r.resolveAdditional ∧ (r.cache.get? i).isSome ∨
      ∃ p, Candidate s i r.directories p ∧ r.cache.Serves s p i := by
  cases held : r.used.get? i.display with
  | some m =>
      rw [resolves_used held]
      exact iff_of_true rfl (.inl rfl)
  | none =>
      rw [resolves_new held]
      split
      · next m found =>
          refine iff_of_true rfl (.inr (.inl ?_))
          split at found
          · next allowed => exact ⟨allowed, Option.isSome_iff_exists.mpr ⟨m, found⟩⟩
          · cases found
      · next missing =>
          have uncached : ¬ (r.resolveAdditional ∧ (r.cache.get? i).isSome) := by
            rintro ⟨allowed, cached⟩
            rw [if_pos allowed] at missing
            rw [missing] at cached
            cases cached
          rw [probes_isSome_iff orderly sound]
          simp [uncached]

/-- The images at the references are used. -/
def Holding (s : σ) (start : Cache) (references : List Path) (r : Resolver) : Prop :=
  ∀ p ∈ references, ∀ i, start.Serves s p i → (r.used.get? i.display).isSome

/-- Only names without slashes are found in directories: what is called otherwise is used, or it is
not held by what is called after it. -/
theorem plain_of_found (sound : r.Sound s start references)
    (holding : r.Holding s start references) (unused : r.used.get? i.display = none) {p : Path}
    (source : Candidate s i places p) (serves : r.cache.Serves s p i) : '/' ∉ i.name.toList := by
  have plain {q : Path} (h : ∃ name, q.IsLibrary name) (serves : start.Serves s q i) :
      '/' ∉ i.name.toList := by
    obtain ⟨name, library⟩ := h
    rw [orderly.named q name i library serves]
    exact library.1
  have library : ∃ name, p.IsLibrary name := by
    obtain ⟨d, -, -, rfl⟩ := source
    obtain ⟨name, library, -⟩ := candidate_isLibrary i d
    exact ⟨name, library⟩
  rcases serves with ⟨m, known, rfl⟩ | ⟨new, holds⟩
  · obtain old | ⟨new, q, sourced, same, holds⟩ := sound.cache.gains.known _ m known
    · exact plain library (.inl ⟨m, old, rfl⟩)
    · have serves : start.Serves s q m.identity := .inr ⟨same ▸ new, holds⟩
      rcases sourced with reference | library
      · have held := holding q reference _ serves
        rw [unused] at held
        cases held
      · exact plain library serves
  · exact plain library (.inr ⟨sound.cache.gains.unknown new, holds⟩)

/-- What comes to the cache of a resolver that finds an identity is of its name. -/
theorem named_of_found (sound : r.Sound s start references)
    (holding : r.Holding s start references) (found : (r.resolves s i).2.isSome) :
    r.cache.Gains s (fun p => ∀ j, start.Serves s p j → j.name = i.name)
      (r.resolves s i).1.cache := by
  cases used : r.used.get? i.display with
  | some m =>
      rw [resolves_used used]
      exact .refl s _ _
  | none =>
      have gains := (resolves_searched sound i).gains
      rw [resolves_new used] at found gains ⊢
      split at found
      · exact .refl s _ _
      · next missing =>
        rw [missing] at gains
        obtain ⟨p, source, serves⟩ := (probes_isSome_iff orderly sound).mp found
        have plain := plain_of_found orderly sound holding used source serves
        refine gains.mono ?_
        rintro _ ⟨d, -, -, rfl⟩ j serves
        obtain ⟨name, library, same⟩ := candidate_isLibrary i d
        exact (orderly.named _ name j library serves).trans (same plain)

/-! ## Seeding -/

omit orderly in
/-- A resolver over the first cache that was seeded with some references. -/
structure Seeded (s : σ) (start : Cache) (references : List Path) (allowed : Bool)
    (seeds : List Path) (r : Resolver) : Prop where
  sound : r.Sound s start references
  additional : r.resolveAdditional = allowed
  used : ∀ i : Identity, (r.used.get? i.display).isSome ↔ ∃ p ∈ seeds, start.Serves s p i
  held : ∀ i, (r.cache.get? i).isSome ↔ (start.get? i).isSome ∨ ∃ p ∈ seeds, start.Serves s p i
  known : ∀ k, (r.cache.atPath? k).isSome ↔
    (start.atPath? k).isSome ∨ ∃ p ∈ seeds, Cache.keyOf s p = k
  directories : ∀ d ∈ r.directories, ∃ p ∈ seeds, p.parent? = some d
  probed : ∀ p ∈ seeds, ∀ d, p.parent? = some d → ∃ e ∈ r.directories, e.same d

theorem seeded_nil (references : List Path) (allowed : Bool) :
    Seeded s start references allowed []
    { cache := start, resolveAdditional := allowed } where
  sound := ⟨orderly.grown_start references, nofun, nofun⟩
  additional := rfl
  used _ := by simp [Table.get?]
  held _ := by simp
  known _ := by simp
  directories := nofun
  probed := nofun

omit orderly in
/-- The directory of a seed is one of those to probe, unless there is one with its components. -/
theorem seeded_eq (r : Resolver) (c : Cache) (p : Path) (m : Image) :
    ∃ ds, r.seeded c p m = ({ r with cache := c, directories := ds } : Resolver).register m ∧
      (∀ d ∈ r.directories, d ∈ ds) ∧ (∀ d ∈ ds, d ∈ r.directories ∨ p.parent? = some d) ∧
      ∀ d, p.parent? = some d → ∃ e ∈ ds, e.same d := by
  unfold seeded
  cases p.parent? with
  | none => exact ⟨r.directories, rfl, fun _ hd => hd, fun _ hd => .inl hd, nofun⟩
  | some d =>
      dsimp only [addDirectory]
      split
      · next there =>
          refine ⟨r.directories, rfl, fun _ hd => hd, fun _ hd => .inl hd, ?_⟩
          rintro _ ⟨⟩
          exact List.any_eq_true.mp there
      · refine ⟨r.directories ++ [d], rfl, fun _ hd => List.mem_append_left [d] hd, ?_, ?_⟩
        · intro e he
          exact (List.mem_append.mp he).imp_right fun he =>
            congrArg some (List.mem_singleton.mp he).symm
        · rintro _ ⟨⟩
          exact ⟨d, by simp, by simp [Path.same]⟩

theorem Seeded.step {allowed : Bool} {seeds : List Path}
    (h : Seeded s start references allowed seeds r) {p : Path} (reference : p ∈ references)
    (serves : ∃ i, start.Serves s p i) :
    ∃ c m, r.cache.loads s p = (c, .ok m) ∧
      Seeded s start references allowed (seeds ++ [p]) (r.seeded c p m) := by
  obtain ⟨i, serves⟩ := serves
  have grown := h.sound.cache
  obtain ⟨e, -, nothing⟩ | ⟨c, m, loaded, here, keyed, known, held, gains⟩ :=
    Cache.loads_cases (s := s) grown.keyed p
  · exact absurd (orderly.serves grown serves) (nothing i)
  · have same {j : Identity} : start.Serves s p j ↔ j = m.identity := by
      have one {j : Identity} (serves : start.Serves s p j) : j = m.identity :=
        orderly.serves_unique (orderly.grown_start references) grown rfl serves here
      refine ⟨one, ?_⟩
      rintro rfl
      rwa [← one serves]
    have grown' : start.Grown s references c :=
      ⟨keyed, grown.gains.trans (gains.mono fun q same => .inl (same ▸ reference))⟩
    have one (j : Identity) (serves : r.cache.Serves s p j) : j = m.identity :=
      orderly.serves_unique grown grown rfl serves here
    obtain ⟨ds, eq, kept, new, probed⟩ := seeded_eq r c p m
    refine ⟨c, m, loaded, ?_⟩
    rw [eq]
    have sound : ({ r with cache := c, directories := ds } : Resolver).Sound s start references :=
      ⟨grown', h.sound.keyed, h.sound.used⟩
    exact {
      sound := sound.register (grown'.genuine held)
      additional := h.additional
      used := fun j => by
        simp only [used_register, h.used, List.mem_append, or_and_right, exists_or,
          List.mem_singleton, exists_eq_left, same]
      held := fun j => by
        simp only [List.mem_append, or_and_right, exists_or, List.mem_singleton, exists_eq_left,
          same, ← or_assoc, ← h.held]
        exact gains.get?_iff keyed held one j
      known := fun k => by
        simp only [List.mem_append, or_and_right, exists_or, List.mem_singleton, exists_eq_left,
          ← or_assoc, ← h.known]
        exact gains.atPath?_iff known k
      directories := fun d hd => by
        obtain old | parent := new d hd
        · obtain ⟨q, hq, parent⟩ := h.directories d old
          exact ⟨q, List.mem_append_left [p] hq, parent⟩
        · exact ⟨p, by simp, parent⟩
      probed := fun q hq d parent => by
        obtain hq | hq := List.mem_append.mp hq
        · obtain ⟨e, he, same⟩ := h.probed q hq d parent
          exact ⟨e, kept e he, same⟩
        · obtain rfl := List.mem_singleton.mp hq
          exact probed d parent }

/-- References that are all served seed a resolver without fail. -/
theorem seeds_seeded {allowed : Bool} {seeds paths : List Path}
    (h : Seeded s start references allowed seeds r)
    (served : ∀ p ∈ paths, p ∈ references ∧ ∃ i, start.Serves s p i) :
    ∃ r', r.seeds s paths = (r', .ok ()) ∧
      Seeded s start references allowed (seeds ++ paths) r' := by
  induction paths generalizing r seeds with
  | nil => exact ⟨r, rfl, by rwa [List.append_nil]⟩
  | cons p paths ih =>
      obtain ⟨⟨reference, serves⟩, others⟩ := List.forall_mem_cons.mp served
      obtain ⟨c, m, loaded, h⟩ := h.step orderly reference serves
      rw [seeds_cons, loaded, ← List.singleton_append, ← List.append_assoc]
      exact ih h others

end Resolver
end Companions
