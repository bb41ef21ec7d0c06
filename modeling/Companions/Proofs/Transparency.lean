import Companions.Proofs.Loading
import Companions.Proofs.Store
import Companions.Proofs.Image.RoundTrip
/-!
The cache is transparent. What a resolver answers is decided by the files: a cache left behind by
earlier calls saves reading, but no answer depends on it, as long as the files stay as they are, a
path is known by what it leads to, and images of one identity have one content. What counts as the
content is left open.
-/
namespace Companions

variable {σ γ : Type} [FileSystem σ] {s : σ} {U : Image → Prop} {view : Image → γ}

/-- Loading goes by what paths lead to: paths with one canonical path hold an image of one identity,
or both hold none. -/
def Canonical (s : σ) : Prop :=
  ∀ p q m, Cache.keyOf s p = Cache.keyOf s q → Image.loaded s p = .ok m →
    ∃ m', Image.loaded s q = .ok m' ∧ m'.identity = m.identity

namespace Cache

/-- A cache that calls have left behind. -/
inductive Left (s : σ) : Cache → Prop where
  | new : Left s {}
  | insert {c : Cache} (h : Left s c) (m : Image) : Left s (c.insert m)
  | load {c : Cache} (h : Left s c) (path : Path) : Left s ((c.loadPath path).run s).value.1

/-- An image that is on disk or in the cache. -/
inductive Provides (s : σ) (c : Cache) (m : Image) : Prop where
  | stored {path : Path} (h : Image.loaded s path = .ok m)
  | held {key : String} (h : c.images.get? key = some m)

/-- Images stand under their identities, and what a path is known to hold it does hold. -/
structure Faithful (s : σ) (c : Cache) : Prop where
  keyed : c.Keyed
  known : ∀ path m, c.atPath? (keyOf s path) = some m →
    ∃ m', Image.loaded s path = .ok m' ∧ m'.identity = m.identity

theorem faithful_empty : Faithful s {} where
  keyed := keyed_empty
  known _ _ known := nomatch known

theorem Faithful.insert {c : Cache} (h : c.Faithful s) (m : Image) : (c.insert m).Faithful s where
  keyed := (insert_develops c m).keyed h.keyed
  known path m' known := by
    rw [atPath?_insert h.keyed] at known
    exact h.known path m' known

theorem Faithful.enter {c : Cache} (h : c.Faithful s) (goes : Canonical s) {path : Path} {m : Image}
    (loaded : Image.loaded s path = .ok m) : (c.enter (keyOf s path) m).1.Faithful s where
  keyed := (enter_develops c _ m).keyed h.keyed
  known other m' known := by
    rw [atPath?_enter] at known
    split at known
    · next same =>
        obtain rfl := Option.some.inj known
        obtain ⟨m'', found, identity⟩ := goes path other m (congrArg Path.mk same.symm) loaded
        exact ⟨m'', found, identity.trans (identity_enter h.keyed _ m).symm⟩
    · exact (h.insert m).known other m' known

/-! ## Loading -/

/-- A faithful cache whose images are among those given. -/
structure Confined (s : σ) (U : Image → Prop) (c : Cache) : Prop where
  faithful : c.Faithful s
  within : ∀ key m, c.images.get? key = some m → U m

/-- Loading through the cache fails as loading does, or gives an image of the same identity. -/
inductive Answers (s : σ) (U : Image → Prop) (c : Cache) (path : Path) :
    Cache × Except ImageError Image → Prop where
  | failed {e : ImageError} (h : Image.loaded s path = .error e) : Answers s U c path (c, .error e)
  | loaded {m m' : Image} {c' : Cache} (h : Image.loaded s path = .ok m)
      (same : m'.identity = m.identity) (given : U m') (confined : c'.Confined s U) :
      Answers s U c path (c', .ok m')

theorem Confined.enter {c : Cache} (h : c.Confined s U) (goes : Canonical s) {path : Path}
    {m : Image} (loaded : Image.loaded s path = .ok m) (given : U m) :
    (c.enter (keyOf s path) m).1.Confined s U ∧ U (c.enter (keyOf s path) m).2 := by
  have within (key : String) (m' : Image)
      (held : (c.enter (keyOf s path) m).1.images.get? key = some m') : U m' := by
    rw [Cache.enter, Table.get?_insertNew] at held
    split at held
    · cases old : c.images.get? m.identity.display with
      | none =>
          rw [old] at held
          exact Option.some.inj held ▸ given
      | some m'' =>
          rw [old] at held
          exact Option.some.inj held ▸ h.within _ _ old
    · exact h.within _ _ held
  exact ⟨⟨h.faithful.enter goes loaded, within⟩, within _ _ (enter_held c _ m)⟩

theorem Confined.loads {c : Cache} (h : c.Confined s U) (goes : Canonical s)
    (stored : ∀ path m, Image.loaded s path = .ok m → U m) (path : Path) :
    Answers s U c path (c.loads s path) := by
  cases known : c.atPath? (keyOf s path) with
  | some m =>
      rw [loads_known known]
      obtain ⟨m', loaded, same⟩ := h.faithful.known path m known
      obtain ⟨name, -, held⟩ := Option.bind_eq_some_iff.mp known
      exact .loaded loaded same.symm (h.within name m held) h
  | none =>
      rw [loads_new known]
      cases loaded : Image.loaded s path with
      | error e => exact .failed loaded
      | ok m =>
          obtain ⟨confined, given⟩ := h.enter goes loaded (stored path m loaded)
          exact .loaded loaded (identity_enter h.faithful.keyed _ m) given confined

theorem Left.faithful {c : Cache} (h : c.Left s) (goes : Canonical s) : c.Faithful s := by
  induction h with
  | new => exact faithful_empty
  | insert _ m ih => exact ih.insert m
  | @load c _ path ih =>
      have confined : c.Confined s fun _ => True := ⟨ih, fun _ _ _ => trivial⟩
      have answers := confined.loads goes (fun _ _ _ => trivial) path
      change (c.loads s path).1.Faithful s
      generalize c.loads s path = x at answers
      cases answers with
      | failed => exact ih
      | loaded _ _ _ confined => exact confined.faithful

end Cache

/-! ## Two resolvers -/

namespace Resolver

/-- The answers to identities, asked one after the other. -/
def answers (s : σ) (r : Resolver) : List Identity → List (Option Image)
  | [] => []
  | i :: is =>
    let found := ((r.resolve i).run s).value
    found.2 :: found.1.answers s is

/-- Resolvers without access to the cached images that search the same directories and use images of
the same content. -/
structure Alike (s : σ) (U : Image → Prop) (view : Image → γ) (r r' : Resolver) : Prop where
  confined : r.cache.Confined s U
  confined' : r'.cache.Confined s U
  directories : r.directories = r'.directories
  bare : r.resolveAdditional = false
  bare' : r'.resolveAdditional = false
  used : ∀ key, (r.used.get? key).map view = (r'.used.get? key).map view

variable {r r' : Resolver}

theorem Alike.caches (h : Alike s U view r r') {c c' : Cache} (confined : c.Confined s U)
    (confined' : c'.Confined s U) : Alike s U view { r with cache := c } { r' with cache := c' } :=
  { h with confined := confined, confined' := confined' }

theorem Alike.register (h : Alike s U view r r') {m m' : Image} (same : m.identity = m'.identity)
    (content : view m = view m') : Alike s U view (r.register m) (r'.register m') where
  __ := h
  used key := by
    have before := h.used m.identity.display
    simp only [Resolver.register, Table.get?_insertNew, ← same]
    split
    · cases held : r.used.get? m.identity.display <;>
        cases held' : r'.used.get? m.identity.display <;> simp_all
    · exact h.used key

theorem Alike.addDirectory (h : Alike s U view r r') (p : Path) :
    Alike s U view (r.addDirectory p) (r'.addDirectory p) := by
  unfold Resolver.addDirectory
  rw [← h.directories]
  split
  · exact h
  · exact { h with directories := rfl }

theorem Alike.seeded (h : Alike s U view r r') {c c' : Cache} (confined : c.Confined s U)
    (confined' : c'.Confined s U) (path : Path) {m m' : Image} (same : m.identity = m'.identity)
    (content : view m = view m') : Alike s U view (r.seeded c path m) (r'.seeded c' path m') := by
  have caches := h.caches confined confined'
  unfold Resolver.seeded
  cases path.parent? with
  | none => exact caches.register same content
  | some directory => exact (caches.addDirectory directory).register same content

end Resolver

/-- What keeps a cache from being seen: loading goes by what paths lead to, and what is loaded is
among images of which those of one identity have one content. -/
structure Settled (s : σ) (U : Image → Prop) (view : Image → γ) : Prop where
  goes : Canonical s
  stored : ∀ path m, Image.loaded s path = .ok m → U m
  coherent : ∀ m m', U m → U m' → m.identity = m'.identity → view m = view m'

namespace Settled

variable (settled : Settled s U view)
include settled

/-- Two caches load a path alike. -/
theorem loads {c c' : Cache} (confined : c.Confined s U) (confined' : c'.Confined s U)
    (path : Path) :
    (∃ e, c.loads s path = (c, .error e) ∧ c'.loads s path = (c', .error e)) ∨
    ∃ d d' m m', c.loads s path = (d, .ok m) ∧ c'.loads s path = (d', .ok m') ∧
      d.Confined s U ∧ d'.Confined s U ∧ m.identity = m'.identity ∧ view m = view m' := by
  have first := confined.loads settled.goes settled.stored path
  have second := confined'.loads settled.goes settled.stored path
  generalize c.loads s path = x at first ⊢
  generalize c'.loads s path = x' at second ⊢
  cases first with
  | failed failed =>
      cases second with
      | failed failed' =>
          obtain rfl := Except.error.inj (failed.symm.trans failed')
          exact .inl ⟨_, rfl, rfl⟩
      | loaded loaded => cases failed.symm.trans loaded
  | loaded loaded same given confined =>
      cases second with
      | failed failed => cases failed.symm.trans loaded
      | loaded loaded' same' given' confined' =>
          obtain rfl := Except.ok.inj (loaded.symm.trans loaded')
          have identity := same.trans same'.symm
          exact .inr ⟨_, _, _, _, rfl, rfl, confined, confined', identity,
            settled.coherent _ _ given given' identity⟩

variable {r r' : Resolver}

theorem seeds (h : Resolver.Alike s U view r r') (paths : List Path) :
    (r.seeds s paths).2 = (r'.seeds s paths).2 ∧
      Resolver.Alike s U view (r.seeds s paths).1 (r'.seeds s paths).1 := by
  induction paths generalizing r r' with
  | nil => exact ⟨rfl, h⟩
  | cons path paths ih =>
      rw [Resolver.seeds_cons, Resolver.seeds_cons]
      obtain ⟨e, first, second⟩ |
          ⟨c, c', m, m', first, second, confined, confined', same, content⟩ :=
        settled.loads h.confined h.confined' path
      · rw [first, second]
        exact ⟨rfl, h⟩
      · rw [first, second]
        exact ih (h.seeded confined confined' path same content)

theorem probes (h : Resolver.Alike s U view r r') (i : Identity) (directories : List Path) :
    (r.probes s i directories).2.map view = (r'.probes s i directories).2.map view ∧
      Resolver.Alike s U view (r.probes s i directories).1 (r'.probes s i directories).1 := by
  induction directories generalizing r r' with
  | nil => exact ⟨rfl, h⟩
  | cons directory rest ih =>
      rw [Resolver.probes_cons, Resolver.probes_cons]
      split
      · obtain ⟨e, first, second⟩ |
            ⟨c, c', m, m', first, second, confined, confined', same, content⟩ :=
          settled.loads h.confined h.confined' (Resolver.candidate i directory)
        · rw [first, second]
          exact ih h
        · have caches := h.caches confined confined'
          rw [first, second]
          dsimp only
          rw [← same]
          split
          · exact ⟨congrArg some content, caches.register same content⟩
          · exact ih caches
      · exact ih h

theorem resolves (h : Resolver.Alike s U view r r') (i : Identity) :
    (r.resolves s i).2.map view = (r'.resolves s i).2.map view ∧
      Resolver.Alike s U view (r.resolves s i).1 (r'.resolves s i).1 := by
  have used := h.used i.display
  cases held : r.used.get? i.display with
  | some m =>
      rw [held] at used
      obtain ⟨m', held', content⟩ := Option.map_eq_some_iff.mp used.symm
      rw [Resolver.resolves_used held, Resolver.resolves_used held']
      exact ⟨congrArg some content.symm, h⟩
  | none =>
      rw [held] at used
      have new := Option.map_eq_none_iff.mp used.symm
      rw [Resolver.resolves_new held, Resolver.resolves_new new, h.bare, h.bare', h.directories]
      exact settled.probes h i r'.directories

theorem answers (h : Resolver.Alike s U view r r') (is : List Identity) :
    (r.answers s is).map (·.map view) = (r'.answers s is).map (·.map view) := by
  induction is generalizing r r' with
  | nil => rfl
  | cons i is ih =>
      obtain ⟨content, alike⟩ := settled.resolves h i
      exact congrArg₂ List.cons content (ih alike)

end Settled

/-! ## Cached and uncached -/

namespace Resolver

/-- A resolver over a cache that earlier calls left behind is created exactly where one over an
empty cache is, with the same error where it is not, and it answers every sequence of identities
with images of the same content. -/
theorem make_transparent {c : Cache} (left : c.Left s) (goes : Canonical s)
    (coherent : ∀ m m', c.Provides s m → c.Provides s m' → m.identity = m'.identity →
      view m = view m') (references : List Path) :
    ((make c references false).run s).value.2 = ((make {} references false).run s).value.2 ∧
    ∀ is, (((make c references false).run s).value.1.answers s is).map (·.map view) =
      (((make {} references false).run s).value.1.answers s is).map (·.map view) := by
  have settled : Settled s (c.Provides s) view := ⟨goes, fun _ _ => .stored, coherent⟩
  have start : Alike s (c.Provides s) view { cache := c, resolveAdditional := false }
      { cache := {}, resolveAdditional := false } :=
    { confined := ⟨left.faithful goes, fun _ _ => .held⟩
      confined' := ⟨Cache.faithful_empty, fun _ _ held => nomatch held⟩
      directories := rfl
      bare := rfl
      bare' := rfl
      used := fun _ => rfl }
  obtain ⟨result, alike⟩ := settled.seeds start references
  exact ⟨result, settled.answers alike⟩

/-- Two assemblies without types. -/
def core : Image := { identity := { name := "Core" } }

def tools : Image := { identity := { name := "Tools" } }

def corePath : Path := ⟨"lib/Core.dll"⟩

/-- A store that holds one of them. -/
def coreStore : Store := { files := [(corePath.text, core.encode.image)] }

theorem coreStore_loaded {path : Path} {m : Image} (loaded : Image.loaded coreStore path = .ok m) :
    path = corePath ∧ m = core := by
  by_cases there : path = corePath
  · subst there
    have file : FileSystem.read coreStore corePath = some core.encode.image := by rfl
    have bare : FileSystem.isFile coreStore (Image.symbolsPath corePath) = false := by
      decide +kernel
    have valid : core.Valid := Image.validate_ok_iff.mp (by rfl)
    have read := Image.read_encode_bare valid ⟨nofun, nofun⟩ (by decide +kernel)
    rw [Image.loaded_bare file bare, read] at loaded
    exact ⟨rfl, (Except.ok.inj loaded).symm⟩
  · have missing : FileSystem.read coreStore path = none := by
      have other : path.text ≠ corePath.text := fun same => there (congrArg Path.mk same)
      change coreStore.files.lookup path.text = none
      rw [coreStore, List.lookup_cons, beq_eq_false_iff_ne.mpr other]
      rfl
    rw [Image.loaded_missing missing] at loaded
    cases loaded

/-- A cache into which both were put, one of them from the store. -/
def coreCache : Cache := (((({} : Cache).insert tools).loadPath corePath).run coreStore).value.1

/-- The assembly on disk and the one that was handed over are different ones, so what the cache
holds is never seen. -/
theorem coreCache_transparent :
    coreCache.Left coreStore ∧ Canonical coreStore ∧
    (∀ m m', coreCache.Provides coreStore m → coreCache.Provides coreStore m' →
      m.identity = m'.identity → m.content = m'.content) ∧
    ∀ is, (((make coreCache [corePath] false).run coreStore).value.1.answers coreStore is).map
        (·.map Image.content) =
      (((make {} [corePath] false).run coreStore).value.1.answers coreStore is).map
        (·.map Image.content) := by
  have left : coreCache.Left coreStore := .load (.insert .new tools) corePath
  have goes : Canonical coreStore := by
    intro p q m same loaded
    obtain rfl : p = q := same
    exact ⟨m, loaded, rfl⟩
  have start : (({} : Cache).insert tools).Confined coreStore fun m => m = core ∨ m = tools := by
    refine ⟨Cache.faithful_empty.insert tools, fun key m held => ?_⟩
    rw [Cache.insert, Table.get?_insertNew] at held
    split at held
    · exact .inr (Option.some.inj held).symm
    · cases held
  have held (key : String) (m : Image) (h : coreCache.images.get? key = some m) :
      m = core ∨ m = tools := by
    have answers := start.loads goes (fun _ _ h => .inl (coreStore_loaded h).2) corePath
    have after : coreCache = ((({} : Cache).insert tools).loads coreStore corePath).1 := by
      rw [coreCache, Cache.loads]
    rw [after] at h
    generalize (({} : Cache).insert tools).loads coreStore corePath = x at answers h
    cases answers with
    | failed => exact start.within key m h
    | loaded _ _ _ confined => exact confined.within key m h
  have coherent (m m' : Image) (h : coreCache.Provides coreStore m)
      (h' : coreCache.Provides coreStore m') (same : m.identity = m'.identity) :
      m.content = m'.content := by
    have one {m : Image} (h : coreCache.Provides coreStore m) : m = core ∨ m = tools := by
      cases h with
      | stored h => exact .inl (coreStore_loaded h).2
      | held h => exact held _ m h
    have differ : core.identity ≠ tools.identity := by decide
    rcases one h with rfl | rfl <;> rcases one h' with rfl | rfl
    · rfl
    · exact absurd same differ
    · exact absurd same.symm differ
    · rfl
  exact ⟨left, goes, coherent, (make_transparent left goes coherent [corePath]).2⟩

end Resolver
end Companions
