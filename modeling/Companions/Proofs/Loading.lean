import Companions.Proofs.Resolver
/-!
Loading and resolving as functions of the files. Neither changes a file, so in a sequence every
script finds the files as the first one did, and each answer is determined by the cache that it
starts from.
-/
namespace Companions

theorem Script.Asks.value_bind {σ α β : Type} [FileSystem σ] {x : Script α} (h : x.Asks)
    (f : α → Script β) (s : σ) :
    ((x >>= f).run s).value = ((f (x.run s).value).run s).value := by
  rw [Script.value_bind, h.files]

variable {σ : Type} [FileSystem σ] {s : σ}

namespace Script

theorem value_readFile (s : σ) (path : Path) :
    ((readFile path).run s).value = FileSystem.read s path := rfl

theorem value_askFile (s : σ) (path : Path) :
    ((askFile path).run s).value = FileSystem.isFile s path := rfl

theorem value_askCanonical (s : σ) (path : Path) :
    ((askCanonical path).run s).value.getD path = Cache.keyOf s path := rfl

end Script

namespace Image

/-- What loading the image at a path gives. -/
def loaded (s : σ) (path : Path) : Except ImageError Image := ((load path).run s).value

theorem loaded_missing {path : Path} (missing : FileSystem.read s path = none) :
    loaded s path = .error (.io path.text) := by
  rw [loaded, load, (Script.asks_readFile path).value_bind, Script.value_readFile, missing]
  rfl

/-- An image without symbols beside it. -/
theorem loaded_bare {path : Path} {bytes : Bytes} (file : FileSystem.read s path = some bytes)
    (bare : FileSystem.isFile s (symbolsPath path) = false) : loaded s path = read bytes none := by
  rw [loaded, load, (Script.asks_readFile path).value_bind, Script.value_readFile, file]
  dsimp only
  rw [(Script.asks_askFile _).value_bind, Script.value_askFile, bare, if_neg Bool.false_ne_true]
  exact value_readNoted bytes none s

/-- An image with the symbols beside it. -/
theorem loaded_paired {path : Path} {bytes symbols : Bytes}
    (file : FileSystem.read s path = some bytes)
    (beside : FileSystem.isFile s (symbolsPath path) = true)
    (found : FileSystem.read s (symbolsPath path) = some symbols) :
    loaded s path = read bytes (some symbols) := by
  rw [loaded, load, (Script.asks_readFile path).value_bind, Script.value_readFile, file]
  dsimp only
  rw [(Script.asks_askFile _).value_bind, Script.value_askFile, beside, if_pos rfl,
    (Script.asks_readFile _).value_bind, Script.value_readFile, found]
  exact value_readNoted bytes (some symbols) s

/-- What is loaded was read from the file at the path. -/
theorem loaded_file {path : Path} {m : Image} (h : loaded s path = .ok m) :
    ∃ bytes symbols, FileSystem.read s path = some bytes ∧ read bytes symbols = .ok m := by
  rw [loaded, load, (Script.asks_readFile path).value_bind, Script.value_readFile] at h
  cases file : FileSystem.read s path with
  | none =>
      rw [file] at h
      cases h
  | some bytes =>
      rw [file] at h
      dsimp only at h
      rw [(Script.asks_askFile _).value_bind] at h
      split at h
      · rw [(Script.asks_readFile _).value_bind] at h
        split at h
        · cases h
        · next symbols _ => exact ⟨bytes, some symbols, rfl, (value_readNoted ..).symm.trans h⟩
      · exact ⟨bytes, none, rfl, (value_readNoted ..).symm.trans h⟩

end Image

namespace Cache

/-- Inserting an image tells nothing about paths. -/
theorem atPath?_insert {c : Cache} (h : c.Keyed) (m : Image) (key : Path) :
    (c.insert m).atPath? key = c.atPath? key := by
  rw [atPath?, atPath?, Cache.insert]
  cases path : c.paths.get? key.text with
  | none => rfl
  | some name =>
      obtain ⟨held, found⟩ := h.paths _ (Table.mem_entries path)
      change (c.images.insertNew m.identity.display m).get? name = c.images.get? name
      rw [found]
      exact Table.extends_insertNew c.images _ m name held found

/-- The image that is held after entering has the identity of the one entered. -/
theorem identity_enter {c : Cache} (h : c.Keyed) (key : Path) (m : Image) :
    (c.enter key m).2.identity = m.identity :=
  ((enter_develops c key m).keyed h).images.identity (enter_held c key m)

/-- What loading a path through the cache leaves and gives. -/
def loads (s : σ) (c : Cache) (path : Path) : Cache × Except ImageError Image :=
  ((c.loadPath path).run s).value

theorem loads_known {c : Cache} {path : Path} {m : Image}
    (known : c.atPath? (keyOf s path) = some m) : c.loads s path = (c, .ok m) := by
  rw [loads, loadPath, (Script.asks_askCanonical path).value_bind, Script.value_askCanonical]
  dsimp only
  rw [known]
  rfl

theorem loads_new {c : Cache} {path : Path} (new : c.atPath? (keyOf s path) = none) :
    c.loads s path = match Image.loaded s path with
      | .error e => (c, .error e)
      | .ok m => ((c.enter (keyOf s path) m).1, .ok (c.enter (keyOf s path) m).2) := by
  rw [loads, loadPath, (Script.asks_askCanonical path).value_bind, Script.value_askCanonical]
  dsimp only
  rw [new]
  dsimp only
  rw [(Image.asks_load path).value_bind, ← Image.loaded]
  cases Image.loaded s path <;> rfl

end Cache

namespace Resolver

theorem asks_seed (r : Resolver) (paths : List Path) : (r.seed paths).Asks := by
  induction paths generalizing r with
  | nil => exact Script.asks_pure _
  | cons path paths ih =>
      rw [seed_cons]
      refine (Cache.asks_loadPath r.cache path).bind fun loaded => ?_
      obtain ⟨cache, e | m⟩ := loaded
      · exact Script.asks_pure _
      · exact ih _

/-- What seeding leaves and gives. -/
def seeds (s : σ) (r : Resolver) (paths : List Path) : Resolver × Except ImageError Unit :=
  ((r.seed paths).run s).value

theorem seeds_cons (r : Resolver) (path : Path) (paths : List Path) :
    r.seeds s (path :: paths) = match r.cache.loads s path with
      | (cache, .error e) => ({ r with cache := cache }, .error e)
      | (cache, .ok m) => (r.seeded cache path m).seeds s paths := by
  rw [seeds, seed_cons, (Cache.asks_loadPath r.cache path).value_bind, ← Cache.loads]
  obtain ⟨cache, e | m⟩ := r.cache.loads s path <;> rfl

/-- What probing directories leaves and gives. -/
def probes (s : σ) (r : Resolver) (i : Identity) (directories : List Path) :
    Resolver × Option Image := ((r.probe i directories).run s).value

/-- The file that is looked for in a directory. -/
def candidate (i : Identity) (directory : Path) : Path :=
  directory.join (i.name ++ "." ++ Name.imageExtension)

theorem probes_cons (r : Resolver) (i : Identity) (directory : Path) (rest : List Path) :
    r.probes s i (directory :: rest) =
      if FileSystem.isFile s (candidate i directory) then
        match r.cache.loads s (candidate i directory) with
        | (cache, .error _) => { r with cache := cache }.probes s i rest
        | (cache, .ok m) =>
          if m.identity = i then ({ r with cache := cache }.register m, some m)
          else { r with cache := cache }.probes s i rest
      else r.probes s i rest := by
  rw [probes, probe, (Script.asks_askFile _).value_bind, Script.value_askFile, ← candidate]
  split
  · rw [(Cache.asks_loadPath r.cache _).value_bind, ← Cache.loads]
    obtain ⟨cache, e | m⟩ := r.cache.loads s (candidate i directory)
    · rfl
    · dsimp only
      split <;> rfl
  · rfl

/-- What resolving an identity leaves and gives. -/
def resolves (s : σ) (r : Resolver) (i : Identity) : Resolver × Option Image :=
  ((r.resolve i).run s).value

theorem resolves_used {r : Resolver} {i : Identity} {m : Image}
    (held : r.used.get? i.display = some m) : r.resolves s i = (r, some m) := by
  rw [resolves, resolve_held held]
  rfl

theorem resolves_new {r : Resolver} {i : Identity} (new : r.used.get? i.display = none) :
    r.resolves s i = match if r.resolveAdditional then r.cache.get? i else none with
      | some m => (r.register m, some m)
      | none => r.probes s i r.directories := by
  rw [resolves, resolve, new]
  dsimp only
  generalize (if r.resolveAdditional then r.cache.get? i else none) = cached
  cases cached <;> rfl

end Resolver

namespace Context

theorem asks_close (n : Nat) (c : Context) (r : Resolver) (queue : List Identity) :
    (close n c r queue).Asks := by
  induction n generalizing c r queue with
  | zero =>
      unfold close
      split
      · exact (Script.asks_say _).bind fun _ => Script.asks_pure _
      · exact Script.asks_pure _
  | succ n ih =>
      unfold close
      refine (asks_nextReference c r queue).bind fun found => ?_
      obtain ⟨r, _ | ⟨m, queue⟩⟩ := found
      · exact Script.asks_pure _
      · exact ih _ r _

theorem asks_build (m : Image) (r : Resolver) : (build m r).Asks :=
  (asks_close _ _ r _).bind fun _ => (Script.asks_say _).bind fun _ => Script.asks_pure _

theorem value_build (m : Image) (r : Resolver) : ((build m r).run s).value =
    ((close maxReferences { target := m } r m.references).run s).value := by
  rw [build, Script.value_bind]
  rfl

end Context

/-- A context is opened where all references load, and built with the resolver that they seed. -/
theorem Processor.value_opened (p : Processor) (m : Image) (references : List Path) :
    ((p.opened m references).run s).value =
      match ({ cache := p.cache, resolveAdditional := p.config.resolveAdditional } :
          Resolver).seeds s references with
      | (r, .error e) => (r, .error e)
      | (r, .ok ()) =>
        let built := ((Context.build m r).run s).value
        (built.1, .ok built.2) := by
  rw [Processor.opened, Resolver.make, (Resolver.asks_seed _ references).value_bind,
    ← Resolver.seeds]
  obtain ⟨r, e | u⟩ := Resolver.seeds s _ references
  · rfl
  · dsimp only
    rw [Script.value_bind]
    rfl

end Companions
