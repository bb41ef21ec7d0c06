import Companions.Resolver
import Companions.Proofs.Cache
import Companions.Proofs.Run
/-!
What resolving can leave in a resolver, and what a processor knows after a run: paths that were
loaded stay known, so a run with the same reference files opens its context without reading one of
them again.
-/
namespace Companions

namespace Resolver

/-- What may become of a resolver: it keeps the images of its pass, and keeps to their keys. -/
structure Develops (r r' : Resolver) : Prop where
  cache : r.cache.Develops r'.cache
  keyed : r.used.Keyed → r'.used.Keyed
  kept : r.used.Extends r'.used

theorem Develops.refl (r : Resolver) : r.Develops r where
  cache := .refl r.cache
  keyed h := h
  kept := .refl r.used

theorem Develops.trans {r r' r'' : Resolver} (h : r.Develops r') (h' : r'.Develops r'') :
    r.Develops r'' where
  cache := h.cache.trans h'.cache
  keyed := h'.keyed ∘ h.keyed
  kept := h.kept.trans h'.kept

theorem develops_cache {r : Resolver} {c : Cache} (h : r.cache.Develops c) :
    r.Develops { r with cache := c } where
  cache := h
  keyed h := h
  kept := .refl r.used

theorem register_develops (r : Resolver) (m : Image) : r.Develops (r.register m) where
  cache := .refl r.cache
  keyed h := h.insertNew m
  kept := Table.extends_insertNew r.used m.identity.display m

theorem addDirectory_develops (r : Resolver) (p : Path) : r.Develops (r.addDirectory p) := by
  unfold addDirectory
  split
  · exact .refl r
  · exact ⟨.refl r.cache, id, .refl r.used⟩

/-! ## Resolving -/

/-- What probing directories can leave: an image that was loaded and has the identity, or no image.
What was loaded in vain stays in the cache. -/
inductive Probes (r : Resolver) (i : Identity) : Resolver × Option Image → Prop where
  | loaded {c : Cache} {m : Image} (develops : r.cache.Develops c) (same : m.identity = i) :
      Probes r i (({ r with cache := c } : Resolver).register m, some m)
  | nothing {c : Cache} (develops : r.cache.Develops c) : Probes r i ({ r with cache := c }, none)

/-- What resolving an identity can leave: an image of the pass, one that the cache holds, or what
probing leaves. -/
inductive Resolves (r : Resolver) (i : Identity) : Resolver × Option Image → Prop where
  | used {m : Image} (held : r.used.get? i.display = some m) : Resolves r i (r, some m)
  | cached {m : Image} (new : r.used.get? i.display = none) (held : r.cache.get? i = some m) :
      Resolves r i (r.register m, some m)
  | probed {x : Resolver × Option Image} (new : r.used.get? i.display = none) (h : r.Probes i x) :
      Resolves r i x

section

variable {r r' : Resolver} {i : Identity} {m : Image} {x : Resolver × Option Image}

theorem Probes.after {c : Cache} (develops : r.cache.Develops c)
    (h : Probes { r with cache := c } i x) : r.Probes i x := by
  cases h with
  | loaded onward same => exact .loaded (develops.trans onward) same
  | nothing onward => exact .nothing (develops.trans onward)

theorem probe_probes (r : Resolver) (i : Identity) (directories : List Path) :
    (r.probe i directories).Ensures (r.Probes i) := by
  induction directories generalizing r with
  | nil => exact Script.ensures_next _ fun _ => Script.ensures_pure (.nothing (.refl r.cache))
  | cons directory rest ih =>
      unfold probe
      refine Script.ensures_next _ fun there => ?_
      split
      · refine (Cache.loadPath_loads r.cache _).bind fun loaded loads => ?_
        have develops := loads.develops
        obtain ⟨c, e | m⟩ := loaded
        · exact Script.ensures_next _ fun _ => (ih _).mono fun _ h => h.after develops
        · dsimp only
          split
          · next same =>
              exact Script.ensures_next _ fun _ => Script.ensures_pure (.loaded develops same)
          · exact Script.ensures_next _ fun _ => (ih _).mono fun _ h => h.after develops
      · exact ih r

theorem resolve_resolves (r : Resolver) (i : Identity) : (r.resolve i).Ensures (r.Resolves i) := by
  unfold resolve
  split
  · next m held => exact Script.ensures_pure (.used held)
  · next new =>
      split
      · next m found =>
          have held : r.cache.get? i = some m := by
            split at found
            · exact found
            · cases found
          exact Script.ensures_next _ fun _ => Script.ensures_pure (.cached new held)
      · exact (probe_probes r i r.directories).mono fun _ h => .probed new h

theorem Resolves.develops (h : r.Resolves i x) : r.Develops x.1 := by
  cases h with
  | used held => exact .refl r
  | cached new held => exact register_develops r _
  | probed new h =>
      cases h with
      | loaded develops same => exact (develops_cache develops).trans (register_develops _ _)
      | nothing develops => exact develops_cache develops

/-- An image that is found has the identity that was asked for. -/
theorem Resolves.identity (hr : r.used.Keyed) (hc : r.cache.Keyed) (h : r.Resolves i (r', some m)) :
    m.identity = i := by
  cases h with
  | used held => exact hr.identity held
  | cached new held => exact hc.images.identity held
  | probed new h =>
      cases h with
      | loaded develops same => exact same

theorem register_held (new : r.used.get? m.identity.display = none) :
    (r.register m).used.get? m.identity.display = some m := by
  rw [register, Table.get?_insertNew, if_pos rfl, new]
  rfl

/-- An image that is found stands in the resolver. -/
theorem Resolves.held (hr : r.used.Keyed) (hc : r.cache.Keyed) (h : r.Resolves i (r', some m)) :
    r'.used.get? i.display = some m := by
  obtain rfl := h.identity hr hc
  cases h with
  | used held => exact held
  | cached new held => exact register_held new
  | probed new h =>
      cases h with
      | loaded develops same => exact register_held new

/-- What stands in the resolver is answered at once. -/
theorem resolve_held (held : r.used.get? i.display = some m) : r.resolve i = pure (r, some m) := by
  rw [resolve, held]

end

theorem asks_probe (r : Resolver) (i : Identity) (directories : List Path) :
    (r.probe i directories).Asks := by
  induction directories generalizing r with
  | nil => exact (Script.asks_say _).bind fun _ => Script.asks_pure _
  | cons directory rest ih =>
      unfold probe
      refine (Script.asks_askFile _).bind fun there => ?_
      split
      · refine (Cache.asks_loadPath r.cache _).bind fun loaded => ?_
        obtain ⟨cache, e | m⟩ := loaded
        · exact (Script.asks_say _).bind fun _ => ih _
        · dsimp only
          split
          · exact (Script.asks_say _).bind fun _ => Script.asks_pure _
          · exact (Script.asks_say _).bind fun _ => ih _
      · exact ih r

theorem asks_resolve (r : Resolver) (i : Identity) : (r.resolve i).Asks := by
  unfold resolve
  split
  · exact Script.asks_pure _
  · split
    · exact (Script.asks_say _).bind fun _ => Script.asks_pure _
    · exact asks_probe r i r.directories

/-! ## Seeding -/

/-- The resolver after one of the given images was loaded. -/
def seeded (r : Resolver) (cache : Cache) (path : Path) (m : Image) : Resolver :=
  let r := { r with cache := cache }
  (match path.parent? with
    | some directory => r.addDirectory directory
    | none => r).register m

theorem cache_seeded (r : Resolver) (cache : Cache) (path : Path) (m : Image) :
    (r.seeded cache path m).cache = cache := by
  unfold seeded
  cases path.parent? with
  | none => rfl
  | some directory =>
      dsimp only [register, addDirectory]
      split <;> rfl

theorem seed_cons (r : Resolver) (path : Path) (paths : List Path) :
    r.seed (path :: paths) = r.cache.loadPath path >>= fun x =>
      match x with
      | (cache, .error e) => pure ({ r with cache := cache }, .error e)
      | (cache, .ok m) => (r.seeded cache path m).seed paths := rfl

theorem seeded_develops {r : Resolver} {c : Cache} (h : r.cache.Develops c) (path : Path)
    (m : Image) : r.Develops (r.seeded c path m) := by
  unfold seeded
  cases path.parent? with
  | none => exact (develops_cache h).trans (register_develops _ m)
  | some directory =>
      exact ((develops_cache h).trans (addDirectory_develops _ directory)).trans
        (register_develops _ m)

theorem seed_develops (r : Resolver) (paths : List Path) :
    (r.seed paths).Ensures fun x => r.Develops x.1 := by
  induction paths generalizing r with
  | nil => exact Script.ensures_pure (.refl r)
  | cons path paths ih =>
      rw [seed_cons]
      refine (Cache.loadPath_loads r.cache path).bind fun loaded loads => ?_
      have develops := loads.develops
      obtain ⟨c, e | m⟩ := loaded
      · exact Script.ensures_pure (develops_cache develops)
      · exact (ih _).mono fun _ rest => (seeded_develops develops path m).trans rest

variable {σ : Type} [FileSystem σ]

/-- An image of the cache that the pass does not use yet. -/
theorem resolve_cached {r : Resolver} {i : Identity} {m : Image} (s : σ)
    (new : r.used.get? i.display = none) (allowed : r.resolveAdditional)
    (loaded : r.cache.get? i = some m) :
    ((r.resolve i).run s).value = (r.register m, some m) := by
  rw [resolve, new, if_pos allowed, loaded]
  rfl

/-- After the given images are loaded their paths are known. -/
theorem seed_known {r r' : Resolver} {paths : List Path} {s : σ}
    (h : ((r.seed paths).run s).value = (r', .ok ())) :
    ∀ path ∈ paths, (r'.cache.atPath? (Cache.keyOf s path)).isSome := by
  induction paths generalizing r with
  | nil => simp
  | cons path paths ih =>
      rw [seed_cons, Script.value_bind, (Cache.asks_loadPath r.cache path).files s] at h
      generalize loaded : ((r.cache.loadPath path).run s).value = x at h
      obtain ⟨cache, e | m⟩ := x
      · cases h
      · have develops := ((seed_develops (r.seeded cache path m) paths).run s).cache
        rw [cache_seeded] at develops
        dsimp only at h
        rw [h] at develops
        exact List.forall_mem_cons.mpr ⟨develops.known _ (Cache.loadPath_known loaded), ih h⟩

/-- Images at known paths are loaded without fail. -/
theorem seed_hit {r : Resolver} {paths : List Path} {s : σ}
    (known : ∀ path ∈ paths, (r.cache.atPath? (Cache.keyOf s path)).isSome) :
    ∃ r', ((r.seed paths).run s).value = (r', .ok ()) := by
  induction paths generalizing r with
  | nil => exact ⟨r, rfl⟩
  | cons path paths ih =>
      obtain ⟨first, others⟩ := List.forall_mem_cons.mp known
      obtain ⟨m, hit⟩ := Cache.loadPath_hit first
      rw [seed_cons, Script.value_bind, (Cache.asks_loadPath r.cache path).files s, hit]
      exact ih (r := r.seeded r.cache path m) (by rw [cache_seeded]; exact others)

end Resolver

namespace Context

theorem nextReference_develops (c : Context) (r : Resolver) (queue : List Identity) :
    (c.nextReference r queue).Ensures fun x => r.Develops x.1 := by
  induction queue generalizing r with
  | nil => exact Script.ensures_pure (.refl r)
  | cons i queue ih =>
      unfold nextReference
      split
      · exact ih r
      · refine (Resolver.resolve_resolves r i).bind fun found resolves => ?_
        have develops := resolves.develops
        obtain ⟨r', _ | m⟩ := found
        · exact Script.ensures_next _ fun _ => (ih r').mono fun _ h => develops.trans h
        · exact Script.ensures_pure develops

theorem asks_nextReference (c : Context) (r : Resolver) (queue : List Identity) :
    (c.nextReference r queue).Asks := by
  induction queue generalizing r with
  | nil => exact Script.asks_pure _
  | cons i queue ih =>
      unfold nextReference
      split
      · exact ih r
      · refine (Resolver.asks_resolve r i).bind fun found => ?_
        obtain ⟨r', _ | m⟩ := found
        · exact (Script.asks_say _).bind fun _ => ih r'
        · exact Script.asks_pure _

theorem close_develops (n : Nat) (c : Context) (r : Resolver) (queue : List Identity) :
    (close n c r queue).Ensures fun x => r.Develops x.1 := by
  induction n generalizing c r queue with
  | zero =>
      unfold close
      split
      · exact Script.ensures_next _ fun _ => Script.ensures_pure (.refl r)
      · exact Script.ensures_pure (.refl r)
  | succ n ih =>
      unfold close
      refine (nextReference_develops c r queue).bind fun found develops => ?_
      obtain ⟨r', _ | ⟨m, queue⟩⟩ := found
      · exact Script.ensures_pure develops
      · exact (ih _ r' _).mono fun _ h => develops.trans h

theorem build_develops (m : Image) (r : Resolver) :
    (build m r).Ensures fun x => r.Develops x.1 := by
  unfold build
  refine (close_develops maxReferences { target := m } r m.references).bind fun built develops => ?_
  exact Script.ensures_next _ fun _ => Script.ensures_pure develops

end Context

namespace Processor

variable {σ : Type} [FileSystem σ]

/-- The paths of the reference files are known once a context was opened. -/
theorem opened_known {p : Processor} {m : Image} {references : List Path} {s : σ} {r : Resolver}
    {c : Context} (h : ((p.opened m references).run s).value = (r, .ok c)) :
    ∀ path ∈ references, (r.cache.atPath? (Cache.keyOf s path)).isSome := by
  rw [opened, Script.value_bind] at h
  generalize made : ((Resolver.make p.cache references p.config.resolveAdditional).run s).value = x at h
  obtain ⟨r₀, e | u⟩ := x
  · cases h
  · have known := Resolver.seed_known made
    have develops := (Context.build_develops m r₀).run
      ((Resolver.make p.cache references p.config.resolveAdditional).run s).files
    rw [Script.value_bind] at h
    obtain ⟨rfl, -⟩ := Prod.mk.inj h
    exact fun path hp => develops.cache.known _ (known path hp)

/-- With the paths known, a context is opened without fail. -/
theorem opened_of_known {p : Processor} (m : Image) {references : List Path} {s : σ}
    (known : ∀ path ∈ references, (p.cache.atPath? (Cache.keyOf s path)).isSome) :
    ∃ r c, ((p.opened m references).run s).value = (r, .ok c) := by
  obtain ⟨r, made⟩ := Resolver.seed_hit
    (r := { cache := p.cache, resolveAdditional := p.config.resolveAdditional }) known
  rw [opened, Script.value_bind, Resolver.make, made]
  dsimp only
  rw [Script.value_bind]
  exact ⟨_, _, rfl⟩

/-- The context of an image without references is the image alone. -/
theorem opened_alone (p : Processor) {m : Image} (s : σ) (closed : m.references = []) :
    ∃ r, ((p.opened m []).run s).value = (r, .ok { target := m }) := by
  let r : Resolver := { cache := p.cache, resolveAdditional := p.config.resolveAdditional }
  have built : ((Context.build m r).run s).value = (r, { target := m }) := by
    rw [Context.build, Script.value_bind, closed]
    rfl
  refine ⟨r, ?_⟩
  change ((Context.build m r >>= fun x => pure (x.1, Except.ok x.2)).run s).value = _
  rw [Script.value_bind, built]
  rfl

/-- The context of an image with one reference, which the cache answers. -/
theorem opened_cached {p : Processor} {m library : Image} (s : σ)
    (refers : m.references = [library.identity]) (closed : library.references = [])
    (other : library.name ≠ m.name) (allowed : p.config.resolveAdditional)
    (loaded : p.cache.get? library.identity = some library) :
    ∃ r, ((p.opened m []).run s).value = (r, .ok (.ofImages m [library])) ∧ r.cache = p.cache := by
  let r : Resolver := { cache := p.cache, resolveAdditional := p.config.resolveAdditional }
  refine ⟨r.register library, ?_, rfl⟩
  have new : ({ target := m } : Context).knows library.identity.name = false := by
    simp only [Context.knows, Bool.or_eq_false_iff, decide_eq_false_iff_not]
    exact ⟨rfl, other⟩
  have found : ((Context.nextReference { target := m } r [library.identity]).run s).value =
      (r.register library, some (library, [])) := by
    rw [Context.nextReference, if_neg (by simp [new]), Script.value_bind,
      Resolver.resolve_cached s rfl allowed loaded]
    rfl
  have built : ((Context.build m r).run s).value = (r.register library, .ofImages m [library]) := by
    rw [Context.build, Script.value_bind, refers]
    -- One step for the reference, and one that finds the queue empty.
    change ((Context.close (1022 + 1 + 1) _ r _).run s).value = _
    rw [Context.close, Script.value_bind, found]
    dsimp only
    rw [closed]
    rfl
  change ((Context.build m r >>= fun x => pure (x.1, Except.ok x.2)).run s).value = _
  rw [Script.value_bind, built]
  rfl

end Processor
end Companions
