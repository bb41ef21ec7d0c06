import Companions.Proofs.Resolver
/-!
Resolution never takes one version of an assembly for another, and never changes its mind: a run
of calls on a cache, and on the resolvers over it one after the other. Files may change between two
calls, and between two questions of one call.
-/
namespace Companions.Resolution

/-! ## Calls -/

/-- A cache by itself, or with the resolver of a pass over it. -/
inductive Stage where
  | idle (cache : Cache)
  | pass (resolver : Resolver)

namespace Stage

def cache : Stage → Cache
  | idle c => c
  | pass r => r.cache

/-- The images of the pass. -/
def used : Stage → Table Image
  | idle _ => {}
  | pass r => r.used

/-- In the cache and in the pass, images stand under their identities. -/
structure Keyed (s : Stage) : Prop where
  cache : s.cache.Keyed
  used : s.used.Keyed

end Stage

/-- A call, with what it answered. -/
inductive Call where
  | load (path : Path) (result : Except ImageError Image)
  | insert (m kept : Image)
  | get (i : Identity) (answer : Option Image)
  | start (paths : List Path) (additional : Bool) (result : Except ImageError Unit)
  | register (m : Image)
  | search (directory : Path)
  | resolve (i : Identity) (answer : Option Image)
  | finish

namespace Call

/-- The cache answers the identity with the image. -/
inductive Cached : Call → Identity → Image → Prop where
  | load (path : Path) (m : Image) : Cached (.load path (.ok m)) m.identity m
  | insert (m kept : Image) : Cached (.insert m kept) m.identity kept
  | get (i : Identity) (m : Image) : Cached (.get i (some m)) i m

end Call

/-- What one call does, whatever the files hold. -/
inductive Step : Stage → Call → Stage → Prop where
  | load {c c' : Cache} {path : Path} {result : Except ImageError Image}
      (h : (c.loadPath path).Yields (c', result)) : Step (.idle c) (.load path result) (.idle c')
  | insert (c : Cache) (m : Image) :
      Step (.idle c) (.insert m ((c.get? m.identity).getD m)) (.idle (c.insert m))
  | get (c : Cache) (i : Identity) : Step (.idle c) (.get i (c.get? i)) (.idle c)
  | start {c : Cache} {paths : List Path} {additional : Bool} {r : Resolver}
      (h : (Resolver.make c paths additional).Yields (r, .ok ())) :
      Step (.idle c) (.start paths additional (.ok ())) (.pass r)
  | startFails {c : Cache} {paths : List Path} {additional : Bool} {r : Resolver} {e : ImageError}
      (h : (Resolver.make c paths additional).Yields (r, .error e)) :
      Step (.idle c) (.start paths additional (.error e)) (.idle r.cache)
  | register (r : Resolver) (m : Image) : Step (.pass r) (.register m) (.pass (r.register m))
  | search (r : Resolver) (directory : Path) :
      Step (.pass r) (.search directory) (.pass (r.addDirectory directory))
  | resolve {r r' : Resolver} {i : Identity} {answer : Option Image}
      (h : (r.resolve i).Yields (r', answer)) : Step (.pass r) (.resolve i answer) (.pass r')
  | finish (r : Resolver) : Step (.pass r) .finish (.idle r.cache)

/-- One call after the other. -/
inductive Calls : Stage → List Call → Stage → Prop where
  | nil (s : Stage) : Calls s [] s
  | cons {s t u : Stage} {call : Call} {calls : List Call} (step : Step s call t)
      (rest : Calls t calls u) : Calls s (call :: calls) u

variable {s t u : Stage} {call : Call} {calls : List Call}

/-! ## What calls keep -/

theorem Step.develops (h : Step s call t) :
    s.cache.Develops t.cache ∧ (s.used.Keyed → t.used.Keyed) := by
  cases h with
  | load h => exact ⟨((Cache.loadPath_loads _ _).yields h).develops, id⟩
  | insert c m => exact ⟨Cache.insert_develops c m, id⟩
  | get c i => exact ⟨.refl c, id⟩
  | start h =>
      have develops := (Resolver.seed_develops _ _).yields h
      exact ⟨develops.cache, develops.keyed⟩
  | startFails h => exact ⟨((Resolver.seed_develops _ _).yields h).cache, id⟩
  | register r m => exact ⟨.refl r.cache, (Resolver.register_develops r m).keyed⟩
  | search r directory =>
      have develops := Resolver.addDirectory_develops r directory
      exact ⟨develops.cache, develops.keyed⟩
  | resolve h =>
      have develops := ((Resolver.resolve_resolves _ _).yields h).develops
      exact ⟨develops.cache, develops.keyed⟩
  | finish r => exact ⟨.refl r.cache, fun _ => Table.keyed_empty⟩

theorem Step.keyed (h : Step s call t) (hs : s.Keyed) : t.Keyed where
  cache := h.develops.1.keyed hs.cache
  used := h.develops.2 hs.used

/-- A pass keeps its images until it is finished. -/
theorem Step.pass {r : Resolver} (h : Step (.pass r) call t) (goes : call ≠ .finish) :
    ∃ r', t = Stage.pass r' ∧ r.used.Extends r'.used := by
  cases h with
  | register r m => exact ⟨_, rfl, (Resolver.register_develops r m).kept⟩
  | search r directory => exact ⟨_, rfl, (Resolver.addDirectory_develops r directory).kept⟩
  | resolve h => exact ⟨_, rfl, ((Resolver.resolve_resolves _ _).yields h).develops.kept⟩
  | finish r => exact absurd rfl goes

theorem Calls.keyed (h : Calls s calls t) (hs : s.Keyed) : t.Keyed := by
  induction h with
  | nil s => exact hs
  | cons step rest ih => exact ih (step.keyed hs)

theorem Calls.kept (h : Calls s calls t) : s.cache.images.Extends t.cache.images := by
  induction h with
  | nil s => exact .refl s.cache.images
  | cons step rest ih => exact step.develops.1.kept.trans ih

theorem Calls.pass {r : Resolver} (h : Calls (.pass r) calls t) (goes : Call.finish ∉ calls) :
    ∃ r', t = Stage.pass r' ∧ r.used.Extends r'.used := by
  generalize start : Stage.pass r = s at h
  induction h generalizing r with
  | nil s => exact ⟨r, start.symm, .refl r.used⟩
  | cons step rest ih =>
      subst start
      obtain ⟨other, goes⟩ := List.ne_and_not_mem_of_not_mem_cons goes
      obtain ⟨r', rfl, kept⟩ := step.pass other.symm
      obtain ⟨r'', last, rest⟩ := ih goes rfl
      exact ⟨r'', last, kept.trans rest⟩

/-! ## What calls answer -/

/-- What the cache answers stands in the cache. -/
theorem Step.cached (h : Step s call t) (hs : s.Keyed) {i : Identity} {m : Image}
    (answer : call.Cached i m) : t.cache.get? i = some m := by
  cases h with
  | load h =>
      cases answer
      exact ((Cache.loadPath_loads _ _).yields h).answer hs.cache
  | insert c m =>
      generalize kept : (c.get? m.identity).getD m = k at answer
      cases answer
      rw [Stage.cache, Cache.get?, Cache.insert, Table.get?_insertNew, if_pos rfl]
      exact congrArg some kept
  | get c i =>
      generalize found : c.get? i = k at answer
      cases answer
      exact found
  | _ => cases answer

/-- What a resolver answers has the identity asked for, and stands in the resolver. -/
theorem Step.resolved {i : Identity} {m : Image} (h : Step s (.resolve i (some m)) t)
    (hs : s.Keyed) :
    m.identity = i ∧ ∃ r, t = Stage.pass r ∧ r.used.get? i.display = some m := by
  cases h with
  | resolve h =>
      have resolves := (Resolver.resolve_resolves _ i).yields h
      exact ⟨resolves.identity hs.used hs.cache, _, rfl, resolves.held hs.used hs.cache⟩

/-- After any calls on a new cache, images stand under their identities. A call that fails to load
a path changes nothing; an image that is resolved has the identity asked for; what the cache
answers once it has from then on, and what a resolver answers once it answers until it is given
up, without a question about files. -/
theorem answers_settled {calls : List Call} {s : Stage} (run : Calls (.idle {}) calls s) :
    s.Keyed ∧ ∀ call t, Step s call t →
      (∀ path e, call = .load path (.error e) → t = s) ∧
      (∀ i m, call = .resolve i (some m) → m.identity = i) ∧
      ∀ later u, Calls t later u →
        (∀ i m, call.Cached i m → u.cache.get? i = some m) ∧
        (∀ i m, call = .resolve i (some m) → .finish ∉ later →
          ∃ r, u = Stage.pass r ∧ r.resolve i = pure (r, some m)) := by
  have hs : s.Keyed := run.keyed ⟨Cache.keyed_empty, Table.keyed_empty⟩
  refine ⟨hs, fun call t step => ⟨?_, ?_, fun later u rest => ⟨?_, ?_⟩⟩⟩
  · rintro path e rfl
    cases step with
    | load h => rw [((Cache.loadPath_loads _ _).yields h).unchanged]
  · rintro i m rfl
    exact (step.resolved hs).1
  · intro i m answer
    exact rest.kept _ _ (step.cached hs answer)
  · rintro i m rfl goes
    obtain ⟨-, r, rfl, held⟩ := step.resolved hs
    obtain ⟨r', rfl, kept⟩ := rest.pass goes
    exact ⟨r', rfl, Resolver.resolve_held (kept _ _ held)⟩

theorem step_cached {r : Resolver} {i : Identity} {m : Image} (new : r.used.get? i.display = none)
    (allowed : r.resolveAdditional) (loaded : r.cache.get? i = some m) :
    Step (.pass r) (.resolve i (some m)) (.pass (r.register m)) := by
  have yields : (r.resolve i).Yields (r.register m, some m) := by
    rw [Resolver.resolve, new, if_pos allowed, loaded]
    rfl
  exact .resolve yields

/-- An image whose name reads like a name with a version. -/
def lookalike : Image := { identity := { name := "Core, Version=1.0.0.0" } }

/-- A resolver over a cache that holds it. -/
def overLookalike : Resolver where
  cache := ({} : Cache).insert lookalike
  resolveAdditional := true

theorem lookalike_settled :
    (Stage.pass overLookalike).Keyed ∧
      ∀ later u, Calls (.pass (overLookalike.register lookalike)) later u → .finish ∉ later →
        ∃ r, u = Stage.pass r ∧ r.resolve lookalike.identity = pure (r, some lookalike) := by
  have run : Calls (.idle {}) [.insert lookalike _, .start [] true (.ok ())] (.pass overLookalike) :=
    .cons (.insert {} lookalike) (.cons (.start rfl) (.nil _))
  have loaded : overLookalike.cache.get? lookalike.identity = some lookalike := by decide +kernel
  obtain ⟨keyed, settled⟩ := answers_settled run
  obtain ⟨-, -, stays⟩ := settled _ _ (step_cached rfl rfl loaded)
  exact ⟨keyed, fun later u calls goes => (stays later u calls).2 _ _ rfl goes⟩

end Companions.Resolution
