import Companions.Proofs.Loading
import Companions.Proofs.Path
import Companions.Proofs.Image.Lookup
/-!
What caches serve that go back to one cache. They may know more paths and hold more images, as
files were loaded on the way, but what two of them serve under one path is of one identity, and what
they hold under one identity is of one content. So it is enough to compare which paths they know and
which identities they hold.
-/
namespace Companions

namespace Image

variable {m m' : Image}

/-- What is read with symbols is read without, but for places. -/
theorem read_bare {bytes : Bytes} {symbols : Option Bytes} (h : read bytes symbols = .ok m) :
    ∃ bare, read bytes none = .ok bare ∧ m.content = bare.content := by
  rw [read] at h ⊢
  split at h
  · cases h
  · split at h
    · cases h
    · next current =>
        obtain ⟨accepted, h⟩ := bind_ok_iff.mp h
        rw [if_neg current]
        refine ⟨_, bind_ok_iff.mpr ⟨accepted, rfl⟩, ?_⟩
        split at h
        · cases h
          rfl
        · split at h
          · cases h
          · next places _ =>
              cases h
              exact content_applySymbols _ places

/-- One file has one content, whatever its symbols are. -/
theorem content_of_reads {bytes : Bytes} {symbols symbols' : Option Bytes}
    (h : read bytes symbols = .ok m) (h' : read bytes symbols' = .ok m') :
    m.content = m'.content := by
  obtain ⟨bare, found, same⟩ := read_bare h
  obtain ⟨bare', found', same'⟩ := read_bare h'
  obtain rfl := Except.ok.inj (found.symm.trans found')
  exact same.trans same'.symm

theorem shape_of_read {bytes : Bytes} {symbols : Option Bytes} (h : read bytes symbols = .ok m) :
    m.shape = m.content.rebuildLookup.shape := by
  have rebuilt (m : Image) : m.rebuildLookup.shape = m.content.rebuildLookup.shape := by
    simp [rebuildLookup, shape, content, Function.comp_def, ← fullName_content m]
  obtain ⟨_, _, _, decoded, -, -, rfl | ⟨places, rfl⟩⟩ := read_eq_ok h
  · exact rebuilt decoded
  · rw [shape_applySymbols, content_applySymbols]
    exact rebuilt decoded

/-- Images with the same references and of the same shape. -/
structure Likewise (m m' : Image) : Prop where
  references : m.references = m'.references
  shape : m.shape = m'.shape

theorem Likewise.name (h : m.Likewise m') : m.name = m'.name := by
  rw [← shape_name, h.shape, shape_name]

variable {σ : Type} [FileSystem σ] {s : σ}

theorem likewise_of_loaded {p p' : Path} (h : loaded s p = .ok m) (h' : loaded s p' = .ok m')
    (same : m.content = m'.content) : m.Likewise m' := by
  obtain ⟨_, _, -, read⟩ := loaded_file h
  obtain ⟨_, _, -, read'⟩ := loaded_file h'
  refine ⟨references_of_content same, ?_⟩
  rw [shape_of_read read, same, shape_of_read read']

/-- Loading the path gives an image of the identity. -/
def Holds (s : σ) (p : Path) (i : Identity) : Prop := ∃ m, loaded s p = .ok m ∧ m.identity = i

end Image

namespace Cache

open Image (Holds)

variable {σ : Type} [FileSystem σ] {s : σ} {P Q : Path → Prop} {c c' c'' : Cache}

/-- The cache gives an image of the identity for the path: the one it knows there, or the one that
is loaded. -/
def Serves (s : σ) (c : Cache) (p : Path) (i : Identity) : Prop :=
  (∃ m, c.atPath? (keyOf s p) = some m ∧ m.identity = i) ∨
  (c.atPath? (keyOf s p) = none ∧ Holds s p i)

/-- What comes to a cache when some paths are loaded: the images that are loaded at paths of which
it does not know where they lead. -/
structure Gains (s : σ) (P : Path → Prop) (c c' : Cache) : Prop where
  images : c.images.Extends c'.images
  paths : ∀ k m, c.atPath? k = some m → c'.atPath? k = some m
  held : ∀ i m, c'.get? i = some m → c.get? i = some m ∨
    c.get? i = none ∧ ∃ p, P p ∧ c.atPath? (keyOf s p) = none ∧ Image.loaded s p = .ok m
  known : ∀ k m, c'.atPath? k = some m → c.atPath? k = some m ∨
    c.atPath? k = none ∧ ∃ p, P p ∧ keyOf s p = k ∧ Holds s p m.identity

namespace Gains

theorem refl (s : σ) (P : Path → Prop) (c : Cache) : c.Gains s P c where
  images := .refl c.images
  paths _ _ known := known
  held _ _ held := .inl held
  known _ _ known := .inl known

theorem unheld (h : c.Gains s P c') {i : Identity} (new : c'.get? i = none) : c.get? i = none := by
  refine Option.eq_none_iff_forall_ne_some.mpr fun m held => ?_
  cases new.symm.trans (h.images _ m held)

theorem unknown (h : c.Gains s P c') {k : Path} (new : c'.atPath? k = none) :
    c.atPath? k = none := by
  refine Option.eq_none_iff_forall_ne_some.mpr fun m known => ?_
  cases new.symm.trans (h.paths k m known)

theorem trans (h : c.Gains s P c') (h' : c'.Gains s P c'') : c.Gains s P c'' where
  images := h.images.trans h'.images
  paths k m known := h'.paths k m (h.paths k m known)
  held i m held := by
    obtain old | ⟨new, p, hp, unknown, loaded⟩ := h'.held i m held
    · exact h.held i m old
    · exact .inr ⟨h.unheld new, p, hp, h.unknown unknown, loaded⟩
  known k m known := by
    obtain old | ⟨new, found⟩ := h'.known k m known
    · exact h.known k m old
    · exact .inr ⟨h.unknown new, found⟩

theorem mono (h : c.Gains s P c') (le : ∀ p, P p → Q p) : c.Gains s Q c' where
  images := h.images
  paths := h.paths
  held i m held := (h.held i m held).imp_right fun ⟨new, p, hp, found⟩ => ⟨new, p, le p hp, found⟩
  known k m known :=
    (h.known k m known).imp_right fun ⟨new, p, hp, found⟩ => ⟨new, p, le p hp, found⟩

theorem get? (h : c.Gains s P c') {i : Identity} (held : (c.get? i).isSome) :
    (c'.get? i).isSome := by
  obtain ⟨m, held⟩ := Option.isSome_iff_exists.mp held
  exact Option.isSome_iff_exists.mpr ⟨m, h.images _ m held⟩

theorem atPath? (h : c.Gains s P c') {k : Path} (known : (c.atPath? k).isSome) :
    (c'.atPath? k).isSome := by
  obtain ⟨m, known⟩ := Option.isSome_iff_exists.mp known
  exact Option.isSome_iff_exists.mpr ⟨m, h.paths k m known⟩

end Gains

theorem gains_enter (keyed : c.Keyed) {p : Path} {m : Image} (new : c.atPath? (keyOf s p) = none)
    (loaded : Image.loaded s p = .ok m) : c.Gains s (· = p) (c.enter (keyOf s p) m).1 where
  images := (enter_develops c _ m).kept
  paths k m' known := by
    rw [atPath?_enter]
    split
    · next same =>
        obtain rfl : k = keyOf s p := congrArg Path.mk same
        cases new.symm.trans known
    · exact (atPath?_insert keyed m k).trans known
  held i m' held := by
    rw [Cache.get?, enter, Table.get?_insertNew] at held
    split at held
    · next same =>
        obtain rfl := Identity.display_injective same
        cases old : c.images.get? m.identity.display with
        | none =>
            rw [old] at held
            obtain rfl := Option.some.inj held
            exact .inr ⟨old, p, rfl, new, loaded⟩
        | some m'' =>
            rw [old] at held
            exact .inl (old.trans held)
    · exact .inl held
  known k m' known := by
    rw [atPath?_enter] at known
    split at known
    · next same =>
        obtain rfl : k = keyOf s p := congrArg Path.mk same
        obtain rfl := Option.some.inj known
        exact .inr ⟨new, p, rfl, rfl, m, loaded, (identity_enter keyed _ m).symm⟩
    · rw [atPath?_insert keyed] at known
      exact .inl known

section

variable {p : Path} {m : Image} (gains : c.Gains s (· = p) c')

include gains

/-- When one path was loaded, what it serves came to be held and nothing else. -/
theorem Gains.get?_iff (keyed : c'.Keyed) (held : c'.get? m.identity = some m)
    (one : ∀ i, c.Serves s p i → i = m.identity) (i : Identity) :
    (c'.get? i).isSome ↔ (c.get? i).isSome ∨ i = m.identity := by
  constructor
  · intro there
    obtain ⟨m', there⟩ := Option.isSome_iff_exists.mp there
    obtain old | ⟨-, _, rfl, unknown, loaded⟩ := gains.held i m' there
    · exact .inl (Option.isSome_iff_exists.mpr ⟨m', old⟩)
    · exact .inr (one i (.inr ⟨unknown, m', loaded, keyed.images.identity there⟩))
  · rintro (old | rfl)
    · exact gains.get? old
    · exact Option.isSome_iff_exists.mpr ⟨m, held⟩

theorem Gains.atPath?_iff (known : c'.atPath? (keyOf s p) = some m) (k : Path) :
    (c'.atPath? k).isSome ↔ (c.atPath? k).isSome ∨ keyOf s p = k := by
  constructor
  · intro there
    obtain ⟨m', there⟩ := Option.isSome_iff_exists.mp there
    obtain old | ⟨-, _, rfl, same, -⟩ := gains.known k m' there
    · exact .inl (Option.isSome_iff_exists.mpr ⟨m', old⟩)
    · exact .inr same
  · rintro (old | rfl)
    · exact gains.atPath? old
    · exact Option.isSome_iff_exists.mpr ⟨m, known⟩

end

/-- Loading fails where nothing is served, or gives what is served and keeps it. -/
theorem loads_cases (keyed : c.Keyed) (p : Path) :
    (∃ e, c.loads s p = (c, .error e) ∧ ∀ i, ¬ c.Serves s p i) ∨
    ∃ c' m, c.loads s p = (c', .ok m) ∧ c.Serves s p m.identity ∧ c'.Keyed ∧
      c'.atPath? (keyOf s p) = some m ∧ c'.get? m.identity = some m ∧ c.Gains s (· = p) c' := by
  cases known : c.atPath? (keyOf s p) with
  | some m =>
      obtain ⟨name, -, held⟩ := Option.bind_eq_some_iff.mp known
      exact .inr ⟨c, m, loads_known known, .inl ⟨m, known, rfl⟩, keyed, known, keyed.get? held,
        .refl s _ c⟩
  | none =>
      rw [loads_new known]
      cases loaded : Image.loaded s p with
      | error e =>
          refine .inl ⟨e, rfl, fun i serves => ?_⟩
          rcases serves with ⟨m, known', -⟩ | ⟨-, m, loaded', -⟩
          · cases known.symm.trans known'
          · cases loaded.symm.trans loaded'
      | ok m =>
          have identity := identity_enter keyed (keyOf s p) m
          have keyed' := (enter_develops c (keyOf s p) m).keyed keyed
          refine .inr ⟨_, _, rfl, .inr ⟨known, m, loaded, identity.symm⟩, keyed', ?_,
            keyed'.get? (enter_held c _ m), gains_enter keyed known loaded⟩
          rw [atPath?_enter, if_pos rfl]

end Cache

/-! ## Caches that go back to one cache -/

/-- What files and a cache have to obey for references to be found in any order: a canonical path
leads to one file, loaded images of one identity have one content, and libraries hold what they are
called after. -/
structure Orderly {σ : Type} [FileSystem σ] (s : σ) (c : Cache) : Prop where
  keyed : c.Keyed
  files : ∀ p q bytes bytes', Cache.keyOf s p = Cache.keyOf s q →
    FileSystem.read s p = some bytes → FileSystem.read s q = some bytes' → bytes = bytes'
  coherent : ∀ p q m m', Image.loaded s p = .ok m → Image.loaded s q = .ok m' →
    m.identity = m'.identity → m.content = m'.content
  named : ∀ p name i, p.IsLibrary name → c.Serves s p i → i.name = name

/-- The paths that are loaded: references, and libraries beside them. -/
def Sourced (references : List Path) (p : Path) : Prop :=
  p ∈ references ∨ ∃ name, p.IsLibrary name

/-- The image that stands in the first cache under its identity, or one that was loaded. -/
def Cache.Genuine {σ : Type} [FileSystem σ] (s : σ) (c : Cache) (m : Image) : Prop :=
  c.get? m.identity = some m ∨ c.get? m.identity = none ∧ ∃ p, Image.loaded s p = .ok m

/-- A cache that came out of another by loading. -/
structure Cache.Grown {σ : Type} [FileSystem σ] (s : σ) (start : Cache) (references : List Path)
    (c : Cache) : Prop where
  keyed : c.Keyed
  gains : start.Gains s (Sourced references) c

theorem Cache.Grown.genuine {σ : Type} [FileSystem σ] {s : σ} {start c : Cache}
    {references : List Path} (h : start.Grown s references c) {i : Identity} {m : Image}
    (held : c.get? i = some m) : start.Genuine s m := by
  obtain rfl := h.keyed.images.identity held
  exact (h.gains.held _ m held).imp_right fun ⟨new, p, _, _, loaded⟩ => ⟨new, p, loaded⟩

namespace Orderly

open Image (Holds)

variable {σ : Type} [FileSystem σ] {s : σ} {start : Cache} {references references' : List Path}
  {c c' : Cache} (orderly : Orderly s start)

include orderly

/-- Where two paths lead to one file, they hold one identity. -/
theorem holds_unique {p q : Path} {i j : Identity} (same : Cache.keyOf s p = Cache.keyOf s q)
    (h : Holds s p i) (h' : Holds s q j) : i = j := by
  obtain ⟨m, loaded, rfl⟩ := h
  obtain ⟨m', loaded', rfl⟩ := h'
  obtain ⟨bytes, _, file, read⟩ := Image.loaded_file loaded
  obtain ⟨bytes', _, file', read'⟩ := Image.loaded_file loaded'
  obtain rfl := orderly.files p q bytes bytes' same file file'
  exact Image.identity_of_content (Image.content_of_reads read read')

theorem likewise {m m' : Image} (h : start.Genuine s m) (h' : start.Genuine s m')
    (same : m.identity = m'.identity) : m.Likewise m' := by
  rcases h with held | ⟨new, p, loaded⟩
  · rcases h' with held' | ⟨new', -⟩
    · rw [same, held'] at held
      obtain rfl := Option.some.inj held
      exact ⟨rfl, rfl⟩
    · rw [same, new'] at held
      cases held
  · rcases h' with held' | ⟨-, p', loaded'⟩
    · rw [same, held'] at new
      cases new
    · exact Image.likewise_of_loaded loaded loaded' (orderly.coherent p p' m m' loaded loaded' same)

/-- Two grown caches serve one identity under paths that lead to one file. -/
theorem serves_unique (h : start.Grown s references c) (h' : start.Grown s references' c')
    {p q : Path} (same : Cache.keyOf s p = Cache.keyOf s q) {i j : Identity}
    (serves : c.Serves s p i) (serves' : c'.Serves s q j) : i = j := by
  -- one knows the path, for the other it is still to be loaded
  have mixed {references references' : List Path} {c c' : Cache}
      (h : start.Grown s references c) (h' : start.Grown s references' c') {p : Path} {m : Image}
      {j : Identity} (known : c.atPath? (Cache.keyOf s p) = some m)
      (new : c'.atPath? (Cache.keyOf s p) = none) (holds : Holds s p j) : m.identity = j := by
    obtain old | ⟨-, o, -, same, holds'⟩ := h.gains.known _ m known
    · cases new.symm.trans (h'.gains.paths _ m old)
    · exact orderly.holds_unique same holds' holds
  rcases serves with ⟨m, known, rfl⟩ | ⟨new, holds⟩
  · rcases serves' with ⟨m', known', rfl⟩ | ⟨new', holds'⟩
    · rw [← same] at known'
      obtain old | ⟨new, o, -, leads, holds⟩ := h.gains.known _ m known
      · obtain rfl := Option.some.inj ((h'.gains.paths _ m old).symm.trans known')
        rfl
      · obtain old' | ⟨-, o', -, leads', holds'⟩ := h'.gains.known _ m' known'
        · cases new.symm.trans old'
        · exact orderly.holds_unique (leads.trans leads'.symm) holds holds'
    · exact mixed h h' (same ▸ known) new' holds'
  · rcases serves' with ⟨m', known', rfl⟩ | ⟨-, holds'⟩
    · exact (mixed h' h (same ▸ known') new holds).symm
    · exact orderly.holds_unique same holds holds'

theorem grown_start (references : List Path) : start.Grown s references start :=
  ⟨orderly.keyed, .refl s _ start⟩

/-- What the first cache serves, grown caches serve. -/
theorem serves (h : start.Grown s references c) {p : Path} {i : Identity}
    (serves : start.Serves s p i) : c.Serves s p i := by
  cases known : c.atPath? (Cache.keyOf s p) with
  | some m =>
      have serves' : c.Serves s p m.identity := .inl ⟨m, known, rfl⟩
      rwa [orderly.serves_unique (orderly.grown_start references) h rfl serves serves']
  | none =>
      rcases serves with ⟨m, old, -⟩ | ⟨-, holds⟩
      · cases known.symm.trans (h.gains.paths _ m old)
      · exact .inr ⟨known, holds⟩

/-- Loading something else at one path does not change whether an identity is served at another. -/
theorem serves_after {p q : Path} {i : Identity} {m : Image} (gains : c.Gains s (· = q) c')
    (known : c'.atPath? (Cache.keyOf s q) = some m) (other : m.identity ≠ i) :
    c'.Serves s p i ↔ c.Serves s p i := by
  constructor
  · rintro (⟨m', known', rfl⟩ | ⟨new, holds⟩)
    · obtain old | ⟨-, _, rfl, same, -⟩ := gains.known _ m' known'
      · exact .inl ⟨m', old, rfl⟩
      · rw [← same, known] at known'
        exact absurd (congrArg Image.identity (Option.some.inj known')) other
    · exact .inr ⟨gains.unknown new, holds⟩
  · rintro (⟨m', old, rfl⟩ | ⟨new, holds⟩)
    · exact .inl ⟨m', gains.paths _ m' old, rfl⟩
    · cases known' : c'.atPath? (Cache.keyOf s p) with
      | none => exact .inr ⟨known', holds⟩
      | some m' =>
          obtain old | ⟨-, _, -, same, holds'⟩ := gains.known _ m' known'
          · cases new.symm.trans old
          · exact .inl ⟨m', known', orderly.holds_unique same holds' holds⟩

end Orderly
end Companions
