import Companions.Cache
import Companions.Proofs.Identity
import Companions.Proofs.Script
import Companions.Proofs.Table
/-!
What loading can leave in a cache. Images stand under the display form of their identity, what
stands there stays, and a path that was loaded stays known.
-/
namespace Companions

namespace Image

theorem asks_readNoted (image : Bytes) (symbols : Option Bytes) :
    (readNoted image symbols).Asks := by
  unfold readNoted
  split
  · exact Script.asks_pure _
  · exact (Script.asks_say _).bind fun _ => Script.asks_pure _

theorem value_readNoted {σ : Type} [FileSystem σ] (image : Bytes) (symbols : Option Bytes)
    (s : σ) : ((readNoted image symbols).run s).value = read image symbols := by
  unfold readNoted
  split
  · next e failed => exact failed.symm
  · next m found => exact found.symm

theorem asks_load (path : Path) : (load path).Asks := by
  unfold load
  refine (Script.asks_readFile path).bind fun image => ?_
  split
  · exact Script.asks_pure _
  · refine (Script.asks_askFile _).bind fun there => ?_
    split
    · refine (Script.asks_readFile _).bind fun symbols => ?_
      split
      · exact Script.asks_pure _
      · exact asks_readNoted ..
    · exact asks_readNoted ..

end Image

namespace Table

/-- Every image stands under the display form of its identity. -/
def Keyed (t : Table Image) : Prop := ∀ e ∈ t.entries, e.1 = e.2.identity.display

variable {t : Table Image} {m : Image}

theorem keyed_empty : ({} : Table Image).Keyed := nofun

theorem Keyed.insertNew (h : t.Keyed) (m : Image) : (t.insertNew m.identity.display m).Keyed := by
  intro e he
  rcases mem_entries_insertNew he with old | rfl
  · exact h e old
  · rfl

theorem Keyed.key (h : t.Keyed) {key : String} (found : t.get? key = some m) :
    key = m.identity.display := h _ (mem_entries found)

theorem Keyed.identity (h : t.Keyed) {i : Identity} (found : t.get? i.display = some m) :
    m.identity = i := (Identity.display_injective (h.key found)).symm

end Table

namespace Cache

/-- Images stand under their identities, and paths lead to images. -/
structure Keyed (c : Cache) : Prop where
  images : c.images.Keyed
  paths : ∀ e ∈ c.paths.entries, ∃ m, c.images.get? e.2 = some m

theorem keyed_empty : ({} : Cache).Keyed where
  images := Table.keyed_empty
  paths := nofun

/-- An image that stands under a key stands under its identity. -/
theorem Keyed.get? {c : Cache} (h : c.Keyed) {key : String} {m : Image}
    (found : c.images.get? key = some m) : c.get? m.identity = some m := by
  rw [Cache.get?, ← h.images.key found]
  exact found

/-- What may become of a cache: it keeps to the keys, and keeps its images and what paths it
knows. -/
structure Develops (c c' : Cache) : Prop where
  keyed : c.Keyed → c'.Keyed
  kept : c.images.Extends c'.images
  known : ∀ key, (c.atPath? key).isSome → (c'.atPath? key).isSome

theorem Develops.refl (c : Cache) : c.Develops c where
  keyed h := h
  kept := .refl c.images
  known _ h := h

theorem Develops.trans {c c' c'' : Cache} (h : c.Develops c') (h' : c'.Develops c'') :
    c.Develops c'' where
  keyed := h'.keyed ∘ h.keyed
  kept := h.kept.trans h'.kept
  known key held := h'.known key (h.known key held)

theorem insert_develops (c : Cache) (m : Image) : c.Develops (c.insert m) where
  keyed h := {
    images := h.images.insertNew m
    paths := fun e he => by
      obtain ⟨held, found⟩ := h.paths e he
      exact ⟨held, Table.extends_insertNew c.images m.identity.display m e.2 held found⟩ }
  kept := Table.extends_insertNew c.images m.identity.display m
  known key held := by
    obtain ⟨m', found⟩ := Option.isSome_iff_exists.mp held
    obtain ⟨name, path, image⟩ := Option.bind_eq_some_iff.mp found
    have stays := Table.extends_insertNew c.images m.identity.display m name m' image
    exact Option.isSome_iff_exists.mpr ⟨m', Option.bind_eq_some_iff.mpr ⟨name, path, stays⟩⟩

/-! ## Entering -/

theorem enter_held (c : Cache) (key : Path) (m : Image) :
    (c.enter key m).1.images.get? m.identity.display = some (c.enter key m).2 := by
  rw [enter, Table.get?_insertNew, if_pos rfl]

theorem atPath?_enter (c : Cache) (key other : Path) (m : Image) :
    (c.enter key m).1.atPath? other =
      if other.text = key.text then some (c.enter key m).2 else (c.insert m).atPath? other := by
  have paths : (c.enter key m).1.paths = c.paths.insert key.text m.identity.display := rfl
  rw [atPath?, paths, Table.get?_insert]
  split
  · exact enter_held c key m
  · rfl

theorem enter_develops (c : Cache) (key : Path) (m : Image) : c.Develops (c.enter key m).1 where
  keyed h := by
    have inserted := (insert_develops c m).keyed h
    refine ⟨inserted.images, fun e he => ?_⟩
    rcases Table.mem_entries_insert he with old | rfl
    · exact inserted.paths e old
    · exact ⟨(c.enter key m).2, enter_held c key m⟩
  kept := Table.extends_insertNew c.images m.identity.display m
  known other held := by
    rw [atPath?_enter]
    split
    · rfl
    · exact (insert_develops c m).known other held

/-! ## Loading -/

/-- What loading a path can leave: the image that the path is known to hold, an error and the cache
as it was, or an image entered. -/
inductive Loads (c : Cache) : Cache × Except ImageError Image → Prop where
  | hit {key : Path} {m : Image} (known : c.atPath? key = some m) : Loads c (c, .ok m)
  | failed (e : ImageError) : Loads c (c, .error e)
  | entered (key : Path) (m : Image) : Loads c ((c.enter key m).1, .ok (c.enter key m).2)

theorem loadPath_loads (c : Cache) (path : Path) : (c.loadPath path).Ensures c.Loads := by
  unfold loadPath
  refine Script.ensures_next _ fun canonical => ?_
  dsimp only
  split
  · next known => exact Script.ensures_next _ fun _ => Script.ensures_pure (.hit known)
  · refine Script.ensures_next _ fun loaded => ?_
    split
    · exact Script.ensures_pure (.failed _)
    · exact Script.ensures_next _ fun _ => Script.ensures_pure (.entered _ _)

theorem Loads.develops {c : Cache} {x : Cache × Except ImageError Image} (h : c.Loads x) :
    c.Develops x.1 := by
  cases h with
  | hit known => exact .refl c
  | failed e => exact .refl c
  | entered key m => exact enter_develops c key m

theorem Loads.unchanged {c c' : Cache} {e : ImageError} (h : c.Loads (c', .error e)) : c' = c := by
  cases h
  rfl

/-- The image loaded is the one that the cache has for its identity. -/
theorem Loads.answer {c c' : Cache} {m : Image} (hc : c.Keyed) (h : c.Loads (c', .ok m)) :
    c'.get? m.identity = some m := by
  have hc' : c'.Keyed := h.develops.keyed hc
  cases h with
  | hit known =>
      obtain ⟨name, -, found⟩ := Option.bind_eq_some_iff.mp known
      exact hc.get? found
  | entered key m => exact hc'.get? (enter_held c key m)

theorem asks_loadPath (c : Cache) (path : Path) : (c.loadPath path).Asks := by
  unfold loadPath
  refine (Script.asks_askCanonical path).bind fun canonical => ?_
  dsimp only
  split
  · exact (Script.asks_say _).bind fun _ => Script.asks_pure _
  · refine (Image.asks_load path).bind fun loaded => ?_
    split
    · exact Script.asks_pure _
    · exact (Script.asks_say _).bind fun _ => Script.asks_pure _

variable {σ : Type} [FileSystem σ]

/-- The path under which a file is known. -/
def keyOf (s : σ) (path : Path) : Path := (FileSystem.canonical s path).getD path

theorem loadPath_known {c c' : Cache} {path : Path} {s : σ} {m : Image}
    (h : ((c.loadPath path).run s).value = (c', .ok m)) : (c'.atPath? (keyOf s path)).isSome := by
  rw [loadPath, Script.value_bind, (Script.asks_askCanonical path).files] at h
  have key : ((Script.askCanonical path).run s).value.getD path = keyOf s path := rfl
  dsimp only at h
  rw [key] at h
  cases known : c.atPath? (keyOf s path) with
  | some m' =>
      rw [known] at h
      obtain ⟨rfl, -⟩ := Prod.mk.inj h
      rw [known]
      rfl
  | none =>
      rw [known] at h
      simp only [Script.value_bind] at h
      generalize (Image.load path).run s = loaded at h
      obtain ⟨e | m', s', j⟩ := loaded
      · cases h
      · obtain ⟨rfl, -⟩ := Prod.mk.inj h
        rw [atPath?_enter, if_pos rfl]
        rfl

theorem loadPath_hit {c : Cache} {path : Path} {s : σ} (h : (c.atPath? (keyOf s path)).isSome) :
    ∃ m, ((c.loadPath path).run s).value = (c, .ok m) := by
  obtain ⟨m, known⟩ := Option.isSome_iff_exists.mp h
  refine ⟨m, ?_⟩
  rw [loadPath, Script.value_bind, (Script.asks_askCanonical path).files]
  have key : ((Script.askCanonical path).run s).value.getD path = keyOf s path := rfl
  dsimp only
  rw [key, known]
  rfl

end Cache

end Companions
