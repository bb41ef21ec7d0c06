import Companions.Proofs.Disk
import Companions.Proofs.InPlace
/-!
Saving and loading again. Every path leads to a place, and what is read at a path depends on its
place. An image that is saved comes back whole unless its symbols take the place of the image
itself: they are written second, and what is left at the path is no image. For a path that happens
if it has the extension of symbols already.
-/
namespace Companions

/-- A file system with places that paths lead to: a write that succeeds puts the bytes at the place
of its path, one that fails changes nothing, and no write changes where a path leads. -/
structure FileSystem.Placed {σ κ : Type} [FileSystem σ] [DecidableEq κ] (place : σ → Path → κ) :
    Prop where
  write : ∀ (s : σ) (p q : Path) (bytes : Bytes),
    read (FileSystem.write s p bytes).2 q =
      if (FileSystem.write s p bytes).1 ∧ place s q = place s p then some bytes else read s q
  kept : ∀ (s : σ) (p q : Path) (bytes : Bytes),
    place (FileSystem.write s p bytes).2 q = place s q
  isFile : ∀ (s : σ) (p : Path), isFile s p = (read s p).isSome

/-- In a store every path is a place of its own. -/
theorem Store.placed : FileSystem.Placed fun (_ : Store) p => p where
  write s p q bytes := s.get?_put p q bytes
  kept _ _ _ _ := rfl
  isFile _ _ := rfl

theorem Disk.placed : FileSystem.Placed fun (d : Disk) p => d.locate? true p where
  write d p q bytes := d.readAt_change p q bytes
  kept d p q bytes := (d.sameWays_change p bytes).locate? true q
  isFile _ _ := rfl

namespace Image

variable {σ κ : Type} [FileSystem σ] [DecidableEq κ] {s : σ} {m : Image} {path : Path}

/-! ## The files after saving -/

/-- An image that was saved was accepted and written, first itself and then its symbols. -/
theorem files_of_saved (saved : ((m.save path).run s).value = .ok ()) :
    let first := FileSystem.write s path m.encode.image
    let second := FileSystem.write first.2 (symbolsPath path) m.encode.symbols
    m.Valid ∧ first.1 ∧ second.1 ∧ ((m.save path).run s).files = second.2 := by
  cases written : m.write with
  | error e =>
      rw [save, written] at saved
      cases saved
  | ok b =>
      obtain ⟨valid, rfl⟩ := write_ok_iff.mp written
      rw [run_save written] at saved ⊢
      dsimp only at saved ⊢
      split at saved
      · next first =>
          split at saved
          · next second =>
              rw [if_pos first, if_pos second]
              exact ⟨valid, first, second, rfl⟩
          · cases saved
      · cases saved

theorem run_save_of_written {m : Image} (valid : m.Valid) {path : Path} {s : σ}
    (first : (FileSystem.write s path m.encode.image).1 = true)
    (second : (FileSystem.write (FileSystem.write s path m.encode.image).2 (symbolsPath path)
      m.encode.symbols).1 = true) : ((m.save path).run s).value = .ok () := by
  rw [run_save (write_ok_iff.mpr ⟨valid, rfl⟩)]
  simp only [first, second, if_true]

section

variable {place : σ → Path → κ} (law : FileSystem.Placed place)

include law

/-- What a path leads to after saving: the symbols, then the image, then what it was before. -/
theorem read_saved (saved : ((m.save path).run s).value = .ok ()) (q : Path) :
    FileSystem.read ((m.save path).run s).files q =
      if place s q = place s (symbolsPath path) then some m.encode.symbols
      else if place s q = place s path then some m.encode.image
      else FileSystem.read s q := by
  obtain ⟨-, first, second, files⟩ := files_of_saved saved
  rw [files, law.write, law.write, law.kept, law.kept]
  simp only [first, second, true_and]

theorem loaded_saved (saved : ((m.save path).run s).value = .ok ()) :
    loaded ((m.save path).run s).files path =
      read (if place s path = place s (symbolsPath path) then m.encode.symbols else m.encode.image)
        (some m.encode.symbols) := by
  have beside := read_saved law saved (symbolsPath path)
  have file := read_saved law saved path
  rw [if_pos rfl] at beside
  rw [if_pos rfl, ← apply_ite] at file
  refine loaded_paired file ?_ beside
  rw [law.isFile, beside]
  rfl

/-- Loading undoes saving, unless the symbols go to the place of the image. An image that was saved,
whose nodes are all listed and that nests no deeper than a reader follows, is loaded from the files
that saving it leaves, with identity, references, nodes, places in sources and roots, exactly if the
path of its symbols leads to another place than its own path. The two paths have one text exactly if
the path has no file name, or the extension of symbols. Ids are numbers of 32 bits. -/
theorem load_save_iff (addressed : m.Addressed) (listed : ∀ id < m.size, id ∈ m.typeIds)
    (shallow : m.envelope.depth ≤ Json.maxNesting)
    (saved : ((m.save path).run s).value = .ok ()) :
    ((∃ m', loaded ((m.save path).run s).files path = .ok m' ∧ m'.identity = m.identity ∧
        m'.references = m.references ∧ m'.types = m.types ∧ m'.roots = m.roots) ↔
      place s (symbolsPath path) ≠ place s path) ∧
    (symbolsPath path = path ↔
      path.fileName? = none ∨ path.HasExtension Name.symbolsExtension) := by
  obtain ⟨valid, -⟩ := files_of_saved saved
  have outcome := loaded_saved law saved
  refine ⟨?_, Path.withExtension_eq_self_iff (by decide) (by decide) (by decide)⟩
  split at outcome
  · next same =>
      have lost := outcome.trans (read_symbols m.symbols _)
      rw [lost]
      exact iff_of_false nofun fun other => other same.symm
  · next other =>
      have found := read_encode valid addressed m.symbols
      rw [if_pos shallow] at found
      refine iff_of_true ⟨m.reread m.symbols, outcome.trans found, ?_⟩ (Ne.symm other)
      have same := m.content_reread m.symbols
      exact ⟨identity_of_content same, references_of_content same, types_reread valid listed,
        roots_of_content same⟩

end

/-! ## A file that was there before -/

/-- On a disk an accepted image is saved if both paths lead to files, or to nothing. -/
theorem saved_of_leafAt {d : Disk} {a b : Place} (accepted : m.validate = .ok ())
    (image : d.locate? true path = some a) (leaf : d.LeafAt a)
    (symbols : d.locate? true (symbolsPath path) = some b) (leaf' : d.LeafAt b) :
    ((m.save path).run d).value = .ok () := by
  have first := leaf.change image m.encode.image
  have ways := leaf.sameWays_put m.encode.image
  have second := (ways.leafAt leaf').change ((ways.locate? true _).trans symbols) m.encode.symbols
  refine run_save_of_written (validate_ok_iff.mp accepted) (congrArg Prod.fst first) ?_
  have files : (FileSystem.write d path m.encode.image).2 = d.put a (.file m.encode.image) :=
    congrArg Prod.snd first
  rw [files]
  exact congrArg Prod.fst second

/-- A file with other bytes, and beside it a link to another directory. -/
def outputDisk : Disk where
  entries := [(["work"], .directory), (["work", "Out"], .directory),
    (["work", "Symbols"], .directory), (["work", "Out", "Game.dll"], .file [0, 1]),
    (["work", "Out", "Game.pdb"], .link "../Symbols/Game.pdb")]
  working := ["work"]

theorem placedGame_listed : ∀ id < placedGame.size, id ∈ placedGame.typeIds := by
  decide +kernel

/-- The image comes to the place of the file, its symbols to where the link leads. -/
theorem outputDisk_saved :
    ((placedGame.save ⟨"Out/Game.dll"⟩).run outputDisk).value = .ok () := by
  have image : outputDisk.locate? true ⟨"Out/Game.dll"⟩ = some ["work", "Out", "Game.dll"] := by
    decide +kernel
  have symbols : outputDisk.locate? true (symbolsPath ⟨"Out/Game.dll"⟩) =
      some ["work", "Symbols", "Game.pdb"] := by decide +kernel
  exact saved_of_leafAt (by rfl) image (.inr ⟨[0, 1], by rfl⟩) symbols (.inl (by rfl))

theorem outputDisk_reloaded :
    ((placedGame.save ⟨"Out/Game.dll"⟩).run outputDisk).value = .ok () ∧
    ∃ m', loaded ((placedGame.save ⟨"Out/Game.dll"⟩).run outputDisk).files ⟨"Out/Game.dll"⟩ =
        .ok m' ∧
      m'.identity = placedGame.identity ∧ m'.references = placedGame.references ∧
      m'.types = placedGame.types ∧ m'.roots = placedGame.roots := by
  refine ⟨outputDisk_saved, ?_⟩
  refine (load_save_iff Disk.placed placedGame_addressed placedGame_listed (by decide +kernel)
    outputDisk_saved).1.mpr ?_
  decide +kernel

/-! ## An image that is lost -/

/-- Where the path has the extension of symbols, saving reports success, and what it leaves cannot
be loaded. -/
theorem placedGame_lost :
    placedGame.Addressed ∧ placedGame.validate = .ok () ∧
    (∀ id < placedGame.size, id ∈ placedGame.typeIds) ∧
    placedGame.envelope.depth ≤ Json.maxNesting ∧
    ((placedGame.save ⟨"Game.pdb"⟩).run ({} : Store)).value = .ok () ∧
    loaded ((placedGame.save ⟨"Game.pdb"⟩).run ({} : Store)).files ⟨"Game.pdb"⟩ =
      .error .decode := by
  have accepted : placedGame.validate = .ok () := by rfl
  have saved : ((placedGame.save ⟨"Game.pdb"⟩).run ({} : Store)).value = .ok () := by
    refine run_save_of_written (validate_ok_iff.mp accepted) ?_ ?_
    · exact (Store.put_fst ..).trans (by rfl)
    · refine (Store.put_fst ..).trans ?_
      change decide (_ ∉ ((({} : Store).put ⟨"Game.pdb"⟩ placedGame.encode.image).2).faults) = _
      rw [Store.faults_put]
      rfl
  refine ⟨placedGame_addressed, accepted, placedGame_listed, by decide +kernel, saved, ?_⟩
  have outcome := loaded_saved Store.placed saved
  rw [if_pos (by decide +kernel)] at outcome
  exact outcome.trans (read_symbols placedGame.symbols _)

end Image
end Companions
