import Companions.Proofs.Loading
import Companions.Proofs.Mentions
import Companions.Proofs.Store
import Companions.Proofs.Image.RoundTrip
/-!
Assemblies that are processed in their files. A call that fails may have written its log, but the
image and the symbols are as they were, with one exception: the image is written before the symbols,
and where the second write fails nothing takes the first one back.
-/
namespace Companions

/-- A file system as a map from paths to bytes: a change concerns one path, and a write that fails
changes nothing. -/
structure FileSystem.Mapping (σ : Type) [FileSystem σ] : Prop where
  write : ∀ (s : σ) (p q : Path) (bytes : Bytes),
    read (FileSystem.write s p bytes).2 q =
      if (FileSystem.write s p bytes).1 ∧ q = p then some bytes else read s q
  append : ∀ (s : σ) (p q : Path) (bytes : Bytes), p ≠ q →
    read (FileSystem.append s p bytes).2 q = read s q
  makeDirectories : ∀ (s : σ) (p q : Path), read (FileSystem.makeDirectories s p).2 q = read s q

theorem Store.mapping : FileSystem.Mapping Store where
  write s p q bytes := s.get?_put p q bytes
  append s p q bytes other := by
    refine (s.get?_put p q _).trans (if_neg ?_)
    exact fun same => other same.2.symm
  makeDirectories _ _ _ := rfl

/-! ## Files that are left alone -/

namespace Script

variable {α β : Type} {q : Path}

/-- The script changes no file at the path. -/
def Spares (q : Path) : Script α → Prop
  | .done _ => True
  | .read _ k => ∀ r, Spares q (k r)
  | .isFile _ k => ∀ r, Spares q (k r)
  | .canonical _ k => ∀ r, Spares q (k r)
  | .write p _ k => p ≠ q ∧ ∀ r, Spares q (k r)
  | .append p _ k => p ≠ q ∧ ∀ r, Spares q (k r)
  | .makeDirectories _ k => ∀ r, Spares q (k r)
  | .note _ k => Spares q k

theorem spares_pure (a : α) : (pure a : Script α).Spares q := trivial

theorem spares_say (j : Journal) : (say j).Spares q := trivial

theorem spares_makeAll (p : Path) : (makeAll p).Spares q := fun _ => trivial

theorem spares_appendFile {p : Path} (other : p ≠ q) (bytes : Bytes) :
    (appendFile p bytes).Spares q :=
  ⟨other, fun _ => trivial⟩

theorem Spares.bind {x : Script α} {f : α → Script β} (h : x.Spares q)
    (next : ∀ a, (f a).Spares q) : (x >>= f).Spares q := by
  change (x.bind f).Spares q
  induction x with
  | done a => exact next a
  | note j k ih => exact ih h
  | write p b k ih => exact ⟨h.1, fun r => ih r (h.2 r)⟩
  | append p b k ih => exact ⟨h.1, fun r => ih r (h.2 r)⟩
  | read p k ih => exact fun r => ih r (h r)
  | isFile p k ih => exact fun r => ih r (h r)
  | canonical p k ih => exact fun r => ih r (h r)
  | makeDirectories p k ih => exact fun r => ih r (h r)

theorem Asks.spares {x : Script α} (h : x.Asks) : x.Spares q := by
  induction x with
  | done a => trivial
  | note j k ih => exact ih h
  | read p k ih => exact fun r => ih r (h r)
  | isFile p k ih => exact fun r => ih r (h r)
  | canonical p k ih => exact fun r => ih r (h r)
  | write p b k ih => exact h.elim
  | append p b k ih => exact h.elim
  | makeDirectories p k ih => exact h.elim

theorem Spares.read {σ : Type} [FileSystem σ] (law : FileSystem.Mapping σ) {x : Script α}
    (h : x.Spares q) (s : σ) : FileSystem.read (x.run s).files q = FileSystem.read s q := by
  induction x generalizing s with
  | done a => rfl
  | note j k ih => exact ih h s
  | read p k ih => exact ih _ (h _) s
  | isFile p k ih => exact ih _ (h _) s
  | canonical p k ih => exact ih _ (h _) s
  | write p b k ih =>
      refine (ih _ (h.2 _) _).trans ((law.write s p q b).trans (if_neg ?_))
      exact fun same => h.1 same.2.symm
  | append p b k ih => exact (ih _ (h.2 _) _).trans (law.append s p q b h.1)
  | makeDirectories p k ih => exact (ih _ (h _) _).trans (law.makeDirectories s p q)

end Script

/-! ## Saving -/

variable {σ : Type} [FileSystem σ] {s : σ}

theorem Script.run_writeFile {α : Type} (p : Path) (bytes : Bytes) (f : Bool → Script α) (s : σ) :
    (writeFile p bytes >>= f).run s =
      (f (FileSystem.write s p bytes).1).run (FileSystem.write s p bytes).2 := rfl

namespace Image

/-- How saving fails, and the files after it. -/
inductive Unsaved (m : Image) (path : Path) (s : σ) : σ → Prop where
  | rejected {e : ImageError} (h : m.write = .error e) : Unsaved m path s s
  | unwritten {b : ImageBytes} (h : m.write = .ok b)
      (first : (FileSystem.write s path b.image).1 = false) :
      Unsaved m path s (FileSystem.write s path b.image).2
  | halved {b : ImageBytes} (h : m.write = .ok b)
      (first : (FileSystem.write s path b.image).1 = true)
      (second : (FileSystem.write (FileSystem.write s path b.image).2 (symbolsPath path)
        b.symbols).1 = false) :
      Unsaved m path s (FileSystem.write (FileSystem.write s path b.image).2 (symbolsPath path)
        b.symbols).2

theorem run_save {m : Image} {b : ImageBytes} (h : m.write = .ok b) (path : Path) (s : σ) :
    (m.save path).run s =
      let first := FileSystem.write s path b.image
      let second := FileSystem.write first.2 (symbolsPath path) b.symbols
      if first.1 then
        if second.1 then ⟨.ok (), second.2, []⟩
        else ⟨.error (.io (symbolsPath path).text), second.2, []⟩
      else ⟨.error (.io path.text), first.2, []⟩ := by
  unfold save
  rw [h]
  simp only [Script.run_writeFile]
  split
  · rw [Script.run_writeFile]
    split <;> rfl
  · rfl

theorem unsaved_of_save {m : Image} {path : Path} {e : ImageError}
    (failed : ((m.save path).run s).value = .error e) :
    m.Unsaved path s ((m.save path).run s).files := by
  cases written : m.write with
  | error e =>
      rw [save, written]
      exact .rejected written
  | ok b =>
      rw [run_save written] at failed ⊢
      dsimp only at failed ⊢
      split at failed
      · next first =>
          split at failed
          · cases failed
          · next second =>
              rw [if_pos first, if_neg second]
              exact .halved written first (Bool.eq_false_iff.mpr second)
      · next first =>
          rw [if_neg first]
          exact .unwritten written (Bool.eq_false_iff.mpr first)

/-- The first write took place and changed the file. -/
def Tears (m : Image) (path : Path) (s : σ) : Prop :=
  ∃ b, m.write = .ok b ∧ (FileSystem.write s path b.image).1 = true ∧
    FileSystem.read s path ≠ some b.image

/-- Image and symbols are on one store what they are on the other. -/
def SameFiles (path : Path) (s s' : σ) : Prop :=
  FileSystem.read s' path = FileSystem.read s path ∧
    FileSystem.read s' (symbolsPath path) = FileSystem.read s (symbolsPath path)

theorem unwritten_read (law : FileSystem.Mapping σ) {p : Path} {bytes : Bytes}
    (failed : (FileSystem.write s p bytes).1 = false) (q : Path) :
    FileSystem.read (FileSystem.write s p bytes).2 q = FileSystem.read s q := by
  rw [law.write, failed, if_neg fun h => Bool.false_ne_true h.1]

/-- A failed save has kept both files exactly if it did not come to change the first one. -/
theorem Unsaved.sameFiles_iff (law : FileSystem.Mapping σ) {m : Image} {path : Path} {s' : σ}
    (h : m.Unsaved path s s') : SameFiles path s s' ↔ ¬ m.Tears path s := by
  cases h with
  | rejected rejected =>
      refine iff_of_true ⟨rfl, rfl⟩ fun ⟨b, written, _⟩ => ?_
      cases rejected.symm.trans written
  | unwritten written first =>
      refine iff_of_true ⟨unwritten_read law first _, unwritten_read law first _⟩ ?_
      rintro ⟨b, written', first', -⟩
      obtain rfl := Except.ok.inj (written.symm.trans written')
      cases first.symm.trans first'
  | @halved b written first second =>
      have after (q : Path) : FileSystem.read (FileSystem.write (FileSystem.write s path b.image).2
          (symbolsPath path) b.symbols).2 q =
            if q = path then some b.image else FileSystem.read s q := by
        rw [unwritten_read law second, law.write, first]
        simp only [true_and]
      rw [SameFiles, after, after, if_pos rfl]
      constructor
      · rintro ⟨kept, -⟩ ⟨b', written', -, changed⟩
        obtain rfl := Except.ok.inj (written.symm.trans written')
        exact changed kept.symm
      · intro whole
        have kept : FileSystem.read s path = some b.image :=
          Classical.not_not.mp fun changed => whole ⟨b, written, first, changed⟩
        refine ⟨kept.symm, ?_⟩
        split
        · next same => rw [same, kept]
        · rfl

end Image

/-! ## Processing -/

namespace Processor

/-- The activity log is not at the path. -/
def LogsBeside (p : Processor) (q : Path) : Prop := ∀ l, p.config.logPath = some l → ⟨l⟩ ≠ q

theorem spares_writeLog {p : Processor} {q : Path} (aside : p.LogsBeside q) (journal : Journal) :
    (p.writeLog journal).Spares q := by
  unfold writeLog
  cases log : p.config.logPath with
  | none => exact Script.spares_pure _
  | some l =>
      have append : (appendLog ⟨l⟩ journal).Spares q := by
        have made (ready : Bool) : (if ready then Script.appendFile ⟨l⟩ (utf8 journal.text)
            else pure false : Script Bool).Spares q := by
          split
          · exact Script.spares_appendFile (aside l log) _
          · exact Script.spares_pure _
        unfold appendLog
        split
        · split
          · exact made true
          · exact (Script.spares_makeAll _).bind made
        · exact made true
      refine append.bind fun written => ?_
      split
      · exact Script.spares_say _
      · exact Script.spares_pure _

/-- A run changes no file but its log. -/
theorem spares_run {p : Processor} {q : Path} (aside : p.LogsBeside q) (budget : Nat) (m : Image)
    (references : List Path) : (p.run budget m references).Spares q := by
  have inside : (p.runInside budget m references).Spares q := by
    unfold runInside
    refine (Script.spares_say _).bind fun _ => ?_
    refine (Resolver.asks_seed _ references).spares.bind fun made => ?_
    obtain ⟨r, e | u⟩ := made
    · exact Script.spares_pure _
    · refine (Context.asks_build m r).spares.bind fun built => ?_
      refine (Script.spares_say _).bind fun _ => ?_
      split
      · exact Script.spares_pure _
      · exact Script.spares_pure _
      · refine (Script.spares_say _).bind fun _ => ?_
        refine (spares_writeLog ?_ _).bind fun _ => Script.spares_pure _
        exact aside
  refine (Script.spares_say _).bind fun _ => inside.bind fun _ => ?_
  exact (Script.spares_say _).bind fun _ => Script.spares_pure _

/-- How processing an assembly in its file fails, and the files after it. -/
inductive Aborted (p : Processor) (budget : Nat) (path : Path) (references : List Path) (s : σ) :
    σ → Prop where
  | unloaded {e : ImageError} (h : Image.loaded s path = .error e) :
      Aborted p budget path references s s
  | stopped {m : Image} {e : PostProcessError} (loaded : Image.loaded s path = .ok m)
      (h : ((p.run budget m references).run s).value.2 = .failed e) :
      Aborted p budget path references s ((p.run budget m references).run s).files
  | unsaved {m : Image} {p' : Processor} {o : Outcome} {s' : σ}
      (loaded : Image.loaded s path = .ok m)
      (ran : ((p.run budget m references).run s).value = (p', .done o)) (changed : o.changed)
      (h : o.image.Unsaved path ((p.run budget m references).run s).files s') :
      Aborted p budget path references s s'

/-- What a call does behind the run: the image is saved if the run changed it. -/
def finish (p : Processor) (path : Path) :
    Attempt PostProcessError Outcome → Script (Processor × Attempt PostProcessError Bool)
  | .failed e => return (p, .failed e)
  | .unfinished => return (p, .unfinished)
  | .done o =>
    if !o.changed then return (p, .done false)
    else do
      match ← o.image.save path with
      | .error e => return (p, .failed (.image e))
      | .ok () =>
        .say [.event ⟨.info, postProcessTarget, "rewrote assembly", ["path"]⟩]
        return (p, .done true)

theorem processPath_eq (p : Processor) (budget : Nat) (path : Path) (references : List Path)
    (wanted : p.config.shouldProcess path.assemblyName) :
    p.processPath budget path references = (do
      match ← Image.load path with
      | .error e => return (p, .failed (.image e))
      | .ok m =>
        let ran ← p.run budget m references
        ran.1.finish path ran.2) := by
  rw [processPath, if_neg (by simp [wanted])]
  congr 1
  funext loaded
  cases loaded with
  | error e => rfl
  | ok m =>
      dsimp only
      congr 1
      funext ⟨p', attempt⟩
      cases attempt <;> rfl

theorem finish_failed {p : Processor} {path : Path} {a : Attempt PostProcessError Outcome}
    {e : PostProcessError} (failed : ((p.finish path a).run s).value.2 = .failed e) :
    (a = .failed e ∧ ((p.finish path a).run s).files = s) ∨
    ∃ o, a = .done o ∧ o.changed ∧ o.image.Unsaved path s ((p.finish path a).run s).files := by
  cases a with
  | failed e =>
      cases failed
      exact .inl ⟨rfl, rfl⟩
  | unfinished => cases failed
  | done o =>
      unfold finish at failed ⊢
      dsimp only at failed ⊢
      split at failed
      · cases failed
      · next changed =>
          refine .inr ⟨o, rfl, by simpa using changed, ?_⟩
          rw [if_neg changed]
          simp only [Script.run_bind] at failed ⊢
          cases saved : ((o.image.save path).run s).value with
          | error e => exact Image.unsaved_of_save saved
          | ok u =>
              rw [saved] at failed
              cases failed

theorem aborted_of_processPath {p : Processor} {budget : Nat} {path : Path}
    {references : List Path} {e : PostProcessError}
    (failed : ((p.processPath budget path references).run s).value.2 = .failed e) :
    p.Aborted budget path references s ((p.processPath budget path references).run s).files := by
  cases wanted : p.config.shouldProcess path.assemblyName with
  | false =>
      rw [processPath, wanted] at failed
      cases failed
  | true =>
      rw [processPath_eq p budget path references wanted] at failed ⊢
      simp only [Script.run_bind, (Image.asks_load path).files] at failed ⊢
      cases loaded : Image.loaded s path with
      | error e =>
          rw [Image.loaded] at loaded
          rw [loaded]
          exact .unloaded loaded
      | ok m =>
          rw [show ((Image.load path).run s).value = .ok m from loaded] at failed ⊢
          simp only [Script.run_bind] at failed ⊢
          obtain ⟨stopped, files⟩ | ⟨o, ran, changed, unsaved⟩ := finish_failed failed
          · rw [files]
            exact .stopped loaded stopped
          · exact .unsaved loaded (Prod.ext rfl ran) changed unsaved

/-- The run over the assembly ends with a change, and the save that follows tears the files. -/
def Tears (p : Processor) (budget : Nat) (path : Path) (references : List Path) (s : σ) : Prop :=
  ∃ m p' o, Image.loaded s path = .ok m ∧
    ((p.run budget m references).run s).value = (p', .done o) ∧ o.changed ∧
    o.image.Tears path ((p.run budget m references).run s).files

/-- A failed call has kept both files exactly if it did not tear them. -/
theorem Aborted.sameFiles_iff (law : FileSystem.Mapping σ) {p : Processor} {budget : Nat}
    {path : Path} {references : List Path} {s' : σ} (h : p.Aborted budget path references s s')
    (aside : p.LogsBeside path) (aside' : p.LogsBeside (Image.symbolsPath path)) :
    Image.SameFiles path s s' ↔ ¬ p.Tears budget path references s := by
  have spared (m : Image) : Image.SameFiles path s ((p.run budget m references).run s).files :=
    ⟨(spares_run aside budget m references).read law s,
      (spares_run aside' budget m references).read law s⟩
  cases h with
  | unloaded h =>
      refine iff_of_true ⟨rfl, rfl⟩ fun ⟨m, _, _, loaded, _⟩ => ?_
      cases h.symm.trans loaded
  | @stopped m e loaded h =>
      refine iff_of_true (spared m) ?_
      rintro ⟨m', p', o, loaded', ran, -⟩
      obtain rfl := Except.ok.inj (loaded.symm.trans loaded')
      rw [ran] at h
      cases h
  | @unsaved m p' o s' loaded ran changed h =>
      obtain ⟨image, symbols⟩ := spared m
      have whole := h.sameFiles_iff law
      rw [Image.SameFiles, image, symbols] at whole
      rw [Image.SameFiles, whole]
      refine not_congr ⟨fun tears => ⟨m, p', o, loaded, ran, changed, tears⟩, ?_⟩
      rintro ⟨m', p'', o', loaded', ran', -, tears⟩
      obtain rfl := Except.ok.inj (loaded.symm.trans loaded')
      obtain rfl := Attempt.done.inj (Prod.mk.inj (ran.symm.trans ran')).2
      exact tears

/-- An assembly in its file whose processing fails is left as it was, symbols included, exactly if
the failure is not that of writing the symbols behind a changed image. -/
theorem processPath_sameFiles_iff (law : FileSystem.Mapping σ) {p : Processor} {budget : Nat}
    {path : Path} {references : List Path} {e : PostProcessError} (aside : p.LogsBeside path)
    (aside' : p.LogsBeside (Image.symbolsPath path))
    (failed : ((p.processPath budget path references).run s).value.2 = .failed e) :
    Image.SameFiles path s ((p.processPath budget path references).run s).files ↔
      ¬ p.Tears budget path references s :=
  (aborted_of_processPath failed).sameFiles_iff law aside aside'

/-- A changed assembly is saved, and fails where saving does. -/
theorem processPath_of_changed {p p' : Processor} {budget : Nat} {path : Path}
    {references : List Path} {m : Image} {o : Outcome}
    (wanted : p.config.shouldProcess path.assemblyName) (loaded : Image.loaded s path = .ok m)
    (ran : ((p.run budget m references).run s).value = (p', .done o)) (changed : o.changed)
    {e : ImageError}
    (h : ((o.image.save path).run ((p.run budget m references).run s).files).value = .error e) :
    ((p.processPath budget path references).run s).value = (p', .failed (.image e)) := by
  rw [processPath_eq p budget path references wanted, (Image.asks_load path).value_bind,
    show ((Image.load path).run s).value = .ok m from loaded]
  dsimp only
  rw [Script.value_bind, ran]
  simp only [finish, changed, Bool.not_true, Bool.false_eq_true, if_false, Script.value_bind, h]
  rfl

end Processor

/-! ## A torn pair -/

namespace Store

theorem put_fst (s : Store) (p : Path) (bytes : Bytes) :
    (s.put p bytes).1 = decide (p.text ∉ s.faults) := by
  unfold put
  split <;> simp [*]

theorem faults_put (s : Store) (p : Path) (bytes : Bytes) :
    (s.put p bytes).2.faults = s.faults := by
  unfold put
  split <;> rfl

theorem faults_run {α : Type} (x : Script α) (s : Store) : (x.run s).files.faults = s.faults := by
  induction x generalizing s with
  | done a => rfl
  | note j k ih => exact ih s
  | read p k ih => exact ih _ s
  | isFile p k ih => exact ih _ s
  | canonical p k ih => exact ih _ s
  | write p b k ih => exact (ih _ _).trans (faults_put s p b)
  | append p b k ih => exact (ih _ _).trans (faults_put s p _)
  | makeDirectories p k ih => exact ih _ s

end Store

namespace Processor

def shipPath : Path := ⟨"Game.dll"⟩

/-- The game in its file, where writing to one name fails. -/
def shipStore (fault : String) : Store where
  files := [("Game.dll", shipGame.encode.image)]
  faults := [fault]

theorem symbolsPath_shipPath : Image.symbolsPath shipPath = ⟨"Game.pdb"⟩ := by decide +kernel

theorem shipStore_loaded (fault : String) :
    Image.loaded (shipStore fault) shipPath = .ok shipGame := by
  have file : FileSystem.read (shipStore fault) shipPath = some shipGame.encode.image := by rfl
  have bare : FileSystem.isFile (shipStore fault) (Image.symbolsPath shipPath) = false := by
    rw [symbolsPath_shipPath]
    rfl
  have valid : shipGame.Valid := Image.validate_ok_iff.mp (by rfl)
  have read := Image.read_encode_bare valid (valid.addressed (by decide)) (by decide +kernel)
  exact (Image.loaded_bare file bare).trans read

theorem shippedGame_valid : (shippedGame "Lib").Valid := Image.validate_ok_iff.mp (by rfl)

/-- The game and what a run makes of it are written to different bytes, since both are read
again. -/
theorem shippedGame_differs : shipGame.encode.image ≠ (shippedGame "Lib").encode.image := by
  intro same
  have valid : shipGame.Valid := Image.validate_ok_iff.mp (by rfl)
  have before := Image.read_encode_bare valid (valid.addressed (by decide)) (by decide +kernel)
  have after := Image.read_encode_bare shippedGame_valid
    (shippedGame_valid.addressed (by decide)) (by decide +kernel)
  rw [same, after] at before
  have sizes := congrArg Image.size (Except.ok.inj before)
  exact absurd sizes (by decide)

/-- A run over the game in its file changes it, and leaves its log in a third file. -/
theorem shipStore_run (fault : String) :
    ∃ o, (((shipyard "Lib").run 8 shipGame []).run (shipStore fault)).value =
        (shipyard "Lib", .done o) ∧ o.changed ∧ o.image.write = .ok (shippedGame "Lib").encode := by
  obtain ⟨o, ran, fields, image⟩ := shipGame_run (shipStore fault) (.inl rfl)
  refine ⟨o, ran, ?_, ?_⟩
  · simp [Outcome.changed, fields]
  · rw [image]
    exact Image.write_ok_iff.mpr ⟨shippedGame_valid, rfl⟩

theorem shipyard_aside :
    (shipyard "Lib").LogsBeside shipPath ∧
      (shipyard "Lib").LogsBeside (Image.symbolsPath shipPath) := by
  rw [symbolsPath_shipPath]
  constructor <;> rintro l log same <;>
    exact absurd ((Option.some.inj log).trans (congrArg Path.text same)) (by decide)

theorem shipStore_failed {fault : String} (known : fault = "Game.dll" ∨ fault = "Game.pdb") :
    (((shipyard "Lib").processPath 8 shipPath []).run (shipStore fault)).value =
      (shipyard "Lib", .failed (.image (.io fault))) := by
  obtain ⟨o, ran, changed, written⟩ := shipStore_run fault
  refine processPath_of_changed (by decide +kernel) (shipStore_loaded fault) ran changed ?_
  have faults := Store.faults_run ((shipyard "Lib").run 8 shipGame []) (shipStore fault)
  generalize (((shipyard "Lib").run 8 shipGame []).run (shipStore fault)).files = s at faults
  rw [Image.run_save written, symbolsPath_shipPath]
  simp only [FileSystem.write, Store.put_fst, Store.faults_put, faults, shipStore, shipPath]
  rcases known with rfl | rfl <;> rfl

/-- Where the image cannot be written, both files are as they were. -/
theorem shipStore_kept :
    (shipyard "Lib").LogsBeside shipPath ∧
    (shipyard "Lib").LogsBeside (Image.symbolsPath shipPath) ∧
    (∃ e, (((shipyard "Lib").processPath 8 shipPath []).run (shipStore "Game.dll")).value.2 =
      .failed e) ∧
    Image.SameFiles shipPath (shipStore "Game.dll")
      (((shipyard "Lib").processPath 8 shipPath []).run (shipStore "Game.dll")).files := by
  obtain ⟨aside, aside'⟩ := shipyard_aside
  have failed := congrArg Prod.snd (shipStore_failed (.inl rfl))
  refine ⟨aside, aside', ⟨_, failed⟩, ?_⟩
  refine (processPath_sameFiles_iff Store.mapping aside aside' failed).mpr ?_
  rintro ⟨m, p', o, -, -, -, b, -, first, -⟩
  have refused := Store.put_fst (((shipyard "Lib").run 8 m []).run (shipStore "Game.dll")).files
    shipPath b.image
  rw [Store.faults_run] at refused
  cases first.symm.trans refused

/-- Where the symbols cannot be written, the image is no longer what it was. -/
theorem shipStore_torn :
    (shipyard "Lib").LogsBeside shipPath ∧
    (shipyard "Lib").LogsBeside (Image.symbolsPath shipPath) ∧
    (∃ e, (((shipyard "Lib").processPath 8 shipPath []).run (shipStore "Game.pdb")).value.2 =
      .failed e) ∧
    ¬ Image.SameFiles shipPath (shipStore "Game.pdb")
      (((shipyard "Lib").processPath 8 shipPath []).run (shipStore "Game.pdb")).files := by
  obtain ⟨aside, aside'⟩ := shipyard_aside
  have failed := congrArg Prod.snd (shipStore_failed (.inr rfl))
  refine ⟨aside, aside', ⟨_, failed⟩, fun same => ?_⟩
  refine ((aborted_of_processPath failed).sameFiles_iff Store.mapping aside aside').mp same ?_
  obtain ⟨o, ran, changed, written⟩ := shipStore_run "Game.pdb"
  refine ⟨_, _, o, shipStore_loaded _, ran, changed, _, written, ?_, ?_⟩
  · refine (Store.put_fst _ shipPath _).trans ?_
    rw [Store.faults_run]
    rfl
  · rw [(spares_run aside 8 shipGame []).read Store.mapping]
    exact fun same => shippedGame_differs (Option.some.inj same)

end Processor
end Companions
