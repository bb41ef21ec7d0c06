import Companions.File.Script
/-!
What a script does on every file system: a property that holds of its value whatever is answered
on the way holds of the value of every run.
-/
namespace Companions.Script

variable {α β σ : Type} [FileSystem σ]

theorem value_bind (x : Script α) (f : α → Script β) (s : σ) :
    ((x >>= f).run s).value = ((f (x.run s).value).run (x.run s).files).value := by
  rw [run_bind]

@[simp] theorem run_pure (a : α) (s : σ) : (pure a : Script α).run s = ⟨a, s, []⟩ := rfl

@[simp] theorem value_say (j : Journal) (s : σ) : ((say j).run s).value = () := rfl

@[simp] theorem files_say (j : Journal) (s : σ) : ((say j).run s).files = s := rfl

/-- Whatever is answered on the way, the value has the property. -/
def Ensures (P : α → Prop) : Script α → Prop
  | .done a => P a
  | .read _ k => ∀ r, Ensures P (k r)
  | .isFile _ k => ∀ r, Ensures P (k r)
  | .canonical _ k => ∀ r, Ensures P (k r)
  | .write _ _ k => ∀ r, Ensures P (k r)
  | .append _ _ k => ∀ r, Ensures P (k r)
  | .makeDirectories _ k => ∀ r, Ensures P (k r)
  | .note _ k => Ensures P k

theorem ensures_pure {P : α → Prop} {a : α} (h : P a) : (pure a : Script α).Ensures P := h

theorem Ensures.bind {P : α → Prop} {Q : β → Prop} {x : Script α} {f : α → Script β}
    (h : x.Ensures P) (next : ∀ a, P a → (f a).Ensures Q) : (x >>= f).Ensures Q := by
  change (x.bind f).Ensures Q
  induction x with
  | done a => exact next a h
  | note j k ih => exact ih h
  | _ => exact fun r => by rename_i ih; exact ih r (h r)

theorem ensures_trivial (x : Script α) : x.Ensures fun _ => True := by
  induction x with
  | done a => trivial
  | note j k ih => exact ih
  | _ => exact fun r => by rename_i ih; exact ih r

/-- A step whose value does not matter. -/
theorem ensures_next {Q : β → Prop} (x : Script α) {f : α → Script β} (next : ∀ a, (f a).Ensures Q) :
    (x >>= f).Ensures Q :=
  (ensures_trivial x).bind fun a _ => next a

theorem Ensures.mono {P Q : α → Prop} {x : Script α} (h : x.Ensures P) (le : ∀ a, P a → Q a) :
    x.Ensures Q := by
  induction x with
  | done a => exact le a h
  | note j k ih => exact ih h
  | _ => exact fun r => by rename_i ih; exact ih r (h r)

/-- Some row of answers leads to the value. -/
def Yields (a : α) : Script α → Prop
  | .done b => b = a
  | .read _ k => ∃ r, Yields a (k r)
  | .isFile _ k => ∃ r, Yields a (k r)
  | .canonical _ k => ∃ r, Yields a (k r)
  | .write _ _ k => ∃ r, Yields a (k r)
  | .append _ _ k => ∃ r, Yields a (k r)
  | .makeDirectories _ k => ∃ r, Yields a (k r)
  | .note _ k => Yields a k

theorem Ensures.yields {P : α → Prop} {x : Script α} {a : α} (h : x.Ensures P) (y : x.Yields a) :
    P a := by
  induction x with
  | done b => exact (show b = a from y) ▸ h
  | note j k ih => exact ih h y
  | _ =>
      rename_i ih
      obtain ⟨r, y⟩ := y
      exact ih r (h r) y

theorem yields_run (x : Script α) (s : σ) : x.Yields (x.run s).value := by
  induction x generalizing s with
  | done a => rfl
  | note j k ih => exact ih s
  | read p k ih => exact ⟨_, ih _ s⟩
  | isFile p k ih => exact ⟨_, ih _ s⟩
  | canonical p k ih => exact ⟨_, ih _ s⟩
  | write p b k ih => exact ⟨_, ih _ _⟩
  | append p b k ih => exact ⟨_, ih _ _⟩
  | makeDirectories p k ih => exact ⟨_, ih _ _⟩

theorem Ensures.run {P : α → Prop} {x : Script α} (h : x.Ensures P) (s : σ) : P (x.run s).value :=
  h.yields (yields_run x s)

/-- The script asks and notes, but changes no file. -/
def Asks : Script α → Prop
  | .done _ => True
  | .read _ k => ∀ r, Asks (k r)
  | .isFile _ k => ∀ r, Asks (k r)
  | .canonical _ k => ∀ r, Asks (k r)
  | .write .. => False
  | .append .. => False
  | .makeDirectories .. => False
  | .note _ k => Asks k

theorem asks_pure (a : α) : (pure a : Script α).Asks := trivial

theorem asks_say (j : Journal) : (say j).Asks := trivial

theorem asks_readFile (p : Path) : (readFile p).Asks := fun _ => trivial

theorem asks_askFile (p : Path) : (askFile p).Asks := fun _ => trivial

theorem asks_askCanonical (p : Path) : (askCanonical p).Asks := fun _ => trivial

theorem Asks.bind {x : Script α} {f : α → Script β} (h : x.Asks) (next : ∀ a, (f a).Asks) :
    (x >>= f).Asks := by
  change (x.bind f).Asks
  induction x with
  | done a => exact next a
  | note j k ih => exact ih h
  | read p k ih => exact fun r => ih r (h r)
  | isFile p k ih => exact fun r => ih r (h r)
  | canonical p k ih => exact fun r => ih r (h r)
  | write p b k ih => exact h.elim
  | append p b k ih => exact h.elim
  | makeDirectories p k ih => exact h.elim

theorem Asks.files {x : Script α} (h : x.Asks) (s : σ) : (x.run s).files = s := by
  induction x generalizing s with
  | done a => rfl
  | note j k ih => exact ih h s
  | read p k ih => exact ih _ (h _) s
  | isFile p k ih => exact ih _ (h _) s
  | canonical p k ih => exact ih _ (h _) s
  | write p b k ih => exact h.elim
  | append p b k ih => exact h.elim
  | makeDirectories p k ih => exact h.elim

end Companions.Script
