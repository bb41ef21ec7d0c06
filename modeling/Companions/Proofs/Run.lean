import Companions.PostProcess
import Companions.Proofs.Cache
import Companions.Proofs.Pass
/-!
A run in two parts: the context is opened, which asks the file system, and the pass over it is
computed, which does not.
-/
namespace Companions

namespace Context

/-- A context of an image and its references has what the image alone has and each reference keeps. -/
theorem close_keeps {P : Context → Prop} (step : ∀ c m, P c → P (c.addReference m)) (n : Nat)
    {c : Context} (h : P c) (r : Resolver) (queue : List Identity) :
    (close n c r queue).Ensures fun x => P x.2 := by
  induction n generalizing c r queue with
  | zero =>
      unfold close
      split
      · exact Script.ensures_next _ fun _ => Script.ensures_pure h
      · exact Script.ensures_pure h
  | succ n ih =>
      unfold close
      refine Script.ensures_next _ fun found => ?_
      obtain ⟨r, _ | ⟨m, queue⟩⟩ := found
      · exact Script.ensures_pure h
      · exact ih (step c m h) r _

theorem build_keeps {P : Context → Prop} (step : ∀ c m, P c → P (c.addReference m)) {m : Image}
    (h : P { target := m }) (r : Resolver) : (build m r).Ensures fun x => P x.2 := by
  unfold build
  refine (close_keeps step maxReferences h r m.references).bind fun built kept => ?_
  exact Script.ensures_next _ fun _ => Script.ensures_pure kept

end Context

namespace Processor

/-- The context that a pass over an image works in. -/
def opened (p : Processor) (m : Image) (references : List Path) :
    Script (Resolver × Except ImageError Context) := do
  match ← Resolver.make p.cache references p.config.resolveAdditional with
  | (r, .error e) => return (r, .error e)
  | (r, .ok ()) =>
    let (r, c) ← Context.build m r
    return (r, .ok c)

/-- What a pass over a context comes to. -/
def concluded (p : Processor) (budget : Nat) (m : Image) (c : Context) :
    Attempt PostProcessError Outcome :=
  ((c.postProcess budget p.config).result.mapError .synthesis).map
    fun (image, fields, injected, difference) =>
      { image, fields, injected, difference,
        log := Journal.lines ([.line s!"Processing assembly {m.identity.display}"] ++
          (c.postProcess budget p.config).journal) }

variable {σ : Type} [FileSystem σ]

theorem run_value (p : Processor) (budget : Nat) (m : Image) (references : List Path) (s : σ) :
    ((p.run budget m references).run s).value =
      match ((p.opened m references).run s).value with
      | (r, .error e) => ({ p with cache := r.cache }, .failed (.image e))
      | (r, .ok c) => ({ p with cache := r.cache }, p.concluded budget m c) := by
  simp only [run, runInside, opened, Script.value_bind, Script.files_say, Script.run_pure]
  obtain ⟨⟨r, made⟩, s, j⟩ := (Resolver.make p.cache references p.config.resolveAdditional).run s
  cases made with
  | error e => rfl
  | ok u =>
      simp only [Script.value_bind, Script.files_say, Script.run_pure, concluded]
      cases (((Context.build m r).run s).value.2.postProcess budget p.config).result with
      | failed e => rfl
      | unfinished => rfl
      | done o =>
          simp only [Script.value_bind]
          rfl

theorem opened_keeps {P : Context → Prop} (step : ∀ c m, P c → P (c.addReference m)) (p : Processor)
    {m : Image} (h : P { target := m }) (references : List Path) :
    (p.opened m references).Ensures fun x => ∀ c, x.2 = .ok c → P c := by
  unfold opened
  refine Script.ensures_next _ fun made => ?_
  obtain ⟨r, e | u⟩ := made
  · exact Script.ensures_pure fun c h => nomatch h
  · refine (Context.build_keeps step h r).bind fun built kept => Script.ensures_pure ?_
    rintro c ⟨⟩
    exact kept

theorem opened_target (p : Processor) (m : Image) (references : List Path) :
    (p.opened m references).Ensures fun x => ∀ c, x.2 = .ok c → c.target = m :=
  opened_keeps (P := fun c => c.target = m) (fun _ _ same => same) p rfl references

/-- A run that ends in a value has opened a context for its image and passed over it. -/
theorem done_of_run {p p' : Processor} {budget : Nat} {m : Image} {references : List Path} {s : σ}
    {o : Outcome} (h : ((p.run budget m references).run s).value = (p', .done o)) :
    ∃ r c, ((p.opened m references).run s).value = (r, .ok c) ∧ p' = { p with cache := r.cache } ∧
      c.target = m ∧
      (c.postProcess budget p.config).result = .done (o.image, o.fields, o.injected, o.difference) := by
  rw [run_value] at h
  have target := (opened_target p m references).run s
  generalize ((p.opened m references).run s).value = opened at h target ⊢
  obtain ⟨r, e | c⟩ := opened
  · cases h
  · obtain ⟨rfl, done⟩ := Prod.mk.inj h
    refine ⟨r, c, rfl, rfl, target c rfl, ?_⟩
    rw [concluded] at done
    cases result : (c.postProcess budget p.config).result with
    | failed e => rw [result] at done; cases done
    | unfinished => rw [result] at done; cases done
    | done x =>
        rw [result] at done
        cases done
        rfl

theorem run_of_done {p : Processor} {budget : Nat} {m : Image} {references : List Path} {s : σ}
    {r : Resolver} {c : Context} (opened : ((p.opened m references).run s).value = (r, .ok c))
    {image : Image} {fields : List AuthoringField} {injected : List Injected}
    {difference : Difference}
    (h : (c.postProcess budget p.config).result = .done (image, fields, injected, difference)) :
    ∃ o, ((p.run budget m references).run s).value = ({ p with cache := r.cache }, .done o) ∧
      o.image = image ∧ o.fields = fields ∧ o.injected = injected ∧ o.difference = difference := by
  rw [run_value, opened]
  simp only [concluded, h]
  exact ⟨_, rfl, rfl, rfl, rfl, rfl⟩

theorem value_runBytes (p : Processor) (budget : Nat) (image : Bytes) (symbols : Option Bytes)
    (references : List Path) (s : σ) :
    ((p.runBytes budget image symbols references).run s).value =
      match Image.read image symbols with
      | .error e => (p, .failed (.image e))
      | .ok m => ((p.run budget m references).run s).value := by
  rw [runBytes, Script.value_bind, (Image.asks_readNoted image symbols).files,
    Image.value_readNoted]
  cases Image.read image symbols <;> rfl

/-- What comes out of an assembly in memory that is not ignored is the written image of a run over
the image that was read. -/
theorem process_done_iff {p p' : Processor} {budget : Nat} {name : String} {image : Bytes}
    {symbols : Option Bytes} {references : List Path} {s : σ} {out : ImageBytes} :
    ((p.process budget name image symbols references).run s).value = (p', .done (some out)) ↔
      p.config.shouldProcess name ∧ ∃ m o, Image.read image symbols = .ok m ∧
        ((p.run budget m references).run s).value = (p', .done o) ∧ o.image.write = .ok out := by
  rw [process]
  cases p.config.shouldProcess name with
  | false => exact ⟨nofun, nofun⟩
  | true =>
      rw [Bool.not_true, if_neg Bool.false_ne_true, Script.value_bind]
      have ran := value_runBytes p budget image symbols references s
      generalize ((p.runBytes budget image symbols references).run s).value = result at ran ⊢
      constructor
      · intro h
        obtain ⟨rfl, ended⟩ := Prod.mk.inj h
        obtain ⟨o, done, written⟩ := Attempt.bind_eq_done.mp ended
        refine ⟨rfl, ?_⟩
        split at ran
        · rw [ran] at done
          cases done
        · next m found =>
            refine ⟨m, o, found, by rw [← ran, ← done], ?_⟩
            split at written
            · next b wrote =>
                obtain rfl := Option.some.inj (Attempt.done.inj written)
                exact wrote
            · cases written
      · rintro ⟨-, m, o, found, done, wrote⟩
        rw [found] at ran
        obtain rfl := ran.trans done
        rw [Script.run_pure, Attempt.bind_done, wrote]

end Processor
end Companions
