import Companions.Table
/-!
Tables: what is found under a key, and what entering a value changes.
-/
namespace Companions.Table

variable {α β : Type} {t : Table α} {key : String} {a : α}

theorem mem_entries (h : t.get? key = some a) : (key, a) ∈ t.entries := by
  obtain ⟨entries⟩ := t
  induction entries with
  | nil => cases h
  | cons e entries ih =>
      obtain ⟨k, b⟩ := e
      rw [get?, List.lookup_cons] at h
      cases hkey : key == k with
      | true =>
          rw [hkey] at h
          cases h
          exact eq_of_beq hkey ▸ List.mem_cons_self
      | false =>
          rw [hkey] at h
          exact List.mem_cons_of_mem _ (ih h)

theorem mem_values (h : t.get? key = some a) : a ∈ t.values :=
  List.mem_map_of_mem (mem_entries h)

theorem contains_iff : t.contains key ↔ key ∈ t.keys := by
  obtain ⟨entries⟩ := t
  induction entries with
  | nil => exact ⟨nofun, nofun⟩
  | cons e entries ih =>
      obtain ⟨k, a⟩ := e
      rw [contains, get?, List.lookup_cons]
      cases same : key == k with
      | true => exact iff_of_true rfl (eq_of_beq same ▸ List.mem_cons_self)
      | false =>
          refine ih.trans ⟨List.mem_cons_of_mem k, fun h => ?_⟩
          exact (List.mem_cons.mp h).resolve_left (ne_of_beq_false same)

theorem get?_snoc (t : Table α) (k : String) (a : α) :
    (⟨t.entries ++ [(k, a)]⟩ : Table α).get? key =
      (t.get? key).or (if key = k then some a else none) := by
  rw [get?, List.lookup_append, get?, List.lookup_cons]
  by_cases same : key = k
  · rw [if_pos same, beq_iff_eq.mpr same]
  · rw [if_neg same, beq_eq_false_iff_ne.mpr same]
    rfl

theorem get?_insertNew (t : Table α) (k : String) (a : α) :
    (t.insertNew k a).get? key = if key = k then some ((t.get? k).getD a) else t.get? key := by
  unfold insertNew
  by_cases present : t.contains k
  · obtain ⟨b, found⟩ := Option.isSome_iff_exists.mp present
    rw [if_pos present, found]
    split
    · next same => rw [same, found]; rfl
    · rfl
  · have missing : t.get? k = none := by simpa [contains] using present
    rw [if_neg present, get?_snoc, missing]
    split
    · next same => rw [same, missing]; rfl
    · exact Option.or_none

theorem entries_insertNew (fresh : t.get? key = none) (a : α) :
    (t.insertNew key a).entries = t.entries ++ [(key, a)] := by
  rw [insertNew, contains, fresh]
  rfl

/-- Where no key comes twice, what is found under a key is what stands there. -/
theorem get?_eq_some_iff (distinct : t.keys.Nodup) : t.get? key = some a ↔ (key, a) ∈ t.entries := by
  constructor
  · exact mem_entries
  · intro mem
    obtain ⟨entries⟩ := t
    induction entries with
    | nil => cases mem
    | cons e entries ih =>
        obtain ⟨once, distinct⟩ := List.nodup_cons.mp distinct
        rw [get?, List.lookup_cons]
        rcases List.mem_cons.mp mem with rfl | mem
        · rw [beq_self_eq_true]
        · have other : (key == e.1) = false := by
            rw [beq_eq_false_iff_ne]
            rintro rfl
            exact once (List.mem_map.mpr ⟨_, mem, rfl⟩)
          rw [other]
          exact ih distinct mem

/-- The order of rows has no part in what is found. -/
theorem get?_congr_of_perm {t' : Table α} (distinct : t.keys.Nodup)
    (same : t.entries.Perm t'.entries) (key : String) : t.get? key = t'.get? key := by
  have distinct' : t'.keys.Nodup := (same.map Prod.fst).nodup_iff.mp distinct
  apply Option.ext
  intro a
  rw [get?_eq_some_iff distinct, get?_eq_some_iff distinct', same.mem_iff]

/-- Of values entered one after the other, the first one under a key stays. -/
theorem get?_foldl_insertNew (f : β → String) (bs : List β) (t : Table β) :
    (bs.foldl (fun t b => t.insertNew (f b) b) t).get? key =
      (t.get? key).or (bs.find? fun b => f b = key) := by
  induction bs generalizing t with
  | nil => exact Option.or_none.symm
  | cons b bs ih =>
      rw [List.foldl_cons, ih, get?_insertNew, List.find?_cons]
      by_cases here : f b = key
      · rw [if_pos here.symm, here]
        cases t.get? key <;> simp
      · rw [if_neg (Ne.symm here)]
        simp [here]

/-- Values under keys that differ, and that are new, are all entered. -/
theorem entries_foldl_insertNew {f : β → String} {bs : List β} {t : Table β}
    (distinct : (bs.map f).Nodup) (fresh : ∀ b ∈ bs, t.get? (f b) = none) :
    (bs.foldl (fun t b => t.insertNew (f b) b) t).entries =
      t.entries ++ bs.map fun b => (f b, b) := by
  induction bs generalizing t with
  | nil => exact (List.append_nil _).symm
  | cons b bs ih =>
      obtain ⟨other, distinct⟩ := List.nodup_cons.mp distinct
      obtain ⟨here, fresh⟩ := List.forall_mem_cons.mp fresh
      have missing : ∀ c ∈ bs, (t.insertNew (f b) b).get? (f c) = none := by
        intro c hc
        have differs : f c ≠ f b := fun same => other (List.mem_map.mpr ⟨c, hc, same⟩)
        rw [get?_insertNew, if_neg differs]
        exact fresh c hc
      rw [List.foldl_cons, ih distinct missing, entries_insertNew here, List.append_assoc]
      rfl

theorem mem_entries_insertNew {k : String} {a : α} {e : String × α}
    (h : e ∈ (t.insertNew k a).entries) : e ∈ t.entries ∨ e = (k, a) := by
  rw [insertNew] at h
  split at h
  · exact .inl h
  · exact (List.mem_append.mp h).imp_right List.mem_singleton.mp

theorem mem_values_insertNew {k : String} {a b : α} (h : b ∈ (t.insertNew k a).values) :
    b ∈ t.values ∨ b = a := by
  obtain ⟨e, he, rfl⟩ := List.mem_map.mp h
  rcases mem_entries_insertNew he with old | rfl
  · exact .inl (List.mem_map_of_mem old)
  · exact .inr rfl

theorem entries_subset_insertNew (t : Table α) (k : String) (a : α) :
    t.entries ⊆ (t.insertNew k a).entries := by
  rw [insertNew]
  split
  · exact List.Subset.refl _
  · exact List.subset_append_left ..

theorem mem_keys_insertNew (t : Table α) (k : String) (a : α) : k ∈ (t.insertNew k a).keys := by
  rw [← contains_iff, contains, get?_insertNew, if_pos rfl, Option.isSome_some]

theorem mem_entries_insert {k : String} {a : α} {e : String × α} (h : e ∈ (t.insert k a).entries) :
    e ∈ t.entries ∨ e = (k, a) := by
  rw [insert] at h
  split at h
  · obtain ⟨old, ho, rfl⟩ := List.mem_map.mp h
    split
    · exact .inr rfl
    · exact .inl ho
  · exact (List.mem_append.mp h).imp_right List.mem_singleton.mp

theorem lookup_replace (entries : List (String × α)) (k : String) (a : α) :
    (entries.map fun e => if e.1 = k then (k, a) else e).lookup key =
      if key = k then (entries.lookup k).map fun _ => a else entries.lookup key := by
  induction entries with
  | nil => simp
  | cons e entries ih =>
      obtain ⟨n, b⟩ := e
      rw [List.map_cons]
      by_cases here : n = k
      · rw [if_pos here, List.lookup_cons, ih, here, List.lookup_cons, List.lookup_cons]
        by_cases same : key = k
        · simp [same]
        · simp [same, beq_eq_false_iff_ne.mpr same]
      · rw [if_neg here, List.lookup_cons, ih, List.lookup_cons, List.lookup_cons]
        have other : (k == n) = false := beq_eq_false_iff_ne.mpr (Ne.symm here)
        rw [other]
        by_cases same : key = k
        · rw [if_pos same, if_pos same, same, other]
        · rw [if_neg same, if_neg same]

theorem get?_insert (t : Table α) (k : String) (a : α) :
    (t.insert k a).get? key = if key = k then some a else t.get? key := by
  unfold insert
  by_cases present : t.contains k
  · obtain ⟨b, found⟩ := Option.isSome_iff_exists.mp present
    have lookup : t.entries.lookup k = some b := found
    rw [if_pos present, get?, lookup_replace, lookup]
    rfl
  · have missing : t.get? k = none := by simpa [contains] using present
    rw [if_neg present, get?_snoc]
    split
    · next same => rw [same, missing]; rfl
    · exact Option.or_none

/-! ## Growth -/

/-- Whatever one table holds, the other holds under the same key. -/
def Extends (t t' : Table α) : Prop := ∀ key a, t.get? key = some a → t'.get? key = some a

theorem Extends.refl (t : Table α) : t.Extends t := fun _ _ h => h

theorem Extends.trans {t t' t'' : Table α} (h : t.Extends t') (h' : t'.Extends t'') :
    t.Extends t'' := fun key a held => h' key a (h key a held)

theorem extends_insertNew (t : Table α) (k : String) (b : α) : t.Extends (t.insertNew k b) := by
  intro key a held
  rw [get?_insertNew]
  split
  · next same =>
      rw [same] at held
      rw [held]
      rfl
  · exact held

/-! ## Values changed in place -/

/-- The table with `f` applied to every value. -/
def map (f : α → β) (t : Table α) : Table β := ⟨t.entries.map fun e => (e.1, f e.2)⟩

@[simp] theorem get?_map (f : α → β) (t : Table α) (key : String) :
    (t.map f).get? key = (t.get? key).map f := by
  obtain ⟨entries⟩ := t
  induction entries with
  | nil => rfl
  | cons e entries ih =>
      obtain ⟨k, a⟩ := e
      simp only [map, get?, List.map_cons, List.lookup_cons] at ih ⊢
      cases key == k <;> simp [ih]

@[simp] theorem values_map (f : α → β) (t : Table α) : (t.map f).values = t.values.map f := by
  simp [map, values, Function.comp_def]

end Companions.Table
