import Mathlib.Data.List.Induction
import Mathlib.Data.List.Nodup
import Companions.Authoring
/-!
Grouping. Shapes are put into groups one by one; what comes out is told by the unique names alone:
for each name in the order of first occurrence, the shapes of that name in their order. Only one
list is like this, so grouping it once more leaves it as it is.
-/
namespace Companions

section

variable {α : Type} [BEq α] [LawfulBEq α]

theorem eraseDups_snoc (as : List α) (a : α) :
    (as ++ [a]).eraseDups = if as.contains a then as.eraseDups else as.eraseDups ++ [a] := by
  rw [List.eraseDups_append]
  cases met : as.contains a with
  | true =>
      have old : a ∈ as := List.contains_iff_mem.mp met
      simp [List.removeAll, old]
  | false =>
      have new : a ∉ as := by simpa using met
      simp [List.removeAll, new, List.eraseDups_cons]

/-- Distinct items come in the order of their first places. -/
theorem pairwise_idxOf_eraseDups (as : List α) :
    as.eraseDups.Pairwise fun a b => as.idxOf a < as.idxOf b := by
  induction as using List.reverseRecOn with
  | nil => exact .nil
  | append_singleton as a ih =>
      have place : ∀ b ∈ as.eraseDups, (as ++ [a]).idxOf b = as.idxOf b :=
        fun b hb => List.idxOf_append_of_mem (List.mem_eraseDups.mp hb)
      have kept : as.eraseDups.Pairwise fun b c => (as ++ [a]).idxOf b < (as ++ [a]).idxOf c := by
        apply ih.imp_of_mem
        intro b c hb hc lt
        rw [place b hb, place c hc]
        exact lt
      rw [eraseDups_snoc]
      split
      · exact kept
      · next new =>
          have last : (as ++ [a]).idxOf a = as.length := by
            rw [List.idxOf_append_of_notMem (mt List.contains_iff_mem.mpr new),
              List.idxOf_cons_self, Nat.add_zero]
          refine List.pairwise_append.mpr ⟨kept, List.pairwise_singleton .., ?_⟩
          intro b hb c hc
          rw [List.mem_singleton.mp hc, place b hb, last]
          exact List.idxOf_lt_length_iff.mpr (List.mem_eraseDups.mp hb)

theorem nodup_eraseDups (as : List α) : as.eraseDups.Nodup := by
  apply (pairwise_idxOf_eraseDups as).imp
  intro a b lt same
  exact Nat.lt_irrefl _ (same ▸ lt)

/-- Items sorted by numbers that tell them apart stand beside their equals, so they also come in the
order of their first places. -/
theorem pairwise_idxOf_of_sorted {p : α → Nat} {as : List α}
    (apart : ∀ a ∈ as, ∀ b ∈ as, p a = p b → a = b) (sorted : as.Pairwise fun a b => p a ≤ p b) :
    as.Pairwise fun a b => as.idxOf a ≤ as.idxOf b := by
  induction as with
  | nil => exact .nil
  | cons a as ih =>
      obtain ⟨least, rest⟩ := List.pairwise_cons.mp sorted
      have inner := ih (fun b hb c hc => apart b (.tail a hb) c (.tail a hc)) rest
      apply List.pairwise_cons.mpr
      constructor
      · intro b _
        rw [List.idxOf_cons_self]
        exact Nat.zero_le _
      · apply (inner.and rest).imp_of_mem
        rintro b c hb hc ⟨le, below⟩
        by_cases first : a = b
        · rw [first, List.idxOf_cons_self]
          exact Nat.zero_le _
        · -- Were `c` the first item again, `b` between the two would have its number.
          have later : a ≠ c := by
            rintro rfl
            have same := Nat.le_antisymm (least b hb) below
            exact first (apart a List.mem_cons_self b (.tail a hb) same)
          rw [List.idxOf_cons_ne as first, List.idxOf_cons_ne as later]
          exact Nat.succ_le_succ le

end

namespace TypeRef

/-- The shapes of the list that have the name, in their order. -/
def ofName (ts : List TypeRef) (name : String) : List TypeRef := ts.filter (·.uniqueName = name)

/-- For each unique name, in the order in which they come first, the shapes of that name. -/
def byName (ts : List TypeRef) : List TypeRef :=
  (ts.map uniqueName).eraseDups.flatMap (ofName ts)

theorem mem_ofName {ts : List TypeRef} {t : TypeRef} {name : String} :
    t ∈ ofName ts name ↔ t ∈ ts ∧ t.uniqueName = name := by
  simp [ofName]

theorem ofName_eq_nil_iff {ts : List TypeRef} {name : String} :
    ofName ts name = [] ↔ ∀ t ∈ ts, t.uniqueName ≠ name := by
  simp [ofName]

theorem ofName_cons_same {ts : List TypeRef} {t : TypeRef} {name : String}
    (h : t.uniqueName = name) : ofName (t :: ts) name = t :: ofName ts name := by
  simp [ofName, h]

theorem ofName_cons_other {ts : List TypeRef} {t : TypeRef} {name : String}
    (h : t.uniqueName ≠ name) : ofName (t :: ts) name = ofName ts name := by
  simp [ofName, h]

theorem ofName_append (ts us : List TypeRef) (name : String) :
    ofName (ts ++ us) name = ofName ts name ++ ofName us name := List.filter_append ..

theorem ofName_ofName (ts : List TypeRef) (name : String) :
    ofName (ofName ts name) name = ofName ts name := by
  simp [ofName]

theorem ofName_snoc_same {ts : List TypeRef} {t : TypeRef} {name : String}
    (h : t.uniqueName = name) : ofName (ts ++ [t]) name = ofName ts name ++ [t] := by
  simp [ofName, h]

theorem ofName_snoc_other {ts : List TypeRef} {t : TypeRef} {name : String}
    (h : t.uniqueName ≠ name) : ofName (ts ++ [t]) name = ofName ts name := by
  simp [ofName, h]

/-- The first shape of a group has the name of the group. -/
theorem head?_ofName {ts : List TypeRef} {name : String} (h : name ∈ ts.map uniqueName) :
    (ofName ts name).head?.map uniqueName = some name := by
  obtain ⟨t, ht, same⟩ := List.mem_map.mp h
  have mem : t ∈ ofName ts name := mem_ofName.mpr ⟨ht, same⟩
  cases first : ofName ts name with
  | nil =>
      rw [first] at mem
      cases mem
  | cons u us =>
      have listed : u ∈ ofName ts name := first ▸ List.mem_cons_self
      rw [List.head?_cons, Option.map_some, (mem_ofName.mp listed).2]

/-- A shape is put behind those of its name; without any, it makes a group of its own. -/
theorem placeInGroup_ofName {ts : List TypeRef} (t : TypeRef) {names : List String}
    (distinct : names.Nodup) (named : ∀ n ∈ names, n ∈ ts.map uniqueName) :
    t.placeInGroup (names.map (ofName ts)) =
      if t.uniqueName ∈ names then names.map (ofName (ts ++ [t]))
      else names.map (ofName (ts ++ [t])) ++ [[t]] := by
  induction names with
  | nil => rfl
  | cons n names ih =>
      obtain ⟨once, distinct⟩ := List.nodup_cons.mp distinct
      obtain ⟨here, named⟩ := List.forall_mem_cons.mp named
      rw [List.map_cons, placeInGroup, head?_ofName here, List.map_cons]
      by_cases same : t.uniqueName = n
      · have others : names.map (ofName (ts ++ [t])) = names.map (ofName ts) := by
          apply List.map_congr_left
          intro m hm
          apply ofName_snoc_other
          rintro rfl
          exact once (same ▸ hm)
        rw [if_pos (by rw [same]), if_pos (by simp [same]), ofName_snoc_same same, others]
      · rw [if_neg (by simpa using Ne.symm same), ih distinct named, ofName_snoc_other same]
        by_cases later : t.uniqueName ∈ names
        · rw [if_pos later, if_pos (List.mem_cons_of_mem n later)]
        · rw [if_neg later, if_neg (by simp [same, later])]
          rfl

/-- Placed one after the other, the shapes stand in groups by name. -/
theorem groups_eq (ts : List TypeRef) :
    ts.foldl (fun gs t => t.placeInGroup gs) [] = (ts.map uniqueName).eraseDups.map (ofName ts) := by
  induction ts using List.reverseRecOn with
  | nil => rfl
  | append_singleton ts t ih =>
      have named : ∀ n ∈ (ts.map uniqueName).eraseDups, n ∈ ts.map uniqueName :=
        fun n hn => List.mem_eraseDups.mp hn
      rw [List.foldl_append, ih, List.foldl_cons, List.foldl_nil,
        placeInGroup_ofName t (nodup_eraseDups _) named, List.map_append, List.map_singleton,
        eraseDups_snoc]
      by_cases met : t.uniqueName ∈ ts.map uniqueName
      · rw [if_pos (List.mem_eraseDups.mpr met), if_pos (List.contains_iff_mem.mpr met)]
      · have alone : ofName (ts ++ [t]) t.uniqueName = [t] := by
          have none : ofName ts t.uniqueName = [] :=
            ofName_eq_nil_iff.mpr fun u hu same => met (List.mem_map.mpr ⟨u, hu, same⟩)
          rw [ofName_snoc_same rfl, none, List.nil_append]
        rw [if_neg (mt List.mem_eraseDups.mp met), if_neg (mt List.contains_iff_mem.mp met),
          List.map_append, List.map_singleton, alone]

theorem grouped_eq_byName (ts : List TypeRef) : grouped ts = byName ts := by
  rw [grouped, groups_eq, byName, List.flatMap]

/-! ## The one list in groups -/

/-- The names of the shapes come in the order in which `names` has them first. -/
def Follows (names : List String) (us : List TypeRef) : Prop :=
  (us.map uniqueName).Pairwise fun a b => names.idxOf a ≤ names.idxOf b

/-- `us` has the shapes of `ts` in groups, one for each unique name. -/
structure Gathers (ts us : List TypeRef) : Prop where
  /-- The shapes of a name stand side by side, in their order in `ts`, and nowhere else. -/
  together (name : String) : ∃ before after, us = before ++ ofName ts name ++ after ∧
    ∀ t ∈ before ++ after, t.uniqueName ≠ name
  /-- The groups come in the order in which `ts` has their first members. -/
  ordered : Follows (ts.map uniqueName) us

theorem mem_byName {ts : List TypeRef} {t : TypeRef} (h : t ∈ byName ts) : t ∈ ts := by
  obtain ⟨name, _, mem⟩ := List.mem_flatMap.mp h
  exact (mem_ofName.mp mem).1

theorem byName_together (ts : List TypeRef) (name : String) :
    ∃ before after, byName ts = before ++ ofName ts name ++ after ∧
      ∀ t ∈ before ++ after, t.uniqueName ≠ name := by
  by_cases listed : name ∈ ts.map uniqueName
  · obtain ⟨before, after, cut⟩ := List.append_of_mem (List.mem_eraseDups.mpr listed)
    have distinct := nodup_eraseDups (ts.map uniqueName)
    rw [cut] at distinct
    obtain ⟨once, _⟩ := List.nodup_cons.mp (List.nodup_middle.mp distinct)
    refine ⟨before.flatMap (ofName ts), after.flatMap (ofName ts), ?_, ?_⟩
    · rw [byName, cut, List.flatMap_append, List.flatMap_cons, List.append_assoc]
    · intro t ht named
      rw [← List.flatMap_append] at ht
      obtain ⟨other, listed, mem⟩ := List.mem_flatMap.mp ht
      have same : other = name := (mem_ofName.mp mem).2.symm.trans named
      exact once (same ▸ listed)
  · have unnamed : ∀ t ∈ ts, t.uniqueName ≠ name :=
      fun t ht same => listed (List.mem_map.mpr ⟨t, ht, same⟩)
    refine ⟨byName ts, [], ?_, ?_⟩
    · rw [ofName_eq_nil_iff.mpr unnamed, List.append_nil, List.append_nil]
    · intro t ht
      rw [List.append_nil] at ht
      exact unnamed t (mem_byName ht)

theorem byName_follows (ts : List TypeRef) : Follows (ts.map uniqueName) (byName ts) := by
  apply List.pairwise_map.mpr
  apply List.pairwise_flatMap.mpr
  constructor
  · intro name _
    apply List.pairwise_of_forall_mem_list
    intro t ht u hu
    have same : t.uniqueName = u.uniqueName :=
      (mem_ofName.mp ht).2.trans (mem_ofName.mp hu).2.symm
    exact Nat.le_of_eq (by rw [same])
  · apply (pairwise_idxOf_eraseDups (ts.map uniqueName)).imp
    intro name name' lt t ht u hu
    rw [(mem_ofName.mp ht).2, (mem_ofName.mp hu).2]
    exact Nat.le_of_lt lt

theorem gathers_grouped (ts : List TypeRef) : Gathers ts (grouped ts) := by
  rw [grouped_eq_byName]
  exact ⟨byName_together ts, byName_follows ts⟩

/-- Lists that have the same shapes of each name have the same shapes. -/
theorem perm_of_ofName_eq {us us' : List TypeRef}
    (same : ∀ name, ofName us name = ofName us' name) : us.Perm us' := by
  apply List.perm_iff_count.mpr
  intro t
  have own : ∀ vs : List TypeRef, (ofName vs t.uniqueName).count t = vs.count t :=
    fun vs => List.count_filter (decide_eq_true rfl)
  rw [← own us, same, own us']

theorem Follows.head_le {names : List String} {t u : TypeRef} {us : List TypeRef}
    (h : Follows names (t :: us)) (mem : u ∈ t :: us) :
    names.idxOf t.uniqueName ≤ names.idxOf u.uniqueName := by
  rcases List.mem_cons.mp mem with rfl | later
  · exact Nat.le_refl _
  · exact (List.pairwise_cons.mp h).1 u.uniqueName (List.mem_map_of_mem later)

/-- Of two lists that follow the same names, neither has a name ahead of the first name of the
other. So if they have the same shapes of each name, they begin with the same shape. -/
theorem Follows.unique {names : List String} {us us' : List TypeRef} (h : Follows names us)
    (h' : Follows names us') (listed : ∀ t ∈ us, t.uniqueName ∈ names)
    (same : ∀ name, ofName us name = ofName us' name) : us = us' := by
  induction us generalizing us' with
  | nil => exact (perm_of_ofName_eq same).nil_eq
  | cons t us ih =>
      have perm := perm_of_ofName_eq same
      cases us' with
      | nil => exact perm.eq_nil
      | cons t' us' =>
          have ahead := h.head_le (perm.mem_iff.mpr List.mem_cons_self)
          have behind := h'.head_le (perm.mem_iff.mp List.mem_cons_self)
          have named : t.uniqueName = t'.uniqueName :=
            (List.idxOf_inj (listed t List.mem_cons_self)).mp (Nat.le_antisymm ahead behind)
          have first := same t.uniqueName
          rw [ofName_cons_same rfl, ofName_cons_same named.symm] at first
          obtain ⟨rfl, _⟩ := List.cons.inj first
          have rest : ∀ name, ofName us name = ofName us' name := by
            intro name
            have both := same name
            by_cases here : t.uniqueName = name
            · rw [ofName_cons_same here, ofName_cons_same here] at both
              exact (List.cons.inj both).2
            · rw [ofName_cons_other here, ofName_cons_other here] at both
              exact both
          rw [ih h.of_cons h'.of_cons (fun u hu => listed u (.tail t hu)) rest]

namespace Gathers

variable {ts us us' : List TypeRef}

/-- Each name keeps its shapes in their order. -/
theorem ofName_eq (h : Gathers ts us) (name : String) : ofName us name = ofName ts name := by
  obtain ⟨before, after, cut, others⟩ := h.together name
  have ahead : ofName before name = [] :=
    ofName_eq_nil_iff.mpr fun t ht => others t (List.mem_append_left after ht)
  have behind : ofName after name = [] :=
    ofName_eq_nil_iff.mpr fun t ht => others t (List.mem_append_right before ht)
  rw [cut, ofName_append, ofName_append, ahead, behind, ofName_ofName, List.nil_append,
    List.append_nil]

theorem perm (h : Gathers ts us) : us.Perm ts := perm_of_ofName_eq h.ofName_eq

theorem listed (h : Gathers ts us) {t : TypeRef} (ht : t ∈ us) :
    t.uniqueName ∈ ts.map uniqueName :=
  List.mem_map_of_mem (h.perm.mem_iff.mp ht)

theorem unique (h : Gathers ts us) (h' : Gathers ts us') : us = us' := by
  refine h.ordered.unique h'.ordered (fun t => h.listed) ?_
  intro name
  rw [h.ofName_eq, h'.ofName_eq]

/-- A list in groups has its own shapes in groups. -/
theorem again (h : Gathers ts us) : Gathers us us := by
  constructor
  · intro name
    rw [h.ofName_eq]
    exact h.together name
  · apply pairwise_idxOf_of_sorted _ h.ordered
    intro name listed name' _ same
    obtain ⟨t, ht, rfl⟩ := List.mem_map.mp listed
    exact (List.idxOf_inj (h.listed ht)).mp same

end Gathers

/-- Grouping rearranges the shapes: those of each name stand side by side in the order that they
had, and the names come in the order in which the list had them first. No other list is like this,
and grouping it again changes nothing. -/
theorem grouped_exact (ts : List TypeRef) :
    (grouped ts).Perm ts ∧ (∀ us, Gathers ts us ↔ us = grouped ts) ∧
      grouped (grouped ts) = grouped ts := by
  have gathers := gathers_grouped ts
  refine ⟨gathers.perm, ?_, ?_⟩
  · intro us
    constructor
    · intro h
      exact h.unique gathers
    · rintro rfl
      exact gathers
  · exact (gathers_grouped (grouped ts)).unique gathers.again

/-- Two parameters of one unique name, which their own names tell apart. -/
example : grouped [.param 0 "T", .named "Game" "B", .param 0 "U", .named "Game" "B"] =
    [.param 0 "T", .param 0 "U", .named "Game" "B", .named "Game" "B"] := by decide +kernel

end TypeRef
end Companions
