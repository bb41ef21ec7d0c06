import Companions.Proofs.Relation.Budget
import Companions.Proofs.Relation.Termination
/-!
Searches. Against a named type nothing but names counts, so that a check is a search for a name among
the supertypes, and its outcome is told by a relation without a budget. Where one context has more
supertypes than another, but only such as do not lead to the name, a search makes detours in it and
comes to the same outcome.
-/
namespace Companions.Context

/-- The outcome of a search for a name among pending types and those above them: whether a type of
that name is met. -/
inductive Search (c : Context) (name : String) : List String → List TypeRef → Bool → Prop where
  | exhausted {visited : List String} : Search c name visited [] false
  | again {visited : List String} {t : TypeRef} {pending : List TypeRef} {found : Bool}
      (old : t.uniqueName ∈ visited) (rest : Search c name visited pending found) :
      Search c name visited (t :: pending) found
  | met {visited : List String} {t : TypeRef} {pending : List TypeRef}
      (new : t.uniqueName ∉ visited) (same : t.uniqueName = name) :
      Search c name visited (t :: pending) true
  | passed {visited : List String} {t : TypeRef} {pending : List TypeRef} {found : Bool}
      (new : t.uniqueName ∉ visited) (other : t.uniqueName ≠ name)
      (rest : Search c name (t.uniqueName :: visited) (c.next t ++ pending) found) :
      Search c name visited (t :: pending) found

section walk

variable {c : Context} {target : TypeRef} {fits : TypeRef → Option Verdict}

/-- A walk that nothing fits but by name is a search, and ends where the search does. -/
theorem search_iff_walk (never : ∀ t, fits t = some { holds := false }) {visited : List String}
    {pending : List TypeRef} {found : Bool} :
    c.Search target.uniqueName visited pending found ↔
      ∃ n v, c.walk target fits n visited pending = some v ∧ v.holds = found := by
  constructor
  · intro search
    induction search with
    | exhausted => exact ⟨0, _, rfl, rfl⟩
    | again old rest ih =>
        obtain ⟨n, v, walk, holds⟩ := ih
        exact ⟨n + 1, v, (walk_again old).trans walk, holds⟩
    | met new same => exact ⟨1, _, walk_name new same, rfl⟩
    | passed new other rest ih =>
        obtain ⟨n, v, walk, holds⟩ := ih
        exact ⟨n + 1, _, (walk_miss new other (never _) rfl).trans (congrArg _ walk), holds⟩
  · rintro ⟨n, v, walk, rfl⟩
    induction n generalizing visited pending v with
    | zero =>
        cases pending with
        | nil =>
            cases walk
            exact .exhausted
        | cons t pending => cases walk
    | succ n ih =>
        cases pending with
        | nil =>
            rw [Context.walk] at walk
            cases walk
            exact .exhausted
        | cons t pending =>
            obtain ⟨k, same, step⟩ := walk_cons walk
            obtain rfl := Nat.succ.inj same
            by_cases old : t.uniqueName ∈ visited
            · rw [walk_again old] at walk
              exact .again old (ih v walk)
            · cases step with
              | again met => exact absurd met old
              | name same verdict =>
                  rw [verdict]
                  exact .met old same
              | fit fit holds =>
                  rw [never t, Option.some.injEq] at fit
                  rw [← fit] at holds
                  cases holds
              | miss new other _ _ verdict rest =>
                  rw [verdict, after_holds]
                  exact .passed new other (ih _ rest)

/-- A check against a named type is a search for its name. -/
theorem search_iff_assignable? {s f : String} {t : TypeRef} {found : Bool} :
    c.Search (TypeRef.named s f).uniqueName [] [t] found ↔
      ∃ n v, c.assignable? n t (.named s f) = some v ∧ v.holds = found := by
  have never (n : Nat) (u : TypeRef) :
      argumentsMatch (c.checkAt n maxGenericDepth) u (.named s f) = some { holds := false } := by
    cases u <;> rfl
  constructor
  · intro search
    obtain ⟨n, v, walk, holds⟩ := (search_iff_walk (never 0)).mp search
    refine ⟨n, v, ?_, holds⟩
    rw [assignable?, checkAt, funext (never n), ← funext (never 0)]
    exact walk
  · rintro ⟨n, v, check, holds⟩
    exact (search_iff_walk (never n)).mpr ⟨n, v, check, holds⟩

end walk

/-! ## Detours -/

/-- References that do not lead to the name: no one of them has it, and what stands above one of them
is named as one of them. -/
structure Barren (c : Context) (name : String) (all : List TypeRef) : Prop where
  plain : ∀ t ∈ all, t.isPlain
  other : ∀ t ∈ all, t.uniqueName ≠ name
  closed : ∀ t ∈ all, ∀ u, c.Supertype t u → u.uniqueName ∈ all.map TypeRef.uniqueName

namespace Barren

variable {c : Context} {name : String} {all others : List TypeRef}

theorem nil : c.Barren name [] := ⟨nofun, nofun, nofun⟩

theorem append (h : c.Barren name all) (h' : c.Barren name others) :
    c.Barren name (all ++ others) where
  plain := List.forall_mem_append.mpr ⟨h.plain, h'.plain⟩
  other := List.forall_mem_append.mpr ⟨h.other, h'.other⟩
  closed t ht u up := by
    rw [List.map_append, List.mem_append]
    rcases List.mem_append.mp ht with mem | mem
    · exact .inl (h.closed t mem u up)
    · exact .inr (h'.closed t mem u up)

theorem other_of_mem (h : c.Barren name all) {n : String} (hn : n ∈ all.map TypeRef.uniqueName) :
    n ≠ name := by
  obtain ⟨t, ht, rfl⟩ := List.mem_map.mp hn
  exact h.other t ht

theorem above (h : c.Barren name all) {s u : TypeRef} (plain : s.isPlain)
    (mem : s.uniqueName ∈ all.map TypeRef.uniqueName) (up : c.Supertype s u) :
    u.uniqueName ∈ all.map TypeRef.uniqueName := by
  obtain ⟨t, ht, same⟩ := List.mem_map.mp mem
  obtain ⟨v, up', names⟩ := up.congr (TypeRef.positional_eq_of_uniqueName_eq plain (h.plain t ht) same.symm)
  rw [← TypeRef.uniqueName_positional, names, TypeRef.uniqueName_positional]
  exact h.closed t ht v up'

/-- What a search in vain has met is barren. -/
theorem of_search (hc : c.isPlain) {s f : String} {t : TypeRef} (ht : t.isPlain)
    (vain : c.Search (TypeRef.named s f).uniqueName [] [t] false) :
    ∃ all, c.Barren (TypeRef.named s f).uniqueName all ∧
      t.uniqueName ∈ all.map TypeRef.uniqueName := by
  obtain ⟨n, v, check, fails⟩ := search_iff_assignable?.mp vain
  obtain ⟨all, explored, met⟩ := checkAt_explored hc ht check fails
  obtain ⟨u, hu, same⟩ := met t .refl
  refine ⟨all, ⟨explored.plain, fun w hw => (explored.missed w hw).1, ?_⟩, ?_⟩
  · intro w hw u up
    exact (explored.closed w hw u up).resolve_right nofun
  · rw [← TypeRef.uniqueName_positional, ← same, TypeRef.uniqueName_positional]
    exact List.mem_map_of_mem hu

end Barren

/-- The later context has the supertypes of the earlier one. Where a type that had none has some now,
these do not lead to the name. -/
structure Detours (c c' : Context) (name : String) (all : List TypeRef) : Prop where
  plain : c.isPlain
  plain' : c'.isPlain
  barren : c'.Barren name all
  above : ∀ t, t.isPlain → c'.next t = c.next t ∨
    c.next t = [] ∧ ∀ u ∈ c'.next t, u.uniqueName ∈ all.map TypeRef.uniqueName

/-- Two stages of a search that differ in what is barren. -/
structure Astray (all : List TypeRef) (visited : List String) (pending : List TypeRef)
    (visited' : List String) (pending' : List TypeRef) : Prop where
  plain : ∀ t ∈ pending, t.isPlain
  plain' : ∀ t ∈ pending', t.isPlain
  visited : ∀ n, n ∉ all.map TypeRef.uniqueName → (n ∈ visited' ↔ n ∈ visited)
  pending : pending'.filter (fun t => t.uniqueName ∉ all.map TypeRef.uniqueName) =
    pending.filter fun t => t.uniqueName ∉ all.map TypeRef.uniqueName

section detours

variable {c c' : Context} {name : String} {all : List TypeRef}

theorem filter_eq_nil_of_barren {us : List TypeRef}
    (h : ∀ u ∈ us, u.uniqueName ∈ all.map TypeRef.uniqueName) :
    us.filter (fun t => t.uniqueName ∉ all.map TypeRef.uniqueName) = [] := by
  apply List.filter_eq_nil_iff.mpr
  intro u hu
  simpa using List.mem_map.mp (h u hu)

theorem next_plain (hc : c.isPlain) {t : TypeRef} (ht : t.isPlain) : ∀ u ∈ c.next t, u.isPlain :=
  fun _ hu => (mem_next.mp hu).plain hc ht

namespace Astray

variable {visited visited' visited'' : List String} {pending pending' pending'' : List TypeRef}
  {t : TypeRef}

theorem refl (visited : List String) (plain : ∀ t ∈ pending, t.isPlain) :
    Astray all visited pending visited pending :=
  ⟨plain, plain, fun _ _ => .rfl, rfl⟩

theorem symm (h : Astray all visited pending visited' pending') :
    Astray all visited' pending' visited pending :=
  ⟨h.plain', h.plain, fun n outside => (h.visited n outside).symm, h.pending.symm⟩

theorem trans (h : Astray all visited pending visited' pending')
    (h' : Astray all visited' pending' visited'' pending'') :
    Astray all visited pending visited'' pending'' where
  plain := h.plain
  plain' := h'.plain'
  visited n outside := (h'.visited n outside).trans (h.visited n outside)
  pending := h'.pending.trans h.pending

/-- A barren type is dropped on the one side. -/
theorem drop (h : Astray all visited (t :: pending) visited' pending')
    (inside : t.uniqueName ∈ all.map TypeRef.uniqueName) :
    Astray all visited pending visited' pending' where
  plain := (List.forall_mem_cons.mp h.plain).2
  plain' := h.plain'
  visited := h.visited
  pending := by
    rw [h.pending, List.filter_cons_of_neg (by simpa using List.mem_map.mp inside)]

/-- Barren types are pending on the one side. -/
theorem add {us : List TypeRef} (h : Astray all visited pending visited' pending')
    (plain : ∀ u ∈ us, u.isPlain) (inside : ∀ u ∈ us, u.uniqueName ∈ all.map TypeRef.uniqueName) :
    Astray all visited (us ++ pending) visited' pending' where
  plain := List.forall_mem_append.mpr ⟨plain, h.plain⟩
  plain' := h.plain'
  visited := h.visited
  pending := by
    rw [h.pending, List.filter_append, filter_eq_nil_of_barren inside, List.nil_append]

/-- A barren type is marked on the one side. -/
theorem mark (h : Astray all visited pending visited' pending') {n : String}
    (inside : n ∈ all.map TypeRef.uniqueName) :
    Astray all (n :: visited) pending visited' pending' where
  plain := h.plain
  plain' := h.plain'
  visited k outside := by
    rw [h.visited k outside, List.mem_cons, or_iff_right]
    rintro rfl
    exact outside inside
  pending := h.pending

theorem nil (h : Astray all visited [] visited' pending')
    (head : ∀ t ∈ pending'.head?, t.uniqueName ∉ all.map TypeRef.uniqueName) : pending' = [] := by
  cases pending' with
  | nil => rfl
  | cons t rest =>
      have same := h.pending
      rw [List.filter_cons_of_pos (by simpa using head t rfl)] at same
      cases same

/-- A type that is not barren comes next on the other side too. -/
theorem cons (h : Astray all visited (t :: pending) visited' pending')
    (outside : t.uniqueName ∉ all.map TypeRef.uniqueName)
    (head : ∀ t ∈ pending'.head?, t.uniqueName ∉ all.map TypeRef.uniqueName) :
    ∃ rest, pending' = t :: rest ∧ Astray all visited pending visited' rest := by
  have same := h.pending
  rw [List.filter_cons_of_pos (by simpa using outside)] at same
  cases pending' with
  | nil => cases same
  | cons u rest =>
      rw [List.filter_cons_of_pos (by simpa using head u rfl)] at same
      obtain ⟨rfl, others⟩ := List.cons.inj same
      exact ⟨rest, rfl, (List.forall_mem_cons.mp h.plain).2, (List.forall_mem_cons.mp h.plain').2,
        h.visited, others⟩

/-- On both sides a type is marked, and what stands above it is pending. -/
theorem both (h : Astray all visited pending visited' pending') (n : String) {us us' : List TypeRef}
    (plain : ∀ u ∈ us, u.isPlain) (plain' : ∀ u ∈ us', u.isPlain)
    (same : us'.filter (fun t => t.uniqueName ∉ all.map TypeRef.uniqueName) =
      us.filter fun t => t.uniqueName ∉ all.map TypeRef.uniqueName) :
    Astray all (n :: visited) (us ++ pending) (n :: visited') (us' ++ pending') where
  plain := List.forall_mem_append.mpr ⟨plain, h.plain⟩
  plain' := List.forall_mem_append.mpr ⟨plain', h.plain'⟩
  visited k outside := by
    rw [List.mem_cons, List.mem_cons, h.visited k outside]
  pending := by
    rw [List.filter_append, List.filter_append, same, h.pending]

end Astray

/-- Barren types in front are passed by: each of them is marked, or was marked before. -/
theorem Barren.pass_by (hc : c.isPlain) (h : c.Barren name all) (visited : List String)
    (pending : List TypeRef) (plain : ∀ t ∈ pending, t.isPlain) :
    ∃ visited' pending', Astray all visited pending visited' pending' ∧
      (∀ t ∈ pending'.head?, t.uniqueName ∉ all.map TypeRef.uniqueName) ∧
      ∀ found, c.Search name visited' pending' found → c.Search name visited pending found := by
  -- a type in front marks one more of finitely many names, or leaves fewer types pending
  generalize hm : unmarked all visited = m
  induction m using Nat.strongRecOn generalizing visited pending with
  | ind m marks =>
      induction pending with
      | nil => exact ⟨visited, [], .refl visited plain, nofun, fun _ h => h⟩
      | cons t pending shorter =>
          obtain ⟨ht, others⟩ := List.forall_mem_cons.mp plain
          by_cases inside : t.uniqueName ∈ all.map TypeRef.uniqueName
          · have dropped := ((Astray.refl visited plain).drop inside).symm
            by_cases old : t.uniqueName ∈ visited
            · obtain ⟨visited', pending', astray, head, back⟩ := shorter others
              refine ⟨visited', pending', dropped.trans astray, head, fun found search => ?_⟩
              exact .again old (back found search)
            · obtain ⟨u, hu, same⟩ := List.mem_map.mp inside
              have fewer : unmarked all (t.uniqueName :: visited) < m := by
                rw [← hm, ← same]
                exact unmarked_cons_lt hu (same ▸ old)
              have up := next_plain hc ht
              have above : ∀ v ∈ c.next t, v.uniqueName ∈ all.map TypeRef.uniqueName :=
                fun v hv => h.above ht inside (mem_next.mp hv)
              obtain ⟨visited', pending', astray, head, back⟩ := marks _ fewer
                (t.uniqueName :: visited) (c.next t ++ pending)
                (List.forall_mem_append.mpr ⟨up, others⟩) rfl
              have gone := (((Astray.refl visited others).add up above).mark inside).symm
              refine ⟨visited', pending', (dropped.trans gone).trans astray, head, fun found search => ?_⟩
              exact .passed old (h.other_of_mem inside) (back found search)
          · refine ⟨visited, t :: pending, .refl visited plain, ?_, fun _ h => h⟩
            rintro _ ⟨⟩
            exact inside

/-- Where a type that is not barren comes next in the one search, it comes next in the other one once
that has passed by what is barren. -/
theorem Detours.align (h : c.Detours c' name all) {visited visited' : List String}
    {pending pending' : List TypeRef} {t : TypeRef}
    (astray : Astray all visited (t :: pending) visited' pending')
    (outside : t.uniqueName ∉ all.map TypeRef.uniqueName) :
    ∃ marked others, Astray all visited pending marked others ∧
      ∀ found, c'.Search name marked (t :: others) found → c'.Search name visited' pending' found := by
  obtain ⟨marked, ahead, onward, head, back⟩ :=
    h.barren.pass_by h.plain' visited' pending' astray.plain'
  obtain ⟨others, rfl, level⟩ := (astray.trans onward).cons outside head
  exact ⟨marked, others, level, back⟩

/-- A search comes to the same outcome on a detour. -/
theorem Detours.search (h : c.Detours c' name all) {visited visited' : List String}
    {pending pending' : List TypeRef} {found : Bool}
    (search : c.Search name visited pending found)
    (astray : Astray all visited pending visited' pending') :
    c'.Search name visited' pending' found := by
  -- what is barren is dropped from the first search; what is not comes up in both
  induction search generalizing visited' pending' with
  | exhausted =>
      obtain ⟨marked, ahead, onward, head, back⟩ :=
        h.barren.pass_by h.plain' visited' pending' astray.plain'
      apply back
      rw [(astray.trans onward).nil head]
      exact .exhausted
  | @again visited t pending found old rest ih =>
      by_cases inside : t.uniqueName ∈ all.map TypeRef.uniqueName
      · exact ih (astray.drop inside)
      · obtain ⟨marked, others, level, back⟩ := h.align astray inside
        apply back
        exact .again ((level.visited _ inside).mpr old) (ih level)
  | @met visited t pending new same =>
      have outside : t.uniqueName ∉ all.map TypeRef.uniqueName :=
        fun inside => h.barren.other_of_mem inside same
      obtain ⟨marked, others, level, back⟩ := h.align astray outside
      apply back
      exact .met (mt (level.visited _ outside).mp new) same
  | @passed visited t pending found new other rest ih =>
      obtain ⟨ht, -⟩ := List.forall_mem_cons.mp astray.plain
      have up := next_plain h.plain ht
      by_cases inside : t.uniqueName ∈ all.map TypeRef.uniqueName
      · have above : ∀ u ∈ c.next t, u.uniqueName ∈ all.map TypeRef.uniqueName := by
          rcases h.above t ht with same | ⟨none, -⟩
          · rw [← same]
            exact fun u hu => h.barren.above ht inside (mem_next.mp hu)
          · rw [none]
            exact nofun
        exact ih (((astray.drop inside).add up above).mark inside)
      · obtain ⟨marked, others, level, back⟩ := h.align astray inside
        apply back
        apply Search.passed (mt (level.visited _ inside).mp new) other
        apply ih
        apply level.both _ up (next_plain h.plain' ht)
        rcases h.above t ht with same | ⟨none, more⟩
        · rw [same]
        · rw [none, filter_eq_nil_of_barren more, List.filter_nil]

/-- So does a check against a named type, if the budget is large enough. -/
theorem Detours.same_verdict {s f : String} (h : c.Detours c' (TypeRef.named s f).uniqueName all)
    {t : TypeRef} (ht : t.isPlain) {n : Nat} {v : Verdict}
    (check : c.assignable? n t (.named s f) = some v) : ∃ n', ∀ m ≥ n', ∃ w,
      c'.assignable? m t (.named s f) = some w ∧ w.holds = v.holds := by
  have level : Astray all [] [t] [] [t] := .refl [] (List.forall_mem_singleton.mpr ht)
  have search := h.search (search_iff_assignable?.mpr ⟨n, v, check, rfl⟩) level
  obtain ⟨n', w, check', same⟩ := search_iff_assignable?.mp search
  exact ⟨n', fun m more => ⟨w, assignable?_mono more t _ w check', same⟩⟩

end detours

end Companions.Context
