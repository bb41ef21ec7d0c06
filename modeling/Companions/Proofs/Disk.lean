import Companions.File.Disk
import Companions.Proofs.Cache
import Companions.Proofs.Path
/-!
Where paths lead on a disk. Without symbolic links it is a place whose last name is that of the
path. How often a slash is repeated on the way makes no difference but for the length of the path,
and neither do the contents of files: writing one changes what is read at its place, and no path
leads elsewhere after it.
-/
namespace Companions

namespace Disk

variable {d d' : Disk}

theorem entry?_listed {place : Place} {e : DiskEntry} (there : d.entry? place = some e) :
    place = [] ∧ e = .directory ∨ (place, e) ∈ d.entries := by
  unfold entry? at there
  split at there
  · next root => exact .inl ⟨root, (Option.some.inj there).symm⟩
  · obtain ⟨_, _, listed, -⟩ := List.lookup_eq_some_iff.mp there
    rw [listed]
    exact .inr (by simp)

/-- There are no symbolic links. -/
def Linkless (d : Disk) : Prop := ∀ place target, d.entry? place ≠ some (.link target)

theorem Linkless.walk (h : d.Linkless) {last : Bool} {place directory : Place}
    {names rest : List String} {target : String} :
    d.walk last place names ≠ .link directory target rest := by
  induction names generalizing place with
  | nil => nofun
  | cons name names ih =>
      unfold Disk.walk
      split
      · nofun
      · split
        · exact ih
        · split
          · exact ih
          · split
            · nofun
            · split
              · split <;> nofun
              · next target found => exact absurd found (h _ target)
              · exact ih

theorem Linkless.follow (h : d.Linkless) {last : Bool} {links : Nat} {place there : Place}
    {names : List String} :
    d.follow last links place names = .ok there ↔ d.walk last place names = .arrived there := by
  unfold Disk.follow
  cases walked : d.walk last place names with
  | arrived at_ => simp
  | stopped o => simp
  | link directory target rest => exact absurd walked h.walk

/-- Where a name stands behind others, a walk ends in a place of that name. -/
theorem Linkless.last (h : d.Linkless) {last : Bool} {place there : Place} {names : List String}
    {name : String} (proper : name ≠ "" ∧ name ≠ "." ∧ name ≠ "..")
    (walked : d.walk last place (names ++ [name]) = .arrived there) :
    there.getLast? = some name := by
  induction names generalizing place with
  | nil =>
      rw [List.nil_append, Disk.walk] at walked
      simp only [proper, or_self, if_false, if_true] at walked
      split at walked
      · cases walked
      · split at walked
        · cases walked
        · split at walked
          · cases walked
            simp
          · next target found => exact absurd found (h _ target)
          · cases walked
            simp
  | cons first names ih =>
      rw [List.cons_append, Disk.walk] at walked
      split at walked
      · cases walked
      · split at walked
        · exact ih walked
        · split at walked
          · exact ih walked
          · split at walked
            · cases walked
            · split at walked
              · simp at walked
              · next target found => exact absurd found (h _ target)
              · exact ih walked

/-- The path of a library leads to a place of the library's name. -/
theorem Linkless.library (h : d.Linkless) {p : Path} {place : Place} {name : String}
    (library : p.IsLibrary name) (leads : d.resolve true p = .ok place) :
    place.getLast? = some (name ++ "." ++ Name.imageExtension) := by
  obtain ⟨plain, front, text, slashed⟩ := library
  have file :
      (name ++ "." ++ Name.imageExtension).toList = name.toList ++ ['.', 'd', 'l', 'l'] := by
    simp [Name.imageExtension]
  have pieces : Text.pieces '/' (name ++ "." ++ Name.imageExtension).toList =
      [(name ++ "." ++ Name.imageExtension).toList] := by
    rw [file]
    exact Text.pieces_of_notMem (by simp [plain])
  have other (cs : String) (short : cs.toList.length < 4) :
      name ++ "." ++ Name.imageExtension ≠ cs := by
    intro same
    rw [← same, file, List.length_append] at short
    exact Nat.not_lt.mpr (Nat.le_add_left ..) short
  generalize name ++ "." ++ Name.imageExtension = file at text pieces other ⊢
  have segments : ∃ names, segments p.text = names ++ [file] := by
    rw [segments, text]
    rcases slashed with rfl | ends
    · exact ⟨[], by simp [pieces]⟩
    · obtain ⟨front, rfl⟩ := List.getLast?_eq_some_iff.mp ends
      refine ⟨(Text.pieces '/' front).map String.ofList, ?_⟩
      rw [List.append_assoc, List.singleton_append, Text.pieces_cut, pieces]
      simp
  obtain ⟨names, segments⟩ := segments
  rw [resolve] at leads
  split at leads
  · cases leads
  · split at leads
    · cases leads
    · rw [segments] at leads
      exact h.last ⟨other "" (by decide), other "." (by decide), other ".." (by decide)⟩
        (h.follow.mp leads)

/-- Reading depends on the place alone to which a path leads. -/
theorem readAt_eq (d : Disk) (p : Path) : d.readAt p =
    (d.locate? true p).bind fun place => match d.entry? place with
      | some (.file bytes) => some bytes
      | _ => none := by
  unfold readAt
  cases d.locate? true p with
  | none => rfl
  | some place =>
      simp only [Option.bind_eq_bind, Option.bind_some]
      rcases d.entry? place with _ | (_ | _ | _) <;> rfl

/-- A file that can be read stands at a place to which its path leads. -/
theorem readAt_eq_some {p : Path} {bytes : Bytes} :
    d.readAt p = some bytes ↔ p.text.utf8ByteSize ≤ maxPath ∧
      ∃ place, d.resolve true p = .ok place ∧ d.entry? place = some (.file bytes) := by
  have reads : d.readAt p = some bytes ↔
      ∃ place, d.locate true p = .ok place ∧ d.entry? place = some (.file bytes) := by
    rw [readAt, locate?]
    cases d.locate true p with
    | error o => simp [Except.toOption]
    | ok place =>
        simp only [Except.toOption, Option.bind_eq_bind, Option.bind_some, Except.ok.injEq,
          exists_eq_left']
        rcases d.entry? place with _ | (_ | _ | _) <;> simp
  rw [reads, locate]
  split
  · next long => simp [Nat.not_le.mpr long]
  · next short => simp [Nat.not_lt.mp short]

/-- It is known by that place. -/
theorem keyOf_of_resolve {p : Path} {place : Place} {e : DiskEntry}
    (leads : d.resolve true p = .ok place) (there : d.entry? place = some e) :
    Cache.keyOf d p = ⟨"/" ++ "/".intercalate place⟩ := by
  change (d.canonicalOf p).getD p = _
  rw [canonicalOf, leads]
  simp [Except.toOption, there]

/-- What is read where a path leads, unless the path is too long. -/
theorem readAt_of_resolve {p : Path} {place : Place} (leads : d.resolve true p = .ok place) :
    d.readAt p = if maxPath < p.text.utf8ByteSize then none
      else match d.entry? place with
        | some (.file bytes) => some bytes
        | _ => none := by
  rw [readAt_eq, locate?, locate, leads]
  split <;> rfl

/-- Behind a directory, further slashes lead nowhere else. -/
theorem walk_blanks {last : Bool} {place : Place} (there : d.isDirectoryAt place) (n : Nat)
    (names : List String) :
    d.walk last place (List.replicate n "" ++ names) = d.walk last place names := by
  induction n with
  | zero => rfl
  | succ n ih =>
      rw [List.replicate_succ, List.cons_append, Disk.walk]
      simpa [there] using ih

/-! ## Files that are written -/

/-- A place with nothing or a file, so that no path leads on from there. -/
def LeafAt (d : Disk) (place : Place) : Prop :=
  d.entry? place = none ∨ ∃ bytes, d.entry? place = some (.file bytes)

theorem LeafAt.isDirectoryAt {place : Place} (leaf : d.LeafAt place) :
    d.isDirectoryAt place = false := by
  unfold Disk.isDirectoryAt
  rcases leaf with nothing | ⟨bytes, file⟩
  · rw [nothing]
  · rw [file]

theorem LeafAt.walk_cons {place : Place} (leaf : d.LeafAt place) (last : Bool) (name : String)
    (names : List String) : d.walk last place (name :: names) = .stopped .refused := by
  rw [Disk.walk, leaf.isDirectoryAt]
  rfl

/-- A walk that was not stopped. -/
def Walk.onward? : Walk → Option Walk
  | .stopped _ => none
  | w => some w

/-- Only a path that ends there arrives. -/
theorem LeafAt.onward? {place : Place} (leaf : d.LeafAt place) (last : Bool) (directory : Place)
    (names : List String) :
    (match d.entry? place with
      | none => if names = [] then .arrived place else .stopped .missing
      | some (.link target) =>
        if names = [] ∧ !last then .arrived place else .link directory target names
      | some _ => d.walk last place names : Walk).onward? =
    if names = [] then some (.arrived place) else none := by
  have stops := leaf.walk_cons last
  rcases leaf with nothing | ⟨bytes, file⟩
  · rw [nothing]
    dsimp only
    split <;> rfl
  · rw [file]
    cases names with
    | nil => rfl
    | cons name names =>
        dsimp only
        rw [stops]
        rfl

theorem Walk.eq_or_stopped {w w' : Walk} (h : w'.onward? = w.onward?) :
    w' = w ∨ ∃ o o', w = .stopped o ∧ w' = .stopped o' := by
  cases w with
  | stopped o =>
      cases w' with
      | stopped o' => exact .inr ⟨o, o', rfl, rfl⟩
      | _ => cases h
  | _ =>
      cases w' with
      | stopped o' => cases h
      | _ => exact .inl (Option.some.inj h)

/-- Directories and links are the same on both disks. -/
structure SameWays (d d' : Disk) : Prop where
  working : d'.working = d.working
  entries : ∀ place, d'.entry? place = d.entry? place ∨ d.LeafAt place ∧ d'.LeafAt place

namespace SameWays

theorem isDirectoryAt (h : SameWays d d') (place : Place) :
    d'.isDirectoryAt place = d.isDirectoryAt place := by
  rcases h.entries place with same | ⟨leaf, leaf'⟩
  · rw [Disk.isDirectoryAt, Disk.isDirectoryAt, same]
  · rw [leaf.isDirectoryAt, leaf'.isDirectoryAt]

theorem leafAt (h : SameWays d d') {place : Place} (leaf : d.LeafAt place) : d'.LeafAt place := by
  rcases h.entries place with same | ⟨-, leaf'⟩
  · rwa [LeafAt, same]
  · exact leaf'

theorem walk (h : SameWays d d') (last : Bool) (place : Place) (names : List String) :
    (d'.walk last place names).onward? = (d.walk last place names).onward? := by
  induction names generalizing place with
  | nil => rfl
  | cons name names ih =>
      unfold Disk.walk
      rw [h.isDirectoryAt]
      split
      · rfl
      · split
        · exact ih _
        · split
          · exact ih _
          · split
            · rfl
            · rcases h.entries (place ++ [name]) with same | ⟨leaf, leaf'⟩
              · rw [same]
                split
                · rfl
                · rfl
                · exact ih _
              · exact (leaf'.onward? last place names).trans (leaf.onward? last place names).symm

theorem follow (h : SameWays d d') (last : Bool) (links : Nat) (place : Place)
    (names : List String) :
    (d'.follow last links place names).toOption = (d.follow last links place names).toOption := by
  induction links generalizing place names with
  | zero =>
      unfold Disk.follow
      rcases Walk.eq_or_stopped (h.walk last place names) with same | ⟨o, o', stops, stops'⟩
      · rw [same]
        cases d.walk last place names <;> rfl
      · rw [stops, stops']
        rfl
  | succ links ih =>
      unfold Disk.follow
      rcases Walk.eq_or_stopped (h.walk last place names) with same | ⟨o, o', stops, stops'⟩
      · rw [same]
        cases d.walk last place names with
        | arrived there => rfl
        | stopped o => rfl
        | link directory target rest => exact ih _ _
      · rw [stops, stops']
        rfl

/-- Every path leads to the same place on both. -/
theorem locate? (h : SameWays d d') (last : Bool) (p : Path) :
    d'.locate? last p = d.locate? last p := by
  unfold Disk.locate? Disk.locate resolve
  rw [h.working]
  split
  · rfl
  · split
    · rfl
    · split
      · rfl
      · exact h.follow last maxLinks _ _

end SameWays

theorem lookup_filter_ne (entries : List (Place × DiskEntry)) {place at_ : Place}
    (other : place ≠ at_) : (entries.filter (·.1 ≠ at_)).lookup place = entries.lookup place := by
  induction entries with
  | nil => rfl
  | cons e entries ih =>
      rw [List.filter_cons, List.lookup_cons, ← ih]
      split
      · rw [List.lookup_cons]
      · next gone =>
          have here : e.1 = at_ := by simpa using gone
          rw [here, beq_eq_false_iff_ne.mpr other]

theorem entry?_put {at_ : Place} (below : at_ ≠ []) (e : DiskEntry) (place : Place) :
    Disk.entry? (d.put at_ e) place = if place = at_ then some e else d.entry? place := by
  unfold Disk.entry? Disk.put
  dsimp only
  by_cases root : place = []
  · rw [if_pos root, if_pos root, if_neg (root ▸ Ne.symm below)]
  · rw [if_neg root, if_neg root, List.lookup_cons]
    by_cases same : place = at_
    · rw [if_pos same, same, beq_self_eq_true]
    · rw [if_neg same, beq_eq_false_iff_ne.mpr same]
      exact lookup_filter_ne d.entries same

theorem LeafAt.below {place : Place} (leaf : d.LeafAt place) : place ≠ [] := by
  rintro rfl
  rcases leaf with nothing | ⟨bytes, file⟩
  · cases nothing
  · cases file

/-- What a change does: it fails, or the place to which the path leads has a file with the bytes. -/
theorem change_cases (d : Disk) (p : Path) (bytes : Bytes) :
    d.change p (fun _ => bytes) = (false, d) ∨
    ∃ place, d.locate? true p = some place ∧ d.LeafAt place ∧
      d.change p (fun _ => bytes) = (true, d.put place (.file bytes)) := by
  unfold change
  split
  · exact .inl rfl
  · next place leads =>
      split
      · next nothing => exact .inr ⟨place, leads, .inl nothing, rfl⟩
      · next old file => exact .inr ⟨place, leads, .inr ⟨old, file⟩, rfl⟩
      · exact .inl rfl

theorem LeafAt.change {p : Path} {place : Place} (leaf : d.LeafAt place)
    (leads : d.locate? true p = some place) (bytes : Bytes) :
    d.change p (fun _ => bytes) = (true, d.put place (.file bytes)) := by
  unfold Disk.change
  rw [leads]
  dsimp only
  rcases leaf with nothing | ⟨old, file⟩
  · rw [nothing]
  · rw [file]

theorem LeafAt.sameWays_put {place : Place} (leaf : d.LeafAt place) (bytes : Bytes) :
    SameWays d (d.put place (.file bytes)) where
  working := rfl
  entries at_ := by
    have put := entry?_put (d := d) leaf.below (.file bytes) at_
    by_cases same : at_ = place
    · right
      rw [if_pos same] at put
      exact ⟨same ▸ leaf, .inr ⟨bytes, put⟩⟩
    · left
      rw [put, if_neg same]

theorem sameWays_change (d : Disk) (p : Path) (bytes : Bytes) :
    SameWays d (d.change p fun _ => bytes).2 := by
  rcases d.change_cases p bytes with fails | ⟨place, leads, leaf, writes⟩
  · rw [fails]
    exact ⟨rfl, fun _ => .inl rfl⟩
  · rw [writes]
    exact leaf.sameWays_put bytes

theorem readAt_change (d : Disk) (p q : Path) (bytes : Bytes) :
    (d.change p fun _ => bytes).2.readAt q =
      if (d.change p fun _ => bytes).1 ∧ d.locate? true q = d.locate? true p then some bytes
      else d.readAt q := by
  rcases d.change_cases p bytes with fails | ⟨place, leads, leaf, writes⟩
  · rw [fails]
    simp
  · rw [writes, readAt_eq, readAt_eq, (leaf.sameWays_put bytes).locate?, leads]
    simp only [true_and]
    cases found : d.locate? true q with
    | none => rfl
    | some at_ =>
        rw [Option.bind_some, entry?_put leaf.below]
        by_cases same : at_ = place
        · simp [same]
        · simp [same]

end Disk
end Companions
