import Companions.Identity
import Companions.Proofs.Text
/-!
The display form of an identity. It is unambiguous, also for names that look like a display form: the
version is what follows the last equals sign. Whatever text an identity was read from, it is read from
its display form as well, and no other identities are.
-/
namespace Companions

namespace Version

theorem mem_display {v : Version} {c : Char} (hc : c ∈ v.display) : c.isDigit ∨ c = '.' := by
  have digit {n : Nat} (h : c ∈ Text.decimal n) : c.isDigit ∨ c = '.' := .inl (Text.isDigit_decimal h)
  simp only [display, List.mem_append, List.mem_cons] at hc
  rcases hc with ((h | rfl | h) | rfl | h) | rfl | h
  · exact digit h
  · exact .inr rfl
  · exact digit h
  · exact .inr rfl
  · exact digit h
  · exact .inr rfl
  · exact digit h

theorem pieces_display (v : Version) :
    Text.pieces '.' v.display = v.parts.map fun part => Text.decimal part.toNat := by
  have closed (n : Nat) : '.' ∉ Text.decimal n := fun h => by cases Text.isDigit_decimal h
  simp only [display, List.append_assoc, List.cons_append, Text.pieces_append (closed _),
    Text.pieces_of_notMem (closed _), parts, List.map_cons, List.map_nil]

theorem display_injective {v w : Version} (h : v.display = w.display) : v = w := by
  have pieces := congrArg (Text.pieces '.') h
  rw [pieces_display, pieces_display] at pieces
  have part {a b : UInt16} (same : Text.decimal a.toNat = Text.decimal b.toNat) : a = b :=
    UInt16.toNat_inj.mp (Text.decimal_injective same)
  obtain ⟨major, minor, build, revision⟩ := v
  obtain ⟨major', minor', build', revision'⟩ := w
  simp only [parts, List.map_cons, List.map_nil, List.cons.injEq, and_true] at pieces
  obtain ⟨first, second, third, fourth⟩ := pieces
  rw [part first, part second, part third, part fourth]

/-! ## Reading a version -/

theorem versionPart_decimal (part : UInt16) :
    Identity.versionPart (Text.decimal part.toNat) = .ok part := by
  have read : Text.numeral 10 65536 Text.decimalDigit (Text.decimal part.toNat) = some part.toNat :=
    Text.numeral_toDigits (by decide) (by decide) part.toNat_lt
  rw [Identity.versionPart, read]
  exact congrArg Except.ok UInt16.ofNat_toNat

theorem parseVersion_display (v : Version) : Identity.parseVersion v.display = .ok v := by
  rw [Identity.parseVersion, pieces_display]
  simp only [parts, List.map_cons, List.map_nil, List.take_succ_cons, List.take_nil, List.mapM_cons,
    List.mapM_nil, versionPart_decimal]
  rfl

theorem mem_property {v : Version} {c : Char} (hc : c ∈ "Version=".toList ++ v.display) :
    Text.isBlank c = false ∧ c ≠ ',' := by
  rcases List.mem_append.mp hc with label | number
  · have each : "Version=".toList.all fun c => !Text.isBlank c && c != ',' := by decide
    simpa using List.all_eq_true.mp each c label
  · rcases mem_display number with digit | rfl
    · refine ⟨Text.not_isBlank_of_isDigit digit, ?_⟩
      rintro rfl
      cases digit
    · decide

/-- The version is read from the property that the display form has behind the comma. -/
theorem parseProperties_display (v w : Version) : Identity.parseProperties w
    (Text.pieces ',' (' ' :: ("Version=".toList ++ v.display))) = .ok v := by
  have closed : ',' ∉ ' ' :: ("Version=".toList ++ v.display) := by
    rw [List.mem_cons, not_or]
    exact ⟨by decide, fun inside => (mem_property inside).2 rfl⟩
  have some : "Version=".toList ++ v.display ≠ [] := List.append_ne_nil_of_left_ne_nil (by decide) _
  have solid : Text.Solid ("Version=".toList ++ v.display) :=
    ⟨some, fun c hc => (mem_property hc).1⟩
  have trimmed : Text.trim ([' '] ++ ("Version=".toList ++ v.display) ++ []) = _ :=
    Text.trim_padded (List.forall_mem_singleton.mpr (by decide)) some solid.trimmed
      (List.forall_mem_nil _)
  rw [List.append_nil, List.singleton_append] at trimmed
  rw [Text.pieces_of_notMem closed, Identity.parseProperties, trimmed, Text.after?_append]
  dsimp only
  rw [parseVersion_display]
  rfl

end Version

namespace Identity

theorem display_injective {i j : Identity} (h : i.display = j.display) : i = j := by
  have text : i.displayChars = j.displayChars := String.ofList_injective h
  have backwards (k : Identity) : k.displayChars.reverse =
      k.version.display.reverse ++ '=' :: (k.name.toList ++ ", Version".toList).reverse := by
    simp [displayChars]
  have inside (k : Identity) : ∀ c ∈ k.version.display.reverse, (c != '=') = true := by
    intro c hc
    rcases Version.mem_display (List.mem_reverse.mp hc) with digit | rfl
    · rw [bne_iff_ne]
      rintro rfl
      cases digit
    · rfl
  have cut := congrArg List.reverse text
  rw [backwards, backwards] at cut
  obtain ⟨versions, names⟩ := Text.cut_unique (inside i) (inside j) (by simp) (by simp) cut
  have name : i.name = j.name :=
    String.toList_inj.mp (List.append_cancel_right (List.reverse_inj.mp (List.cons.inj names).2))
  have version : i.version = j.version := Version.display_injective (List.reverse_inj.mp versions)
  obtain ⟨_, _⟩ := i
  obtain ⟨_, _⟩ := j
  exact congrArg₂ Identity.mk name version

/-! ## Reading an identity -/

/-- A name that is read as it is: some characters, none of them a comma, and no blank at either
end. -/
structure IsName (name : List Char) : Prop where
  some : name ≠ []
  closed : ',' ∉ name
  trimmed : Text.Trimmed name

theorem isName_of_parse {s : String} {i : Identity} (h : parse s = .ok i) :
    IsName i.name.toList := by
  have closed := Text.notMem_split ',' s.toList
  unfold parse parseChars at h
  dsimp only at h
  split at h
  · cases h
  · next some =>
      cases properties : parseProperties {} (Text.split ',' s.toList).2 with
      | error e =>
          rw [properties] at h
          cases h
      | ok v =>
          rw [properties] at h
          cases h
          dsimp only
          rw [String.toList_ofList]
          constructor
          · simpa using some
          · exact fun inside => closed (Text.mem_of_mem_trim inside)
          · exact Text.trimmed_trim _

theorem parse_display {i : Identity} (h : IsName i.name.toList) : parse i.display = .ok i := by
  have label : ", Version=".toList = ',' :: ' ' :: "Version=".toList := by decide
  rw [parse, display, String.toList_ofList, displayChars, label, List.append_assoc,
    List.cons_append, List.cons_append, parseChars, Text.split_append h.closed]
  dsimp only
  rw [Text.trim_of_trimmed h.trimmed, if_neg (by simpa using h.some),
    Version.parseProperties_display, String.ofList_toList]
  rfl

/-- Reading identities is canonical. What is read from any text is read again from its display form,
and the identities that are read from their display forms are those with a name that is not empty, has
no comma and neither begins nor ends with a blank; the version can be any. -/
theorem parse_canonical :
    (∀ (s : String) (i : Identity), parse s = .ok i → parse i.display = .ok i) ∧
    ∀ i : Identity, parse i.display = .ok i ↔ IsName i.name.toList := by
  constructor
  · intro s i read
    exact parse_display (isName_of_parse read)
  · intro i
    exact ⟨isName_of_parse, parse_display⟩

/-- A padded name, a property that is skipped, and two versions of which the last one counts. -/
theorem padded_canonical :
    let s := "\u00a0Game \t, Culture=neutral,Version=9,  Version=+007.0.65535"
    let i : Identity := { name := "Game", version := ⟨7, 0, 65535, 0⟩ }
    parse s = .ok i ∧ i.display = "Game, Version=7.0.65535.0" ∧ parse i.display = .ok i := by
  intro s i
  have read : parse s = .ok i := by decide +kernel
  exact ⟨read, by decide +kernel, parse_canonical.1 s i read⟩

end Identity
end Companions
