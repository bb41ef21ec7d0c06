import Mathlib.Data.List.Induction
import Companions.TypeRef
import Companions.File.Path
import Companions.Proofs.Text
/-!
Paths that end in a name. What comes off again is that name and the directory in front of it. An
extension takes the place of the one before it; the path stays as it is exactly if it has no name to
extend, or that extension already.
-/
namespace Companions

theorem Text.pieces_cut {sep : Char} (a b : List Char) :
    pieces sep (a ++ sep :: b) = pieces sep a ++ pieces sep b := by
  induction a with
  | nil => exact pieces_append List.not_mem_nil b
  | cons c a ih =>
      simp only [pieces, split, List.cons_append] at ih ⊢
      obtain ⟨first, rest⟩ := List.cons.inj ih
      split
      · rw [first, rest]
        rfl
      · rw [first, rest]

theorem Text.pieces_padded (sep : Char) (a : List Char) (n : Nat) :
    pieces sep (a ++ List.replicate n sep) = pieces sep a ++ List.replicate n [] := by
  induction n with
  | zero => simp
  | succ n ih =>
      rw [List.replicate_succ', ← List.append_assoc, pieces_cut, ih, List.append_assoc,
        List.replicate_succ']
      rfl

namespace Path

/-- Nothing, or characters up to a slash: what can stand in front of a segment. -/
def Slashed (front : List Char) : Prop := front = [] ∨ front.getLast? = some '/'

theorem Slashed.append {a b : List Char} (ha : Slashed a) (hb : Slashed b) : Slashed (a ++ b) := by
  rcases hb with rfl | ends
  · rwa [List.append_nil]
  · refine .inr ?_
    rw [List.getLast?_append, ends]
    rfl

theorem Slashed.tail {c : Char} {front : List Char} (h : Slashed (c :: front)) : Slashed front := by
  cases front with
  | nil => exact .inl rfl
  | cons d front => exact h.imp nofun (List.getLast?_cons_cons ▸ ·)

theorem exists_last_piece (cs : List Char) :
    ∃ front back, cs = front ++ back ∧ '/' ∉ back ∧ Slashed front := by
  induction cs using List.reverseRecOn with
  | nil => exact ⟨[], [], rfl, by simp, .inl rfl⟩
  | append_singleton cs c ih =>
      by_cases slash : c = '/'
      · exact ⟨cs ++ [c], [], by simp, by simp, .inr (by simp [slash])⟩
      · obtain ⟨front, back, rfl, plain, slashed⟩ := ih
        refine ⟨front, back ++ [c], by simp, ?_, slashed⟩
        simpa [plain] using Ne.symm slash

/-- The characters of a segment that leads on: a name, or two dots. -/
structure Segment (segment : List Char) : Prop where
  plain : '/' ∉ segment
  some : segment ≠ []
  here : segment ≠ ['.']

/-- The characters of a file's name. -/
structure Named (name : List Char) : Prop where
  plain : '/' ∉ name
  some : name ≠ []
  here : name ≠ ['.']
  up : name ≠ ['.', '.']

theorem Named.segment {name : List Char} (h : Named name) : Segment name :=
  ⟨h.plain, h.some, h.here⟩

/-- The path of a directory that is told from the working directory, without a dot in front. -/
def Inward (front : List Char) : Prop := ∃ c cs, front = c :: cs ∧ c ≠ '/' ∧ c ≠ '.'

/-- The path of a file in a directory. -/
def beside (front name : List Char) : Path := ⟨String.ofList (front ++ '/' :: name)⟩

@[simp] theorem toList_beside (front name : List Char) :
    (beside front name).text.toList = front ++ '/' :: name := String.toList_ofList

theorem size_beside (front name : List Char) : (beside front name).text.utf8ByteSize =
    (String.ofList front).utf8ByteSize + 1 + (String.ofList name).utf8ByteSize := by
  rw [beside, String.ofList_append, String.utf8ByteSize_append, String.ofList_cons,
    String.utf8ByteSize_append, ← Nat.add_assoc]
  rfl

theorem component?_name {name : List Char} (h : Named name) :
    component? name = some (.name name) := by
  simp [component?, h.some, h.here, h.up]

/-- Nothing is trimmed behind a segment. -/
theorem trimBack_segment {segment : List Char} (h : Segment segment) (back : List Char) :
    parts.trimBack (segment.reverse ++ back) = segment.reverse ++ back := by
  obtain ⟨c, cs, rfl⟩ : ∃ c cs, segment = (c :: cs).reverse := by
    cases reversed : segment.reverse with
    | nil => exact absurd (List.reverse_eq_nil_iff.mp reversed) h.some
    | cons c cs => exact ⟨c, cs, by rw [← reversed, List.reverse_reverse]⟩
  have plain := h.plain
  rw [List.mem_reverse, List.mem_cons, not_or] at plain
  rw [List.reverse_reverse, List.cons_append]
  unfold parts.trimBack
  split
  · next same => exact absurd (List.cons.inj same).1.symm plain.1
  · next same =>
      obtain ⟨rfl, rest⟩ := List.cons.inj same
      obtain ⟨rfl, -⟩ := List.append_eq_nil_iff.mp rest
      exact absurd rfl h.here
  · next same =>
      -- a dot before a slash is a name of its own
      obtain ⟨rfl, rest⟩ := List.cons.inj same
      cases cs with
      | nil => exact absurd rfl h.here
      | cons d ds => exact absurd (List.mem_cons.mpr (.inl (List.cons.inj rest).1.symm)) plain.2
  · rfl

/-! ## The last segment -/

section

variable {p : Path} {front segment name : List Char}

/-- A path that ends in a segment is split behind a slash or a dot at most, and nothing is trimmed. -/
theorem parts_segment (h : Segment segment) (slashed : Slashed front)
    (text : p.text.toList = front ++ segment) :
    ∃ root mid, p.parts = (root, (mid ++ segment).reverse) ∧ root ++ mid = front ∧ Slashed mid := by
  have kept (mid : List Char) :
      parts.trimBack (mid ++ segment).reverse = (mid ++ segment).reverse := by
    rw [List.reverse_append]
    exact trimBack_segment h mid.reverse
  unfold parts
  rw [text]
  cases front with
  | nil =>
      have whole := kept []
      rw [List.nil_append] at whole ⊢
      refine ⟨[], [], ?_, rfl, slashed⟩
      rw [List.nil_append, ← whole]
      split
      · exact absurd List.mem_cons_self h.plain
      · exact absurd rfl h.here
      · exact absurd (List.mem_cons_of_mem _ List.mem_cons_self) h.plain
      · rfl
  | cons c mid =>
      rw [List.cons_append]
      split
      · next body rooted =>
          obtain ⟨rfl, rfl⟩ := List.cons.inj rooted
          exact ⟨['/'], mid, by rw [kept mid], rfl, slashed.tail⟩
      · next dot =>
          have empty := (List.append_eq_nil_iff.mp (List.cons.inj dot).2).2
          exact absurd empty h.some
      · next body dotted =>
          cases mid with
          | nil =>
              obtain ⟨rfl, -⟩ := List.cons.inj dotted
              exact absurd slashed (by simp [Slashed])
          | cons d mid =>
              obtain ⟨rfl, rest⟩ := List.cons.inj dotted
              obtain ⟨rfl, rfl⟩ := List.cons.inj rest
              refine ⟨['.'], '/' :: mid, ?_, rfl, slashed.tail⟩
              rw [← kept ('/' :: mid)]
              simp
      · exact ⟨[], c :: mid, by rw [← List.cons_append, kept], rfl, slashed⟩

/-- The segment gives the last component. -/
theorem getLast?_components (h : Segment segment) (slashed : Slashed front)
    (text : p.text.toList = front ++ segment) {c : Component} (gives : component? segment = some c) :
    p.components.getLast? = some c := by
  obtain ⟨root, mid, parts, -, slashed⟩ := parts_segment h slashed text
  have pieces : ∃ before, Text.pieces '/' (mid ++ segment) = before ++ [segment] := by
    rcases slashed with rfl | ends
    · exact ⟨[], Text.pieces_of_notMem h.plain⟩
    · obtain ⟨mid, rfl⟩ := List.getLast?_eq_some_iff.mp ends
      refine ⟨Text.pieces '/' mid, ?_⟩
      rw [List.append_assoc, List.singleton_append, Text.pieces_cut,
        Text.pieces_of_notMem h.plain]
  obtain ⟨before, pieces⟩ := pieces
  rw [components, parts, List.reverse_reverse, pieces]
  dsimp only
  split <;> simp [gives, List.getLast?_cons]

theorem fileName?_named (h : Named name) (slashed : Slashed front)
    (text : p.text.toList = front ++ name) : p.fileName? = some name := by
  rw [fileName?, getLast?_components h.segment slashed text (component?_name h)]

theorem fileName?_up (slashed : Slashed front) (text : p.text.toList = front ++ ['.', '.']) :
    p.fileName? = none := by
  have up : Segment ['.', '.'] := ⟨by decide, by decide, by decide⟩
  rw [fileName?, getLast?_components up slashed text rfl]

/-- The stem of a name stands in front of what its extension takes. -/
theorem uptoStem?_named (h : Named name) (slashed : Slashed front)
    (text : p.text.toList = front ++ name) {stem rest : List Char} (cut : name = stem ++ rest)
    (stemmed : stemOf name = stem) : p.uptoStem? = some (front ++ stem) := by
  obtain ⟨root, mid, parts, rfl, -⟩ := parts_segment h.segment slashed text
  rw [uptoStem?, fileName?_named h slashed text, parts, Option.map_some, List.reverse_reverse,
    stemmed]
  dsimp only
  rw [cut, ← List.append_assoc, ← List.append_assoc, List.take_left']
  simp only [List.length_append]
  omega

end

variable {front name : List Char}

theorem Inward.append (h : Inward front) (more : List Char) : Inward (front ++ more) := by
  obtain ⟨c, cs, rfl, slash, dot⟩ := h
  exact ⟨c, cs ++ more, rfl, slash, dot⟩

section

variable (inward : Inward front) (named : Named name)

include inward named

theorem parts_beside : (beside front name).parts = ([], name.reverse ++ '/' :: front.reverse) := by
  obtain ⟨c, cs, rfl, slash, dot⟩ := inward
  rw [parts, toList_beside]
  split
  · next same => exact absurd (List.cons.inj same).1 slash
  · next same => exact absurd (List.cons.inj same).1 dot
  · next same => exact absurd (List.cons.inj same).1 dot
  · rw [List.reverse_append, List.reverse_cons, List.append_assoc, List.singleton_append,
      trimBack_segment named.segment]

theorem components_beside : (beside front name).components =
    (Text.pieces '/' front).filterMap component? ++ [.name name] := by
  rw [components, parts_beside inward named]
  simp [Text.pieces_cut, Text.pieces_of_notMem named.plain, component?_name named]

/-- Slashes behind the directory make another path, but one of the same components. -/
theorem same_padded (n n' : Nat) : (beside (front ++ List.replicate n '/') name).same
    (beside (front ++ List.replicate n' '/') name) := by
  have blank (n : Nat) : (List.replicate n []).filterMap component? = [] :=
    List.filterMap_eq_nil_iff.mpr fun segment listed => by
      rw [List.eq_of_mem_replicate listed]
      rfl
  refine decide_eq_true ?_
  rw [components_beside (inward.append _) named, components_beside (inward.append _) named,
    Text.pieces_padded, Text.pieces_padded, List.filterMap_append, List.filterMap_append, blank,
    blank]

/-- A file beside one that is in a directory with a name is in that directory. -/
theorem parent?_beside {file : List Char} (filed : Named file) :
    (beside (beside front name).text.toList file).parent? = some (beside front name) := by
  have dropped : ((file.reverse ++ '/' :: (name.reverse ++ '/' :: front.reverse)).dropWhile
      (· ≠ '/')).drop 1 = name.reverse ++ '/' :: front.reverse := by
    rw [List.dropWhile_append_of_pos]
    · simp
    · intro c hc
      exact decide_eq_true fun slash => filed.plain (slash ▸ List.mem_reverse.mp hc)
  rw [parent?, parts_beside ((toList_beside front name).symm ▸ inward.append _) filed,
    toList_beside, List.reverse_append, List.reverse_cons, List.append_assoc, List.singleton_append]
  split
  · next same => simp at same
  · next same =>
      obtain ⟨rfl, rfl⟩ := Prod.mk.inj same
      rw [dropped, trimBack_segment named.segment]
      simp [beside]

end

theorem join_beside (named : Named name) {file : String} (filed : Named file.toList) :
    (beside front name).join file = beside (beside front name).text.toList file.toList := by
  have relative : file.toList.head? ≠ some '/' := fun first =>
    filed.plain (List.mem_of_mem_head? first)
  have nonempty : (beside front name).isEmpty = false := by simp [isEmpty]
  have ends : (beside front name).text.toList.getLast? ≠ some '/' := by
    rw [toList_beside, List.getLast?_append, List.getLast?_cons_of_ne_nil named.some]
    cases last : name.getLast? with
    | none => exact absurd (List.getLast?_eq_none_iff.mp last) named.some
    | some c =>
        rintro ⟨⟩
        exact named.plain (List.mem_of_getLast? last)
  rw [join, nonempty, if_neg (by simp [relative]), if_neg ends]
  refine congrArg Path.mk (String.toList_inj.mp ?_)
  simp

/-! ## Extensions -/

section

variable {p : Path} {stem extension : List Char}

theorem Segment.named (h : Segment stem) (plain : '/' ∉ extension) :
    Named (stem ++ '.' :: extension) where
  plain := by simp [h.plain, plain]
  some := by simp
  here same := by
    obtain ⟨c, cs, rfl⟩ := List.exists_cons_of_ne_nil h.some
    simp at same
  up same := by
    obtain ⟨c, cs, rfl⟩ := List.exists_cons_of_ne_nil h.some
    obtain ⟨rfl, rest⟩ := List.cons.inj same
    cases cs with
    | nil => exact h.here rfl
    | cons d cs => simp at rest

theorem stemOf_dotted (some : stem ≠ []) (dotless : '.' ∉ extension) :
    stemOf (stem ++ '.' :: extension) = stem := by
  have dropped :
      ((stem ++ '.' :: extension).reverse.dropWhile (· ≠ '.')).drop 1 = stem.reverse := by
    rw [List.reverse_append, List.reverse_cons, List.append_assoc, List.dropWhile_append_of_pos]
    · simp
    · intro c hc
      exact decide_eq_true fun dot => dotless (dot ▸ List.mem_reverse.mp hc)
  rw [stemOf, dropped]
  split
  · next none => exact absurd (List.reverse_eq_nil_iff.mp none) some
  · exact List.reverse_reverse stem

/-- A dot in front of a name does not begin an extension. -/
theorem stemOf_hidden (dotless : '.' ∉ extension) : stemOf ('.' :: extension) = '.' :: extension := by
  have dropped : (('.' :: extension).reverse.dropWhile (· ≠ '.')).drop 1 = [] := by
    rw [List.reverse_cons, List.dropWhile_append_of_pos]
    · rfl
    · intro c hc
      exact decide_eq_true fun dot => dotless (dot ▸ List.mem_reverse.mp hc)
  rw [stemOf, dropped]

/-- What is cut off is as long as the extension, wherever in the path that is. -/
def cutExtension (p : Path) : Path :=
  ⟨String.ofList (p.text.toList.take (p.text.length - p.extensionLength))⟩

theorem withExtension_eq (p : Path) (extension : String) :
    p.withExtension extension = p.cutExtension.uptoStem?.elim p.cutExtension fun stem =>
      ⟨String.ofList (stem ++ '.' :: extension.toList)⟩ := by
  unfold withExtension cutExtension
  dsimp only
  split <;> simp [*]

theorem cutExtension_of_zero (none : p.extensionLength = 0) : p.cutExtension = p := by
  rw [cutExtension, none, Nat.sub_zero, ← String.length_toList, List.take_length,
    String.ofList_toList]

theorem cutExtension_named (named : Named (stem ++ '.' :: extension)) (some : stem ≠ [])
    (dotless : '.' ∉ extension) (slashed : Slashed front)
    (text : p.text.toList = front ++ (stem ++ '.' :: extension)) :
    p.cutExtension = ⟨String.ofList (front ++ (stem ++ ['.']))⟩ := by
  have length : p.extensionLength = extension.length := by
    rw [extensionLength, fileName?_named named slashed text]
    dsimp only
    rw [stemOf_dotted some dotless, List.length_append, List.length_cons]
    omega
  have whole : p.text.toList = (front ++ (stem ++ ['.'])) ++ extension := by simp [text]
  rw [cutExtension, length, ← String.length_toList, whole, List.take_left']
  simp only [List.length_append]
  omega

/-- Another extension leads to another file in the same directory. -/
theorem withExtension_named (h : Segment stem) (plain : '/' ∉ extension)
    (dotless : '.' ∉ extension) (slashed : Slashed front)
    (text : p.text.toList = front ++ (stem ++ '.' :: extension)) (other : String) :
    p.withExtension other = ⟨String.ofList (front ++ (stem ++ '.' :: other.toList))⟩ := by
  have cut := cutExtension_named (h.named plain) h.some dotless slashed text
  have upto : (⟨String.ofList (front ++ (stem ++ ['.']))⟩ : Path).uptoStem? =
      some (front ++ stem) :=
    uptoStem?_named (h.named List.not_mem_nil) slashed String.toList_ofList rfl
      (stemOf_dotted h.some List.not_mem_nil)
  rw [withExtension_eq, cut, upto, Option.elim_some, List.append_assoc]

theorem withExtension_beside (h : Segment stem) (plain : '/' ∉ extension)
    (dotless : '.' ∉ extension) (other : String) :
    (beside front (stem ++ '.' :: extension)).withExtension other =
      beside front (stem ++ '.' :: other.toList) := by
  have text : (beside front (stem ++ '.' :: extension)).text.toList =
      (front ++ ['/']) ++ (stem ++ '.' :: extension) := by simp
  rw [withExtension_named h plain dotless (.inr (by simp)) text, beside, List.append_assoc]
  rfl

/-- The path ends in a stem with the extension. -/
def HasExtension (p : Path) (extension : String) : Prop :=
  ∃ front stem, Slashed front ∧ Segment stem ∧
    p.text.toList = front ++ (stem ++ '.' :: extension.toList)

/-- A path keeps its text under an extension exactly if it has no file name, or has that extension
already. -/
theorem withExtension_eq_self_iff {extension : String} (plain : '/' ∉ extension.toList)
    (dotless : '.' ∉ extension.toList) (some : extension.toList ≠ []) :
    p.withExtension extension = p ↔ p.fileName? = none ∨ p.HasExtension extension := by
  constructor
  · intro same
    cases found : p.fileName? with
    | none => exact .inl rfl
    | some name =>
        right
        have stemmed : p.uptoStem? ≠ none := by simp [uptoStem?, found]
        rw [withExtension_eq] at same
        cases upto : p.cutExtension.uptoStem? with
        | none =>
            rw [upto, Option.elim_none] at same
            exact absurd upto (same.symm ▸ stemmed)
        | some whole =>
            rw [upto, Option.elim_some] at same
            obtain ⟨front, stem, rfl, plain', slashed⟩ := exists_last_piece whole
            have text : p.text.toList = front ++ (stem ++ '.' :: extension.toList) := by
              rw [← same, String.toList_ofList, List.append_assoc]
            refine ⟨front, stem, slashed, ⟨plain', ?_, ?_⟩, text⟩
            · rintro rfl
              -- the dot begins the name, so nothing is cut off and the extension comes once more
              have named : Named ('.' :: extension.toList) :=
                ⟨by simp [plain], by simp, by simp [some], fun up => dotless (by simp_all)⟩
              have hidden := stemOf_hidden dotless
              have length : p.extensionLength = 0 := by
                rw [extensionLength, fileName?_named named slashed text]
                simp [hidden]
              have whole := uptoStem?_named named slashed text (List.append_nil _).symm hidden
              rw [cutExtension_of_zero length, whole] at upto
              simp at upto
            · rintro rfl
              -- behind the cut the path ends in two dots
              have named : Named (['.'] ++ '.' :: extension.toList) :=
                ⟨by simp [plain], by simp, by simp, by simp [some]⟩
              have up : p.cutExtension.fileName? = none := by
                rw [cutExtension_named named (by simp) dotless slashed text]
                exact fileName?_up slashed String.toList_ofList
              rw [uptoStem?, up] at upto
              cases upto
  · rintro (none | ⟨front, stem, slashed, segment, text⟩)
    · have length : p.extensionLength = 0 := by rw [extensionLength, none]
      rw [withExtension_eq, cutExtension_of_zero length, uptoStem?, none]
      rfl
    · rw [withExtension_named segment plain dotless slashed text, ← text, String.ofList_toList]

end

/-! ## Libraries -/

/-- The path is that of the library of a simple name: the name with the extension of images is what
follows the last slash. -/
def IsLibrary (p : Path) (name : String) : Prop :=
  '/' ∉ name.toList ∧ ∃ front : List Char,
    p.text.toList = front ++ (name ++ "." ++ Name.imageExtension).toList ∧
    (front = [] ∨ front.getLast? = some '/')

end Path
end Companions
