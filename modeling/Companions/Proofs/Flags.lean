import Mathlib.Data.List.Basic
import Companions.Flags
import Companions.Proofs.Text
/-!
Reading a written flag set gives it back: the names and the remaining bits together are all bits
of the value, whatever bits have no name.
-/
namespace Companions

namespace FlagNames
variable {f : FlagNames}

/-- Names that can be told from each other, from the bars between them and from a number. -/
structure Legible (f : FlagNames) : Prop where
  words : ∀ p ∈ f.names, Text.Solid p.1.toList ∧ '|' ∉ p.1.toList
  unnumbered : ∀ p ∈ f.names, Text.after? ['0', 'x'] p.1.toList = none
  distinct : (f.names.map (·.1)).Nodup

theorem union_taken {value taken left bits : Nat} (all : taken ||| left = value)
    (inside : value &&& bits = bits) :
    (taken ||| bits) ||| (left ^^^ (left &&& bits)) = value := by
  apply Nat.eq_of_testBit_eq
  intro i
  have inside := congrArg (Nat.testBit · i) inside
  rw [← all] at inside ⊢
  simp only [Nat.testBit_or, Nat.testBit_and, Nat.testBit_xor] at inside ⊢
  revert inside
  cases taken.testBit i <;> cases left.testBit i <;> cases bits.testBit i <;> decide

theorem cover_picks {value : Nat} (names : List (String × Nat)) {taken left : Nat}
    (all : taken ||| left = value) :
    ∃ picks : List (String × Nat), (∀ p ∈ picks, p ∈ names) ∧
      (cover value names left).1 = picks.map (·.1) ∧
      picks.foldl (fun v p => v ||| p.2) taken ||| (cover value names left).2 = value := by
  induction names generalizing taken left with
  | nil => exact ⟨[], nofun, rfl, all⟩
  | cons p names ih =>
      obtain ⟨name, bits⟩ := p
      by_cases picked : value &&& bits = bits ∧ left &&& bits ≠ 0
      · obtain ⟨picks, known, written, total⟩ := ih (union_taken all picked.1)
        refine ⟨(name, bits) :: picks, ?_, ?_, ?_⟩
        · exact List.forall_mem_cons.mpr
            ⟨List.mem_cons_self, fun p hp => List.mem_cons_of_mem _ (known p hp)⟩
        · rw [cover, if_pos picked, List.map_cons, ← written]
        · rw [cover, if_pos picked]
          exact total
      · obtain ⟨picks, known, written, total⟩ := ih all
        refine ⟨picks, fun p hp => List.mem_cons_of_mem _ (known p hp), ?_, ?_⟩
        · rw [cover, if_neg picked, written]
        · rw [cover, if_neg picked]
          exact total

namespace Legible
variable (h : f.Legible)
include h

theorem readPart_name {p : String × Nat} (hp : p ∈ f.names) :
    f.readPart p.1.toList = some p.2 := by
  rw [readPart, h.unnumbered p hp, String.ofList_toList]
  have distinct := h.distinct
  generalize f.names = names at hp distinct
  induction names with
  | nil => cases hp
  | cons q names ih =>
      obtain ⟨new, distinct⟩ := List.nodup_cons.mp distinct
      rcases List.mem_cons.mp hp with rfl | later
      · rw [List.lookup_cons, beq_self_eq_true]
      · have other : p.1 ≠ q.1 := fun same => new (List.mem_map.mpr ⟨p, later, same⟩)
        rw [List.lookup_cons, beq_eq_false_iff_ne.mpr other]
        exact ih later distinct

theorem readPart_names {picks : List (String × Nat)} (known : ∀ p ∈ picks, p ∈ f.names)
    (value : Nat) :
    (picks.map (·.1.toList)).foldlM (fun v part => (f.readPart part).map (v ||| ·)) value =
      some (picks.foldl (fun v p => v ||| p.2) value) := by
  induction picks generalizing value with
  | nil => rfl
  | cons p picks ih =>
      obtain ⟨first, rest⟩ := List.forall_mem_cons.mp known
      rw [List.map_cons, List.foldlM_cons, h.readPart_name first, Option.map_some]
      exact ih rest (value ||| p.2)

end Legible

theorem readPart_hexadecimal {left : Nat} (hl : left < f.limit) :
    f.readPart ('0' :: 'x' :: Text.hexadecimal left) = some left :=
  Text.numeral_toDigits (by decide) (by decide) hl

theorem hexadecimal_solid (left : Nat) :
    Text.Solid ('0' :: 'x' :: Text.hexadecimal left) ∧
      '|' ∉ '0' :: 'x' :: Text.hexadecimal left := by
  have digit : ∀ c ∈ Text.hexadecimal left, Text.isBlank c = false ∧ c ≠ '|' := by
    intro c hc
    obtain ⟨k, hk, rfl⟩ := Text.mem_toDigits (by decide) hc
    have all : ∀ k < 16, Text.isBlank k.digitChar = false ∧ k.digitChar ≠ '|' := by decide
    exact all k hk
  have each : ∀ c ∈ '0' :: 'x' :: Text.hexadecimal left, Text.isBlank c = false ∧ c ≠ '|' := by
    intro c hc
    rcases List.mem_cons.mp hc with rfl | hc
    · decide
    · rcases List.mem_cons.mp hc with rfl | hc
      · decide
      · exact digit c hc
  exact ⟨⟨List.cons_ne_nil _ _, fun c hc => (each c hc).1⟩, fun bar => (each _ bar).2 rfl⟩

theorem read_words {words : List (List Char)} {text : String} (some : words ≠ [])
    (solid : ∀ w ∈ words, Text.Solid w ∧ '|' ∉ w)
    (written : text.toList = [' ', '|', ' '].intercalate words) :
    f.read text = words.foldlM (fun v part => (f.readPart part).map (v ||| ·)) 0 := by
  have cut := Text.trim_pieces_intercalate some solid
    (nofun : ∀ c ∈ [], Text.isBlank c ∧ c ≠ '|')
  rw [List.nil_append, ← written] at cut
  have visible : (Text.trim text.toList).isEmpty = false := by
    cases words with
    | nil => exact absurd rfl some
    | cons w words =>
        obtain ⟨⟨⟨filled, plain⟩, -⟩, -⟩ := List.forall_mem_cons.mp solid
        obtain ⟨c, hc⟩ := List.exists_mem_of_ne_nil w filled
        have inside : c ∈ text.toList := by
          rw [written]
          cases words with
          | nil => simpa using hc
          | cons v words =>
              rw [List.intercalate_cons_cons]
              exact List.mem_append_left _ (List.mem_append_left _ hc)
        exact List.isEmpty_eq_false_iff.mpr (Text.trim_ne_nil inside (plain c hc))
  rw [read, visible, ← cut, List.foldlM_map]
  rfl

/-- What is written for a value is read as that value, bits without a name included. -/
theorem read_write (h : f.Legible) {value : Nat} (hv : value < f.limit) :
    f.read (f.write value) = some value := by
  obtain ⟨picks, known, written, total⟩ := cover_picks f.names (Nat.zero_or value)
  have words : ∀ w ∈ picks.map (·.1.toList), Text.Solid w ∧ '|' ∉ w := by
    intro w hw
    obtain ⟨p, hp, rfl⟩ := List.mem_map.mp hw
    exact h.words p (known p hp)
  have named := h.readPart_names known 0
  by_cases covered : (cover value f.names value).2 = 0
  · rw [covered, Nat.or_zero] at total
    have text : f.write value = " | ".intercalate (picks.map (·.1)) := by
      simp only [write, covered, written, if_true]
    cases picks with
    | nil =>
        rw [text, ← total]
        rfl
    | cons p picks =>
        rw [read_words (by simp) words ?_, named, total]
        rw [text, String.toList_intercalate, List.map_map]
        rfl
  · have text : f.write value = " | ".intercalate (picks.map (·.1) ++
        ["0x" ++ String.ofList (Text.hexadecimal (cover value f.names value).2)]) := by
      simp only [write, covered, written, if_false]
    generalize (cover value f.names value).2 = left at total text
    have small : left < f.limit := by
      have part : left ≤ value := total ▸ Nat.right_le_or
      omega
    have parts : ∀ w ∈ picks.map (·.1.toList) ++ ['0' :: 'x' :: Text.hexadecimal left],
        Text.Solid w ∧ '|' ∉ w := by
      intro w hw
      rcases List.mem_append.mp hw with name | last
      · exact words w name
      · rw [List.mem_singleton.mp last]
        exact hexadecimal_solid left
    have chars : (f.write value).toList = [' ', '|', ' '].intercalate
        (picks.map (·.1.toList) ++ ['0' :: 'x' :: Text.hexadecimal left]) := by
      rw [text, String.toList_intercalate, List.map_append, List.map_map]
      simp [Function.comp_def]
    rw [read_words (by simp) parts chars, List.foldlM_append, named]
    simp [readPart_hexadecimal small, total]

end FlagNames

theorem TypeFlags.legible : TypeFlags.names.Legible :=
  ⟨by decide, by decide, by decide⟩

theorem FieldFlags.legible : FieldFlags.names.Legible :=
  ⟨by decide, by decide, by decide⟩

theorem MethodFlags.legible : MethodFlags.names.Legible :=
  ⟨by decide, by decide, by decide⟩

@[simp] theorem TypeFlags.read_write (f : TypeFlags) : TypeFlags.read f.write = some f := by
  have value := FlagNames.read_write legible f.bits.toNat_lt
  rw [read, write, value, Option.map_some, UInt32.ofNat_toNat]

@[simp] theorem FieldFlags.read_write (f : FieldFlags) : FieldFlags.read f.write = some f := by
  have value := FlagNames.read_write legible f.bits.toNat_lt
  rw [read, write, value, Option.map_some, UInt16.ofNat_toNat]

@[simp] theorem MethodFlags.read_write (f : MethodFlags) : MethodFlags.read f.write = some f := by
  have value := FlagNames.read_write legible f.bits.toNat_lt
  rw [read, write, value, Option.map_some, UInt16.ofNat_toNat]

end Companions
