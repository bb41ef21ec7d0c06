import Mathlib.Data.List.TakeWhile
import Companions.Text.Basic
/-!
Texts cut and put together again: pieces between separators, trimmed blanks, and the digits of a
number in any base up to sixteen.
-/
namespace Companions.Text

/-! ## Pieces -/

theorem split_of_notMem {sep : Char} {p : List Char} (h : sep ∉ p) : split sep p = (p, []) := by
  induction p with
  | nil => rfl
  | cons c p ih =>
      obtain ⟨here, later⟩ := List.ne_and_not_mem_of_not_mem_cons h
      rw [split, ih later]
      exact if_neg here.symm

theorem split_append {sep : Char} {p : List Char} (h : sep ∉ p) (r : List Char) :
    split sep (p ++ sep :: r) = (p, pieces sep r) := by
  induction p with
  | nil =>
      rw [List.nil_append, split]
      exact if_pos rfl
  | cons c p ih =>
      obtain ⟨here, later⟩ := List.ne_and_not_mem_of_not_mem_cons h
      rw [List.cons_append, split, ih later]
      exact if_neg here.symm

theorem notMem_split (sep : Char) (cs : List Char) : sep ∉ (split sep cs).1 := by
  induction cs with
  | nil => exact List.not_mem_nil
  | cons c cs ih =>
      unfold split
      dsimp only
      split
      · exact List.not_mem_nil
      · next other => exact List.not_mem_cons_of_ne_of_not_mem (Ne.symm other) ih

theorem pieces_of_notMem {sep : Char} {p : List Char} (h : sep ∉ p) : pieces sep p = [p] := by
  rw [pieces, split_of_notMem h]

theorem pieces_append {sep : Char} {p : List Char} (h : sep ∉ p) (r : List Char) :
    pieces sep (p ++ sep :: r) = p :: pieces sep r := by
  rw [pieces, split_append h]

theorem after?_append (p r : List Char) : after? p (p ++ r) = some r := by
  induction p with
  | nil => cases r <;> rfl
  | cons c p ih =>
      rw [List.cons_append, after?, if_pos rfl]
      exact ih

/-! ## Cuts -/

/-- A text is cut in one way into a piece without stopping characters and a rest that is empty or
begins with one. -/
theorem cut_unique {p : Char → Bool} {u v x y : List Char} (hu : ∀ c ∈ u, p c) (hv : ∀ c ∈ v, p c)
    (hx : ∀ c ∈ x.head?, p c = false) (hy : ∀ c ∈ y.head?, p c = false)
    (h : u ++ x = v ++ y) : u = v ∧ x = y := by
  induction u generalizing v with
  | nil =>
      cases v with
      | nil => exact ⟨rfl, h⟩
      | cons d v =>
          have stop := hx d (by simp [show x = d :: (v ++ y) from h])
          rw [hv d List.mem_cons_self] at stop
          cases stop
  | cons c u ih =>
      cases v with
      | nil =>
          have stop := hy c (by simp [← show c :: (u ++ x) = y from h])
          rw [hu c List.mem_cons_self] at stop
          cases stop
      | cons d v =>
          obtain ⟨rfl, rest⟩ := List.cons.inj h
          obtain ⟨rfl, tails⟩ := ih (fun a ha => hu a (List.mem_cons_of_mem _ ha))
            (fun a ha => hv a (List.mem_cons_of_mem _ ha)) rest
          exact ⟨rfl, tails⟩

/-! ## Blanks -/

/-- A text that does not begin with a blank. -/
def Opens (p : List Char) : Prop := ∀ c ∈ p.head?, isBlank c = false

theorem opens_trimStart (p : List Char) : Opens (trimStart p) := by
  intro c head
  have stop := List.head?_dropWhile_not isBlank p
  change (p.dropWhile isBlank).head? = some c at head
  rw [head] at stop
  exact stop

theorem trimStart_padded {blanks p : List Char} (hb : ∀ c ∈ blanks, isBlank c) (some : p ≠ [])
    (hp : Opens p) (r : List Char) : trimStart (blanks ++ (p ++ r)) = p ++ r := by
  rw [trimStart, List.dropWhile_append_of_pos hb]
  cases p with
  | nil => exact absurd rfl some
  | cons c p => exact List.dropWhile_cons_of_neg (by simp [hp c rfl])

theorem trimEnd_append (p : List Char) : ∃ blanks, trimEnd p ++ blanks = p := by
  refine ⟨(p.reverse.takeWhile isBlank).reverse, ?_⟩
  rw [trimEnd, ← List.reverse_append, List.takeWhile_append_dropWhile, List.reverse_reverse]

/-- A text with no blank at either end. -/
structure Trimmed (p : List Char) : Prop where
  front : Opens p
  back : Opens p.reverse

theorem trimmed_trim (p : List Char) : Trimmed (trim p) := by
  constructor
  · intro c head
    obtain ⟨blanks, whole⟩ := trimEnd_append (trimStart p)
    apply opens_trimStart p c
    change (trimEnd (trimStart p)).head? = some c at head
    rw [← whole, List.head?_append, head]
    rfl
  · rw [trim, trimEnd, List.reverse_reverse]
    exact opens_trimStart (trimStart p).reverse

theorem mem_of_mem_trim {p : List Char} {c : Char} (hc : c ∈ trim p) : c ∈ p := by
  have back : c ∈ (trimStart p).reverse :=
    (List.dropWhile_sublist _).subset (List.mem_reverse.mp hc)
  exact (List.dropWhile_sublist _).subset (List.mem_reverse.mp back)

theorem trim_padded {before p after : List Char} (hb : ∀ c ∈ before, isBlank c) (some : p ≠ [])
    (hp : Trimmed p) (ha : ∀ c ∈ after, isBlank c) : trim (before ++ p ++ after) = p := by
  have back : ∀ c ∈ after.reverse, isBlank c := fun c hc => ha c (List.mem_reverse.mp hc)
  have ending := trimStart_padded back (mt List.reverse_eq_nil_iff.mp some) hp.back []
  rw [List.append_nil, ← List.reverse_append] at ending
  rw [List.append_assoc, trim, trimStart_padded hb some hp.front]
  exact (congrArg List.reverse ending).trans (List.reverse_reverse p)

theorem trim_of_trimmed {p : List Char} (hp : Trimmed p) : trim p = p := by
  cases p with
  | nil => rfl
  | cons c p =>
      have whole := trim_padded (List.forall_mem_nil _) (List.cons_ne_nil c p) hp
        (List.forall_mem_nil _)
      rwa [List.nil_append, List.append_nil] at whole

/-- A text without blanks. -/
def Solid (p : List Char) : Prop := p ≠ [] ∧ ∀ c ∈ p, isBlank c = false

-- looks at the characters of the text, not at all there are
instance (p : List Char) : Decidable (Solid p) :=
  @instDecidableAnd _ _ _ (List.decidableBAll (isBlank · = false) p)

theorem Solid.trimmed {p : List Char} (h : Solid p) : Trimmed p where
  front c head := h.2 c (List.mem_of_mem_head? head)
  back c head := h.2 c (List.mem_reverse.mp (List.mem_of_mem_head? head))

theorem trim_ne_nil {cs : List Char} {c : Char} (hc : c ∈ cs) (solid : isBlank c = false) :
    trim cs ≠ [] := by
  have keep : ∀ ds : List Char, c ∈ ds → c ∈ ds.dropWhile isBlank := by
    intro ds hd
    rw [← List.takeWhile_append_dropWhile (p := isBlank) (l := ds)] at hd
    rcases List.mem_append.mp hd with taken | left
    · have blank : isBlank c := List.mem_takeWhile_imp taken
      rw [solid] at blank
      cases blank
    · exact left
  have kept : c ∈ trim cs :=
    List.mem_reverse.mpr (keep _ (List.mem_reverse.mpr (keep cs hc)))
  intro empty
  rw [empty] at kept
  cases kept

/-- What stands between bars with a blank on each side, trimmed, are the words that were joined. -/
theorem trim_pieces_intercalate {words : List (List Char)} (some : words ≠ [])
    (h : ∀ w ∈ words, Solid w ∧ '|' ∉ w) {before : List Char}
    (hb : ∀ c ∈ before, isBlank c ∧ c ≠ '|') :
    (pieces '|' (before ++ [' ', '|', ' '].intercalate words)).map trim = words := by
  induction words generalizing before with
  | nil => exact absurd rfl some
  | cons w words ih =>
      obtain ⟨⟨solid, closed⟩, rest⟩ := List.forall_mem_cons.mp h
      have blank : ∀ c ∈ before, isBlank c := fun c hc => (hb c hc).1
      have open' : '|' ∉ before := fun hc => (hb _ hc).2 rfl
      cases words with
      | nil =>
          have whole := trim_padded blank solid.1 solid.trimmed (List.forall_mem_nil _)
          rw [List.append_nil] at whole
          rw [List.intercalate_singleton, pieces_of_notMem (by simp [open', closed])]
          exact congrArg (· :: []) whole
      | cons v words =>
          have space : ∀ c ∈ [' '], isBlank c ∧ c ≠ '|' := List.forall_mem_singleton.mpr (by decide)
          have first := trim_padded blank solid.1 solid.trimmed fun c hc => (space c hc).1
          have text : before ++ [' ', '|', ' '].intercalate (w :: v :: words) =
              (before ++ w ++ [' ']) ++
                '|' :: ([' '] ++ [' ', '|', ' '].intercalate (v :: words)) := by
            simp
          rw [text, pieces_append (by simp [open', closed]), List.map_cons, first,
            ih (List.cons_ne_nil v words) rest space]

/-! ## Digits -/

theorem mem_toDigits {base n : Nat} (hb : 1 < base) {c : Char} (hc : c ∈ Nat.toDigits base n) :
    ∃ k < base, c = Nat.digitChar k := by
  induction n using Nat.base_induction base hb with
  | single m small =>
      rw [Nat.toDigits_of_lt_base small, List.mem_singleton] at hc
      exact ⟨m, small, hc⟩
  | digit m k small pos ih =>
      rw [← Nat.toDigits_append_toDigits hb pos small, Nat.toDigits_of_lt_base small] at hc
      rcases List.mem_append.mp hc with front | last
      · exact ih front
      · exact ⟨k, small, List.mem_singleton.mp last⟩

theorem decimal_injective {n m : Nat} (h : decimal n = decimal m) : n = m := by
  have read (k : Nat) : Nat.ofDigitChars 10 (decimal k) 0 = k := Nat.ofDigitChars_ten_toDigits
  rw [← read n, h, read]

theorem isDigit_decimal {n : Nat} {c : Char} (hc : c ∈ decimal n) : c.isDigit :=
  Nat.isDigit_of_mem_toDigits (by decide) (by decide) hc

theorem not_isBlank_of_isDigit {c : Char} (digit : c.isDigit) : isBlank c = false := by
  have range : 48 ≤ c.toNat ∧ c.toNat ≤ 57 := by
    simpa [Char.isDigit, UInt32.le_iff_toNat_le] using digit
  rw [isBlank, decide_eq_false_iff_not]
  intro blank
  simp only [List.mem_cons, List.not_mem_nil, or_false] at blank
  omega

theorem number_toDigits {base : Nat} (hb : 1 < base) {digit : Char → Option Nat}
    (h : ∀ k < base, digit (Nat.digitChar k) = some k) (n : Nat) :
    number base digit (Nat.toDigits base n) = some n := by
  have folded :
      (Nat.toDigits base n).foldlM (fun n c => (digit c).map (n * base + ·)) 0 = some n := by
    induction n using Nat.base_induction base hb with
    | single m small =>
        rw [Nat.toDigits_of_lt_base small]
        simp [h m small]
    | digit m k small pos ih =>
        rw [← Nat.toDigits_append_toDigits hb pos small, List.foldlM_append, ih,
          Nat.toDigits_of_lt_base small]
        simp [h k small, Nat.mul_comm]
  cases eq : Nat.toDigits base n with
  | nil => exact absurd eq Nat.toDigits_ne_nil
  | cons c cs =>
      rw [number, ← eq]
      exact folded

theorem numeral_toDigits {base limit n : Nat} (hb : 1 < base) {digit : Char → Option Nat}
    (h : ∀ k < base, digit (Nat.digitChar k) = some k) (hn : n < limit) :
    numeral base limit digit (Nat.toDigits base n) = some n := by
  have unsigned : after? ['+'] (Nat.toDigits base n) = none := by
    cases eq : Nat.toDigits base n with
    | nil => rfl
    | cons c cs =>
        obtain ⟨k, -, rfl⟩ := mem_toDigits hb (eq ▸ List.mem_cons_self : c ∈ Nat.toDigits base n)
        have sign : ¬ '+' = k.digitChar := (Nat.digitChar_ne '+' (by decide)).symm
        rw [after?, if_neg sign]
  rw [numeral, unsigned, Option.getD_none, number_toDigits hb h]
  simp [hn]

end Companions.Text
