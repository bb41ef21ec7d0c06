import Companions.Json.Number
/-!
Numbers are scanned part by part, however they are written, as long as nothing stands behind them
that could belong to them. Integers survive being written: they keep their value, and those of 64
bits are in the range of a double.
-/
namespace Companions.Json.Number

/-! ## Digits -/

theorem digit_byte {c : Char} (h : c.isDigit) :
    isDigit (UInt8.ofNat c.toNat) ∧ digitValue (UInt8.ofNat c.toNat) = c.toNat - '0'.toNat := by
  have range : 48 ≤ c.toNat ∧ c.toNat ≤ 57 := by
    simpa [Char.isDigit, UInt32.le_iff_toNat_le] using h
  obtain ⟨low, high⟩ := range
  have byte : (UInt8.ofNat c.toNat).toNat = c.toNat := by
    rw [UInt8.toNat_ofNat']
    omega
  constructor
  · simp only [isDigit, UInt8.le_iff_toNat_le, byte, Bool.and_eq_true, decide_eq_true_eq]
    exact ⟨low, high⟩
  · rw [digitValue, byte]
    rfl

theorem isDigit_of_mem_digits {n : Nat} {d : UInt8} (h : d ∈ digits n) : isDigit d := by
  obtain ⟨c, hc, rfl⟩ := List.mem_map.mp h
  exact (digit_byte (Nat.isDigit_of_mem_toDigits (by decide) (by decide) hc)).1

theorem digits_ne_nil (n : Nat) : digits n ≠ [] := by
  simp [digits]

theorem value_digits (n : Nat) : value (digits n) = n := by
  have agree : ∀ (cs : List Char) (s : Nat), (∀ c ∈ cs, c.isDigit) →
      (cs.map fun c => UInt8.ofNat c.toNat).foldl (fun n d => n * 10 + digitValue d) s =
        Nat.ofDigitChars 10 cs s := by
    intro cs
    induction cs with
    | nil =>
        intro s _
        rfl
    | cons c cs ih =>
        intro s h
        obtain ⟨hc, hcs⟩ := List.forall_mem_cons.mp h
        rw [List.map_cons, List.foldl_cons, ih _ hcs, Nat.ofDigitChars_cons, (digit_byte hc).2,
          Nat.mul_comm]
  rw [value, digits, agree _ _ fun c hc => Nat.isDigit_of_mem_toDigits (by decide) (by decide) hc]
  exact Nat.ofDigitChars_toDigits (by decide) (by decide)

theorem digits_zero : digits 0 = [0x30] := by
  decide

/-- No numeral but zero itself starts with a zero. -/
theorem digits_head {n : Nat} (h : 0 < n) : ∃ d ds, digits n = d :: ds ∧ d ≠ 0x30 := by
  induction n using Nat.base_induction 10 (by decide) with
  | single m small =>
      have head : ∀ m < 10, 0 < m → UInt8.ofNat m.digitChar.toNat ≠ 0x30 := by decide
      refine ⟨_, [], ?_, head m small h⟩
      rw [digits, Nat.toDigits_of_lt_base small]
      rfl
  | digit m k small pos ih =>
      obtain ⟨d, ds, eq, nonzero⟩ := ih pos
      refine ⟨d, ds ++ (Nat.toDigits 10 k).map fun c => UInt8.ofNat c.toNat, ?_, nonzero⟩
      rw [digits, ← Nat.toDigits_append_toDigits (by decide) pos small, List.map_append]
      exact congrArg (· ++ _) eq

/-! ## Grammar -/

/-- The sign, the whole part and the fraction. -/
def mantissa (n : Number) : Bytes :=
  (if n.negative then [0x2D] else []) ++ (n.whole ++
    if n.fraction = [] then [] else 0x2E :: n.fraction)

/-- The parts of a number are digits; the whole part has one at least and no zero in front, and so
has the exponent, but for the zeros. -/
structure Formed (n : Number) : Prop where
  whole : ∀ d ∈ n.whole, isDigit d
  nonempty : n.whole ≠ []
  leading : n.whole.head? = some 0x30 → n.whole = [0x30]
  fraction : ∀ d ∈ n.fraction, isDigit d
  exponent : ∀ e ∈ n.exponent, e.2 ≠ [] ∧ ∀ d ∈ e.2, isDigit d

/-- How an exponent may be written: with either mark, and a plus sign or none where it does not
count down. -/
inductive Exponent : Option (Bool × Bytes) → Bytes → Prop where
  | absent : Exponent none []
  | bare {mark : UInt8} (marked : mark = 0x65 ∨ mark = 0x45) (ds : Bytes) :
      Exponent (some (false, ds)) (mark :: ds)
  | up {mark : UInt8} (marked : mark = 0x65 ∨ mark = 0x45) (ds : Bytes) :
      Exponent (some (false, ds)) (mark :: 0x2B :: ds)
  | down {mark : UInt8} (marked : mark = 0x65 ∨ mark = 0x45) (ds : Bytes) :
      Exponent (some (true, ds)) (mark :: 0x2D :: ds)

/-- The texts of a number. -/
def Spells (n : Number) (bs : Bytes) : Prop :=
  n.Formed ∧ ∃ exponent, Exponent n.exponent exponent ∧ bs = n.mantissa ++ exponent

theorem spells_write {n : Number} (formed : n.Formed) : n.Spells n.write := by
  refine ⟨formed, ?_⟩
  unfold write mantissa
  cases n.exponent with
  | none => exact ⟨[], .absent, by simp⟩
  | some e =>
      obtain ⟨_ | _, ds⟩ := e
      · exact ⟨_, .bare (.inl rfl) ds, by simp⟩
      · exact ⟨_, .down (.inl rfl) ds, by simp⟩

theorem formed_ofInt (i : Int) : (ofInt i).Formed where
  whole _ := isDigit_of_mem_digits
  nonempty := digits_ne_nil _
  leading zero := by
    rcases Nat.eq_zero_or_pos i.natAbs with none | pos
    · change digits i.natAbs = _
      rw [none, digits_zero]
    · obtain ⟨d, ds, eq, nonzero⟩ := digits_head pos
      change (digits i.natAbs).head? = _ at zero
      rw [eq] at zero
      exact absurd (Option.some.inj zero) nonzero
  fraction := nofun
  exponent := nofun

/-! ## Scanning -/

/-- No digit stands in front. -/
def Nondigit (r : Bytes) : Prop := ∀ b ∈ r.head?, isDigit b = false

/-- What may stand behind a number: nothing that could belong to it. -/
def Delimited (r : Bytes) : Prop :=
  ∀ b ∈ r.head?, isDigit b = false ∧ b ≠ 0x2E ∧ b ≠ 0x65 ∧ b ≠ 0x45

theorem span_digits {ds r : Bytes} (all : ∀ d ∈ ds, isDigit d) (stop : Nondigit r) :
    (ds ++ r).takeWhile isDigit = ds ∧ (ds ++ r).dropWhile isDigit = r := by
  rw [List.takeWhile_append_of_pos all, List.dropWhile_append_of_pos all]
  cases r with
  | nil => simp
  | cons b r => simp [stop b rfl]

/-- Takes the sign. -/
def takeSign : Bytes → Bool × Bytes
  | 0x2D :: r => (true, r)
  | r => (false, r)

/-- Takes the digits in front, one at least. -/
def takeDigits? (bs : Bytes) : Option (Bytes × Bytes) :=
  if bs.takeWhile isDigit = [] then none
  else some (bs.takeWhile isDigit, bs.dropWhile isDigit)

/-- Takes the whole part. -/
def takeWhole? : Bytes → Option (Bytes × Bytes)
  | 0x30 :: r => some ([0x30], r)
  | r => takeDigits? r

/-- Takes the fraction with its point, if there is one. -/
def takeFraction? : Bytes → Option (Bytes × Bytes)
  | 0x2E :: r => takeDigits? r
  | r => some ([], r)

/-- Takes the sign of an exponent. -/
def takeDirection : Bytes → Bool × Bytes
  | 0x2B :: r => (false, r)
  | 0x2D :: r => (true, r)
  | r => (false, r)

/-- Takes the exponent with its mark, if there is one. -/
def takeExponent? : Bytes → Option (Option (Bool × Bytes) × Bytes)
  | [] => some (none, [])
  | e :: r =>
    if e = 0x65 ∨ e = 0x45 then
      (takeDigits? (takeDirection r).2).map fun (ds, rest) =>
        (some ((takeDirection r).1, ds), rest)
    else some (none, e :: r)

theorem takeExponent?_marked {mark : UInt8} (marked : mark = 0x65 ∨ mark = 0x45) (r : Bytes) :
    takeExponent? (mark :: r) = (takeDigits? (takeDirection r).2).map fun (ds, rest) =>
      (some ((takeDirection r).1, ds), rest) :=
  if_pos marked

/-- A number is taken part by part. -/
theorem scan?_eq (bs : Bytes) : scan? bs = do
    let (whole, bs') ← takeWhole? (takeSign bs).2
    let (fraction, bs') ← takeFraction? bs'
    let (exponent, bs') ← takeExponent? bs'
    return (⟨(takeSign bs).1, whole, fraction, exponent⟩, bs') := by
  have whole (bs : Bytes) (k : Bytes × Bytes → Option (Number × Bytes)) :
      (match bs with
        | 0x30 :: r => some ([0x30], r) >>= k
        | r => if r.takeWhile isDigit = [] then none >>= k
               else some (r.takeWhile isDigit, r.dropWhile isDigit) >>= k) =
      takeWhole? bs >>= k := by
    unfold takeWhole? takeDigits?
    split
    · rfl
    · split <;> rfl
  have fraction (bs : Bytes) (k : Bytes × Bytes → Option (Number × Bytes)) :
      (match bs with
        | 0x2E :: r => if r.takeWhile isDigit = [] then none >>= k
               else some (r.takeWhile isDigit, r.dropWhile isDigit) >>= k
        | r => some ([], r) >>= k) =
      takeFraction? bs >>= k := by
    unfold takeFraction? takeDigits?
    split
    · split <;> rfl
    · rfl
  refine (whole (takeSign bs).2 _).trans (congrArg (takeWhole? (takeSign bs).2 >>= ·) (funext ?_))
  intro x
  refine (fraction x.2 _).trans (congrArg (takeFraction? x.2 >>= ·) (funext ?_))
  intro y
  obtain ⟨ds, _ | ⟨e, r⟩⟩ := y
  · rfl
  · by_cases mark : e = 0x65 ∨ e = 0x45
    · change (if e = 0x65 ∨ e = 0x45 then _ else _) = takeExponent? (e :: r) >>= _
      rw [if_pos mark, takeExponent?_marked mark, takeDigits?]
      change (if (takeDirection r).2.takeWhile isDigit = [] then none else _) = _
      split <;> rfl
    · have bare : takeExponent? (e :: r) = some (none, e :: r) := if_neg mark
      change (if e = 0x65 ∨ e = 0x45 then _ else _) = takeExponent? (e :: r) >>= _
      rw [if_neg mark, bare]
      rfl

theorem takeSign_signed {negative : Bool} {r : Bytes} (other : r.head? ≠ some 0x2D) :
    takeSign ((if negative then [0x2D] else []) ++ r) = (negative, r) := by
  cases negative with
  | true => rfl
  | false =>
      change takeSign r = _
      unfold takeSign
      split
      · exact absurd rfl other
      · rfl

theorem takeDigits?_digits {ds r : Bytes} (all : ∀ d ∈ ds, isDigit d) (nonempty : ds ≠ [])
    (stop : Nondigit r) : takeDigits? (ds ++ r) = some (ds, r) := by
  obtain ⟨taken, left⟩ := span_digits all stop
  rw [takeDigits?, taken, left, if_neg nonempty]

theorem takeWhole?_whole {n : Number} (formed : n.Formed) {r : Bytes} (stop : Nondigit r) :
    takeWhole? (n.whole ++ r) = some (n.whole, r) := by
  by_cases zero : n.whole.head? = some 0x30
  · rw [formed.leading zero]
    rfl
  · obtain ⟨d, ds, eq⟩ := List.exists_cons_of_ne_nil formed.nonempty
    rw [← takeDigits?_digits formed.whole formed.nonempty stop, eq, List.cons_append]
    rw [eq] at zero
    unfold takeWhole?
    split
    · next same => exact absurd (congrArg some (List.cons.inj same).1) zero
    · rfl

theorem takeFraction?_fraction {n : Number} (formed : n.Formed) {r : Bytes} (stop : Nondigit r)
    (pointless : r.head? ≠ some 0x2E) :
    takeFraction? ((if n.fraction = [] then [] else 0x2E :: n.fraction) ++ r) =
      some (n.fraction, r) := by
  split
  · next none =>
      rw [none, List.nil_append]
      unfold takeFraction?
      split
      · exact absurd rfl pointless
      · rfl
  · next nonempty => exact takeDigits?_digits formed.fraction nonempty stop

theorem takeDirection_digits {ds : Bytes} (all : ∀ d ∈ ds, isDigit d) (nonempty : ds ≠ [])
    (r : Bytes) : takeDirection (ds ++ r) = (false, ds ++ r) := by
  obtain ⟨d, ds, rfl⟩ := List.exists_cons_of_ne_nil nonempty
  have digit := all d List.mem_cons_self
  rw [List.cons_append]
  unfold takeDirection
  split
  · next same => exact absurd ((List.cons.inj same).1 ▸ digit) (by decide)
  · next same => exact absurd ((List.cons.inj same).1 ▸ digit) (by decide)
  · rfl

theorem takeExponent?_exponent {e : Option (Bool × Bytes)}
    (digits : ∀ x ∈ e, x.2 ≠ [] ∧ ∀ d ∈ x.2, isDigit d) {bs : Bytes} (spelled : Exponent e bs)
    {r : Bytes} (delimited : Delimited r) : takeExponent? (bs ++ r) = some (e, r) := by
  have stop : Nondigit r := fun b hb => (delimited b hb).1
  cases spelled with
  | absent =>
      cases r with
      | nil => rfl
      | cons b r =>
          obtain ⟨-, -, small, capital⟩ := delimited b rfl
          exact if_neg (by simp [small, capital])
  | bare marked ds =>
      obtain ⟨nonempty, all⟩ := digits _ rfl
      rw [List.cons_append, takeExponent?_marked marked, takeDirection_digits all nonempty,
        takeDigits?_digits all nonempty stop]
      rfl
  | up marked ds =>
      obtain ⟨nonempty, all⟩ := digits _ rfl
      rw [List.cons_append, takeExponent?_marked marked, List.cons_append]
      change (takeDigits? (ds ++ r)).map _ = _
      rw [takeDigits?_digits all nonempty stop]
      rfl
  | down marked ds =>
      obtain ⟨nonempty, all⟩ := digits _ rfl
      rw [List.cons_append, takeExponent?_marked marked, List.cons_append]
      change (takeDigits? (ds ++ r)).map _ = _
      rw [takeDigits?_digits all nonempty stop]
      rfl

/-- Neither an exponent nor what stands behind the number goes on with its digits or a fraction. -/
theorem Exponent.head {e : Option (Bool × Bytes)} {bs : Bytes} (spelled : Exponent e bs) {r : Bytes}
    (delimited : Delimited r) : ∀ b ∈ (bs ++ r).head?, isDigit b = false ∧ b ≠ 0x2E := by
  have marks {mark : UInt8} (marked : mark = 0x65 ∨ mark = 0x45) :
      isDigit mark = false ∧ mark ≠ 0x2E := by
    rcases marked with rfl | rfl <;> decide
  cases spelled with
  | absent => exact fun b hb => ⟨(delimited b hb).1, (delimited b hb).2.1⟩
  | bare marked ds => exact fun b hb => Option.some.inj hb ▸ marks marked
  | up marked ds => exact fun b hb => Option.some.inj hb ▸ marks marked
  | down marked ds => exact fun b hb => Option.some.inj hb ▸ marks marked

theorem Formed.head {n : Number} (formed : n.Formed) (r : Bytes) :
    ∃ d ds, n.whole ++ r = d :: ds ∧ isDigit d := by
  obtain ⟨d, ds, eq⟩ := List.exists_cons_of_ne_nil formed.nonempty
  refine ⟨d, ds ++ r, by rw [eq]; rfl, formed.whole d ?_⟩
  rw [eq]
  exact List.mem_cons_self

/-- A number in front of what does not belong to it is taken whole, however it is written. -/
theorem scan?_spelled {n : Number} {bs : Bytes} (spelled : n.Spells bs) {r : Bytes}
    (delimited : Delimited r) : scan? (bs ++ r) = some (n, r) := by
  obtain ⟨formed, exponent, spelled, rfl⟩ := spelled
  have head := spelled.head delimited
  have behind : Nondigit
      ((if n.fraction = [] then [] else 0x2E :: n.fraction) ++ (exponent ++ r)) := by
    split
    · exact fun b hb => (head b hb).1
    · rintro b ⟨⟩
      rfl
  have unsigned : (n.whole ++ ((if n.fraction = [] then [] else 0x2E :: n.fraction) ++
      (exponent ++ r))).head? ≠ some 0x2D := by
    obtain ⟨d, ds, eq, digit⟩ := formed.head
      ((if n.fraction = [] then [] else 0x2E :: n.fraction) ++ (exponent ++ r))
    rw [eq]
    rintro ⟨⟩
    exact absurd digit (by decide)
  rw [mantissa, List.append_assoc, List.append_assoc, List.append_assoc, scan?_eq,
    takeSign_signed unsigned, takeWhole?_whole formed behind]
  simp only [Option.bind_eq_bind, Option.bind_some]
  rw [takeFraction?_fraction formed (fun b hb => (head b hb).1) fun point =>
    (head _ point).2 rfl]
  simp only [Option.bind_some, takeExponent?_exponent formed.exponent spelled delimited]
  rfl

/-- A number begins with a digit or a minus sign. -/
theorem Spells.head {n : Number} {bs : Bytes} (spelled : n.Spells bs) :
    ∃ b r, bs = b :: r ∧ (isDigit b ∨ b = 0x2D) := by
  obtain ⟨formed, exponent, -, rfl⟩ := spelled
  unfold mantissa
  cases n.negative with
  | true => exact ⟨_, _, rfl, .inr rfl⟩
  | false =>
      obtain ⟨d, ds, eq, digit⟩ := formed.head
        ((if n.fraction = [] then [] else 0x2E :: n.fraction) ++ exponent)
      refine ⟨d, ds, ?_, .inl digit⟩
      rw [← eq, List.append_assoc, List.append_assoc]
      rfl

/-! ## What is scanned -/

theorem takeSign_eq {bs r : Bytes} {negative : Bool} (h : takeSign bs = (negative, r)) :
    bs = (if negative then [0x2D] else []) ++ r := by
  unfold takeSign at h
  split at h <;> cases h <;> rfl

theorem digits_of_takeDigits? {bs ds r : Bytes} (h : takeDigits? bs = some (ds, r)) :
    bs = ds ++ r ∧ ds ≠ [] ∧ ∀ d ∈ ds, isDigit d := by
  unfold takeDigits? at h
  split at h
  · cases h
  · next nonempty =>
      cases h
      have all := List.all_eq_true.mp (List.all_takeWhile (p := isDigit) (l := bs))
      exact ⟨List.takeWhile_append_dropWhile.symm, nonempty, all⟩

theorem whole_of_takeWhole? {bs ds r : Bytes} (h : takeWhole? bs = some (ds, r)) :
    bs = ds ++ r ∧ ds ≠ [] ∧ (∀ d ∈ ds, isDigit d) ∧ (ds.head? = some 0x30 → ds = [0x30]) := by
  unfold takeWhole? at h
  split at h
  · cases h
    exact ⟨rfl, by simp, List.forall_mem_singleton.mpr rfl, fun _ => rfl⟩
  · next other =>
      obtain ⟨rfl, nonempty, all⟩ := digits_of_takeDigits? h
      refine ⟨rfl, nonempty, all, fun zero => ?_⟩
      obtain ⟨d, ds, rfl⟩ := List.exists_cons_of_ne_nil nonempty
      cases zero
      exact absurd rfl (other (ds ++ r))

theorem fraction_of_takeFraction? {bs ds r : Bytes} (h : takeFraction? bs = some (ds, r)) :
    bs = (if ds = [] then [] else 0x2E :: ds) ++ r ∧ ∀ d ∈ ds, isDigit d := by
  unfold takeFraction? at h
  split at h
  · obtain ⟨rfl, nonempty, all⟩ := digits_of_takeDigits? h
    rw [if_neg nonempty]
    exact ⟨rfl, all⟩
  · cases h
    exact ⟨rfl, nofun⟩

theorem takeDirection_cases (r : Bytes) :
    (∃ r', r = 0x2B :: r' ∧ takeDirection r = (false, r')) ∨
    (∃ r', r = 0x2D :: r' ∧ takeDirection r = (true, r')) ∨ takeDirection r = (false, r) := by
  unfold takeDirection
  split
  · exact .inl ⟨_, rfl, rfl⟩
  · exact .inr (.inl ⟨_, rfl, rfl⟩)
  · exact .inr (.inr rfl)

theorem exponent_of_takeExponent? {bs r : Bytes} {e : Option (Bool × Bytes)}
    (h : takeExponent? bs = some (e, r)) :
    (∃ exponent, Exponent e exponent ∧ bs = exponent ++ r) ∧
      ∀ x ∈ e, x.2 ≠ [] ∧ ∀ d ∈ x.2, isDigit d := by
  unfold takeExponent? at h
  split at h
  · cases h
    exact ⟨⟨[], .absent, rfl⟩, nofun⟩
  · next mark rest =>
      split at h
      · next marked =>
          obtain ⟨⟨ds, r'⟩, taken, eq⟩ := Option.map_eq_some_iff.mp h
          cases eq
          obtain ⟨behind, nonempty, all⟩ := digits_of_takeDigits? taken
          refine ⟨?_, fun x hx => Option.some.inj hx ▸ ⟨nonempty, all⟩⟩
          obtain ⟨r', rfl, direction⟩ | ⟨r', rfl, direction⟩ | direction := takeDirection_cases rest
          · rw [direction] at behind ⊢
            exact ⟨_, .up marked ds, congrArg (mark :: 0x2B :: ·) behind⟩
          · rw [direction] at behind ⊢
            exact ⟨_, .down marked ds, congrArg (mark :: 0x2D :: ·) behind⟩
          · rw [direction] at behind ⊢
            exact ⟨_, .bare marked ds, congrArg (mark :: ·) behind⟩
      · cases h
        exact ⟨⟨[], .absent, rfl⟩, nofun⟩

/-- What is taken for a number is one of its texts. -/
theorem spells_of_scan? {bs r : Bytes} {n : Number} (h : scan? bs = some (n, r)) :
    ∃ text, n.Spells text ∧ bs = text ++ r := by
  rw [scan?_eq] at h
  obtain ⟨⟨whole, afterWhole⟩, first, h⟩ := Option.bind_eq_some_iff.mp h
  obtain ⟨⟨fraction, afterFraction⟩, second, h⟩ := Option.bind_eq_some_iff.mp h
  obtain ⟨⟨exponent, rest⟩, third, h⟩ := Option.bind_eq_some_iff.mp h
  cases h
  obtain ⟨eq, nonempty, all, leading⟩ := whole_of_takeWhole? first
  obtain ⟨rfl, fractional⟩ := fraction_of_takeFraction? second
  obtain ⟨⟨text, spelled, rfl⟩, exponential⟩ := exponent_of_takeExponent? third
  refine ⟨_, ⟨⟨all, nonempty, leading, fractional, exponential⟩, text, spelled, rfl⟩, ?_⟩
  have signed : bs = (if (takeSign bs).1 then [0x2D] else []) ++ (takeSign bs).2 := takeSign_eq rfl
  rw [eq] at signed
  rw [mantissa, List.append_assoc, List.append_assoc, List.append_assoc]
  exact signed

/-! ## Values -/

theorem ofNat_eq_ofInt (n : Nat) : ofNat n = ofInt n := by
  simp [ofNat, ofInt]

@[simp] theorem int?_ofInt (i : Int) : (ofInt i).int? = some i := by
  rw [int?, ofInt, if_neg (by simp)]
  by_cases neg : i < 0
  · have pos : i.natAbs ≠ 0 := by omega
    have back : -(i.natAbs : Int) = i := by omega
    rw [value_digits, if_pos (decide_eq_true neg), if_neg pos, back]
  · have back : (i.natAbs : Int) = i := by omega
    rw [value_digits, if_neg (by simpa using neg), back]

theorem le_foldl_digits (ds : Bytes) (s : Nat) :
    s ≤ ds.foldl (fun n d => n * 10 + digitValue d) s := by
  induction ds generalizing s with
  | nil => exact Nat.le_refl s
  | cons d ds ih =>
      have step := ih (s * 10 + digitValue d)
      rw [List.foldl_cons]
      omega

/-- Digits whose value fits into 64 bits all go into the significand. -/
theorem accumulate_of_lt (ds : Bytes) (s k : Nat)
    (h : ds.foldl (fun n d => n * 10 + digitValue d) s < UInt64.size) :
    (accumulate s k ds).2.2 = 0 := by
  induction ds generalizing s k with
  | nil => rfl
  | cons d ds ih =>
      have within := Nat.lt_of_le_of_lt (le_foldl_digits ds (s * 10 + digitValue d)) h
      rw [accumulate, if_pos within]
      exact ih _ _ h

theorem inRange_ofInt {i : Int} (h : i.natAbs < UInt64.size) : (ofInt i).inRange := by
  have cut : (accumulate 0 0 (digits i.natAbs)).2.2 = 0 := by
    refine accumulate_of_lt _ _ _ ?_
    change value (digits i.natAbs) < _
    rwa [value_digits]
  simp [inRange, ofInt, cut]

end Companions.Json.Number
