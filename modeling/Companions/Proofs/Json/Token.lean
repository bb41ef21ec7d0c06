import Companions.Json.Decode
import Companions.Proofs.Json.Text
import Companions.Proofs.Json.Number
/-!
The reader accepts exactly the texts that say a value, however texts are escaped, numbers written and
blanks put between the tokens: the tokens are told apart again, and the value is read from its
tokens. So values survive being written. The values that writers make hold escaped texts and
integers of 64 bits.
-/
namespace Companions.Json

/-- Induction with one hypothesis for all items and one for all members. -/
@[induction_eliminator, elab_as_elim]
theorem inductionOn {motive : Json → Prop} (null : motive .null) (bool : ∀ b, motive (.bool b))
    (num : ∀ n, motive (.num n)) (str : ∀ raw, motive (.str raw))
    (arr : ∀ js, (∀ j ∈ js, motive j) → motive (.arr js))
    (obj : ∀ ms, (∀ m ∈ ms, motive m.2) → motive (.obj ms)) (j : Json) : motive j :=
  @Json.rec motive (fun js => ∀ j ∈ js, motive j) (fun ms => ∀ m ∈ ms, motive m.2)
    (fun m => motive m.2) null bool num str arr obj (by simp)
    (fun _ _ hj hjs => List.forall_mem_cons.mpr ⟨hj, hjs⟩) (by simp)
    (fun _ _ hm hms => List.forall_mem_cons.mpr ⟨hm, hms⟩) (fun _ _ h => h) j

/-- Values as they are written: texts and keys are escaped, numbers are integers of 64 bits. -/
inductive Encoded : Json → Prop where
  | null : Encoded .null
  | bool (b : Bool) : Encoded (.bool b)
  | num {i : Int} (h : i.natAbs < UInt64.size) : Encoded (.num (.ofInt i))
  | str (s : String) : Encoded (.str (encode s))
  | arr {js : List Json} (h : ∀ j ∈ js, Encoded j) : Encoded (.arr js)
  | obj {ms : List (Bytes × Json)} (keys : ∀ m ∈ ms, ∃ s, m.1 = encode s)
      (h : ∀ m ∈ ms, Encoded m.2) : Encoded (.obj ms)

namespace Token

/-! ## Grammar -/

/-- Tokens with one text. -/
def isFixed : Token → Bool
  | .num _ | .str _ => false
  | _ => true

/-- The texts of a token. -/
inductive Spells : Token → Bytes → Prop where
  | fixed {t : Token} (h : t.isFixed) : Spells t t.write
  | num {n : Number} {bs : Bytes} (h : n.Spells bs) : Spells (.num n) bs
  | str {raw : Bytes} (h : Raw raw) : Spells (.str raw) (0x22 :: raw ++ [0x22])

/-- Texts of the tokens one behind the other, with blanks anywhere between them and around them. -/
inductive Laid : List Token → Bytes → Prop where
  | nil : Laid [] []
  | blank {ts : List Token} {b : UInt8} {text : Bytes} (h : isBlank b) (laid : Laid ts text) :
      Laid ts (b :: text)
  | token {t : Token} {ts : List Token} {bs text : Bytes} (spelled : t.Spells bs)
      (laid : Laid ts text) : Laid (t :: ts) (bs ++ text)

/-- Without blanks. -/
theorem laid_write {ts : List Token} (h : ∀ t ∈ ts, t.Spells t.write) :
    Laid ts (ts.flatMap write) := by
  induction ts with
  | nil => exact .nil
  | cons t ts ih =>
      obtain ⟨first, rest⟩ := List.forall_mem_cons.mp h
      exact .token first (ih rest)

/-! ## Scanning -/

/-- Tokens that may stand behind a number. -/
def delimits : Token → Bool
  | .comma | .closeArr | .closeObj => true
  | _ => false

/-- Only tokens of this kind stand behind numbers. -/
inductive Separated : List Token → Prop where
  | nil : Separated []
  | cons {t : Token} {ts : List Token} (apart : ∀ n, t = .num n → ∀ t' ∈ ts.head?, t'.delimits)
      (rest : Separated ts) : Separated (t :: ts)

theorem delimited_of_blank {b : UInt8} (blank : isBlank b) (r : Bytes) :
    Number.Delimited (b :: r) := by
  have cases : ((b = 0x20 ∨ b = 0x09) ∨ b = 0x0A) ∨ b = 0x0D := by simpa [isBlank] using blank
  rintro c ⟨⟩
  rcases cases with ((rfl | rfl) | rfl) | rfl <;> decide

theorem Laid.delimited {ts : List Token} {text : Bytes} (h : Laid ts text)
    (head : ∀ t ∈ ts.head?, t.delimits) : Number.Delimited text := by
  cases h with
  | nil => exact nofun
  | blank h _ => exact delimited_of_blank h _
  | @token t ts bs text spelled laid =>
      have closes := head t rfl
      cases spelled with
      | num _ => cases closes
      | str _ => cases closes
      | fixed _ =>
          cases t with
          | comma => rintro c ⟨⟩; decide
          | closeArr => rintro c ⟨⟩; decide
          | closeObj => rintro c ⟨⟩; decide
          | _ => cases closes

theorem scan?_number {b : UInt8} (h : Json.isDigit b ∨ b = 0x2D) (r : Bytes) :
    scan? b r = (Number.scan? (b :: r)).map fun (n, r) => (.num n, r) := by
  have other : ∀ c, Json.isDigit c = false → c ≠ 0x2D → b ≠ c := by
    rintro c letter sign rfl
    rcases h with digit | minus
    · rw [letter] at digit
      cases digit
    · exact sign minus
  unfold scan?
  rw [if_neg (other 0x5B rfl (by decide)), if_neg (other 0x5D rfl (by decide)),
    if_neg (other 0x7B rfl (by decide)), if_neg (other 0x7D rfl (by decide)),
    if_neg (other 0x2C rfl (by decide)), if_neg (other 0x3A rfl (by decide)),
    if_neg (other 0x22 rfl (by decide)), if_neg (other 0x6E rfl (by decide)),
    if_neg (other 0x74 rfl (by decide)), if_neg (other 0x66 rfl (by decide))]

/-- A token in front of what does not belong to it is taken whole. -/
theorem scan?_spelled {t : Token} {bs : Bytes} (spelled : t.Spells bs) {rest : Bytes}
    (apart : ∀ n, t = .num n → Number.Delimited rest) :
    ∃ b r, bs = b :: r ∧ isBlank b = false ∧ scan? b (r ++ rest) = some (t, rest) := by
  cases spelled with
  | @num n _ h =>
      obtain ⟨b, r, rfl, head⟩ := h.head
      refine ⟨b, r, rfl, ?_, ?_⟩
      · rcases head with digit | rfl
        · have other : ∀ c, Json.isDigit c = false → b ≠ c := by
            rintro c blank rfl
            rw [blank] at digit
            cases digit
          simp [isBlank, other 0x20 rfl, other 0x09 rfl, other 0x0A rfl, other 0x0D rfl]
        · rfl
      · rw [scan?_number head, ← List.cons_append, Number.scan?_spelled h (apart n rfl)]
        rfl
  | @str raw h =>
      refine ⟨0x22, raw ++ [0x22], rfl, rfl, ?_⟩
      rw [List.append_assoc, List.singleton_append]
      change (scanText? (raw ++ 0x22 :: rest)).map _ = _
      rw [scanText?_raw h]
      rfl
  | fixed h =>
      cases t with
      | num n => cases h
      | str raw => cases h
      | bool b => cases b <;> exact ⟨_, _, rfl, rfl, rfl⟩
      | _ => exact ⟨_, _, rfl, rfl, rfl⟩

/-- Every byte of the text is fuel enough, more makes no difference. -/
theorem Laid.scanAll? {ts : List Token} {text : Bytes} (h : Laid ts text) (separated : Separated ts)
    (more : Nat) : Token.scanAll? (text.length + more) text = some ts := by
  induction h generalizing more with
  | nil => cases [].length + more <;> rfl
  | @blank ts b text blank _ ih =>
      rw [List.length_cons, Nat.add_right_comm, Token.scanAll?, if_pos blank, ih separated]
  | @token t ts bs text spelled laid ih =>
      obtain _ | ⟨apart, separated⟩ := separated
      obtain ⟨b, r, rfl, solid, scanned⟩ :=
        scan?_spelled spelled fun n eq => laid.delimited (apart n eq)
      have fuel : (b :: r ++ text).length + more = text.length + (r.length + more) + 1 := by
        simp only [List.length_append, List.length_cons]
        omega
      rw [fuel, List.cons_append, Token.scanAll?, solid, scanned]
      simp [ih separated]

theorem Laid.ofBytes? {ts : List Token} {text : Bytes} (h : Laid ts text)
    (separated : Separated ts) : Token.ofBytes? text = some ts :=
  h.scanAll? separated 0

/-- What is taken for a token is one of its texts. -/
theorem spells_of_scan? {b : UInt8} {r rest : Bytes} {t : Token} (h : scan? b r = some (t, rest)) :
    ∃ bs, t.Spells bs ∧ b :: r = bs ++ rest := by
  unfold scan? at h
  -- the six tokens of one byte
  iterate 6
    split at h
    · next same =>
        subst same
        cases h
        exact ⟨_, .fixed rfl, rfl⟩
  split at h
  · next quote =>
      subst quote
      obtain ⟨⟨raw, r'⟩, scanned, eq⟩ := Option.map_eq_some_iff.mp h
      cases eq
      obtain ⟨formed, rfl⟩ := raw_of_scanText? scanned
      exact ⟨_, .str formed, by simp⟩
  -- the three words
  iterate 3
    split at h
    · next same =>
        subst same
        split at h
        · cases h
          exact ⟨_, .fixed rfl, rfl⟩
        · cases h
  obtain ⟨⟨n, r'⟩, scanned, eq⟩ := Option.map_eq_some_iff.mp h
  cases eq
  obtain ⟨text, spelled, eq⟩ := Number.spells_of_scan? scanned
  exact ⟨text, .num spelled, eq⟩

theorem laid_of_scanAll? {n : Nat} {text : Bytes} {ts : List Token}
    (h : Token.scanAll? n text = some ts) : Laid ts text := by
  induction n generalizing text ts with
  | zero =>
      cases text with
      | nil =>
          cases h
          exact .nil
      | cons b r => cases h
  | succ n ih =>
      cases text with
      | nil =>
          cases h
          exact .nil
      | cons b r =>
          rw [Token.scanAll?] at h
          split at h
          · next blank => exact .blank blank (ih h)
          · split at h
            · cases h
            · next t rest scanned =>
                obtain ⟨ts', behind, rfl⟩ := Option.map_eq_some_iff.mp h
                obtain ⟨bs, spelled, eq⟩ := spells_of_scan? scanned
                rw [eq]
                exact .token spelled (ih behind)

end Token

/-! ## Reading from tokens -/

theorem tokens_arr (j : Json) (js : List Json) :
    tokens (.arr (j :: js)) = .openArr :: (tokens j ++ itemTokens js) := rfl

theorem tokens_obj (k : Bytes) (j : Json) (ms : List (Bytes × Json)) :
    tokens (.obj ((k, j) :: ms)) = .openObj :: .str k :: .colon :: (tokens j ++ memberTokens ms) :=
  rfl

theorem tokens_head (j : Json) : ∃ t ts, tokens j = t :: ts ∧ t ≠ .closeArr := by
  cases j with
  | null => exact ⟨_, _, rfl, nofun⟩
  | bool b => exact ⟨_, _, rfl, nofun⟩
  | num n => exact ⟨_, _, rfl, nofun⟩
  | str raw => exact ⟨_, _, rfl, nofun⟩
  | arr js => cases js <;> exact ⟨_, _, rfl, nofun⟩
  | obj ms => cases ms <;> exact ⟨_, _, rfl, nofun⟩

/-- A value is taken from the front of its tokens, if the fuel is twice their number. -/
def Taken (j : Json) : Prop :=
  ∀ n r, 2 * (tokens j).length ≤ n → take? n (tokens j ++ r) = some (j, r)

theorem takeItems?_tokens {j : Json} {js : List Json} (h : ∀ i ∈ j :: js, Taken i) {n : Nat}
    (r : List Token) (fuel : 2 * (tokens j ++ itemTokens js).length ≤ n) :
    takeItems? n (tokens j ++ itemTokens js ++ r) = some (j :: js, r) := by
  induction js generalizing j n with
  | nil =>
      obtain ⟨first, -⟩ := List.forall_mem_cons.mp h
      simp only [itemTokens, List.length_append, List.length_cons, List.length_nil] at fuel
      obtain ⟨n, rfl⟩ : ∃ k, n = k + 1 := ⟨n - 1, by omega⟩
      rw [itemTokens, List.append_assoc, takeItems?, first n _ (by omega)]
      rfl
  | cons i js ih =>
      obtain ⟨first, rest⟩ := List.forall_mem_cons.mp h
      obtain ⟨t, ts, head, -⟩ := tokens_head j
      have some : 0 < (tokens j).length := by rw [head]; exact Nat.succ_pos _
      simp only [itemTokens, List.length_append, List.length_cons] at fuel
      obtain ⟨n, rfl⟩ : ∃ k, n = k + 1 := ⟨n - 1, by omega⟩
      rw [itemTokens, List.append_assoc, takeItems?, first n _ (by omega)]
      simp only [List.cons_append]
      rw [ih rest (by simp only [List.length_append]; omega)]
      rfl

theorem takeMembers?_tokens {k : Bytes} {j : Json} {ms : List (Bytes × Json)}
    (h : ∀ m ∈ (k, j) :: ms, Taken m.2) {n : Nat} (r : List Token)
    (fuel : 2 * (tokens j ++ memberTokens ms).length ≤ n) :
    takeMembers? n (.str k :: .colon :: (tokens j ++ memberTokens ms ++ r)) =
      some ((k, j) :: ms, r) := by
  induction ms generalizing k j n with
  | nil =>
      have first : Taken j := h _ List.mem_cons_self
      simp only [memberTokens, List.length_append, List.length_cons, List.length_nil] at fuel
      obtain ⟨n, rfl⟩ : ∃ k, n = k + 1 := ⟨n - 1, by omega⟩
      rw [memberTokens, List.append_assoc, takeMembers?, first n _ (by omega)]
      rfl
  | cons m ms ih =>
      have first : Taken j := h _ List.mem_cons_self
      have rest := fun m' hm => h m' (List.mem_cons_of_mem _ hm)
      simp only [memberTokens, List.length_append, List.length_cons] at fuel
      obtain ⟨n, rfl⟩ : ∃ k, n = k + 1 := ⟨n - 1, by omega⟩
      rw [memberTokens, List.append_assoc, takeMembers?, first n _ (by omega)]
      simp only [List.cons_append]
      rw [ih rest (by simp only [List.length_append]; omega)]
      rfl

theorem take?_tokens (j : Json) : Taken j := by
  induction j with
  | null => intro n r fuel; cases n with | zero => cases fuel | succ n => rfl
  | bool b => intro n r fuel; cases n with | zero => cases fuel | succ n => rfl
  | num k => intro n r fuel; cases n with | zero => cases fuel | succ n => rfl
  | str raw => intro n r fuel; cases n with | zero => cases fuel | succ n => rfl
  | arr js ih =>
      intro n r fuel
      cases js with
      | nil => cases n with | zero => cases fuel | succ n => rfl
      | cons j js =>
          rw [tokens_arr, List.length_cons] at fuel
          obtain ⟨n, rfl⟩ : ∃ k, n = k + 1 := ⟨n - 1, by omega⟩
          obtain ⟨t, ts, head, other⟩ := tokens_head j
          have items := takeItems?_tokens ih (n := n) r (by omega)
          rw [tokens_arr, List.cons_append]
          rw [head] at items ⊢
          rw [List.cons_append, List.cons_append] at items ⊢
          rw [take?, items]
          · rfl
          · intro r' eq
            exact other (List.cons.inj eq).1
  | obj ms ih =>
      intro n r fuel
      cases ms with
      | nil => cases n with | zero => cases fuel | succ n => rfl
      | cons m ms =>
          obtain ⟨k, j⟩ := m
          rw [tokens_obj, List.length_cons, List.length_cons, List.length_cons] at fuel
          obtain ⟨n, rfl⟩ : ∃ k, n = k + 1 := ⟨n - 1, by omega⟩
          have members := takeMembers?_tokens ih (n := n) r (by omega)
          rw [tokens_obj, List.cons_append, List.cons_append, List.cons_append, take?, members]
          · rfl
          · nofun

/-- What is taken at the front are the tokens of the value, of the items or of the members. -/
theorem tokens_of_take (n : Nat) :
    (∀ ts j r, take? n ts = some (j, r) → ts = tokens j ++ r) ∧
    (∀ ts js r, takeItems? n ts = some (js, r) →
      ∃ j js', js = j :: js' ∧ ts = tokens j ++ itemTokens js' ++ r) ∧
    (∀ ts ms r, takeMembers? n ts = some (ms, r) → ∃ k j ms', ms = (k, j) :: ms' ∧
      ts = .str k :: .colon :: (tokens j ++ memberTokens ms' ++ r)) := by
  induction n with
  | zero => exact ⟨nofun, nofun, nofun⟩
  | succ n ih =>
      obtain ⟨value, items, members⟩ := ih
      refine ⟨?_, ?_, ?_⟩
      · intro ts j r h
        rw [take?.eq_def] at h
        split at h
        · cases h; rfl
        · cases h; rfl
        · cases h; rfl
        · cases h; rfl
        · cases h; rfl
        · next fuel =>
            cases fuel
            obtain ⟨⟨js, r'⟩, taken, eq⟩ := Option.map_eq_some_iff.mp h
            cases eq
            obtain ⟨j, js', rfl, rfl⟩ := items _ _ _ taken
            rw [tokens_arr, List.cons_append]
        · cases h; rfl
        · next fuel =>
            cases fuel
            obtain ⟨⟨ms, r'⟩, taken, eq⟩ := Option.map_eq_some_iff.mp h
            cases eq
            obtain ⟨k, j, ms', rfl, rfl⟩ := members _ _ _ taken
            rw [tokens_obj, List.cons_append, List.cons_append, List.cons_append]
        · cases h
      · intro ts js r h
        rw [takeItems?] at h
        split at h
        · next j rest first =>
            obtain ⟨⟨js', r'⟩, behind, eq⟩ := Option.map_eq_some_iff.mp h
            cases eq
            obtain ⟨i, js'', rfl, rfl⟩ := items _ _ _ behind
            refine ⟨j, _, rfl, ?_⟩
            rw [value _ _ _ first, itemTokens]
            simp only [List.append_assoc, List.cons_append]
        · next j rest first =>
            cases h
            refine ⟨j, _, rfl, ?_⟩
            rw [value _ _ _ first, itemTokens, List.append_assoc, List.singleton_append]
        · cases h
      · intro ts ms r h
        rw [takeMembers?.eq_def] at h
        split at h
        · next fuel =>
            cases fuel
            split at h
            · next j rest first =>
                obtain ⟨⟨ms', r'⟩, behind, eq⟩ := Option.map_eq_some_iff.mp h
                cases eq
                obtain ⟨k', j', ms'', rfl, rfl⟩ := members _ _ _ behind
                refine ⟨_, j, _, rfl, ?_⟩
                rw [value _ _ _ first, memberTokens]
                simp only [List.append_assoc, List.cons_append]
            · next j rest first =>
                cases h
                refine ⟨_, j, _, rfl, ?_⟩
                rw [value _ _ _ first, memberTokens, List.append_assoc, List.singleton_append]
            · cases h
        · cases h

/-! ## Spelled values -/

/-- The tokens of a value, in front of others that may stand behind a number, are such tokens. -/
def Separable (j : Json) : Prop :=
  ∀ ts, Token.Separated ts → (∀ t ∈ ts.head?, t.delimits) → Token.Separated (tokens j ++ ts)

theorem itemTokens_delimit (js : List Json) (ts : List Token) :
    ∀ t ∈ (itemTokens js ++ ts).head?, t.delimits := by
  cases js <;> rintro t ⟨⟩ <;> rfl

theorem memberTokens_delimit (ms : List (Bytes × Json)) (ts : List Token) :
    ∀ t ∈ (memberTokens ms ++ ts).head?, t.delimits := by
  obtain _ | ⟨⟨k, j⟩, ms⟩ := ms <;> rintro t ⟨⟩ <;> rfl

theorem separated_items {js : List Json} (h : ∀ j ∈ js, Separable j) {ts : List Token}
    (hts : Token.Separated ts) : Token.Separated (itemTokens js ++ ts) := by
  induction js with
  | nil => exact .cons nofun hts
  | cons j js ih =>
      obtain ⟨hj, hjs⟩ := List.forall_mem_cons.mp h
      rw [itemTokens, List.append_assoc]
      exact .cons nofun (hj _ (ih hjs) (itemTokens_delimit js ts))

theorem separated_members {ms : List (Bytes × Json)} (h : ∀ m ∈ ms, Separable m.2)
    {ts : List Token} (hts : Token.Separated ts) : Token.Separated (memberTokens ms ++ ts) := by
  induction ms with
  | nil => exact .cons nofun hts
  | cons m ms ih =>
      obtain ⟨hm, hms⟩ := List.forall_mem_cons.mp h
      rw [memberTokens, List.append_assoc]
      refine .cons nofun (.cons nofun (.cons nofun ?_))
      exact hm _ (ih hms) (memberTokens_delimit ms ts)

theorem separable (j : Json) : Separable j := by
  induction j with
  | null => exact fun ts hts _ => .cons nofun hts
  | bool b => exact fun ts hts _ => .cons nofun hts
  | num n => exact fun ts hts head => .cons (fun _ _ => head) hts
  | str raw => exact fun ts hts _ => .cons nofun hts
  | arr js ih =>
      intro ts hts head
      cases js with
      | nil => exact .cons nofun (.cons nofun hts)
      | cons j js =>
          obtain ⟨first, rest⟩ := List.forall_mem_cons.mp ih
          rw [tokens_arr, List.cons_append, List.append_assoc]
          exact .cons nofun (first _ (separated_items rest hts) (itemTokens_delimit js ts))
  | obj ms ih =>
      intro ts hts head
      cases ms with
      | nil => exact .cons nofun (.cons nofun hts)
      | cons m ms =>
          obtain ⟨first, rest⟩ := List.forall_mem_cons.mp ih
          rw [tokens_obj, List.cons_append, List.cons_append, List.cons_append, List.append_assoc]
          refine .cons nofun (.cons nofun (.cons nofun ?_))
          exact first _ (separated_members rest hts) (memberTokens_delimit ms ts)

/-- The text says the value: its tokens in some spelling, and blanks anywhere between them. -/
def Spells (j : Json) (text : Bytes) : Prop := Token.Laid (tokens j) text

theorem read?_spelled {j : Json} {text : Bytes} (h : j.Spells text) : read? text = some j := by
  have separated := separable j [] .nil nofun
  have taken := take?_tokens j (2 * (tokens j).length) [] (Nat.le_refl _)
  rw [List.append_nil] at separated taken
  rw [read?, h.ofBytes? separated]
  simp only [Option.bind_eq_bind, Option.bind_some, taken]
  rfl

/-- The reader accepts exactly the texts that say a value, and reads that value. -/
theorem read?_eq_some_iff {text : Bytes} {j : Json} : read? text = some j ↔ j.Spells text := by
  refine ⟨fun h => ?_, read?_spelled⟩
  obtain ⟨ts, scanned, h⟩ := Option.bind_eq_some_iff.mp h
  obtain ⟨⟨j', rest⟩, taken, h⟩ := Option.bind_eq_some_iff.mp h
  split at h
  · next same =>
      cases h
      cases same
      have whole := (tokens_of_take _).1 _ _ _ taken
      rw [List.append_nil] at whole
      rw [Spells, ← whole]
      exact Token.laid_of_scanAll? scanned
  · cases h

/-! ## Written values -/

/-- Every token may be spelled as it is written. -/
def Writable (ts : List Token) : Prop := ∀ t ∈ ts, t.Spells t.write

theorem Writable.fixed {t : Token} {ts : List Token} (h : t.isFixed) (rest : Writable ts) :
    Writable (t :: ts) :=
  List.forall_mem_cons.mpr ⟨.fixed h, rest⟩

theorem Writable.append {ts ts' : List Token} (h : Writable ts) (h' : Writable ts') :
    Writable (ts ++ ts') :=
  List.forall_mem_append.mpr ⟨h, h'⟩

theorem writable_items {js : List Json} (h : ∀ j ∈ js, Writable (tokens j)) :
    Writable (itemTokens js) := by
  induction js with
  | nil => exact .fixed rfl nofun
  | cons j js ih =>
      obtain ⟨first, rest⟩ := List.forall_mem_cons.mp h
      exact .fixed rfl (first.append (ih rest))

theorem writable_members {ms : List (Bytes × Json)} (keys : ∀ m ∈ ms, ∃ s, m.1 = encode s)
    (h : ∀ m ∈ ms, Writable (tokens m.2)) : Writable (memberTokens ms) := by
  induction ms with
  | nil => exact .fixed rfl nofun
  | cons m ms ih =>
      obtain ⟨⟨s, key⟩, keys⟩ := List.forall_mem_cons.mp keys
      obtain ⟨first, rest⟩ := List.forall_mem_cons.mp h
      have behind : Writable (.colon :: (tokens m.2 ++ memberTokens ms)) :=
        .fixed rfl (first.append (ih keys rest))
      refine .fixed rfl (List.forall_mem_cons.mpr ⟨?_, behind⟩)
      rw [key]
      exact .str (raw_escape _)

theorem Encoded.writable {j : Json} (h : Encoded j) : Writable (tokens j) := by
  induction h with
  | null => exact .fixed rfl nofun
  | bool b => exact .fixed rfl nofun
  | @num i _ =>
      have spelled := Number.spells_write (Number.formed_ofInt i)
      exact List.forall_mem_singleton.mpr (.num spelled)
  | str s => exact List.forall_mem_singleton.mpr (.str (raw_escape _))
  | @arr js _ ih =>
      cases js with
      | nil => exact .fixed rfl (.fixed rfl nofun)
      | cons j js =>
          obtain ⟨first, rest⟩ := List.forall_mem_cons.mp ih
          exact .fixed rfl (first.append (writable_items rest))
  | @obj ms keys _ ih =>
      cases ms with
      | nil => exact .fixed rfl (.fixed rfl nofun)
      | cons m ms =>
          -- the first member is one behind a comma, but for the comma
          have members := writable_members keys ih
          exact .fixed rfl (List.forall_mem_cons.mp members).2

theorem read?_write {j : Json} (h : Encoded j) : read? (write j) = some j :=
  read?_spelled (Token.laid_write h.writable)

end Companions.Json
