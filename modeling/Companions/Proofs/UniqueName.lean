import Companions.Proofs.TypeRef
import Companions.Proofs.Text
/-!
Unique names are unambiguous: between plain references a unique name tells everything but the
names of parameters. The text is taken apart from its end. There a slash, or what stands in front
of a closing bracket, tells a named type, the two forms of an instantiation, an array and a
parameter from one another, and whatever is left in front is the text of a part.
-/
namespace Companions.TypeRef

/-- A name without the marks that unique names set around arguments. -/
def isBare (s : String) : Bool := s.toList.all fun c => c ≠ '[' && c ≠ ']' && c ≠ ','

mutual

/-- Bare names, no slash in a scope, and no instantiation without arguments. -/
def isPlain : TypeRef → Bool
  | .named s f => isBare s && isBare f && !s.toList.contains '/'
  | .generic e as => e.isPlain && !as.isEmpty && arePlain as
  | .array e => e.isPlain
  | .param .. => true

def arePlain : List TypeRef → Bool
  | [] => true
  | a :: as => a.isPlain && arePlain as

end

theorem arePlain_iff (as : List TypeRef) : arePlain as = true ↔ ∀ a ∈ as, a.isPlain := by
  induction as with
  | nil => simp [arePlain]
  | cons a as ih => simp [arePlain, ih]

theorem isPlain_named {s f : String} (h : (named s f).isPlain) :
    isBare s ∧ isBare f ∧ '/' ∉ s.toList := by
  simpa [isPlain, and_assoc] using h

theorem isPlain_generic {e : TypeRef} {as : List TypeRef} :
    (generic e as).isPlain ↔ e.isPlain ∧ as ≠ [] ∧ ∀ a ∈ as, a.isPlain := by
  simp [isPlain, arePlain_iff, and_assoc]

theorem isBare_iff {s : String} : isBare s ↔ ∀ c ∈ s.toList, c ≠ '[' ∧ c ≠ ']' ∧ c ≠ ',' := by
  simp [isBare, and_assoc]

/-- What is put in for parameters is plain, and so is the result. -/
theorem isPlain_bind {args : List TypeRef} (ha : ∀ a ∈ args, a.isPlain) {t : TypeRef}
    (ht : t.isPlain) : (bind args t).isPlain := by
  induction t with
  | named s f => exact ht
  | generic e as _ ih =>
      obtain ⟨he, hne, has⟩ := isPlain_generic.mp ht
      rw [bind_generic, isPlain_generic]
      refine ⟨he, by simpa using hne, ?_⟩
      intro b hb
      obtain ⟨a, hmem, rfl⟩ := List.mem_map.mp hb
      exact ih a hmem (has a hmem)
  | array e ih => exact ih ht
  | param p n =>
      rw [bind_param]
      cases h : args[p.toNat]? with
      | none => exact ht
      | some a => exact ha a (List.mem_of_getElem? h)

theorem isPlain_arguments {t a : TypeRef} (ht : t.isPlain) (ha : a ∈ t.arguments) : a.isPlain := by
  cases t with
  | generic e as => exact (isPlain_generic.mp ht).2.2 a ha
  | _ => simp [arguments] at ha

/-! ## The text from its end -/

/-- The characters of the unique name, the last one first. -/
def backwards (t : TypeRef) : List Char := t.uniqueName.toList.reverse

/-- The characters between the outer brackets of an instantiation whose arguments are given from
the last one to the first, the last character first. -/
def argumentsBackwards : List TypeRef → List Char
  | [] => []
  | [a] => ']' :: (a.backwards ++ ['['])
  | a :: as => ']' :: (a.backwards ++ '[' :: ',' :: argumentsBackwards as)

theorem joined_backwards (as : List TypeRef) :
    (",".intercalate (uniqueNames as)).toList.reverse = argumentsBackwards as.reverse := by
  generalize hr : as.reverse = r
  induction r generalizing as with
  | nil =>
      rw [List.reverse_eq_nil_iff.mp hr]
      rfl
  | cons b r ih =>
      rw [List.reverse_eq_cons_iff] at hr
      subst hr
      cases r with
      | nil => simp [uniqueNames, argumentsBackwards, backwards]
      | cons a r =>
          have first := ih (a :: r).reverse (List.reverse_reverse _)
          have some_names : uniqueNames (a :: r).reverse ≠ [] := by simp [uniqueNames_eq_map]
          have names : uniqueNames ((a :: r).reverse ++ [b])
              = uniqueNames (a :: r).reverse ++ ["[" ++ b.uniqueName ++ "]"] := by
            simp only [uniqueNames_eq_map, List.map_append, List.map_cons, List.map_nil]
          rw [names, String.intercalate_append_of_ne_nil some_names (by simp)]
          simp only [String.toList_append, List.reverse_append, first]
          simp [argumentsBackwards, backwards]

theorem backwards_named (s f : String) :
    (named s f).backwards = s.toList.reverse ++ '/' :: f.toList.reverse := by
  simp [backwards, uniqueName]

theorem backwards_generic_named (s f : String) (as : List TypeRef) :
    (generic (.named s f) as).backwards =
      s.toList.reverse ++ '/' :: ']' :: (argumentsBackwards as.reverse ++ '[' :: f.toList.reverse) := by
  simp only [backwards, uniqueName, String.toList_append, List.reverse_append, joined_backwards]
  simp

theorem backwards_generic {e : TypeRef} (he : ∀ s f, e ≠ .named s f) (as : List TypeRef) :
    (generic e as).backwards =
      ']' :: (argumentsBackwards as.reverse ++ '[' :: e.backwards) := by
  rw [backwards, uniqueName.eq_3 e as he]
  simp only [String.toList_append, List.reverse_append, joined_backwards]
  simp [backwards]

theorem backwards_array (e : TypeRef) : (array e).backwards = ']' :: '[' :: e.backwards := by
  simp [backwards, uniqueName]

theorem backwards_param (p : UInt16) (n : String) :
    (param p n).backwards = (Nat.toDigits 10 p.toNat).reverse ++ ['!'] := by
  simp [backwards, uniqueName]

/-! ## What the end of a text tells -/

inductive Form where
  | named
  | namedInstance
  | instantiation
  | array
  | param
  deriving DecidableEq, Repr

def form : TypeRef → Form
  | .named .. => .named
  | .generic (.named ..) _ => .namedInstance
  | .generic .. => .instantiation
  | .array _ => .array
  | .param .. => .param

/-- Neither slash nor bracket. -/
def isWord (c : Char) : Bool := c ≠ '/' && c ≠ '[' && c ≠ ']'

/-- The form of the reference whose name is given from its end. -/
def readForm : List Char → Form
  | ']' :: ']' :: _ => .instantiation
  | ']' :: _ => .array
  | text => readMark (text.dropWhile isWord)
where
  /-- What a name shows behind its last word. -/
  readMark : List Char → Form
    | '/' :: ']' :: _ => .namedInstance
    | '/' :: _ => .named
    | _ => .param

/-- What may stand in front of a name: nothing, or an opening bracket. -/
def opens : List Char → Bool
  | [] => true
  | c :: _ => c = '['

theorem head_ne_bracket {u x : List Char} (hu : ∀ c ∈ u, c ≠ ']') (hx : opens x) :
    ∀ c ∈ (u ++ x).head?, c ≠ ']' := by
  intro c hc
  cases u with
  | nil =>
      cases x with
      | nil => cases hc
      | cons d x =>
          obtain rfl : d = '[' := by simpa [opens] using hx
          cases hc
          decide
  | cons d u =>
      cases hc
      exact hu c List.mem_cons_self

theorem readForm_word {u x : List Char} (hu : ∀ c ∈ u, isWord c)
    (hx : ∀ c ∈ x.head?, isWord c = false ∧ c ≠ ']') :
    readForm (u ++ x) = readForm.readMark x := by
  have dropped : (u ++ x).dropWhile isWord = x := by
    rw [List.dropWhile_append_of_pos hu]
    cases x with
    | nil => rfl
    | cons c x => rw [List.dropWhile_cons_of_neg (by simp [hx c rfl])]
  rw [readForm, dropped]
  all_goals
    intro y h
    cases u with
    | nil =>
        rw [List.nil_append] at h
        exact (hx ']' (by simp [h])).2 rfl
    | cons d u =>
        have word := hu d List.mem_cons_self
        rw [(List.cons.inj h).1] at word
        exact absurd word (by decide)

theorem isWord_of_bare {s : String} (h : isBare s) (hs : '/' ∉ s.toList) :
    ∀ c ∈ s.toList.reverse, isWord c := by
  intro c hc
  have mem := List.mem_reverse.mp hc
  obtain ⟨open', close, -⟩ := isBare_iff.mp h c mem
  have slash : c ≠ '/' := fun eq => hs (eq ▸ mem)
  simp [isWord, slash, open', close]

theorem readMark_slash {x : List Char} (hx : ∀ c ∈ x.head?, c ≠ ']') :
    readForm.readMark ('/' :: x) = .named := by
  cases x with
  | nil => rfl
  | cons c x =>
      rw [readForm.readMark]
      intro y h
      obtain ⟨rfl, -⟩ := List.cons.inj h
      exact hx ']' rfl rfl

theorem isWord_digits (n : Nat) : ∀ c ∈ (Nat.toDigits 10 n).reverse ++ ['!'], isWord c := by
  intro c hc
  rcases List.mem_append.mp hc with digit | mark
  · have isDigit := Nat.isDigit_of_mem_toDigits (by decide) (by decide) (List.mem_reverse.mp digit)
    have other {d : Char} (hd : d.isDigit = false) : c ≠ d := by
      rintro rfl
      rw [isDigit] at hd
      cases hd
    simp [isWord, other (d := '/') (by decide), other (d := '[') (by decide),
      other (d := ']') (by decide)]
  · obtain rfl := List.mem_singleton.mp mark
    rfl

theorem opens_stop {x : List Char} (hx : opens x) : ∀ c ∈ x.head?, c = '[' := by
  intro c hc
  cases x with
  | nil => cases hc
  | cons d x =>
      cases hc
      simpa [opens] using hx

theorem argumentsBackwards_cons (a : TypeRef) (as : List TypeRef) :
    argumentsBackwards (a :: as) =
      ']' :: (a.backwards ++ '[' :: if as = [] then [] else ',' :: argumentsBackwards as) := by
  cases as <;> simp [argumentsBackwards]

theorem readForm_backwards {t : TypeRef} (ht : t.isPlain) {x : List Char} (hx : opens x) :
    readForm (t.backwards ++ x) = t.form := by
  cases t with
  | named s f =>
      obtain ⟨hs, hf, slash⟩ := isPlain_named ht
      have bare : ∀ c ∈ f.toList.reverse, c ≠ ']' := fun c hc =>
        (isBare_iff.mp hf c (List.mem_reverse.mp hc)).2.1
      rw [backwards_named, List.append_assoc, List.cons_append,
        readForm_word (isWord_of_bare hs slash) (by simp [isWord])]
      exact readMark_slash (head_ne_bracket bare hx)
  | generic e as =>
      obtain ⟨he, hne, -⟩ := isPlain_generic.mp ht
      cases e with
      | named s f =>
          obtain ⟨hs, -, slash⟩ := isPlain_named he
          rw [backwards_generic_named, List.append_assoc, List.cons_append,
            readForm_word (isWord_of_bare hs slash) (by simp [isWord])]
          rfl
      | _ =>
          obtain ⟨a, r, split⟩ := List.exists_cons_of_ne_nil (mt List.reverse_eq_nil_iff.mp hne)
          rw [backwards_generic (by simp), split, argumentsBackwards_cons]
          rfl
  | array e => rw [backwards_array]; rfl
  | param p n =>
      rw [backwards_param, readForm_word (isWord_digits _)
        fun c hc => by rw [opens_stop hx c hc]; decide]
      cases x with
      | nil => rfl
      | cons c x =>
          rw [opens_stop hx c rfl]
          rfl

/-! ## Reading a text -/

/-- The text of `a` ends where a text with the same end has its own name. -/
def Separates (a : TypeRef) : Prop :=
  ∀ b : TypeRef, b.isPlain → ∀ x y, opens x → opens y → a.backwards ++ x = b.backwards ++ y →
    a.positional = b.positional ∧ x = y

theorem arguments_cut {as bs : List TypeRef} (ha : ∀ a ∈ as, Separates a)
    (hb : ∀ b ∈ bs, b.isPlain) {x y : List Char}
    (h : argumentsBackwards as ++ '[' :: x = argumentsBackwards bs ++ '[' :: y) :
    as.map positional = bs.map positional ∧ x = y := by
  induction as generalizing bs with
  | nil =>
      cases bs with
      | nil => exact ⟨rfl, (List.cons.inj h).2⟩
      | cons b bs =>
          rw [argumentsBackwards_cons] at h
          exact absurd (List.cons.inj h).1 (by decide)
  | cons a as ih =>
      cases bs with
      | nil =>
          rw [argumentsBackwards_cons] at h
          exact absurd (List.cons.inj h).1 (by decide)
      | cons b bs =>
          simp only [argumentsBackwards_cons, List.cons_append, List.append_assoc,
            List.cons.injEq, true_and] at h
          obtain ⟨first, rest⟩ := ha a List.mem_cons_self b (hb b List.mem_cons_self) _ _ rfl rfl h
          have rest := (List.cons.inj rest).2
          have others (c) (hc : c ∈ as) := ha c (List.mem_cons_of_mem a hc)
          have others' (c) (hc : c ∈ bs) := hb c (List.mem_cons_of_mem b hc)
          rw [List.map_cons, List.map_cons, first]
          cases as with
          | nil =>
              cases bs with
              | nil => exact ⟨rfl, (List.cons.inj rest).2⟩
              | cons c bs => exact absurd (List.cons.inj rest).1 (by decide)
          | cons d as =>
              cases bs with
              | nil => exact absurd (List.cons.inj rest).1 (by decide)
              | cons c bs =>
                  obtain ⟨names, tails⟩ := ih others others' (List.cons.inj rest).2
                  exact ⟨by rw [names], tails⟩

theorem form_eq {a b : TypeRef} (ha : a.isPlain) (hb : b.isPlain) {x y : List Char}
    (hx : opens x) (hy : opens y) (h : a.backwards ++ x = b.backwards ++ y) : a.form = b.form := by
  rw [← readForm_backwards ha hx, ← readForm_backwards hb hy, h]

/-- Scope and full name of a named type are cut at its last slash. -/
theorem named_cut {s f s' f' : String} (h : (named s f).isPlain) (h' : (named s' f').isPlain)
    {x y : List Char} (eq : s.toList.reverse ++ '/' :: x = s'.toList.reverse ++ '/' :: y) :
    s = s' ∧ x = y := by
  obtain ⟨bare, -, slash⟩ := isPlain_named h
  obtain ⟨bare', -, slash'⟩ := isPlain_named h'
  obtain ⟨scopes, rests⟩ := Text.cut_unique (isWord_of_bare bare slash) (isWord_of_bare bare' slash')
    (by simp [isWord]) (by simp [isWord]) eq
  exact ⟨String.toList_inj.mp (List.reverse_inj.mp scopes), (List.cons.inj rests).2⟩

theorem fullName_cut {s f s' f' : String} (h : (named s f).isPlain) (h' : (named s' f').isPlain)
    {x y : List Char} (hx : opens x) (hy : opens y)
    (eq : f.toList.reverse ++ x = f'.toList.reverse ++ y) : f = f' ∧ x = y := by
  have inside {s f : String} (h : (named s f).isPlain) : ∀ c ∈ f.toList.reverse, (c != '[') = true :=
    fun c hc => by simpa using (isBare_iff.mp (isPlain_named h).2.1 c (List.mem_reverse.mp hc)).1
  have stop {x : List Char} (hx : opens x) : ∀ c ∈ x.head?, (c != '[') = false :=
    fun c hc => by simpa using opens_stop hx c hc
  obtain ⟨names, rests⟩ := Text.cut_unique (inside h) (inside h') (stop hx) (stop hy) eq
  exact ⟨String.toList_inj.mp (List.reverse_inj.mp names), rests⟩

theorem position_cut {p q : UInt16} {n m : String} {x y : List Char} (hx : opens x) (hy : opens y)
    (eq : (param p n).backwards ++ x = (param q m).backwards ++ y) : p = q ∧ x = y := by
  have stop {x : List Char} (hx : opens x) : ∀ c ∈ x.head?, isWord c = false :=
    fun c hc => by rw [opens_stop hx c hc]; rfl
  rw [backwards_param, backwards_param] at eq
  obtain ⟨digits, rests⟩ := Text.cut_unique (isWord_digits _) (isWord_digits _) (stop hx) (stop hy) eq
  have digits := List.reverse_inj.mp (List.append_cancel_right digits)
  exact ⟨UInt16.toNat_inj.mp (Text.decimal_injective digits), rests⟩

theorem separates_named {s f : String} (ht : (named s f).isPlain) : Separates (named s f) := by
  intro b hb x y hx hy h
  have forms := form_eq ht hb hx hy h
  cases b with
  | named s' f' =>
      simp only [backwards_named, List.append_assoc, List.cons_append] at h
      obtain ⟨rfl, rest⟩ := named_cut ht hb h
      obtain ⟨rfl, tails⟩ := fullName_cut ht hb hx hy rest
      exact ⟨rfl, tails⟩
  | generic e as => cases e <;> cases forms
  | array e => cases forms
  | param p n => cases forms

theorem separates_param (p : UInt16) (n : String) : Separates (param p n) := by
  intro b hb x y hx hy h
  have forms := form_eq (a := param p n) rfl hb hx hy h
  cases b with
  | param q m =>
      obtain ⟨rfl, rest⟩ := position_cut hx hy h
      exact ⟨rfl, rest⟩
  | generic f as => cases f <;> cases forms
  | named s f => cases forms
  | array e => cases forms

theorem separates_array {e : TypeRef} (ht : (array e).isPlain) (he : Separates e) :
    Separates (array e) := by
  intro b hb x y hx hy h
  have forms := form_eq ht hb hx hy h
  cases b with
  | array e' =>
      rw [backwards_array, backwards_array] at h
      obtain ⟨elements, rest⟩ := he e' hb x y hx hy (List.cons.inj (List.cons.inj h).2).2
      exact ⟨congrArg array elements, rest⟩
  | generic f as => cases f <;> cases forms
  | named s f => cases forms
  | param p n => cases forms

/-- Two instantiations: where one has a named element the other has one as well, and the arguments
stand between scope and name; otherwise the arguments come first. -/
theorem generic_cut {e f : TypeRef} {as bs : List TypeRef} (ha : (generic e as).isPlain)
    (hb : (generic f bs).isPlain) (he : Separates e) (has : ∀ a ∈ as, Separates a)
    {x y : List Char} (hx : opens x) (hy : opens y)
    (h : (generic e as).backwards ++ x = (generic f bs).backwards ++ y) :
    e.positional = f.positional ∧ as.map positional = bs.map positional ∧ x = y := by
  have forms := form_eq ha hb hx hy h
  obtain ⟨hel, -, -⟩ := isPlain_generic.mp ha
  obtain ⟨hfl, -, hbs⟩ := isPlain_generic.mp hb
  have separate : ∀ a ∈ as.reverse, Separates a := fun a mem => has a (List.mem_reverse.mp mem)
  have plain : ∀ b ∈ bs.reverse, b.isPlain := fun b mem => hbs b (List.mem_reverse.mp mem)
  have sameArguments (h : as.reverse.map positional = bs.reverse.map positional) :
      as.map positional = bs.map positional := by simpa using h
  by_cases named : ∃ s n, e = .named s n
  · obtain ⟨s, n, rfl⟩ := named
    cases f with
    | named s' n' =>
        simp only [backwards_generic_named, List.append_assoc, List.cons_append] at h
        obtain ⟨rfl, rest⟩ := named_cut hel hfl h
        obtain ⟨arguments, rest⟩ := arguments_cut separate plain (List.cons.inj rest).2
        obtain ⟨rfl, tails⟩ := fullName_cut hel hfl hx hy rest
        exact ⟨rfl, sameArguments arguments, tails⟩
    | _ => cases forms
  · have unnamed : ∀ s n, e ≠ .named s n := fun s n eq => named ⟨s, n, eq⟩
    have unnamed' : ∀ s n, f ≠ .named s n := by
      rintro s n rfl
      cases e with
      | named s' n' => exact unnamed s' n' rfl
      | _ => cases forms
    simp only [backwards_generic unnamed, backwards_generic unnamed', List.append_assoc,
      List.cons_append, List.cons.injEq, true_and] at h
    obtain ⟨arguments, rest⟩ := arguments_cut separate plain h
    obtain ⟨elements, tails⟩ := he f hfl x y hx hy rest
    exact ⟨elements, sameArguments arguments, tails⟩

theorem separates_generic {e : TypeRef} {as : List TypeRef} (ht : (generic e as).isPlain)
    (he : Separates e) (has : ∀ a ∈ as, Separates a) : Separates (generic e as) := by
  intro b hb x y hx hy h
  have forms := form_eq ht hb hx hy h
  cases b with
  | generic f bs =>
      obtain ⟨elements, arguments, tails⟩ := generic_cut ht hb he has hx hy h
      rw [positional_generic, positional_generic, elements, arguments]
      exact ⟨rfl, tails⟩
  | named s f => cases e <;> cases forms
  | array e' => cases e <;> cases forms
  | param p n => cases e <;> cases forms

theorem separates {t : TypeRef} (ht : t.isPlain) : Separates t := by
  induction t with
  | named s f => exact separates_named ht
  | generic e as he has =>
      obtain ⟨element, -, arguments⟩ := isPlain_generic.mp ht
      exact separates_generic ht (he element) fun a ha => has a ha (arguments a ha)
  | array e ih => exact separates_array ht (ih ht)
  | param p n => exact separates_param p n

theorem positional_eq_of_uniqueName_eq {a b : TypeRef} (ha : a.isPlain) (hb : b.isPlain)
    (h : a.uniqueName = b.uniqueName) : a.positional = b.positional :=
  (separates ha b hb [] [] rfl rfl (by simp [backwards, h])).1

/-- Between plain references, unique names tell apart exactly what differs in more than the names of
parameters. -/
theorem uniqueName_eq_iff {a b : TypeRef} (ha : a.isPlain) (hb : b.isPlain) :
    a.uniqueName = b.uniqueName ↔ a.positional = b.positional := by
  constructor
  · exact positional_eq_of_uniqueName_eq ha hb
  · intro same
    rw [← uniqueName_positional a, same, uniqueName_positional]

/-- An array of an instantiated array, with an instantiated parameter among the arguments. -/
def tangled (first second : String) : TypeRef :=
  .array (.generic (.array (.generic (.named "Core" "Shop.Box/Lid") [.param 0 first]))
    [.generic (.param 1 second) [.named "Core" "Shop.Box/Lid"], .array (.param 0 first)])

theorem tangled_uniqueName :
    (tangled "T" "U").isPlain ∧ (tangled "V" "V").isPlain ∧
    (tangled "T" "U").uniqueName = (tangled "V" "V").uniqueName ∧
    (tangled "T" "U").elementType.isPlain ∧
    (tangled "T" "U").uniqueName ≠ (tangled "T" "U").elementType.uniqueName := by
  have plain : (tangled "T" "U").isPlain := by decide +kernel
  have renamed : (tangled "V" "V").isPlain := by decide +kernel
  have element : (tangled "T" "U").elementType.isPlain := by decide +kernel
  refine ⟨plain, renamed, (uniqueName_eq_iff plain renamed).mpr (by rfl), element, ?_⟩
  intro same
  exact absurd ((uniqueName_eq_iff plain element).mp same) (by decide +kernel)

/-- Without its arguments an instantiation of a parameter reads as an array. -/
example : (generic (.param 0 "T") []).uniqueName = (array (.param 0 "T")).uniqueName := by rfl

end Companions.TypeRef
