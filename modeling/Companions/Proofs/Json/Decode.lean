import Companions.Proofs.Json.Token
/-!
Readers on written values. A written value that nests no deeper than allowed can be taken in, and
each building block of a reader gives back what the matching building block of a writer was given.
-/
namespace Companions.Json

/-! ## Nesting -/

mutual

/-- How deep arrays and objects nest. -/
def depth : Json → Nat
  | .arr js => depthItems js + 1
  | .obj ms => depthMembers ms + 1
  | _ => 0

def depthItems : List Json → Nat
  | [] => 0
  | j :: js => max j.depth (depthItems js)

def depthMembers : List (Bytes × Json) → Nat
  | [] => 0
  | (_, j) :: ms => max j.depth (depthMembers ms)

end

theorem depthItems_le_iff {js : List Json} {n : Nat} :
    depthItems js ≤ n ↔ ∀ j ∈ js, j.depth ≤ n := by
  induction js with
  | nil => simp [depthItems]
  | cons j js ih => rw [depthItems, Nat.max_le, ih, List.forall_mem_cons]

theorem depthMembers_le_iff {ms : List (Bytes × Json)} {n : Nat} :
    depthMembers ms ≤ n ↔ ∀ m ∈ ms, m.2.depth ≤ n := by
  induction ms with
  | nil => simp [depthMembers]
  | cons m ms ih => rw [depthMembers, Nat.max_le, ih, List.forall_mem_cons]

@[simp] theorem depth_bool (b : Bool) : (Json.bool b).depth = 0 := rfl
@[simp] theorem depth_text (s : String) : (text s).depth = 0 := rfl
@[simp] theorem depth_nat (n : Nat) : (nat n).depth = 0 := rfl
@[simp] theorem depth_int (i : Int) : (int i).depth = 0 := rfl

theorem depth_object_le_iff {ms : List (String × Json)} {n : Nat} :
    (object ms).depth ≤ n ↔ 0 < n ∧ ∀ m ∈ ms, m.2.depth + 1 ≤ n := by
  rw [object, depth]
  cases n with
  | zero => simp
  | succ n => simp only [Nat.add_le_add_iff_right, depthMembers_le_iff, List.forall_mem_map,
      Nat.succ_pos, true_and]

theorem levels_of_object {ms : List (String × Json)} {n : Nat} (h : (object ms).depth ≤ n) :
    ∃ k, n = k + 1 ∧ ∀ m ∈ ms, m.2.depth ≤ k := by
  obtain ⟨pos, members⟩ := depth_object_le_iff.mp h
  exact ⟨n - 1, by omega, fun m hm => Nat.le_sub_one_of_lt (members m hm)⟩

theorem depth_object_succ_le_iff {ms : List (String × Json)} {n : Nat} :
    (object ms).depth ≤ n + 1 ↔ ∀ m ∈ ms, m.2.depth ≤ n := by
  rw [depth_object_le_iff]
  simp only [Nat.succ_pos, true_and, Nat.add_le_add_iff_right]

theorem depth_arr_le_iff {js : List Json} {n : Nat} :
    (arr js).depth ≤ n ↔ 0 < n ∧ ∀ j ∈ js, j.depth + 1 ≤ n := by
  rw [depth]
  cases n with
  | zero => simp
  | succ n => simp [depthItems_le_iff]

theorem depth_list_le_iff {α : Type} {f : α → Json} {as : List α} {n : Nat} :
    (list f as).depth ≤ n ↔ 0 < n ∧ ∀ a ∈ as, (f a).depth + 1 ≤ n := by
  rw [list, depth_arr_le_iff]
  simp

theorem depth_list_succ_le_iff {α : Type} {f : α → Json} {as : List α} {n : Nat} :
    (list f as).depth ≤ n + 1 ↔ ∀ a ∈ as, (f a).depth ≤ n := by
  rw [depth_list_le_iff]
  simp only [Nat.succ_pos, true_and, Nat.add_le_add_iff_right]

theorem depth_nullable_le_iff {α : Type} {f : α → Json} {a : Option α} {n : Nat} :
    (nullable f a).depth ≤ n ↔ ∀ x ∈ a, (f x).depth ≤ n := by
  cases a <;> simp [nullable, depth]

/-! ## Written values -/

theorem Encoded.ofText (s : String) : Encoded (text s) := .str s

theorem Encoded.ofNat {n : Nat} (h : n < UInt64.size) : Encoded (nat n) := by
  rw [nat, Number.ofNat_eq_ofInt]
  exact .num (by omega)

theorem Encoded.ofInt {i : Int} (h : i.natAbs < UInt64.size) : Encoded (int i) := .num h

theorem Encoded.ofList {α : Type} {f : α → Json} {as : List α} (h : ∀ a ∈ as, Encoded (f a)) :
    Encoded (list f as) := by
  refine .arr fun j hj => ?_
  obtain ⟨a, ha, rfl⟩ := List.mem_map.mp hj
  exact h a ha

theorem Encoded.ofNullable {α : Type} {f : α → Json} {a : Option α} (h : ∀ x ∈ a, Encoded (f x)) :
    Encoded (nullable f a) := by
  cases a with
  | none => exact .null
  | some a => exact h a rfl

theorem Encoded.ofObject {ms : List (String × Json)} (h : ∀ m ∈ ms, Encoded m.2) :
    Encoded (object ms) := by
  refine .obj (fun m hm => ?_) fun m hm => ?_
  · obtain ⟨⟨k, j⟩, -, rfl⟩ := List.mem_map.mp hm
    exact ⟨k, rfl⟩
  · obtain ⟨⟨k, j⟩, hm', rfl⟩ := List.mem_map.mp hm
    exact h _ hm'

theorem readableItems_iff {n : Nat} {js : List Json} :
    readableItems n js ↔ ∀ j ∈ js, readable n j := by
  induction js with
  | nil => simp [readableItems]
  | cons j js ih => rw [readableItems, Bool.and_eq_true, ih, List.forall_mem_cons]

theorem readableMembers_iff {n : Nat} {ms : List (Bytes × Json)} :
    readableMembers n ms ↔ ∀ m ∈ ms, (decode? m.1).isSome ∧ readable n m.2 := by
  induction ms with
  | nil => simp [readableMembers]
  | cons m ms ih =>
      rw [readableMembers, Bool.and_eq_true, Bool.and_eq_true, ih, List.forall_mem_cons]

/-- A written value can be taken in unless it nests too deep. -/
theorem Encoded.readable {j : Json} (h : Encoded j) {n : Nat} (hn : j.depth ≤ n) :
    j.readable n := by
  induction h generalizing n with
  | null => rfl
  | bool b => rfl
  | num small => exact Number.inRange_ofInt small
  | str s =>
      rw [Json.readable, decode?_encode]
      rfl
  | arr _ ih =>
      obtain ⟨pos, items⟩ := depth_arr_le_iff.mp hn
      rw [Json.readable, Bool.and_eq_true, decide_eq_true_eq, readableItems_iff]
      exact ⟨pos, fun j hj => ih j hj (Nat.le_sub_one_of_lt (items j hj))⟩
  | @obj ms keys _ ih =>
      rw [depth] at hn
      have members := depthMembers_le_iff.mp (Nat.le_sub_one_of_lt hn)
      rw [Json.readable, Bool.and_eq_true, decide_eq_true_eq, readableMembers_iff]
      refine ⟨by omega, fun m hm => ⟨?_, ih m hm (members m hm)⟩⟩
      obtain ⟨s, key⟩ := keys m hm
      rw [key, decode?_encode]
      rfl

theorem depth_le_of_readable {j : Json} {n : Nat} (h : j.readable n) : j.depth ≤ n := by
  induction j generalizing n with
  | arr js ih =>
      rw [readable, Bool.and_eq_true, decide_eq_true_eq, readableItems_iff] at h
      obtain ⟨pos, items⟩ := h
      have parts := depthItems_le_iff.mpr fun j hj => ih j hj (items j hj)
      rw [depth]
      omega
  | obj ms ih =>
      rw [readable, Bool.and_eq_true, decide_eq_true_eq, readableMembers_iff] at h
      obtain ⟨pos, members⟩ := h
      have parts := depthMembers_le_iff.mpr fun m hm => ih m hm (members m hm).2
      rw [depth]
      omega
  | _ => exact Nat.zero_le n

/-! ## Single values -/

@[simp] theorem asText?_text (s : String) : (text s).asText? = some s := decode?_encode s

@[simp] theorem asBool?_bool (b : Bool) : (Json.bool b).asBool? = some b := rfl

@[simp] theorem asInt?_int (i : Int) : (int i).asInt? = some i := Number.int?_ofInt i

theorem asNat?_nat {n limit : Nat} (h : n < limit) : (nat n).asNat? limit = some n := by
  have read : (nat n).asInt? = some (n : Int) := by
    rw [nat, Number.ofNat_eq_ofInt]
    exact Number.int?_ofInt n
  rw [asNat?, read]
  simp [h]

theorem asList?_list {α : Type} {read : Nat → Json → Option α} {f : α → Json} {as : List α}
    {n : Nat} (h : ∀ a ∈ as, read n (f a) = some a) :
    asList? read (n + 1) (list f as) = some as := by
  rw [asList?.eq_def, list]
  induction as with
  | nil => rfl
  | cons a as ih =>
      obtain ⟨first, rest⟩ := List.forall_mem_cons.mp h
      simp only [List.map_cons, List.mapM_cons, first, ih rest]
      rfl

theorem asNullable?_nullable {α : Type} {read : Json → Option α} {f : α → Json} {a : Option α}
    (some : ∀ x, f x ≠ .null) (h : ∀ x ∈ a, read (f x) = .some x) :
    asNullable? read (nullable f a) = .some a := by
  cases a with
  | none => rfl
  | some x =>
      rw [nullable, asNullable?, h x rfl]
      · rfl
      · exact some x

@[simp] theorem required_some {α : Type} (read : Json → Option α) (j : Json) :
    required read (some j) = read j := rfl

@[simp] theorem optional_some {α : Type} (a : α) (read : Json → Option α) (j : Json) :
    optional a read (some j) = read j := rfl

/-! ## Items of what was read -/

theorem mapM_mem {α β : Type} {f : α → Option β} {as : List α} {bs : List β}
    (h : as.mapM f = some bs) {b : β} (hb : b ∈ bs) : ∃ a ∈ as, f a = some b := by
  induction as generalizing bs with
  | nil =>
      cases h
      cases hb
  | cons a as ih =>
      rw [List.mapM_cons] at h
      obtain ⟨c, hc, h⟩ := Option.bind_eq_some_iff.mp h
      obtain ⟨cs, hcs, h⟩ := Option.bind_eq_some_iff.mp h
      cases h
      rcases List.mem_cons.mp hb with rfl | later
      · exact ⟨a, List.mem_cons_self, hc⟩
      · obtain ⟨d, hd, hdb⟩ := ih hcs later
        exact ⟨d, List.mem_cons_of_mem a hd, hdb⟩

theorem asList?_mem {α : Type} {read : Nat → Json → Option α} {j : Json} {as : List α} {n : Nat}
    (h : asList? read n j = some as) {a : α} (ha : a ∈ as) :
    ∃ m j', n = m + 1 ∧ read m j' = some a := by
  cases n with
  | zero => cases h
  | succ m =>
      cases j with
      | arr js =>
          obtain ⟨j', -, found⟩ := mapM_mem h ha
          exact ⟨m, j', rfl, found⟩
      | _ => cases h

theorem optional_list_mem {α : Type} {read : Nat → Json → Option α} {j : Option Json} {as : List α}
    {n : Nat} (h : optional [] (asList? read n) j = some as) {a : α} (ha : a ∈ as) :
    ∃ m j', n = m + 1 ∧ read m j' = some a := by
  cases j with
  | none =>
      cases h
      cases ha
  | some j => exact asList?_mem h ha

theorem mapM_map_mem {α β : Type} {f : α → β} {g : β → Option α} {as bs : List α}
    (h : (as.map f).mapM g = some bs) {a : α} (ha : a ∈ as) : ∃ b, g (f a) = some b := by
  induction as generalizing bs with
  | nil => cases ha
  | cons c as ih =>
      rw [List.map_cons, List.mapM_cons] at h
      obtain ⟨b, hb, h⟩ := Option.bind_eq_some_iff.mp h
      obtain ⟨bs, hbs, -⟩ := Option.bind_eq_some_iff.mp h
      rcases List.mem_cons.mp ha with rfl | later
      · exact ⟨b, hb⟩
      · exact ih hbs later

/-! ## Writers and readers that fit -/

/-- What is written is read again exactly where it does not nest too deep, and nothing is read that
would nest deeper when it is written. -/
structure Faithful {α : Type} (write : α → Json) (read : (levels : Nat) → Json → Option α) :
    Prop where
  encoded (a : α) : Encoded (write a)
  back {a : α} {n : Nat} (h : (write a).depth ≤ n) : read n (write a) = some a
  fits {a b : α} {n : Nat} (h : read n (write a) = some b) : (write a).depth ≤ n
  nests {j : Json} {a : α} {n : Nat} (h : read n j = some a) : (write a).depth ≤ n

namespace Faithful
variable {α : Type} {write : α → Json} {read : Nat → Json → Option α}

theorem ofText : Faithful text fun _ => asText? :=
  ⟨Encoded.ofText, fun _ => asText?_text _, fun _ => Nat.zero_le _, fun _ => Nat.zero_le _⟩

theorem list (fit : Faithful write read) : Faithful (Json.list write) (asList? read) where
  encoded as := Encoded.ofList fun a _ => fit.encoded a
  back {as n} h := by
    obtain ⟨pos, items⟩ := depth_list_le_iff.mp h
    obtain ⟨m, rfl⟩ : ∃ m, n = m + 1 := ⟨n - 1, by omega⟩
    exact asList?_list fun a ha => fit.back (Nat.le_of_succ_le_succ (items a ha))
  fits {as bs n} h := by
    cases n with
    | zero => cases h
    | succ m =>
        refine depth_list_le_iff.mpr ⟨Nat.succ_pos m, fun a ha => ?_⟩
        obtain ⟨b, hb⟩ := mapM_map_mem h ha
        exact Nat.succ_le_succ (fit.fits hb)
  nests {j as n} h := by
    refine depth_list_le_iff.mpr ⟨?_, fun a ha => ?_⟩
    · cases n with
      | zero => cases h
      | succ m => exact Nat.succ_pos m
    · obtain ⟨m, j', rfl, found⟩ := asList?_mem h ha
      exact Nat.succ_le_succ (fit.nests found)

theorem nullable (fit : Faithful write read) (some : ∀ a, write a ≠ .null) :
    Faithful (Json.nullable write) fun n => asNullable? (read n) where
  encoded _ := Encoded.ofNullable fun a _ => fit.encoded a
  back h := asNullable?_nullable some fun a ha => fit.back (depth_nullable_le_iff.mp h a ha)
  fits {a b n} h := by
    refine depth_nullable_le_iff.mpr fun x hx => ?_
    cases hx
    rw [Json.nullable, asNullable?] at h
    · obtain ⟨y, hy, -⟩ := Option.map_eq_some_iff.mp h
      exact fit.fits hy
    · exact some x
  nests {j a n} h := by
    refine depth_nullable_le_iff.mpr fun x hx => ?_
    cases hx
    cases j with
    | null => cases h
    | _ =>
        obtain ⟨y, hy, eq⟩ := Option.map_eq_some_iff.mp h
        cases eq
        exact fit.nests hy

theorem nests_required (fit : Faithful write read) {j : Option Json} {a : α} {n : Nat}
    (h : required (read n) j = some a) : (write a).depth ≤ n := by
  obtain ⟨j, -, hj⟩ := Option.bind_eq_some_iff.mp h
  exact fit.nests hj

/-- A field that is left out has its default, which must not nest too deep either. -/
theorem nests_optional (fit : Faithful write read) {default : α} {j : Option Json} {a : α} {n : Nat}
    (shallow : (write default).depth ≤ n) (h : optional default (read n) j = some a) :
    (write a).depth ≤ n := by
  cases j with
  | none =>
      cases h
      exact shallow
  | some j => exact fit.nests h

theorem nests_optional_list (fit : Faithful write read) {j : Option Json} {as : List α} {n : Nat}
    (pos : 0 < n) (h : optional [] (asList? read n) j = some as) :
    (Json.list write as).depth ≤ n :=
  fit.list.nests_optional (depth_list_le_iff.mpr ⟨pos, by simp⟩) h

end Faithful

/-! ## Objects -/

/-- The members with known names, in order. -/
def known (names : List String) (ms : List (Bytes × Json)) : List (String × Json) :=
  ms.filterMap fun m => (decode? m.1).bind fun key => if key ∈ names then some (key, m.2) else none

theorem known_cons {k : Bytes} {name : String} (decoded : decode? k = some name)
    (names : List String) (j : Json) (ms : List (Bytes × Json)) : known names ((k, j) :: ms) =
      if name ∈ names then (name, j) :: known names ms else known names ms := by
  rw [known, List.filterMap_cons, decoded, Option.bind_some]
  by_cases listed : name ∈ names
  · rw [if_pos listed, if_pos listed]
    rfl
  · rw [if_neg listed, if_neg listed]
    rfl

theorem collect_known {names : List String} {found : List (String × Json)}
    {ms : List (Bytes × Json)} (keys : ∀ m ∈ ms, (decode? m.1).isSome)
    (distinct : ((found ++ known names ms).map (·.1)).Nodup) :
    collect names found ms = some (found ++ known names ms) := by
  induction ms generalizing found with
  | nil => rw [collect, known, List.filterMap_nil, List.append_nil]
  | cons m ms ih =>
      obtain ⟨k, j⟩ := m
      obtain ⟨key, keys⟩ := List.forall_mem_cons.mp keys
      obtain ⟨name, decoded⟩ := Option.isSome_iff_exists.mp key
      rw [known_cons decoded] at distinct ⊢
      rw [collect, decoded]
      dsimp only
      by_cases listed : name ∈ names
      · rw [if_pos listed] at distinct ⊢
        have unmet : found.lookup name = none := by
          rw [List.lookup_eq_none_iff]
          intro p hp
          rw [List.map_append, List.nodup_append] at distinct
          simpa using (distinct.2.2 p.1 (List.mem_map_of_mem hp) name (by simp)).symm
        rw [if_neg (Classical.not_not.mpr listed), unmet, if_neg (by simp),
          ih keys (by simpa using distinct), List.append_assoc]
        rfl
      · rw [if_neg listed] at distinct ⊢
        rw [if_pos listed]
        exact ih keys distinct

theorem known_written {names : List String} {ms : List (String × Json)}
    (listed : ∀ m ∈ ms, m.1 ∈ names) : known names (ms.map fun m => (encode m.1, m.2)) = ms := by
  induction ms with
  | nil => rfl
  | cons m ms ih =>
      obtain ⟨first, rest⟩ := List.forall_mem_cons.mp listed
      rw [List.map_cons, known_cons (decode?_encode m.1), if_pos first, ih rest]

theorem collect_written (names : List String) (found ms : List (String × Json))
    (listed : ∀ m ∈ ms, m.1 ∈ names) (distinct : ((found ++ ms).map (·.1)).Nodup) :
    collect names found (ms.map fun m => (encode m.1, m.2)) = some (found ++ ms) := by
  have written := known_written listed
  rw [← written] at distinct
  rw [collect_known (List.forall_mem_map.mpr fun m _ => by simp) distinct, written]

theorem lookup_of_nodup {ms : List (String × Json)} (distinct : (ms.map (·.1)).Nodup) :
    (ms.map (·.1)).map (fun name => ms.lookup name) = ms.map fun m => some m.2 := by
  induction ms with
  | nil => rfl
  | cons m ms ih =>
      obtain ⟨fresh, distinct⟩ := List.nodup_cons.mp distinct
      rw [List.map_cons, List.map_cons, List.map_cons, List.lookup_cons, beq_self_eq_true,
        ← ih distinct]
      refine congrArg _ (List.map_congr_left fun k hk => ?_)
      have other : (k == m.1) = false := by
        rw [beq_eq_false_iff_ne]
        rintro rfl
        exact fresh hk
      rw [List.lookup_cons, other]

theorem record?_object {names : List String} {ms : List (String × Json)}
    (fields : ms.map (·.1) = names) (distinct : names.Nodup) :
    (object ms).record? names = some (ms.map fun m => some m.2) := by
  subst fields
  have collected := collect_written (ms.map (·.1)) [] ms
    (fun m hm => List.mem_map_of_mem hm) distinct
  rw [object, record?, collected, Option.map_some, List.nil_append]
  exact congrArg some (lookup_of_nodup distinct)

theorem tagged?_bare {tag content : String} (other : tag ≠ content) (s : String) (n : Nat) :
    (object [(tag, .text s)]).tagged? tag content (n + 1) = some ⟨s, none, false⟩ := by
  have collected := collect_written [tag, content] [] [(tag, .text s)]
    (by simp) (by simp)
  have later : (content == tag) = false := beq_eq_false_iff_ne.mpr other.symm
  simp only [object, tagged?, collected]
  simp [asVariant?, text, other, later, List.lookup_cons]

theorem tagged?_content {tag content : String} (other : tag ≠ content) (s : String) (j : Json)
    (n : Nat) : (object [(tag, .text s), (content, j)]).tagged? tag content (n + 1) =
      some ⟨s, some j, false⟩ := by
  have collected := collect_written [tag, content] [] [(tag, .text s), (content, j)]
    (by simp) (by simp [other])
  have later : (content == tag) = false := beq_eq_false_iff_ne.mpr other.symm
  simp only [object, tagged?, collected]
  simp [asVariant?, text, other, later, List.lookup_cons]

end Companions.Json
