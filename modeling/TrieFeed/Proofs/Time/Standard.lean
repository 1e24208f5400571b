import TrieFeed.Proofs.Number.Numeral
import TrieFeed.Time.Cron
/-!
# Cron expressions of five fields

The usual form of a cron expression has fields for minute, hour, day of month, month and day of
week, in which Sunday is day zero as well as day seven. It is read with a second field in front, and
its days of the week are read from Sunday as one on.
-/
namespace TrieFeed.Time.Cron

open Numeral (isDigit ofDigits)

/-! ## Syntax -/

/-- A number as it is written, zeros in front included. -/
structure Digits where
  chars : List Char
  nonempty : chars ≠ []
  digits : ∀ c ∈ chars, isDigit c

def Digits.value (n : Digits) : Nat := ofDigits n.chars

def Digits.single (c : Char) (h : isDigit c) : Digits :=
  ⟨[c], List.cons_ne_nil c [], List.forall_mem_singleton.mpr h⟩

/-- A member of a field's list. -/
inductive Member where
  | every (step : Option Digits)
  | point (n : Digits)
  | range (a b : Digits) (step : Option Digits)

namespace Member

def stepChars : Option Digits → List Char
  | none => []
  | some n => '/' :: n.chars

def chars : Member → List Char
  | every step => '*' :: stepChars step
  | point n => n.chars
  | range a b step => a.chars ++ '-' :: (b.chars ++ stepChars step)

def step? : Member → Option Digits
  | every step | range _ _ step => step
  | point _ => none

def step (m : Member) : Nat := (m.step?.map (·.value)).getD 1

/-- The numbers of the member are in a range, and its step is positive. -/
def Fits (least greatest : Nat) (m : Member) : Prop :=
  0 < m.step ∧ match m with
    | every _ => True
    | point n => least ≤ n.value ∧ n.value ≤ greatest
    | range a b _ => least ≤ a.value ∧ a.value ≤ b.value ∧ b.value ≤ greatest

/-- The numbers that the member stands for, from the least of its range on. -/
def Holds (least : Nat) (m : Member) (k : Nat) : Prop :=
  match m with
  | every _ => (k - least) % m.step = 0
  | point n => k = n.value
  | range a b _ => a.value ≤ k ∧ k ≤ b.value ∧ (k - a.value) % m.step = 0

/-- The number that the member starts with, if it has one. -/
def start? : Member → Option Nat
  | every _ => none
  | point n | range n _ _ => some n.value

end Member

/-- A field, which has a member at least. -/
structure Entry where
  first : Member
  rest : List Member

namespace Entry

def members (f : Entry) : List Member := f.first :: f.rest

def charsOf : Member → List Member → List Char
  | m, [] => m.chars
  | m, next :: rest => m.chars ++ ',' :: charsOf next rest

def chars (f : Entry) : List Char := charsOf f.first f.rest

/-- The field that leaves everything open. -/
def star : Entry := ⟨.every none, []⟩

def Holds (least : Nat) (f : Entry) (k : Nat) : Prop := ∃ m ∈ f.members, m.Holds least k

end Entry

/-- What stands between fields. -/
structure Gap where
  chars : List Char
  nonempty : chars ≠ []
  space : ∀ c ∈ chars, isSpace c

def Gap.single : Gap := ⟨[' '], List.cons_ne_nil _ _, List.forall_mem_singleton.mpr rfl⟩

/-- An expression of five fields. -/
structure Standard where
  minute : Entry
  afterMinute : Gap
  hour : Entry
  afterHour : Gap
  dayOfMonth : Entry
  afterDay : Gap
  month : Entry
  afterMonth : Gap
  dayOfWeek : Entry

namespace Standard

def chars (x : Standard) : List Char :=
  x.minute.chars ++ (x.afterMinute.chars ++ (x.hour.chars ++ (x.afterHour.chars ++
    (x.dayOfMonth.chars ++ (x.afterDay.chars ++ (x.month.chars ++ (x.afterMonth.chars ++
      x.dayOfWeek.chars)))))))

def text (x : Standard) : String := .ofList x.chars

structure Valid (x : Standard) : Prop where
  minute : ∀ m ∈ x.minute.members, m.Fits 0 59
  hour : ∀ m ∈ x.hour.members, m.Fits 0 23
  dayOfMonth : ∀ m ∈ x.dayOfMonth.members, m.Fits 1 31
  month : ∀ m ∈ x.month.members, m.Fits 1 12
  dayOfWeek : ∀ m ∈ x.dayOfWeek.members, m.Fits 0 7
  /-- One of the fields for days leaves them open. -/
  day : x.dayOfMonth = .star ∨ x.dayOfWeek = .star

def members (x : Standard) : List Member :=
  x.minute.members ++ x.hour.members ++ x.dayOfMonth.members ++ x.month.members ++
    x.dayOfWeek.members

/-- No step has more than thirty-two bits, and no day of the week is written as zero. -/
structure Readable (x : Standard) : Prop where
  steps : ∀ m ∈ x.members, m.step < Nat.pow 2 32
  weekdays : ∀ m ∈ x.dayOfWeek.members, m.start? ≠ some 0

end Standard

/-! ## Characters -/

variable {u : Unit} {c : Char} {cs rest : List Char}

/-- A character that stands at either end of a field. -/
def IsBorder (c : Char) : Prop := isDigit c ∨ c = '*'

theorem isSpace_of_isBorder (h : IsBorder c) : isSpace c = false := by
  rcases h with h | rfl
  · by_contra hs
    rw [Bool.not_eq_false, isSpace] at hs
    simp only [Bool.or_eq_true, decide_eq_true_eq] at hs
    rcases hs with ((rfl | rfl) | rfl) | rfl <;> exact absurd h (by decide)
  · rfl

theorem isDigit_of_isSpace (h : isSpace c) : isDigit c = false := by
  by_contra hd
  have hb := isSpace_of_isBorder (.inl (Bool.not_eq_false _ ▸ hd : isDigit c))
  rw [h] at hb
  cases hb

theorem ne_of_isDigit (h : isDigit c) {d : Char} (hd : isDigit d = false) : c ≠ d := by
  rintro rfl
  rw [h] at hd
  cases hd

theorem isBlank_of_isSpace (h : isSpace c) : Text.isBlank c := by
  rw [isSpace] at h
  simp only [Bool.or_eq_true, decide_eq_true_eq] at h
  rcases h with ((rfl | rfl) | rfl) | rfl <;> rfl

theorem isBlank_of_isBorder (h : IsBorder c) : Text.isBlank c = false := by
  rcases h with h | rfl
  · exact Text.isBlank_of_isDigit h
  · rfl

theorem skipSpace_cons (h : isSpace c = false) (cs : List Char) : skipSpace (c :: cs) = c :: cs := by
  rw [skipSpace, List.dropWhile_cons_of_neg (by rw [h]; decide)]

theorem skipSpace_append (h : ∀ c ∈ cs, isSpace c) (rest : List Char) :
    skipSpace (cs ++ rest) = skipSpace rest :=
  List.dropWhile_append_of_pos h

/-! ## Numbers -/

/-- A text that goes on with no digit. -/
def NoDigit (rest : List Char) : Prop := ∀ c ∈ rest.head?, isDigit c = false

theorem NoDigit.takeWhile (h : NoDigit rest) : rest.takeWhile isDigit = [] := by
  cases rest with
  | nil => rfl
  | cons c rest => rw [List.takeWhile_cons_of_neg (by rw [h c rfl]; decide)]

theorem NoDigit.dropWhile (h : NoDigit rest) : rest.dropWhile isDigit = rest := by
  cases rest with
  | nil => rfl
  | cons c rest => rw [List.dropWhile_cons_of_neg (by rw [h c rfl]; decide)]

theorem Digits.exists_cons (n : Digits) : ∃ c cs, n.chars = c :: cs ∧ isDigit c := by
  obtain ⟨c, cs, hc⟩ := List.exists_cons_of_ne_nil n.nonempty
  exact ⟨c, cs, hc, n.digits c (hc ▸ List.mem_cons_self)⟩

theorem ordinal?_eq (n : Digits) (h : NoDigit rest) : ordinal? (n.chars ++ rest) =
    if n.value < Nat.pow 2 32 then some (n.value, skipSpace rest) else none := by
  obtain ⟨c, cs, hc, hd⟩ := n.exists_cons
  have hs : skipSpace (n.chars ++ rest) = n.chars ++ rest := by
    rw [hc]
    exact skipSpace_cons (isSpace_of_isBorder (.inl hd)) _
  rw [ordinal?, hs, List.takeWhile_append_of_pos n.digits, h.takeWhile, List.append_nil,
    List.dropWhile_append_of_pos n.digits, h.dropWhile]
  have hn : (n.chars = [] ∨ Nat.pow 2 32 ≤ ofDigits n.chars) ↔ ¬ n.value < Nat.pow 2 32 := by
    rw [or_iff_right n.nonempty, Nat.not_lt]
    rfl
  by_cases hv : n.value < Nat.pow 2 32
  · rw [if_pos hv]
    exact if_neg fun hl => hn.mp hl hv
  · rw [if_neg hv]
    exact if_pos (hn.mpr hv)

theorem ordinal?_none (h : NoDigit (skipSpace cs)) : ordinal? cs = none := by
  rw [ordinal?, h.takeWhile]
  exact if_pos (.inl rfl)

/-! ## Members -/

/-- A text that does not go on with what belongs to the member before. -/
structure Ends (rest : List Char) : Prop where
  digit : NoDigit rest
  step : ∀ c ∈ rest.head?, c ≠ '/'
  later : ∀ c ∈ (skipSpace rest).head?, c ≠ '/' ∧ c ≠ '-'

/-- What is read of a text, if anything, ends before a slash, which nothing starts with. -/
def Stuck {α : Type} (o : Option (α × List Char)) : Prop := ∀ x ∈ o, x.2.head? = some '/'

namespace Member

def base : Member → Base
  | every _ => .every
  | point n => .point n.value
  | range a b _ => .range a.value b.value

def span (u : Unit) (m : Member) : Span :=
  match m with
  | every _ => ⟨u.least, u.greatest, m.step⟩
  | point n => ⟨n.value, n.value, 1⟩
  | range a b _ => ⟨a.value, b.value, m.step⟩

theorem span?_of_fits {m : Member} (h : m.Fits u.least u.greatest) :
    m.base.span? u (m.step?.map (·.value)) = some (m.span u) := by
  cases m with
  | every step => rfl
  | point n =>
    obtain ⟨-, hl, hg⟩ := h
    have hv : u.valid? n.value = some n.value := if_pos ⟨hl, hg⟩
    change (u.valid? n.value).bind _ = _
    rw [hv, Option.bind_some]
    change (u.valid? n.value).bind _ = _
    rw [hv, Option.bind_some]
    exact if_pos (Nat.le_refl _)
  | range a b step =>
    obtain ⟨-, hl, hab, hg⟩ := h
    have ha : u.valid? a.value = some a.value := if_pos ⟨hl, hab.trans hg⟩
    have hb : u.valid? b.value = some b.value := if_pos ⟨hl.trans hab, hg⟩
    change (u.valid? a.value).bind _ = _
    rw [ha, Option.bind_some, hb, Option.bind_some]
    exact if_pos hab

end Member

theorem Unit.span?_none {a b step : Nat} (h : ¬ (u.least ≤ a ∧ a ≤ b ∧ b ≤ u.greatest)) :
    u.span? a b step = none := by
  rw [span?, valid?, valid?]
  split
  · rw [Option.bind_some]
    split
    · rw [Option.bind_some]
      exact if_neg (by omega)
    · rfl
  · rfl

theorem Member.span?_of_not_fits {m : Member} (hs : 0 < m.step)
    (h : ¬ m.Fits u.least u.greatest) (step : Option Nat) : m.base.span? u step = none := by
  cases m with
  | every _ => exact absurd ⟨hs, trivial⟩ h
  | point n =>
    have hn : ¬ (u.least ≤ n.value ∧ n.value ≤ u.greatest) := fun hn => h ⟨hs, hn⟩
    rw [base, Base.span?]
    apply Unit.span?_none
    split <;> omega
  | range a b _ => exact Unit.span?_none fun hn => h ⟨hs, hn⟩

theorem base?_of_isDigit (h : isDigit c) (cs : List Char) : base? u (c :: cs) =
    match ordinal? (c :: cs) with
    | some (a, '-' :: rest) =>
      match ordinal? rest with
      | some (b, rest) => some (.range a b, rest)
      | none => some (.point a, '-' :: rest)
    | some (a, rest) => some (.point a, rest)
    | none => match name? (c :: cs) with
      | some (a, '-' :: rest) =>
        match name? rest with
        | some (b, rest) => some (.names a b, rest)
        | none => none
      | _ => none := by
  have hstar : c ≠ '*' := ne_of_isDigit h rfl
  have hany : ¬ (c = '?' ∧ u.hasAny) := fun ha => ne_of_isDigit h rfl ha.1
  unfold base?
  split
  · rename_i heq
    cases heq
    exact absurd rfl hstar
  · rename_i heq
    cases heq
    exact if_neg hany
  · rename_i heq
    cases heq

/-- A number that is not followed by a hyphen. -/
theorem base?_point {n : Digits} (hv : n.value < Nat.pow 2 32) (hd : NoDigit rest)
    (hm : ∀ c ∈ (skipSpace rest).head?, c ≠ '-') :
    base? u (n.chars ++ rest) = some (.point n.value, skipSpace rest) := by
  have ho := ordinal?_eq n hd
  rw [if_pos hv] at ho
  obtain ⟨c, cs, hc, hdc⟩ := n.exists_cons
  rw [hc, List.cons_append] at ho ⊢
  rw [base?_of_isDigit hdc, ho]
  split
  · rename_i heq
    obtain ⟨-, hr⟩ := Prod.mk.inj (Option.some.inj heq)
    exact absurd rfl (hm '-' (by rw [hr]; rfl))
  · rename_i heq
    cases heq
    rfl
  · rename_i heq
    cases heq

theorem base?_range {a b : Digits} (ha : a.value < Nat.pow 2 32) (hb : b.value < Nat.pow 2 32)
    (hd : NoDigit rest) : base? u (a.chars ++ '-' :: (b.chars ++ rest)) =
      some (.range a.value b.value, skipSpace rest) := by
  have hn : NoDigit ('-' :: (b.chars ++ rest)) := by
    intro c hc
    cases hc
    rfl
  have ho := ordinal?_eq a hn
  rw [if_pos ha, skipSpace_cons rfl] at ho
  have ho' := ordinal?_eq b hd
  rw [if_pos hb] at ho'
  obtain ⟨c, cs, hc, hdc⟩ := a.exists_cons
  rw [hc, List.cons_append] at ho ⊢
  rw [base?_of_isDigit hdc, ho]
  split
  · rename_i heq
    cases heq
    rw [ho']
  · rename_i hne heq
    cases heq
    exact (hne _ rfl).elim
  · rename_i heq
    cases heq

/-- What follows a member's range: its step, if it has one. -/
def Member.After (m : Member) (rest r : List Char) : Prop :=
  match m.step? with
  | some n => r = '/' :: (n.chars ++ rest)
  | none => r = rest ∨ r = skipSpace rest

/-- The numbers of the member have at most thirty-two bits. -/
def Member.Short : Member → Prop
  | .every _ => True
  | .point n => n.value < Nat.pow 2 32
  | .range a b _ => a.value < Nat.pow 2 32 ∧ b.value < Nat.pow 2 32

theorem Member.Fits.short {m : Member} {least greatest : Nat} (h : m.Fits least greatest)
    (hg : greatest < Nat.pow 2 32) : m.Short := by
  cases m with
  | every _ => trivial
  | point n => exact Nat.lt_of_le_of_lt h.2.2 hg
  | range a b _ =>
    obtain ⟨-, -, hab, hb⟩ := h
    exact ⟨Nat.lt_of_le_of_lt (hab.trans hb) hg, Nat.lt_of_le_of_lt hb hg⟩

theorem base?_chars {m : Member} (hs : m.Short) (he : Ends rest) :
    ∃ r, base? u (m.chars ++ rest) = some (m.base, r) ∧ m.After rest r := by
  cases m with
  | every step =>
    refine ⟨Member.stepChars step ++ rest, rfl, ?_⟩
    cases step with
    | none => exact .inl rfl
    | some n => rfl
  | point n =>
    exact ⟨skipSpace rest, base?_point hs he.digit fun c hc => (he.later c hc).2, .inr rfl⟩
  | range a b step =>
    have hd : NoDigit (Member.stepChars step ++ rest) := by
      cases step with
      | none => exact he.digit
      | some n =>
        intro c hc
        cases hc
        rfl
    refine ⟨skipSpace (Member.stepChars step ++ rest), ?_, ?_⟩
    · rw [Member.chars, List.append_assoc, List.cons_append, List.append_assoc]
      exact base?_range hs.1 hs.2 hd
    · cases step with
      | none => exact .inr rfl
      | some n => exact skipSpace_cons rfl _

theorem member?_of_base {base : Base} {r : List Char} (hb : base? u cs = some (base, r))
    (hr : ∀ c ∈ r.head?, c ≠ '/') : member? u cs = (base.span? u none).map fun s => (s, r) := by
  rw [member?, hb]
  dsimp only
  split
  · rename_i heq
    split at heq
    · exact absurd rfl (hr '/' rfl)
    · cases heq
  · rfl

theorem member?_of_step {base : Base} {r : List Char} (hb : base? u cs = some (base, '/' :: r)) :
    member? u cs = match ordinal? r with
      | some (step, rest) =>
        if step = 0 then none else (base.span? u (some step)).map fun s => (s, rest)
      | none => (base.span? u none).map fun s => (s, '/' :: r) := by
  unfold member?
  rw [hb]
  rfl

/-- A member whose numbers are in the range of a field is read, together with the blanks after a
number. -/
theorem member?_read {m : Member} (hf : m.Fits u.least u.greatest) (hu : u.greatest < Nat.pow 2 32)
    (hs : m.step < Nat.pow 2 32) (he : Ends rest) :
    ∃ r, member? u (m.chars ++ rest) = some (m.span u, r) ∧ (r = rest ∨ r = skipSpace rest) := by
  have hspan := Member.span?_of_fits hf
  obtain ⟨r, hb, hr⟩ := base?_chars (u := u) (hf.short hu) he
  rw [Member.After] at hr
  cases hstep : m.step? with
  | none =>
    rw [hstep] at hr hspan
    have hhead : ∀ c ∈ r.head?, c ≠ '/' := by
      rcases hr with rfl | rfl
      · exact he.step
      · exact fun c hc => (he.later c hc).1
    refine ⟨r, ?_, hr⟩
    rw [member?_of_base hb hhead]
    exact congrArg (Option.map fun s => (s, r)) hspan
  | some n =>
    have hn : m.step = n.value := by rw [Member.step, hstep]; rfl
    have hpos : n.value ≠ 0 := Nat.ne_of_gt (hn ▸ hf.1)
    rw [hstep] at hr hspan
    obtain rfl : r = '/' :: (n.chars ++ rest) := hr
    have ho := ordinal?_eq n he.digit
    rw [if_pos (hn ▸ hs)] at ho
    refine ⟨skipSpace rest, ?_, .inr rfl⟩
    rw [member?_of_step hb, ho]
    dsimp only
    rw [if_neg hpos]
    exact congrArg (Option.map fun s => (s, skipSpace rest)) hspan

/-- Other members end the reading: those that a field has no numbers for, and those with long
steps. -/
theorem member?_stuck {m : Member} {least greatest : Nat} (hf : m.Fits least greatest)
    (hg : greatest < Nat.pow 2 32) (hn : ¬ (m.Fits u.least u.greatest ∧ m.step < Nat.pow 2 32))
    (he : Ends rest) : Stuck (member? u (m.chars ++ rest)) := by
  obtain ⟨r, hb, hr⟩ := base?_chars (u := u) (hf.short hg) he
  rw [Member.After] at hr
  by_cases hfu : m.Fits u.least u.greatest
  · have hlong : ¬ m.step < Nat.pow 2 32 := fun hs => hn ⟨hfu, hs⟩
    cases hstep : m.step? with
    | none =>
      rw [Member.step, hstep] at hlong
      exact absurd (by decide) hlong
    | some n =>
      have hlong : ¬ n.value < Nat.pow 2 32 := by
        rw [Member.step, hstep] at hlong
        exact hlong
      rw [hstep] at hr
      obtain rfl : r = '/' :: (n.chars ++ rest) := hr
      have ho := ordinal?_eq n he.digit
      rw [if_neg hlong] at ho
      rw [member?_of_step hb, ho]
      intro x hx
      obtain ⟨s, -, rfl⟩ := Option.map_eq_some_iff.mp hx
      rfl
  · have hnone := Member.span?_of_not_fits hf.1 hfu
    have hm : member? u (m.chars ++ rest) = none := by
      rw [member?, hb]
      dsimp only
      split
      · rw [hnone]
        split <;> rfl
      · rw [hnone]
        rfl
    rw [hm]
    exact fun x hx => by cases hx

end TrieFeed.Time.Cron
