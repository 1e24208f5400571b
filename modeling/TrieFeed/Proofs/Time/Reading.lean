import Mathlib.Data.List.DropRight
import TrieFeed.Proofs.Time.Standard
/-!
# Reading expressions of five fields

A field is read up to the first member that has no numbers in it, and nothing is read from there on.
So an expression is read as the sets of numbers that its fields write, or not at all.
-/
namespace TrieFeed.Time.Cron

open Numeral (isDigit)

variable {u : Unit} {cs rest : List Char}

/-! ## Fields -/

theorem Member.exists_head (m : Member) : ∃ c cs, m.chars = c :: cs ∧ IsBorder c := by
  cases m with
  | every step => exact ⟨'*', stepChars step, rfl, .inr rfl⟩
  | point n =>
    obtain ⟨c, cs, hc, hd⟩ := n.exists_cons
    exact ⟨c, cs, hc, .inl hd⟩
  | range a b step =>
    obtain ⟨c, cs, hc, hd⟩ := a.exists_cons
    exact ⟨c, cs ++ '-' :: (b.chars ++ stepChars step), by rw [chars, hc]; rfl, .inl hd⟩

theorem Entry.exists_head (f : Entry) : ∃ c cs, f.chars = c :: cs ∧ IsBorder c := by
  obtain ⟨first, rest⟩ := f
  obtain ⟨c, cs, hc, hb⟩ := first.exists_head
  cases rest with
  | nil => exact ⟨c, cs, hc, hb⟩
  | cons next rest =>
    refine ⟨c, cs ++ ',' :: charsOf next rest, ?_, hb⟩
    rw [chars, charsOf, hc]
    rfl

theorem Entry.length_charsOf (first : Member) (rest : List Member) :
    rest.length ≤ (charsOf first rest).length := by
  induction rest generalizing first with
  | nil => exact Nat.zero_le _
  | cons next rest ih =>
    have hl := ih next
    rw [charsOf, List.length_append, List.length_cons, List.length_cons]
    omega

theorem ends_comma (rest : List Char) : Ends (',' :: rest) := by
  constructor
  · intro c hc
    cases hc
    rfl
  · intro c hc
    cases hc
    decide
  · intro c hc
    rw [skipSpace_cons rfl] at hc
    cases hc
    decide

/-- A text with which a field is over. -/
structure Closes (rest : List Char) : Prop extends Ends rest where
  comma : ∀ c ∈ rest.head?, c ≠ ','
  laterComma : ∀ c ∈ (skipSpace rest).head?, c ≠ ','

theorem closes_nil : Closes [] := by
  have hnone {p : Char → Prop} : ∀ c ∈ ([] : List Char).head?, p c := fun c hc => by cases hc
  exact ⟨⟨hnone, hnone, hnone⟩, hnone, hnone⟩

theorem skipSpace_gap (g : Gap) (f : Entry) (rest : List Char) :
    skipSpace (g.chars ++ (f.chars ++ rest)) = f.chars ++ rest := by
  obtain ⟨c, cs, hc, hb⟩ := f.exists_head
  rw [skipSpace_append g.space, hc, List.cons_append, skipSpace_cons (isSpace_of_isBorder hb)]

/-- A field is over where there is a gap before the next one. -/
theorem closes_gap (g : Gap) (f : Entry) (rest : List Char) :
    Closes (g.chars ++ (f.chars ++ rest)) := by
  have hskip := skipSpace_gap g f rest
  obtain ⟨d, ds, hd, hb⟩ := f.exists_head
  obtain ⟨c, cs, hc⟩ := List.exists_cons_of_ne_nil g.nonempty
  have hs : isSpace c := g.space c (hc ▸ List.mem_cons_self)
  have hborder {x : Char} (hx : isDigit x = false) (hstar : x ≠ '*') : d ≠ x := by
    rintro rfl
    rcases hb with hb | rfl
    · exact ne_of_isDigit hb hx rfl
    · exact hstar rfl
  have hspace {x : Char} (hx : isSpace x = false) : c ≠ x := by
    rintro rfl
    rw [hs] at hx
    cases hx
  have hhead {x : Char} (hx : x ∈ (g.chars ++ (f.chars ++ rest)).head?) : x = c := by
    rw [hc] at hx
    exact (Option.some.inj hx).symm
  have hlater {x : Char} (hx : x ∈ (skipSpace (g.chars ++ (f.chars ++ rest))).head?) : x = d := by
    rw [hskip, hd] at hx
    exact (Option.some.inj hx).symm
  refine ⟨⟨fun x hx => ?_, fun x hx => ?_, fun x hx => ?_⟩, fun x hx => ?_, fun x hx => ?_⟩
  · exact hhead hx ▸ isDigit_of_isSpace hs
  · exact hhead hx ▸ hspace rfl
  · exact hlater hx ▸ ⟨hborder rfl (by decide), hborder rfl (by decide)⟩
  · exact hhead hx ▸ hspace rfl
  · exact hlater hx ▸ hborder rfl (by decide)

/-- The member can be read in a field. -/
def Member.Reads (u : Unit) (m : Member) : Prop :=
  m.Fits u.least u.greatest ∧ m.step < Nat.pow 2 32

theorem members?_comma {span : Span} (h : member? u cs = some (span, ',' :: rest)) (fuel : Nat) :
    members? u (fuel + 1) cs =
      (members? u fuel rest).map fun x => (span :: x.1, x.2) := by
  rw [members?, h]
  rfl

theorem members?_one {span : Span} (h : member? u cs = some (span, rest))
    (hc : ∀ c ∈ rest.head?, c ≠ ',') (fuel : Nat) :
    members? u (fuel + 1) cs = some ([span], rest) := by
  rw [members?, h]
  split
  · rename_i heq
    cases heq
  · rename_i heq
    cases heq
    exact absurd rfl (hc ',' rfl)
  · rename_i heq
    cases heq
    rfl

theorem members?_read {first : Member} {more : List Member}
    (hm : ∀ m ∈ first :: more, m.Reads u) (hu : u.greatest < Nat.pow 2 32) (hc : Closes rest)
    {fuel : Nat} (hfuel : more.length < fuel) :
    ∃ r, members? u fuel (Entry.charsOf first more ++ rest) =
      some ((first :: more).map (Member.span u), r) ∧ (r = rest ∨ r = skipSpace rest) := by
  induction more generalizing first fuel with
  | nil =>
    obtain ⟨fuel, rfl⟩ := Nat.exists_eq_add_one.mpr hfuel
    obtain ⟨hfit, hstep⟩ := hm first List.mem_cons_self
    obtain ⟨r, hr, hrest⟩ := member?_read hfit hu hstep hc.toEnds
    refine ⟨r, members?_one hr ?_ fuel, hrest⟩
    rcases hrest with rfl | rfl
    · exact hc.comma
    · exact hc.laterComma
  | cons next more ih =>
    obtain ⟨fuel, rfl⟩ := Nat.exists_eq_add_one.mpr (Nat.zero_lt_of_lt hfuel)
    obtain ⟨⟨hfit, hstep⟩, hmore⟩ := List.forall_mem_cons.mp hm
    obtain ⟨r, hr, hor⟩ := ih hmore (Nat.lt_of_succ_lt_succ hfuel)
    obtain ⟨r', hr', hor'⟩ := member?_read hfit hu hstep
      (ends_comma (Entry.charsOf next more ++ rest))
    rw [skipSpace_cons rfl, or_self] at hor'
    rw [hor'] at hr'
    refine ⟨r, ?_, hor⟩
    rw [Entry.charsOf, List.append_assoc, List.cons_append, members?_comma hr', hr]
    rfl

/-- A field all of whose members can be read is read, together with the blanks after it. -/
theorem field?_read {f : Entry} (hm : ∀ m ∈ f.members, m.Reads u) (hu : u.greatest < Nat.pow 2 32)
    (hc : Closes rest) :
    field? u (f.chars ++ rest) = some (f.members.map (Member.span u), skipSpace rest) := by
  obtain ⟨c, cs, hcs, hb⟩ := f.exists_head
  have hskip : skipSpace (f.chars ++ rest) = f.chars ++ rest := by
    rw [hcs, List.cons_append, skipSpace_cons (isSpace_of_isBorder hb)]
  have hfuel : f.rest.length < (f.chars ++ rest).length + 1 := by
    have hl := Entry.length_charsOf f.first f.rest
    rw [List.length_append, Entry.chars]
    omega
  obtain ⟨r, hr, hor⟩ := members?_read hm hu hc hfuel
  rw [← Entry.chars] at hr
  rw [field?, hskip, hr]
  rcases hor with rfl | rfl
  · rfl
  · have hidem : skipSpace (skipSpace rest) = skipSpace rest := List.dropWhile_idempotent ..
    rw [Option.map_some]
    dsimp only
    rw [hidem]
    rfl

/-! ## Fields that are not read -/

theorem skipSpace_of_slash (h : cs.head? = some '/') : skipSpace cs = cs := by
  obtain ⟨rest, rfl⟩ := List.head?_eq_some_iff.mp h
  exact skipSpace_cons rfl rest

theorem members?_of_stuck (h : Stuck (member? u cs)) (fuel : Nat) :
    Stuck (members? u (fuel + 1) cs) := by
  cases hm : member? u cs with
  | none =>
    rw [members?, hm]
    exact fun x hx => by cases hx
  | some x =>
    have hx : x.2.head? = some '/' := h x hm
    have hc : ∀ c ∈ x.2.head?, c ≠ ',' := by
      intro c hc
      rw [hx] at hc
      cases hc
      decide
    rw [members?_one hm hc]
    rintro y ⟨⟩
    exact hx

/-- A member that cannot be read ends the reading of its field. -/
theorem members?_stuck {first : Member} {more : List Member} {least greatest : Nat}
    (hf : ∀ m ∈ first :: more, m.Fits least greatest) (hg : greatest < Nat.pow 2 32)
    (hu : u.greatest < Nat.pow 2 32) (hn : ¬ ∀ m ∈ first :: more, m.Reads u) (he : Ends rest)
    (fuel : Nat) : Stuck (members? u fuel (Entry.charsOf first more ++ rest)) := by
  induction more generalizing first fuel with
  | nil =>
    cases fuel with
    | zero => exact fun x hx => by cases hx
    | succ fuel =>
      have hbad : ¬ first.Reads u := fun hr => hn (List.forall_mem_singleton.mpr hr)
      exact members?_of_stuck (member?_stuck (hf first List.mem_cons_self) hg hbad he) fuel
  | cons next more ih =>
    cases fuel with
    | zero => exact fun x hx => by cases hx
    | succ fuel =>
      obtain ⟨hfirst, hmore⟩ := List.forall_mem_cons.mp hf
      have hends := ends_comma (Entry.charsOf next more ++ rest)
      rw [Entry.charsOf, List.append_assoc, List.cons_append]
      by_cases hr : first.Reads u
      · have hn' : ¬ ∀ m ∈ next :: more, m.Reads u := fun ha =>
          hn (List.forall_mem_cons.mpr ⟨hr, ha⟩)
        obtain ⟨r, hm, hor⟩ := member?_read hr.1 hu hr.2 hends
        rw [skipSpace_cons rfl, or_self] at hor
        rw [hor] at hm
        rw [members?_comma hm]
        intro x hx
        obtain ⟨y, hy, rfl⟩ := Option.map_eq_some_iff.mp hx
        exact ih hmore hn' fuel y hy
      · exact members?_of_stuck (member?_stuck hfirst hg hr hends) fuel

theorem field?_stuck {f : Entry} {least greatest : Nat}
    (hf : ∀ m ∈ f.members, m.Fits least greatest) (hg : greatest < Nat.pow 2 32)
    (hu : u.greatest < Nat.pow 2 32) (hn : ¬ ∀ m ∈ f.members, m.Reads u) (he : Ends rest) :
    Stuck (field? u (f.chars ++ rest)) := by
  obtain ⟨c, cs, hcs, hb⟩ := f.exists_head
  have hskip : skipSpace (f.chars ++ rest) = f.chars ++ rest := by
    rw [hcs, List.cons_append, skipSpace_cons (isSpace_of_isBorder hb)]
  rw [field?, hskip]
  intro x hx
  obtain ⟨y, hy, rfl⟩ := Option.map_eq_some_iff.mp hx
  have hy : y.2.head? = some '/' := members?_stuck hf hg hu hn he _ y hy
  exact (congrArg List.head? (skipSpace_of_slash hy)).trans hy

/-- Nothing that starts with a slash is a field. -/
theorem field?_slash (h : cs.head? = some '/') : field? u cs = none := by
  have hskip := skipSpace_of_slash h
  obtain ⟨rest, rfl⟩ := List.head?_eq_some_iff.mp h
  have hm : member? u ('/' :: rest) = none := by
    have hd : NoDigit (skipSpace ('/' :: rest)) := by
      rw [hskip]
      intro c hc
      cases hc
      rfl
    have hname : name? ('/' :: rest) = none := by
      rw [name?, hskip]
      rfl
    have hb : base? u ('/' :: rest) = none := by
      rw [base?, ordinal?_none hd, hname]
      · rfl
      · decide
    rw [member?, hb, hname]
  rw [field?, hskip, members?, hm]
  rfl

theorem bind_of_stuck {α β : Type} {o : Option (α × List Char)} (h : Stuck o)
    {k : α × List Char → Option β} (hk : ∀ x, x.2.head? = some '/' → k x = none) :
    o.bind k = none := by
  cases o with
  | none => rfl
  | some x => exact hk x (h x rfl)

/-! ## Fields before a gap -/

variable {f : Entry}

theorem field?_read_gap (hm : ∀ m ∈ f.members, m.Reads u) (hu : u.greatest < Nat.pow 2 32) (g : Gap)
    (next : Entry) (rest : List Char) :
    field? u (f.chars ++ (g.chars ++ (next.chars ++ rest))) =
      some (f.members.map (Member.span u), next.chars ++ rest) := by
  rw [field?_read hm hu (closes_gap g next rest), skipSpace_gap]

/-- Nothing is read of fields one of which cannot be read, be it this one or one behind it. -/
theorem bind_field?_gap {β : Type} {least greatest : Nat}
    (hf : ∀ m ∈ f.members, m.Fits least greatest) (hg : greatest < Nat.pow 2 32)
    (hu : u.greatest < Nat.pow 2 32) {g : Gap} {next : Entry} {k : Field × List Char → Option β}
    (hslash : ∀ x, x.2.head? = some '/' → k x = none)
    (hk : (∀ m ∈ f.members, m.Reads u) →
      k (f.members.map (Member.span u), next.chars ++ rest) = none) :
    (field? u (f.chars ++ (g.chars ++ (next.chars ++ rest)))).bind k = none := by
  by_cases hr : ∀ m ∈ f.members, m.Reads u
  · rw [field?_read_gap hr hu, Option.bind_some]
    exact hk hr
  · exact bind_of_stuck (field?_stuck hf hg hu hr (closes_gap g next rest).toEnds) hslash

theorem bind_field?_slash {β : Type} {k : Field × List Char → Option β}
    (h : cs.head? = some '/') : (field? u cs).bind k = none := by
  rw [field?_slash h, Option.bind_none]

/-! ## Expressions -/

namespace Standard

/-- The expression that is read, in which the second is zero and the year is open. -/
def expression (x : Standard) : Expression where
  seconds := [⟨0, 0, 1⟩]
  minutes := x.minute.members.map (Member.span .minute)
  hours := x.hour.members.map (Member.span .hour)
  daysOfMonth := x.dayOfMonth.members.map (Member.span .dayOfMonth)
  months := x.month.members.map (Member.span .month)
  daysOfWeek := x.dayOfWeek.members.map (Member.span .dayOfWeek)
  years := Unit.year.every

/-- All members can be read, each in its field. -/
structure Reads (x : Standard) : Prop where
  minute : ∀ m ∈ x.minute.members, m.Reads .minute
  hour : ∀ m ∈ x.hour.members, m.Reads .hour
  dayOfMonth : ∀ m ∈ x.dayOfMonth.members, m.Reads .dayOfMonth
  month : ∀ m ∈ x.month.members, m.Reads .month
  dayOfWeek : ∀ m ∈ x.dayOfWeek.members, m.Reads .dayOfWeek

end Standard

theorem longhand?_eq (cs : List Char) : longhand? cs =
    (field? .second cs).bind fun second => (field? .minute second.2).bind fun minute =>
      (field? .hour minute.2).bind fun hour => (field? .dayOfMonth hour.2).bind fun dayOfMonth =>
        (field? .month dayOfMonth.2).bind fun month =>
          (field? .dayOfWeek month.2).bind fun dayOfWeek =>
            if dayOfWeek.2 = [] then
              some ⟨second.1, minute.1, hour.1, dayOfMonth.1, month.1, dayOfWeek.1,
                Unit.year.every⟩
            else (field? .year dayOfWeek.2).bind fun year =>
              (guard (year.2 = []) : Option PUnit).bind fun _ =>
                some ⟨second.1, minute.1, hour.1, dayOfMonth.1, month.1, dayOfWeek.1, year.1⟩ := by
  unfold longhand?
  rfl

/-- The text that is read of an expression of five fields. -/
def Standard.longhand (x : Standard) : List Char := '0' :: ' ' :: x.chars

theorem second_read (x : Standard) :
    field? .second x.longhand = some ([⟨0, 0, 1⟩], x.chars) := by
  have hm : ∀ m ∈ (⟨.point (.single '0' rfl), []⟩ : Entry).members, m.Reads .second := by
    rintro m hm
    obtain rfl := List.mem_singleton.mp hm
    exact ⟨⟨by decide, by decide, by decide⟩, by decide⟩
  exact field?_read_gap hm (by decide) .single x.minute _

/-- The fields of an expression whose members can all be read are read one after another. -/
theorem longhand?_read {x : Standard} (h : x.Reads) : longhand? x.longhand = some x.expression := by
  have hweek := field?_read h.dayOfWeek (by decide) closes_nil
  rw [longhand?_eq, second_read, Option.bind_some, Standard.chars,
    ← List.append_nil x.dayOfWeek.chars, field?_read_gap h.minute (by decide), Option.bind_some,
    field?_read_gap h.hour (by decide), Option.bind_some, field?_read_gap h.dayOfMonth (by decide),
    Option.bind_some, field?_read_gap h.month (by decide), Option.bind_some, hweek,
    Option.bind_some]
  exact if_pos rfl

/-- No expression is read if any member cannot be. -/
theorem longhand?_none {x : Standard} (hv : x.Valid) (h : ¬ x.Reads) :
    longhand? x.longhand = none := by
  rw [longhand?_eq, second_read, Option.bind_some, Standard.chars,
    ← List.append_nil x.dayOfWeek.chars]
  refine bind_field?_gap hv.minute (by decide) (by decide) (fun _ => bind_field?_slash)
    fun hminute => ?_
  refine bind_field?_gap hv.hour (by decide) (by decide) (fun _ => bind_field?_slash)
    fun hhour => ?_
  refine bind_field?_gap hv.dayOfMonth (by decide) (by decide) (fun _ => bind_field?_slash)
    fun hday => ?_
  refine bind_field?_gap hv.month (by decide) (by decide) (fun _ => bind_field?_slash)
    fun hmonth => ?_
  have hweek : ¬ ∀ m ∈ x.dayOfWeek.members, m.Reads .dayOfWeek := fun hweek =>
    h ⟨hminute, hhour, hday, hmonth, hweek⟩
  have hstuck := field?_stuck hv.dayOfWeek (by decide) (by decide) hweek closes_nil.toEnds
  refine bind_of_stuck hstuck fun y hy => ?_
  have hne : y.2 ≠ [] := by
    intro he
    rw [he] at hy
    cases hy
  rw [if_neg hne]
  exact bind_field?_slash hy

/-! ## Words -/

theorem Member.not_blank (m : Member) : ∀ c ∈ m.chars, Text.isBlank c = false := by
  have hdigits (n : Digits) : ∀ c ∈ n.chars, Text.isBlank c = false := fun c hc =>
    Text.isBlank_of_isDigit (n.digits c hc)
  have hstep (step : Option Digits) : ∀ c ∈ stepChars step, Text.isBlank c = false := by
    cases step with
    | none => exact fun c hc => nomatch hc
    | some n => exact List.forall_mem_cons.mpr ⟨rfl, hdigits n⟩
  cases m with
  | every step => exact List.forall_mem_cons.mpr ⟨rfl, hstep step⟩
  | point n => exact hdigits n
  | range a b step =>
    refine List.forall_mem_append.mpr ⟨hdigits a, List.forall_mem_cons.mpr ⟨rfl, ?_⟩⟩
    exact List.forall_mem_append.mpr ⟨hdigits b, hstep step⟩

theorem Entry.not_blank (f : Entry) : ∀ c ∈ f.chars, Text.isBlank c = false := by
  obtain ⟨first, rest⟩ := f
  rw [chars]
  dsimp only
  induction rest generalizing first with
  | nil => exact first.not_blank
  | cons next rest ih =>
    exact List.forall_mem_append.mpr ⟨first.not_blank, List.forall_mem_cons.mpr ⟨rfl, ih next⟩⟩

theorem wordCount_inWord (h : ∀ c ∈ cs, Text.isBlank c = false) (rest : List Char) :
    wordCount (cs ++ rest) true = wordCount rest true := by
  induction cs with
  | nil => rfl
  | cons c cs ih =>
    obtain ⟨hc, hcs⟩ := List.forall_mem_cons.mp h
    rw [List.cons_append, wordCount, hc, ih hcs]
    exact Nat.zero_add _

theorem wordCount_blanks (h : ∀ c ∈ cs, Text.isBlank c) (rest : List Char) :
    wordCount (cs ++ rest) false = wordCount rest false := by
  induction cs with
  | nil => rfl
  | cons c cs ih =>
    obtain ⟨hc, hcs⟩ := List.forall_mem_cons.mp h
    rw [List.cons_append, wordCount, if_pos hc, ih hcs]

theorem wordCount_field (f : Entry) (rest : List Char) :
    wordCount (f.chars ++ rest) false = 1 + wordCount rest true := by
  obtain ⟨c, cs, hcs, -⟩ := f.exists_head
  have hn := f.not_blank
  rw [hcs] at hn ⊢
  obtain ⟨hc, hcs⟩ := List.forall_mem_cons.mp hn
  rw [List.cons_append, wordCount, hc, wordCount_inWord hcs]
  rfl

theorem wordCount_gap (g : Gap) (rest : List Char) :
    wordCount (g.chars ++ rest) true = wordCount rest false := by
  obtain ⟨c, cs, hcs⟩ := List.exists_cons_of_ne_nil g.nonempty
  have hs : ∀ c ∈ g.chars, Text.isBlank c := fun c hc => isBlank_of_isSpace (g.space c hc)
  rw [hcs] at hs ⊢
  obtain ⟨hc, hcs⟩ := List.forall_mem_cons.mp hs
  rw [List.cons_append, wordCount, if_pos hc, wordCount_blanks hcs]

theorem Standard.wordCount_chars (x : Standard) : wordCount x.chars false = 5 := by
  have hlast := wordCount_field x.dayOfWeek []
  rw [List.append_nil] at hlast
  rw [chars, wordCount_field, wordCount_gap, wordCount_field, wordCount_gap, wordCount_field,
    wordCount_gap, wordCount_field, wordCount_gap, hlast]
  rfl

/-! ## Ends of the text -/

/-- A text that both starts and ends with a digit or a star. -/
structure Bordered (cs : List Char) : Prop where
  head : ∃ c, cs.head? = some c ∧ IsBorder c
  last : ∃ c, cs.getLast? = some c ∧ IsBorder c

theorem Bordered.append {xs ys : List Char} (hx : Bordered xs) (middle : List Char)
    (hy : Bordered ys) : Bordered (xs ++ (middle ++ ys)) := by
  obtain ⟨⟨c, hc, hb⟩, -⟩ := hx
  obtain ⟨-, ⟨d, hd, hb'⟩⟩ := hy
  refine ⟨⟨c, ?_, hb⟩, d, ?_, hb'⟩
  · rw [List.head?_append, hc, Option.some_or]
  · rw [List.getLast?_append, List.getLast?_append, hd, Option.some_or, Option.some_or]

theorem Digits.bordered (n : Digits) : Bordered n.chars := by
  have hh := List.head?_eq_some_head n.nonempty
  have hl := List.getLast?_eq_some_getLast n.nonempty
  exact ⟨⟨_, hh, .inl (n.digits _ (List.head_mem n.nonempty))⟩,
    _, hl, .inl (n.digits _ (List.getLast_mem n.nonempty))⟩

theorem bordered_step {xs : List Char} (h : Bordered xs) (step : Option Digits) :
    Bordered (xs ++ Member.stepChars step) := by
  cases step with
  | none =>
    rw [Member.stepChars, List.append_nil]
    exact h
  | some n => exact h.append ['/'] n.bordered

theorem Member.bordered (m : Member) : Bordered m.chars := by
  cases m with
  | every step =>
    have hstar : Bordered ['*'] := ⟨⟨'*', rfl, .inr rfl⟩, '*', rfl, .inr rfl⟩
    exact bordered_step hstar step
  | point n => exact n.bordered
  | range a b step =>
    have hr := bordered_step (a.bordered.append ['-'] b.bordered) step
    rw [List.append_assoc, List.append_assoc] at hr
    exact hr

theorem Entry.bordered (f : Entry) : Bordered f.chars := by
  obtain ⟨first, rest⟩ := f
  rw [chars]
  dsimp only
  induction rest generalizing first with
  | nil => exact first.bordered
  | cons next rest ih => exact first.bordered.append [','] (ih next)

theorem Standard.bordered (x : Standard) : Bordered x.chars :=
  x.minute.bordered.append _ (x.hour.bordered.append _ (x.dayOfMonth.bordered.append _
    (x.month.bordered.append _ x.dayOfWeek.bordered)))

theorem Bordered.dropWhile_reverse (h : Bordered cs) {p : Char → Bool}
    (hp : ∀ c, IsBorder c → p c = false) : (cs.reverse.dropWhile p).reverse = cs := by
  obtain ⟨-, ⟨c, hc, hb⟩⟩ := h
  obtain ⟨front, rfl⟩ := List.getLast?_eq_some_iff.mp hc
  rw [List.reverse_append, List.reverse_singleton, List.singleton_append,
    List.dropWhile_cons_of_neg (by rw [hp c hb]; decide), List.reverse_cons, List.reverse_reverse]

theorem Bordered.trim (h : Bordered cs) : Text.trim cs = cs := by
  obtain ⟨c, hc, hb⟩ := h.head
  obtain ⟨rest, hcs⟩ := List.head?_eq_some_iff.mp hc
  have hstart : Text.trimStart cs = cs := by
    rw [Text.trimStart, hcs, List.dropWhile_cons_of_neg (by rw [isBlank_of_isBorder hb]; decide)]
  rw [Text.trim, hstart]
  exact h.dropWhile_reverse fun c => isBlank_of_isBorder

/-! ## Texts -/

/-- The names of expressions start with an at sign. -/
theorem shorthand?_none (h : (skipSpace cs).head? ≠ some '@') : shorthand? cs = none := by
  unfold shorthand?
  generalize skipSpace cs = ds at h ⊢
  have hne {name : String} (hn : name.toList.head? = some '@') (he : String.ofList ds = name) :
      False := by
    rw [← he, String.toList_ofList] at hn
    exact h hn
  dsimp only
  split
  · rename_i he
    exact (hne rfl he).elim
  · rename_i he
    exact (hne rfl he).elim
  · rename_i he
    exact (hne rfl he).elim
  · rename_i he
    exact (hne rfl he).elim
  · rename_i he
    exact (hne rfl he).elim
  · rfl

theorem Standard.normalized_text (x : Standard) : normalized x.text.toList = x.longhand := by
  rw [text, String.toList_ofList, normalized, x.bordered.trim]
  exact if_pos x.wordCount_chars

/-- A text of five fields is read with a second of zero. -/
theorem Standard.read?_text (x : Standard) : read? x.text = longhand? x.longhand := by
  have hlong : Bordered x.longhand := by
    obtain ⟨c, hc, hb⟩ := x.bordered.last
    refine ⟨⟨'0', rfl, .inl rfl⟩, c, ?_, hb⟩
    rw [longhand, List.getLast?_cons, List.getLast?_cons, hc]
    rfl
  have hend : (skipSpace x.longhand.reverse).reverse = x.longhand :=
    hlong.dropWhile_reverse fun c => isSpace_of_isBorder
  have hshort : shorthand? x.longhand = none := by
    apply shorthand?_none
    rw [longhand, skipSpace_cons rfl, List.head?_cons]
    decide
  unfold read?
  rw [normalized_text]
  dsimp only
  rw [hend, hshort]

end TrieFeed.Time.Cron
