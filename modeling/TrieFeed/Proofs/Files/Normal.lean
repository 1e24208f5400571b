import TrieFeed.Proofs.Files.Path
import TrieFeed.Proofs.Text.Lines
/-!
# Normal forms of paths

Folded parts are what normalizing leaves as it is. A path can be normalized before another is
joined to it or afterwards, and where no `..` leads above the start, what remains are the names that
are left when names are pushed and each `..` pops the last one. Texts lose nothing of this: a
path that was read is read back from its normalized text.
-/
namespace TrieFeed.Path

/-! ## Folding -/

theorem foldParts_name (stack : List Part) (s : String) (rest : List Part) :
    foldParts stack (.name s :: rest) = foldParts (.name s :: stack) rest := by
  rw [foldParts] <;> simp

theorem foldParts_append (stack parts rest : List Part) :
    foldParts stack (parts ++ rest) = foldParts (foldParts stack parts).reverse rest := by
  fun_induction foldParts stack parts with
  | case1 stack => rw [List.nil_append, List.reverse_reverse]
  | case2 stack parts ih => rw [List.cons_append, foldParts, ih]
  | case3 s stack parts ih => rw [List.cons_append, foldParts, ih]
  | case4 stack part parts hhere hup ih => rw [List.cons_append, foldParts, ih] <;> assumption

/-- A `..` below the whole stack is never taken back. -/
theorem foldParts_bottom (stack parts : List Part) :
    foldParts (stack ++ [.up]) parts = .up :: foldParts stack parts := by
  fun_induction foldParts stack parts with
  | case1 stack => simp [foldParts]
  | case2 stack parts ih => rw [foldParts, ih]
  | case3 s stack parts ih => rw [List.cons_append, foldParts, ih]
  | case4 stack part parts hhere hup ih =>
    rw [foldParts, ← List.cons_append, ih]
    · exact hhere
    · intro s other hs hp
      cases stack with
      | nil => cases hs
      | cons top stack =>
        cases hs
        exact hup s stack rfl hp

theorem foldParts_ups (ups : Nat) (rest : List Part) :
    foldParts [] (List.replicate ups .up ++ rest) =
      List.replicate ups .up ++ foldParts [] rest := by
  induction ups with
  | zero => rfl
  | succ ups ih =>
    rw [List.replicate_succ, List.cons_append, List.cons_append, ← ih]
    exact foldParts_bottom [] _

theorem foldParts_plain {stack names : List Part} (h : IsPlain names) :
    foldParts stack names = stack.reverse ++ names := by
  induction names generalizing stack with
  | nil => rw [foldParts, List.append_nil]
  | cons part names ih =>
    obtain ⟨s, rfl⟩ := h part List.mem_cons_self
    rw [foldParts_name, ih fun other ho => h other (List.mem_cons_of_mem _ ho)]
    simp

theorem IsFolded.foldParts_eq {parts : List Part} (h : IsFolded parts) :
    foldParts [] parts = parts := by
  obtain ⟨ups, names, rfl, hn⟩ := h
  rw [foldParts_ups, foldParts_plain hn]
  rfl

theorem normalize_normalize (p : Path) : p.normalize.normalize = p.normalize :=
  congrArg (Path.mk p.absolute) (normalize_folded p).foldParts_eq

theorem normalize_join (a b : Path) : (a.normalize.join b).normalize = (a.join b).normalize := by
  have hfold : foldParts [] (foldParts [] a.parts ++ b.parts) =
      foldParts [] (a.parts ++ b.parts) := by
    have hfolded : IsFolded (foldParts [] a.parts) := normalize_folded a
    rw [foldParts_append, foldParts_append, hfolded.foldParts_eq]
  unfold join
  split
  · rfl
  · exact congrArg (Path.mk a.absolute) hfold

/-! ## Names pushed and popped -/

/-- The names after one more part: a name is pushed, `..` pops the last one, if there is any, and
`.` does nothing. -/
def follow (place : List String) : Part → List String
  | .here => place
  | .up => place.dropLast
  | .name s => place ++ [s]

def Part.isName : Part → Bool
  | .name _ => true
  | .here | .up => false

/-- From so many names, no beginning of the parts pops more names than there are. -/
def StaysBelow (depth : Nat) (parts : List Part) : Prop :=
  ∀ before, before <+: parts → before.count .up ≤ depth + before.countP Part.isName

section

variable {depth : Nat} {parts : List Part}

theorem staysBelow_nil : StaysBelow depth [] := by
  intro before h
  simp [List.prefix_nil.mp h]

theorem staysBelow_cons {part : Part} : StaysBelow depth (part :: parts) ↔
    ∀ before, before <+: parts →
      (part :: before).count .up ≤ depth + (part :: before).countP Part.isName := by
  constructor
  · intro h before hb
    exact h (part :: before) (List.cons_prefix_cons.mpr ⟨rfl, hb⟩)
  · intro h before hb
    rcases List.prefix_cons_iff.mp hb with rfl | ⟨rest, rfl, hrest⟩
    · exact Nat.zero_le _
    · exact h rest hrest

theorem staysBelow_here : StaysBelow depth (.here :: parts) ↔ StaysBelow depth parts := by
  have hne : Part.here ≠ .up := nofun
  rw [staysBelow_cons]
  refine forall₂_congr fun before _ => ?_
  rw [List.count_cons_of_ne hne, List.countP_cons_of_neg Bool.false_ne_true]

theorem staysBelow_name {s : String} :
    StaysBelow depth (.name s :: parts) ↔ StaysBelow (depth + 1) parts := by
  have hne : Part.name s ≠ .up := nofun
  rw [staysBelow_cons]
  refine forall₂_congr fun before _ => ?_
  rw [List.count_cons_of_ne hne, List.countP_cons_of_pos rfl]
  omega

theorem staysBelow_up : StaysBelow (depth + 1) (.up :: parts) ↔ StaysBelow depth parts := by
  rw [staysBelow_cons]
  refine forall₂_congr fun before _ => ?_
  rw [List.count_cons_self, List.countP_cons_of_neg Bool.false_ne_true]
  omega

theorem not_staysBelow_up : ¬StaysBelow 0 (.up :: parts) := by
  intro h
  have hfirst := h [.up] (List.prefix_append [.up] parts)
  simp [Part.isName] at hfirst

end

/-- Folding from names leaves what following the parts from there does, as long as no `..` is
without a name to pop; the first that is stays before all names. -/
theorem foldParts_names_iff (names : List String) (parts : List Part) :
    foldParts (names.map Part.name).reverse parts = (parts.foldl follow names).map .name ↔
      StaysBelow names.length parts := by
  induction parts generalizing names with
  | nil =>
    rw [foldParts, List.reverse_reverse]
    exact iff_of_true rfl staysBelow_nil
  | cons part parts ih =>
    rw [List.foldl_cons]
    cases part with
    | here =>
      rw [foldParts, staysBelow_here]
      exact ih names
    | name s =>
      have hpush := ih (names ++ [s])
      rw [List.map_append, List.reverse_append, List.length_append] at hpush
      rw [foldParts_name, staysBelow_name]
      exact hpush
    | up =>
      cases names using List.reverseRecOn with
      | nil =>
        -- There is no name to pop: this `..` is kept, and no pushing and popping leaves one.
        have hkept : foldParts [] (.up :: parts) = .up :: foldParts [] parts :=
          foldParts_bottom [] parts
        refine iff_of_false ?_ not_staysBelow_up
        intro h
        have hup : Part.up ∈ (parts.foldl follow (follow [] .up)).map Part.name := by
          rw [← h]
          exact hkept ▸ List.mem_cons_self
        exact (plain_map_name _).up_notMem hup
      | append_singleton names s _ =>
        have hpop : follow (names ++ [s]) .up = names := List.dropLast_concat
        rw [hpop, List.map_append, List.reverse_append, List.length_append]
        exact (ih names).trans staysBelow_up.symm

/-! ## Texts -/

/-- A part whose text is read as it and has no separator. -/
def Part.Legible (part : Part) : Prop :=
  '/' ∉ part.text.toList ∧ Part.read? part.text.toList = some part

theorem Part.text_of_read? {cs : List Char} {part : Part} (h : Part.read? cs = some part) :
    part.text.toList = cs := by
  unfold Part.read? at h
  split at h <;> cases h
  · rfl
  · rfl
  · exact String.toList_ofList

theorem legible_of_mem_read {written : String} {part : Part} (h : part ∈ (read written).parts) :
    part.Legible := by
  obtain ⟨cs, hcs, hread⟩ := List.mem_filterMap.mp h
  have htext := Part.text_of_read? hread
  exact ⟨htext ▸ Text.not_mem_of_mem_splitOn hcs, htext ▸ hread⟩

theorem mem_foldParts {stack parts : List Part} {part : Part} (h : part ∈ foldParts stack parts) :
    part ∈ stack ∨ part ∈ parts := by
  fun_induction foldParts stack parts with
  | case1 stack => exact .inl (List.mem_reverse.mp h)
  | case2 stack parts ih => exact (ih h).imp_right (List.mem_cons_of_mem _)
  | case3 s stack parts ih => exact (ih h).imp (List.mem_cons_of_mem _) (List.mem_cons_of_mem _)
  | case4 stack first parts hhere hup ih =>
    rcases ih h with h | h
    · rcases List.mem_cons.mp h with rfl | h
      · exact .inr List.mem_cons_self
      · exact .inl h
    · exact .inr (List.mem_cons_of_mem _ h)

/-- The characters of parts between separators. -/
def joinedParts (parts : List Part) : List Char :=
  Text.joined '/' (parts.map (·.text.toList))

theorem filterMap_splitOn_joinedParts {parts : List Part} (h : ∀ part ∈ parts, part.Legible) :
    (Text.splitOn '/' (joinedParts parts)).filterMap Part.read? = parts := by
  cases parts with
  | nil => rfl
  | cons first rest =>
    have hcells : ∀ cell ∈ (first :: rest).map (·.text.toList), '/' ∉ cell := by
      intro cell hcell
      obtain ⟨part, hpart, rfl⟩ := List.mem_map.mp hcell
      exact (h part hpart).1
    rw [joinedParts, Text.splitOn_joined (by simp) hcells, List.filterMap_map]
    calc
      (first :: rest).filterMap (Part.read? ∘ (·.text.toList)) =
          (first :: rest).filterMap some := List.filterMap_congr fun part hp => (h part hp).2
      _ = first :: rest := List.filterMap_some

theorem head?_joinedParts {parts : List Part} (h : ∀ part ∈ parts, part.Legible) :
    (joinedParts parts).head? ≠ some '/' := by
  cases parts with
  | nil => simp [joinedParts, Text.joined]
  | cons first rest =>
    obtain ⟨hslash, hread⟩ := h first List.mem_cons_self
    cases hcs : first.text.toList with
    | nil =>
      rw [hcs] at hread
      cases hread
    | cons c cs =>
      rw [hcs] at hslash
      have hc : '/' ≠ c := List.ne_of_not_mem_cons hslash
      cases rest <;> simp [joinedParts, Text.joined, hcs, hc.symm]

theorem toList_text (p : Path) :
    p.text.toList = (if p.absolute then ['/'] else []) ++ joinedParts p.parts := by
  rw [text, String.toList_append, String.toList_intercalate, List.map_map]
  cases p.absolute <;> rfl

theorem read_text {p : Path} (h : ∀ part ∈ p.parts, part.Legible) : read p.text = p := by
  obtain ⟨absolute, parts⟩ := p
  have hparts := filterMap_splitOn_joinedParts h
  rw [read, toList_text]
  cases absolute with
  | false =>
    have hhead : ((joinedParts parts).head? == some '/') = false :=
      beq_eq_false_iff_ne.mpr (head?_joinedParts h)
    exact congrArg₂ Path.mk hhead hparts
  | true => exact congrArg (Path.mk true) hparts

/-- Nothing is lost when a normalized path is kept as its text. -/
theorem read_text_normalize (written : String) :
    read (read written).normalize.text = (read written).normalize := by
  apply read_text
  intro part hp
  rcases mem_foldParts hp with h | h
  · cases h
  · exact legible_of_mem_read h

/-! ## The normal form -/

theorem IsPlain.exists_names {parts : List Part} (h : IsPlain parts) :
    ∃ names : List String, parts = names.map .name := by
  induction parts with
  | nil => exact ⟨[], rfl⟩
  | cons part parts ih =>
    obtain ⟨s, rfl⟩ := h part List.mem_cons_self
    obtain ⟨names, rfl⟩ := ih fun other ho => h other (List.mem_cons_of_mem _ ho)
    exact ⟨s :: names, rfl⟩

theorem normalize_eq_followed_iff (p : Path) :
    p.normalize = ⟨p.absolute, (p.parts.foldl follow []).map .name⟩ ↔
      ∀ before, before <+: p.parts → before.count .up ≤ before.countP Part.isName := by
  have hnames := foldParts_names_iff [] p.parts
  simp only [StaysBelow, List.length_nil, Nat.zero_add] at hnames
  rw [normalize, Path.mk.injEq, and_iff_right rfl]
  exact hnames

/-- A normalized path consists of steps up and then names, from the top if the path did, and there
is nothing to normalize in it. Joining another path to it is joining it to the path as it was. It
holds just the names that are left when names are pushed and each `..` pops one exactly if no
beginning of the path has more of `..` than of names. A path that was read is read back from its
normalized text. -/
theorem normalize_normal_form (p : Path) :
    (∃ ups, ∃ names : List String,
      p.normalize = ⟨p.absolute, List.replicate ups .up ++ names.map .name⟩) ∧
    p.normalize.normalize = p.normalize ∧
    (∀ b : Path, (p.join b).normalize = (p.normalize.join b).normalize) ∧
    (p.normalize = ⟨p.absolute, (p.parts.foldl follow []).map .name⟩ ↔
      ∀ before, before <+: p.parts → before.count .up ≤ before.countP Part.isName) ∧
    ∀ written, p = read written → read p.normalize.text = p.normalize := by
  refine ⟨?_, normalize_normalize p, fun b => (normalize_join p b).symm,
    normalize_eq_followed_iff p, ?_⟩
  · obtain ⟨ups, parts, hparts, hplain⟩ := normalize_folded p
    obtain ⟨names, rfl⟩ := hplain.exists_names
    exact ⟨ups, names, congrArg (Path.mk p.absolute) hparts⟩
  · rintro written rfl
    exact read_text_normalize written

/-- A path to a sibling, by way of a directory beside it. -/
def detour : Path := read "/p/provider/data/../other"

theorem normalize_normal_form_detour :
    (∀ before, before <+: detour.parts → before.count .up ≤ before.countP Part.isName) ∧
    detour = read "/p/provider/data/../other" ∧
    detour.normalize.text = "/p/provider/other" ∧
    read "/p/provider/other" = detour.normalize := by
  obtain ⟨-, -, -, hfollowed, hread⟩ := normalize_normal_form detour
  have hnames : detour.normalize =
      ⟨detour.absolute, (detour.parts.foldl follow []).map .name⟩ := by decide
  have htext : detour.normalize.text = "/p/provider/other" := by decide
  exact ⟨hfollowed.mp hnames, rfl, htext, htext ▸ hread _ rfl⟩

end TrieFeed.Path
