import Mathlib.Data.List.Permutation
import TrieFeed.Capability.Files
import TrieFeed.Proofs.Files.Path
import TrieFeed.Proofs.Files.Tree
/-!
# Sandboxed files stay in their directory

Whatever path a script writes and wherever links lead, a path that resolves lies in the directory of
the reader, what is opened lies there too, and no answer depends on what files elsewhere hold.
-/
namespace TrieFeed

theorem Path.startsWith_iff {p root : Path} :
    p.startsWith root ↔ p.absolute = root.absolute ∧ root.parts <+: p.parts := by
  rw [startsWith, Bool.and_eq_true, beq_iff_eq, List.isPrefixOf_iff_prefix]

theorem FileTree.canonical_plain {tree : FileTree} {p real : Path}
    (h : (tree.canonical p).toOption = some real) :
    real.absolute ∧ Path.IsPlain real.parts := by
  unfold FileTree.canonical at h
  cases hf : tree.find p with
  | error fault => rw [hf] at h; cases h
  | ok place =>
    rw [hf] at h
    cases h
    exact ⟨rfl, Path.plain_map_name place⟩

namespace SandboxedFile

/-- The directory is given by its real path, and is not the top. -/
structure Rooted (file : SandboxedFile) : Prop where
  absolute : file.root.absolute
  plain : Path.IsPlain file.root.parts
  below_top : file.root.parts ≠ []

theorem ofDirectory_rooted {tree : FileTree} {directory : Path} {file : SandboxedFile}
    (h : ofDirectory tree directory = .ok file) (ht : file.root.parts ≠ []) : file.Rooted := by
  unfold ofDirectory at h
  split at h
  · rename_i root hc
    cases h
    have hp : root.absolute ∧ Path.IsPlain root.parts :=
      FileTree.canonical_plain (by rw [hc]; rfl)
    exact ⟨hp.1, hp.2, ht⟩
  · cases h

variable {file : SandboxedFile} {tree other : FileTree} {raw : String}

/-- A path as written, seen from the directory and normalized. -/
def candidate (file : SandboxedFile) (raw : String) : Path :=
  (file.root.join (.read raw)).normalize

theorem candidate_absolute (h : file.Rooted) (raw : String) :
    (file.candidate raw).absolute := by
  change (file.root.join (.read raw)).absolute
  unfold Path.join
  split
  · rename_i hr
    exact hr
  · exact h.absolute

theorem resolve_eq (file : SandboxedFile) (canonical? : Path → Option Path) (raw : String) :
    file.resolve canonical? raw =
      let target := (canonical? (file.candidate raw)).getD (file.candidate raw)
      if (file.candidate raw).startsWith file.root ∧ target.startsWith file.root then .ok target
      else .error (file.escape raw) := by
  by_cases hs : (file.candidate raw).startsWith file.root
  · cases hc : canonical? (file.candidate raw) <;> rw [candidate] at hs hc <;>
      simp [resolve, candidate, hs, hc]
  · rw [candidate] at hs
    simp [resolve, candidate, hs]

theorem resolve_inside {canonical? : Path → Option Path} {p : Path} (h : file.Rooted)
    (hc : ∀ p real, canonical? p = some real → real.absolute ∧ Path.IsPlain real.parts)
    (hp : file.resolve canonical? raw = .ok p) :
    p.absolute ∧ file.root.parts <+: p.parts ∧ Path.IsPlain p.parts := by
  rw [resolve_eq] at hp
  simp only at hp
  split at hp
  · rename_i hs
    cases hp
    obtain ⟨hcand, htarget⟩ := hs
    rw [Path.startsWith_iff] at hcand htarget
    refine ⟨htarget.1.trans h.absolute, htarget.2, ?_⟩
    cases hreal : canonical? (file.candidate raw) with
    | some real => exact (hc _ _ hreal).2
    | none => exact (Path.normalize_folded _).plain h.plain h.below_top hcand.2
  · cases hp

/-! ## What is opened -/

/-- The place that opening a path leads to. -/
def opened (file : SandboxedFile) (tree : FileTree) (raw : String) : Option Place :=
  match file.resolveIn tree raw with
  | .ok path => (tree.find path).toOption
  | .error _ => none

theorem find_inside {path : Path} {place : Place} (h : file.Rooted)
    (hr : file.resolveIn tree raw = .ok path) (hf : tree.find path = .ok place) :
    file.root.parts <+: place.map .name := by
  have hin := resolve_inside h (fun _ _ => FileTree.canonical_plain) hr
  rw [resolveIn, resolve_eq] at hr
  simp only at hr
  split at hr
  · cases hr
    cases hc : tree.find (file.candidate raw) with
    | error fault =>
      -- What cannot be looked up is resolved to itself, and so cannot be opened.
      simp only [FileTree.canonical, hc, Except.map, Except.toOption, Option.getD_none] at hf
      cases hf
    | ok real =>
      have hreached := FileTree.find_reached (candidate_absolute h raw) hc
      simp only [FileTree.canonical, hc, Except.map, Except.toOption, Option.getD_some] at hf hin
      rw [FileTree.find_toPath hreached hf]
      exact hin.2.1
  · cases hr

theorem opened_inside {place : Place} (h : file.Rooted)
    (ho : file.opened tree raw = some place) : file.root.parts <+: place.map .name := by
  unfold opened at ho
  split at ho
  · rename_i path hr
    cases hf : tree.find path with
    | ok final =>
      rw [hf] at ho
      cases ho
      exact find_inside h hr hf
    | error fault => rw [hf] at ho; cases ho
  · cases ho

theorem holds_eq (file : SandboxedFile) (tree : FileTree) (raw : String) :
    file.holds tree raw = (file.opened tree raw).isSome := by
  unfold holds opened
  cases file.resolveIn tree raw with
  | error e => rfl
  | ok path =>
    simp only [FileTree.holds]
    cases tree.find path <;> rfl

theorem readWith_eq_ok {α : Type} {read : Path → Except FileFault α} {a : α} :
    file.readWith tree read raw = .ok a ↔
      ∃ path, file.resolveIn tree raw = .ok path ∧ read path = .ok a := by
  simp only [readWith, Outcome.bind_eq_ok, Outcome.mapError_eq_ok]

theorem readBytes_opened {content : Bytes} (h : file.readBytes tree raw = .ok content) :
    ∃ place, file.opened tree raw = some place ∧ tree.entry? place = some (.file content) := by
  obtain ⟨path, hr, hb⟩ := readWith_eq_ok.mp h
  obtain ⟨place, hf, he⟩ := FileTree.readBytes_eq_ok.mp hb
  refine ⟨place, ?_, he⟩
  rw [opened, hr]
  simp only [hf, Except.toOption]

theorem readText_opened {text : String} (h : file.readText tree raw = .ok text) :
    ∃ place content, file.opened tree raw = some place ∧
      tree.entry? place = some (.file content) ∧ Utf8.decode? content = some text := by
  obtain ⟨path, hr, ht⟩ := readWith_eq_ok.mp h
  obtain ⟨content, hb, hd⟩ := FileTree.readText_eq_ok.mp ht
  obtain ⟨place, ho, he⟩ := readBytes_opened (readWith_eq_ok.mpr ⟨path, hr, hb⟩)
  exact ⟨place, content, ho, he, hd⟩

/-! ## What answers depend on -/

/-- Two trees with the same entries in the directory, which differ elsewhere at most in what files
hold. -/
structure AlikeOutside (file : SandboxedFile) (tree other : FileTree) : Prop where
  alike : tree.Alike other
  inside : ∀ place : Place, file.root.parts <+: place.map .name →
    tree.entry? place = other.entry? place

namespace AlikeOutside

theorem resolveIn_eq (h : file.AlikeOutside tree other) (raw : String) :
    file.resolveIn tree raw = file.resolveIn other raw := by
  simp only [resolveIn, h.alike.canonical_eq]

theorem entry_eq (h : file.AlikeOutside tree other) (hr : file.Rooted) {path : Path}
    (hp : file.resolveIn tree raw = .ok path) (place : Place)
    (hf : tree.find path = .ok place) : tree.entry? place = other.entry? place :=
  h.inside place (find_inside hr hp hf)

theorem readWith_eq {α : Type} {read read' : Path → Except FileFault α}
    (h : file.AlikeOutside tree other)
    (hp : ∀ path, file.resolveIn tree raw = .ok path → read path = read' path) :
    file.readWith tree read raw = file.readWith other read' raw := by
  simp only [readWith, ← h.resolveIn_eq]
  cases hr : file.resolveIn tree raw with
  | error e => rfl
  | ok path =>
    simp only [bind, Except.bind]
    rw [hp path hr]

theorem readText_eq (h : file.AlikeOutside tree other) (hr : file.Rooted) (raw : String) :
    file.readText tree raw = file.readText other raw :=
  h.readWith_eq fun _ hp => h.alike.readText_eq (h.entry_eq hr hp)

theorem readBytes_eq (h : file.AlikeOutside tree other) (hr : file.Rooted) (raw : String) :
    file.readBytes tree raw = file.readBytes other raw :=
  h.readWith_eq fun _ hp => h.alike.readBytes_eq (h.entry_eq hr hp)

theorem holds_eq (h : file.AlikeOutside tree other) (raw : String) :
    file.holds tree raw = file.holds other raw := by
  simp only [holds, FileTree.holds, h.resolveIn_eq, h.alike.find_eq]

theorem call_eq (h : file.AlikeOutside tree other) (hr : file.Rooted) (method : String)
    (args : Arguments) : file.call tree method args = file.call other method args := by
  simp only [call, readJson, readRows, readLines, h.readText_eq hr, h.readBytes_eq hr, h.holds_eq]

end AlikeOutside

/-- A path resolves exactly when it and the place it really leads to lie in the directory, and to
nothing above it. Whatever the links of a tree, what is opened and what is found lies in the
directory, and no call's answer depends on what files outside of it hold. -/
theorem sandbox_contains (h : file.Rooted) :
    (∀ (canonical? : Path → Option Path) (raw : String),
      (∀ p real, canonical? p = some real → real.absolute ∧ Path.IsPlain real.parts) →
      (file.resolve canonical? raw =
        let target := (canonical? (file.candidate raw)).getD (file.candidate raw)
        if (file.candidate raw).startsWith file.root ∧ target.startsWith file.root then .ok target
        else .error (file.escape raw)) ∧
      (∃ reason, file.escape raw = .securityViolation reason) ∧
      ∀ p, file.resolve canonical? raw = .ok p →
        p.absolute ∧ file.root.parts <+: p.parts ∧ .up ∉ p.parts) ∧
    ∀ (tree : FileTree) (raw : String),
      (∀ place, file.opened tree raw = some place → file.root.parts <+: place.map .name) ∧
      (file.holds tree raw → ∃ place, file.opened tree raw = some place) ∧
      (∀ content, file.readBytes tree raw = .ok content → ∃ place,
        file.opened tree raw = some place ∧ tree.entry? place = some (.file content)) ∧
      (∀ text, file.readText tree raw = .ok text → ∃ place content,
        file.opened tree raw = some place ∧ tree.entry? place = some (.file content) ∧
          Utf8.decode? content = some text) ∧
      ∀ other method args, file.AlikeOutside tree other →
        file.call tree method args = file.call other method args := by
  refine ⟨fun canonical? raw hc => ⟨resolve_eq file canonical? raw, ⟨_, rfl⟩, fun p hp => ?_⟩,
    fun tree raw => ⟨fun place => opened_inside h, fun hh => ?_, fun content => readBytes_opened,
      fun text => readText_opened, fun other method args ha => ha.call_eq h method args⟩⟩
  · obtain ⟨habs, hin, hplain⟩ := resolve_inside h hc hp
    exact ⟨habs, hin, hplain.up_notMem⟩
  · rw [holds_eq] at hh
    exact Option.isSome_iff_exists.mp hh

/-- A directory with a link to a file in it and a link out of it. -/
def linkedTree (secret : Bytes) : FileTree :=
  ⟨[(["p"], .directory), (["p", "in"], .link "a"), (["p", "a"], .file [1]),
    (["p", "out"], .link "../secret"), (["secret"], .file secret)], []⟩

theorem linkedTree_alike (a b : Bytes) :
    (⟨⟨true, [.name "p"]⟩⟩ : SandboxedFile).AlikeOutside (linkedTree a) (linkedTree b) := by
  have he : ∀ place : Place, place ≠ ["secret"] →
      FileTree.entry? (linkedTree a) place = FileTree.entry? (linkedTree b) place := by
    intro place hp
    simp [linkedTree, FileTree.entry?, List.find?, hp.symm]
  refine ⟨⟨rfl, fun place => ?_⟩, fun place hp => he place ?_⟩
  · by_cases hs : place = ["secret"]
    · subst hs
      rfl
    · rw [he place hs]
  · rintro rfl
    simp at hp

theorem linkedTree_find {secret : Bytes} {path : Path} {place : Place} (ha : path.absolute)
    (ht : path.text = "/p/in" ∨ path.text = "/p/a")
    (hw : (linkedTree secret).walk FileTree.maxLinks [] path.parts = .ok place) :
    (linkedTree secret).find path = .ok place := by
  have hin : Utf8.size "/p/in" = 5 := by cbv
  have hfile : Utf8.size "/p/a" = 4 := by cbv
  rcases ht with ht | ht <;>
    simp [FileTree.find, ht, hin, hfile, ha, hw, FileTree.maxPathSize]

theorem linkedTree_opened (secret : Bytes) :
    (⟨⟨true, [.name "p"]⟩⟩ : SandboxedFile).opened (linkedTree secret) "in" =
      some ["p", "a"] := by
  have hcand : (⟨⟨true, [.name "p"]⟩⟩ : SandboxedFile).candidate "in" =
      ⟨true, [.name "p", .name "in"]⟩ := by cbv
  have hin : (linkedTree secret).find ⟨true, [.name "p", .name "in"]⟩ = .ok ["p", "a"] :=
    linkedTree_find rfl (.inl (by cbv)) (by cbv)
  have hfile : (linkedTree secret).find ⟨true, [.name "p", .name "a"]⟩ = .ok ["p", "a"] :=
    linkedTree_find rfl (.inr (by cbv)) (by cbv)
  have hr : (⟨⟨true, [.name "p"]⟩⟩ : SandboxedFile).resolveIn (linkedTree secret) "in" =
      .ok ⟨true, [.name "p", .name "a"]⟩ := by
    rw [resolveIn, resolve_eq, hcand, FileTree.canonical, hin]
    rfl
  rw [opened, hr]
  simp only [hfile]
  rfl

theorem sandbox_contains_links :
    (⟨⟨true, [.name "p"]⟩⟩ : SandboxedFile).Rooted ∧
    (⟨⟨true, [.name "p"]⟩⟩ : SandboxedFile).opened (linkedTree [2]) "in" = some ["p", "a"] ∧
    [Path.Part.name "p"] <+: ["p", "a"].map Path.Part.name ∧
    (⟨⟨true, [.name "p"]⟩⟩ : SandboxedFile).call (linkedTree [2]) "readBytes"
        ⟨"sandboxedFile", "readBytes", [.text "out"]⟩ =
      (⟨⟨true, [.name "p"]⟩⟩ : SandboxedFile).call (linkedTree [3]) "readBytes"
        ⟨"sandboxedFile", "readBytes", [.text "out"]⟩ := by
  have hr : (⟨⟨true, [.name "p"]⟩⟩ : SandboxedFile).Rooted :=
    ⟨rfl, fun part hp => ⟨"p", by simpa using hp⟩, by simp⟩
  have hc := (sandbox_contains hr).2 (linkedTree [2])
  exact ⟨hr, linkedTree_opened _, (hc "in").1 _ (linkedTree_opened _),
    (hc "out").2.2.2.2 _ _ _ (linkedTree_alike _ _)⟩

end SandboxedFile

end TrieFeed
