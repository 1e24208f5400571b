import TrieFeed.Capability.Host
import TrieFeed.Proofs.Files.Tree
/-!
# Work that keeps to a part of the host

Work on the host is made of single steps. A step looks at one entry, one database or the server, or
puts something in its place; what else it may do is write to the log and count what runs, which no
work ever looks at. Work that keeps to a part of the host cannot tell hosts apart that agree there.
-/
namespace TrieFeed

/-- What a step of work can come upon. -/
inductive Touch where
  | entry (place : Place)
  | database (file : String)
  | server

theorem FileTree.entry?_put (place other : Place) (entry : FileEntry) (tree : FileTree) :
    FileTree.entry? (tree.put place entry) other =
      if other.isEmpty then some .directory
      else if other = place then some entry else tree.entry? other := by
  by_cases he : other.isEmpty
  · rw [if_pos he, entry?, if_pos he]
  rw [if_neg he, entry?, if_neg he, entry?, if_neg he, put]
  cases hf : tree.entries.find? (·.1 = place) with
  | none =>
    simp only [Option.isSome_none, Bool.false_eq_true, if_false, List.find?_append,
      Option.map_or]
    by_cases ho : other = place
    · subst ho
      simp [hf]
    · have hp : (place = other) = False := eq_false (Ne.symm ho)
      simp [ho, hp]
  | some found =>
    simp only [Option.isSome_some, if_true, List.find?_map]
    by_cases ho : other = place
    · subst ho
      have hcomp : ((fun e : Place × FileEntry => decide (e.1 = other)) ∘
          fun e => if e.1 = other then (other, entry) else e) = fun e => decide (e.1 = other) := by
        funext e
        by_cases h : e.1 = other <;> simp [h]
      have hfound : found.1 = other := by simpa using List.find?_some hf
      rw [hcomp, hf]
      simp [hfound]
    · have hcomp : ((fun e : Place × FileEntry => decide (e.1 = other)) ∘
          fun e => if e.1 = place then (place, entry) else e) = fun e => decide (e.1 = other) := by
        funext e
        by_cases h : e.1 = place
        · simp [h, Ne.symm ho]
        · simp [h]
      rw [hcomp, if_neg ho, Option.map_map]
      cases hg : tree.entries.find? (fun e => decide (e.1 = other)) with
      | none => rfl
      | some other' =>
        have hne : other'.1 ≠ place := by
          intro h
          have := List.find?_some hg
          simp only [decide_eq_true_eq] at this
          exact ho (this.symm.trans h)
        simp [hne]

variable {part : Touch → Prop} {α β σ : Type} {h k : Host}

namespace Host

/-- Both hosts have the same in a part. -/
structure Agree (part : Touch → Prop) (h k : Host) : Prop where
  working : h.files.working = k.files.working
  entry {place} (ht : part (.entry place)) : h.files.entry? place = k.files.entry? place
  database {file} (ht : part (.database file)) :
    Fields.get? file h.databases = Fields.get? file k.databases
  server (ht : part .server) : h.server = k.server

theorem Agree.refl (part : Touch → Prop) (h : Host) : Agree part h h :=
  ⟨rfl, fun _ => rfl, fun _ => rfl, fun _ => rfl⟩

theorem Agree.put (ha : Agree part h k) (place : Place) (entry : FileEntry) :
    Agree part { h with files := h.files.put place entry }
      { k with files := k.files.put place entry } := by
  have hworking : ∀ tree : FileTree, (tree.put place entry).working = tree.working := by
    intro tree
    rw [FileTree.put]
    split <;> rfl
  refine ⟨?_, fun {other} ht => ?_, ha.database, ha.server⟩
  · rw [hworking, hworking]
    exact ha.working
  · rw [FileTree.entry?_put, FileTree.entry?_put, ha.entry ht]

theorem Agree.store (ha : Agree part h k) (file : String) (database : Sql.Database) :
    Agree part { h with databases := Fields.insert file database h.databases }
      { k with databases := Fields.insert file database k.databases } := by
  refine ⟨ha.working, ha.entry, fun {other} ht => ?_, ha.server⟩
  by_cases ho : file = other
  · subst ho
    rw [Fields.get?_insert_self, Fields.get?_insert_self]
  · rw [Fields.get?_insert_of_ne ho, Fields.get?_insert_of_ne ho]
    exact ha.database ht

/-- A change of nothing that work looks at. -/
def Aside (change : Host → Host) : Prop :=
  ∀ h, (change h).files = h.files ∧ (change h).databases = h.databases ∧
    (change h).server = h.server

theorem aside_engineStarted (provider : String) : Aside (engineStarted provider) :=
  fun _ => ⟨rfl, rfl, rfl⟩

theorem aside_engineEnded (provider : String) : Aside (engineEnded provider) :=
  fun _ => ⟨rfl, rfl, rfl⟩

theorem aside_write (level : LogLevel) (source message : String) :
    Aside (write level source message) := fun _ => ⟨rfl, rfl, rfl⟩

theorem Agree.aside (ha : Agree part h k) {change : Host → Host} (hc : Aside change) :
    Agree part (change h) (change k) := by
  obtain ⟨hf, hd, hs⟩ := hc h
  obtain ⟨kf, kd, ks⟩ := hc k
  constructor
  · rw [hf, kf]
    exact ha.working
  · intro place ht
    rw [hf, kf]
    exact ha.entry ht
  · intro file ht
    rw [hd, kd]
    exact ha.database ht
  · intro ht
    rw [hs, ks]
    exact ha.server ht

end Host

open Host (Agree Aside)

/-- From a host on, work keeps to a part. What a step does depends on the steps before it, so only
those count that are taken from this host. -/
inductive Within (part : Touch → Prop) : {α : Type} → Host → (Host → α × Host) → Prop where
  | done {α : Type} (a : α) (h : Host) : Within part h fun h => (a, h)
  | working (h : Host) : Within part h fun h => (h.files.working, h)
  | entry {place : Place} (ht : part (.entry place)) (h : Host) :
    Within part h fun h => (h.files.entry? place, h)
  | put {place : Place} (ht : part (.entry place)) (entry : FileEntry) (h : Host) :
    Within part h fun h => ((), { h with files := h.files.put place entry })
  | database {file : String} (ht : part (.database file)) (h : Host) :
    Within part h fun h => (Fields.get? file h.databases, h)
  | store {file : String} (ht : part (.database file)) (database : Sql.Database) (h : Host) :
    Within part h fun h => ((), { h with databases := Fields.insert file database h.databases })
  | server (ht : part .server) (h : Host) : Within part h fun h => (h.server, h)
  | setServer (ht : part .server) (server : Option Sql.Server) (h : Host) :
    Within part h fun h => ((), { h with server })
  | aside {change : Host → Host} (hc : Aside change) (h : Host) :
    Within part h fun h => ((), change h)
  | seq {α β : Type} {first : Host → α × Host} {next : α → Host → β × Host} {h : Host}
    (hf : Within part h first) (hn : Within part (first h).2 (next (first h).1)) :
    Within part h fun h => next (first h).1 (first h).2

namespace Within

theorem of_eq {work other : Host → α × Host} (hw : Within part h work)
    (he : ∀ h, other h = work h) : Within part h other := by
  obtain rfl : other = work := funext he
  exact hw

theorem mono {other : Touch → Prop} {work : Host → α × Host} (hw : Within part h work)
    (hp : ∀ touch, part touch → other touch) : Within other h work := by
  induction hw with
  | done a h => exact .done a h
  | working h => exact .working h
  | entry ht h => exact .entry (hp _ ht) h
  | put ht entry h => exact .put (hp _ ht) entry h
  | database ht h => exact .database (hp _ ht) h
  | store ht database h => exact .store (hp _ ht) database h
  | server ht h => exact .server (hp _ ht) h
  | setServer ht server h => exact .setServer (hp _ ht) server h
  | aside hc h => exact .aside hc h
  | seq _ _ ihf ihn => exact .seq ihf ihn

/-- Work comes upon finitely many things, to which it keeps. -/
theorem finite {work : Host → α × Host} (hw : Within part h work) :
    ∃ touches : List Touch, (∀ touch ∈ touches, part touch) ∧ Within (· ∈ touches) h work := by
  have hone : ∀ {touch : Touch}, part touch → ∀ other ∈ [touch], part other :=
    fun ht _ ho => List.mem_singleton.mp ho ▸ ht
  induction hw with
  | done a h => exact ⟨[], nofun, .done a h⟩
  | working h => exact ⟨[], nofun, .working h⟩
  | entry ht h => exact ⟨_, hone ht, .entry List.mem_cons_self h⟩
  | put ht entry h => exact ⟨_, hone ht, .put List.mem_cons_self entry h⟩
  | database ht h => exact ⟨_, hone ht, .database List.mem_cons_self h⟩
  | store ht database h => exact ⟨_, hone ht, .store List.mem_cons_self database h⟩
  | server ht h => exact ⟨_, hone ht, .server List.mem_cons_self h⟩
  | setServer ht server h => exact ⟨_, hone ht, .setServer List.mem_cons_self server h⟩
  | aside hc h => exact ⟨[], nofun, .aside hc h⟩
  | seq _ _ ihf ihn =>
    obtain ⟨first, hfirst, hf⟩ := ihf
    obtain ⟨last, hlast, hn⟩ := ihn
    refine ⟨first ++ last, fun touch ht => ?_, .seq (hf.mono fun _ => List.mem_append_left last)
      (hn.mono fun _ => List.mem_append_right first)⟩
    exact (List.mem_append.mp ht).elim (hfirst touch) (hlast touch)

end Within

/-! ## Work that keeps to a part from all hosts of a kind -/

/-- From every host of a kind on, work keeps to a part and leaves a host of that kind. -/
def Confined (part : Touch → Prop) (kind : Host → Prop) (work : Host → α × Host) : Prop :=
  ∀ h, kind h → Within part h work ∧ kind (work h).2

/-- Work with the state of something besides the host, which counts as a part of its result. -/
def paired (step : Host → α × σ × Host) (h : Host) : (α × σ) × Host :=
  (((step h).1, (step h).2.1), (step h).2.2)

/-- A kind of hosts that does not depend on what no work looks at. -/
def Sighted (kind : Host → Prop) : Prop := ∀ h change, Aside change → kind h → kind (change h)

theorem sighted_all : Sighted fun _ => True := fun _ _ _ _ => trivial

theorem sighted_files (tree : FileTree) : Sighted fun h => h.files = tree :=
  fun h _ hc hf => (hc h).1.trans hf

variable {kind : Host → Prop}

namespace Confined

theorem done (a : α) : Confined part kind fun h => (a, h) := fun h hk => ⟨.done a h, hk⟩

theorem of_eq {work other : Host → α × Host} (hw : Confined part kind work)
    (he : ∀ h, other h = work h) : Confined part kind other := by
  obtain rfl : other = work := funext he
  exact hw

/-- What follows has to be considered only for the results that the first work can have. -/
theorem bind {first : Host → α × Host} {next : α → Host → β × Host}
    (hf : Confined part kind first)
    (hn : ∀ h, kind h → Confined part kind (next (first h).1)) :
    Confined part kind fun h => next (first h).1 (first h).2 := by
  intro h hk
  obtain ⟨hfirst, hafter⟩ := hf h hk
  obtain ⟨hnext, hlast⟩ := hn h hk (first h).2 hafter
  exact ⟨.seq hfirst hnext, hlast⟩

theorem aside (hs : Sighted kind) {change : Host → Host} (hc : Aside change) (a : α) :
    Confined part kind fun h => (a, change h) :=
  @bind part Unit α kind (fun h => ((), change h)) (fun _ h => (a, h))
    (fun h hk => ⟨.aside hc h, hs h change hc hk⟩) fun _ _ => done a

theorem map {work : Host → α × Host} (hw : Confined part kind work) (f : α → β) :
    Confined part kind fun h => (f (work h).1, (work h).2) :=
  @bind part α β kind work (fun a h => (f a, h)) hw fun h _ => done (f (work h).1)

end Confined

/-- Looking at a host keeps to a part. -/
def Looks (part : Touch → Prop) (kind : Host → Prop) (look : Host → α) : Prop :=
  Confined part kind fun h => (look h, h)

namespace Looks

theorem constant (a : α) : Looks part kind fun _ => a := Confined.done a

theorem of_eq {look other : Host → α} (hl : Looks part kind look) (he : ∀ h, other h = look h) :
    Looks part kind other := by
  obtain rfl : other = look := funext he
  exact hl

theorem bind {look : Host → α} {next : α → Host → β} (hl : Looks part kind look)
    (hn : ∀ h, kind h → Looks part kind (next (look h))) :
    Looks part kind fun h => next (look h) h :=
  @Confined.bind part α β kind (fun h => (look h, h)) (fun a h => (next a h, h)) hl hn

theorem map {look : Host → α} (hl : Looks part kind look) (f : α → β) :
    Looks part kind fun h => f (look h) :=
  @bind part α β kind look (fun a _ => f a) hl fun h _ => constant (f (look h))

/-- Work that goes on by what a look has shown. -/
theorem follow {look : Host → α} {next : α → Host → β × Host} (hl : Looks part kind look)
    (hn : ∀ h, kind h → Confined part kind (next (look h))) :
    Confined part kind fun h => next (look h) h :=
  @Confined.bind part α β kind (fun h => (look h, h)) next hl hn

theorem entry {place : Place} (ht : part (.entry place)) :
    Looks part kind fun h => h.files.entry? place := fun h hk => ⟨.entry ht h, hk⟩

theorem working : Looks part kind fun h => h.files.working := fun h hk => ⟨.working h, hk⟩

end Looks

/-! ## Looking at files -/

namespace FileTree

theorem looks_find {path : Path} (hw : Looks part kind fun h =>
    h.files.walk maxLinks (if path.absolute then [] else h.files.working) path.parts) :
    Looks part kind fun h => h.files.find path := by
  unfold find
  split
  · exact .constant _
  · split
    · exact .constant _
    · split
      · exact .constant _
      · exact hw

def orNotFound : Option FileEntry → Except FileFault FileEntry
  | some entry => .ok entry
  | none => .error .notFound

def contentOf : FileEntry → Except FileFault Bytes
  | .file content => .ok content
  | _ => .error .isDirectory

def textOf (content : Bytes) : Except FileFault String :=
  match Utf8.decode? content with
  | some text => .ok text
  | none => .error .notText

theorem entryAt_eq (tree : FileTree) (path : Path) :
    tree.entryAt path = (tree.find path).bind fun place => orNotFound (tree.entry? place) := rfl

theorem readBytes_eq (tree : FileTree) (path : Path) :
    tree.readBytes path = (tree.entryAt path).bind contentOf := rfl

theorem readText_eq (tree : FileTree) (path : Path) :
    tree.readText path = (tree.readBytes path).bind textOf := rfl

theorem looks_entryAt {path : Path} (hf : Looks part kind fun h => h.files.find path)
    (ht : ∀ h place, kind h → h.files.find path = .ok place → part (.entry place)) :
    Looks part kind fun h => h.files.entryAt path := by
  refine (@Looks.bind part _ _ kind _ (fun found h =>
    found.bind fun place => orNotFound (h.files.entry? place)) hf fun h hk => ?_).of_eq
      fun h => entryAt_eq h.files path
  cases hp : h.files.find path with
  | error fault => exact .constant (Except.error fault)
  | ok place => exact (Looks.entry (ht h place hk hp)).map orNotFound

theorem looks_readBytes {path : Path} (he : Looks part kind fun h => h.files.entryAt path) :
    Looks part kind fun h => h.files.readBytes path :=
  (he.map fun entry => entry.bind contentOf).of_eq fun h => readBytes_eq h.files path

theorem looks_readText {path : Path} (he : Looks part kind fun h => h.files.entryAt path) :
    Looks part kind fun h => h.files.readText path :=
  ((looks_readBytes he).map fun bytes => bytes.bind textOf).of_eq
    fun h => readText_eq h.files path

theorem looks_isFile {path : Path} (he : Looks part kind fun h => h.files.entryAt path) :
    Looks part kind fun h => h.files.isFile path := (looks_readBytes he).map fun bytes => bytes.isOk

end FileTree

end TrieFeed
