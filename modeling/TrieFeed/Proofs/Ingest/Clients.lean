import Mathlib.Data.List.Dedup
import Mathlib.Data.List.Induction
import Mathlib.Logic.Function.Basic
import TrieFeed.Proofs.Ingest.Account
/-!
# Clients that share the trie store

Clients hold the lock of the store one at a time. Making sure of a target takes two holds, one to
look for it and one to create it, and between them others may have created and filled it. Whatever
the order, the store is what the log of the holds says.
-/
namespace TrieFeed.TrieStore

/-- What a client did while it held the lock once, and what it was answered. -/
inductive Event where
  | put (target : String) (key value : Bytes) (result : Except ProviderError Unit)
  | created (target scheme : String)
  | looked (target : String) (there : Bool)
  | read (target : String) (key : Bytes) (found : Option Bytes)

structure Shared (ι : Type) where
  store : TrieStore
  /-- What each client has found missing and is about to create, with its scheme. -/
  pending : ι → Option (String × String)

namespace Shared

variable {ι : Type}

def start : Shared ι := ⟨empty, fun _ => none⟩

variable [DecidableEq ι]

/-- One hold of the lock, by any client. -/
inductive Step (w : Shared ι) : Event → Shared ι → Prop where
  | put (i : ι) (target : String) (key value : Bytes) (h : w.pending i = none) :
      Step w (.put target key value (w.store.put target key value).1)
        { w with store := (w.store.put target key value).2 }
  | create (i : ι) (target scheme : String) (h : w.pending i = none) :
      Step w (.created target scheme) { w with store := w.store.create target scheme }
  | present (i : ι) (target : String) (h : w.pending i = none) (ht : w.store.exists? target) :
      Step w (.looked target true) w
  | absent (i : ι) (target scheme : String) (h : w.pending i = none)
      (ht : w.store.exists? target = false) :
      Step w (.looked target false)
        { w with pending := Function.update w.pending i (some (target, scheme)) }
  | ensure (i : ι) (target scheme : String) (h : w.pending i = some (target, scheme)) :
      Step w (.created target scheme)
        ⟨w.store.create target scheme, Function.update w.pending i none⟩
  | get (i : ι) (target : String) (key : Bytes) (h : w.pending i = none) :
      Step w (.read target key (w.store.get? target key)) w
  | proof (i : ι) (target : String) (key : Bytes) (h : w.pending i = none) :
      Step w (.read target key (w.store.proof? target key)) w

inductive Run (w : Shared ι) : List Event → Shared ι → Prop where
  | start : Run w [] w
  | step {log : List Event} {v u : Shared ι} {e : Event} (h : Run w log v) (hs : v.Step e u) :
      Run w (log ++ [e]) u

end Shared

/-! ## What a log says -/

def Event.put? (target : String) : Event → Option (Bytes × Bytes)
  | .put name key value (.ok ()) => if name = target then some (key, value) else none
  | _ => none

def Event.scheme? (target : String) : Event → Option String
  | .created name scheme => if name = target then some scheme else none
  | _ => none

/-- The entries that were put into a target with success. -/
def puts (target : String) (log : List Event) : List (Bytes × Bytes) :=
  log.filterMap (Event.put? target)

def lastPut? (target : String) (key : Bytes) (log : List Event) : Option Bytes :=
  (((puts target log).filter (·.1 = key)).getLast?).map (·.2)

/-- The scheme with which a target was created first. -/
def firstScheme? (target : String) (log : List Event) : Option String :=
  log.findSome? (Event.scheme? target)

def entriesOf (target : String) (s : TrieStore) : List (Bytes × Bytes) :=
  ((Fields.get? target s.targets).map (·.entries)).getD []

def keysOf (target : String) (s : TrieStore) : List Bytes := (s.entriesOf target).map (·.1)

/-- A store is what a log says. -/
structure Faithful (log : List Event) (s : TrieStore) : Prop where
  found : ∀ target key, s.get? target key = lastPut? target key log
  scheme : ∀ target, s.scheme? target = firstScheme? target log
  distinct : ∀ target, (s.keysOf target).Nodup
  keys : ∀ target key, key ∈ s.keysOf target ↔ key ∈ (puts target log).map (·.1)

variable {log : List Event} {s : TrieStore} {target : String}

/-! ## One hold -/

theorem mem_keys_putEntry {key other value : Bytes} {entries : List (Bytes × Bytes)} :
    other ∈ (putEntry key value entries).map (·.1) ↔ other = key ∨ other ∈ entries.map (·.1) := by
  induction entries with
  | nil => simp [putEntry]
  | cons entry rest ih =>
    obtain ⟨k, v⟩ := entry
    rw [putEntry]
    by_cases hk : k = key
    · subst hk
      simp
    · rw [if_neg hk, List.map_cons, List.mem_cons, ih, List.map_cons, List.mem_cons]
      exact or_left_comm

theorem nodup_keys_putEntry {key value : Bytes} {entries : List (Bytes × Bytes)}
    (h : (entries.map (·.1)).Nodup) : ((putEntry key value entries).map (·.1)).Nodup := by
  induction entries with
  | nil => exact List.nodup_singleton _
  | cons entry rest ih =>
    obtain ⟨k, v⟩ := entry
    obtain ⟨hm, hr⟩ := List.nodup_cons.mp h
    rw [putEntry]
    by_cases hk : k = key
    · subst hk
      rw [if_pos rfl]
      exact List.nodup_cons.mpr ⟨hm, hr⟩
    · rw [if_neg hk]
      refine List.nodup_cons.mpr ⟨fun hi => ?_, ih hr⟩
      rcases mem_keys_putEntry.mp hi with he | hi
      · exact hk he
      · exact hm hi

theorem create_present (h : s.exists? target) (scheme : String) : s.create target scheme = s := by
  rw [create, if_pos h]

theorem create_missing (h : s.exists? target = false) (scheme : String) :
    s.create target scheme = ⟨Fields.insert target ⟨scheme, []⟩ s.targets⟩ := by
  rw [create, h, if_neg Bool.false_ne_true]

theorem scheme?_eq_none_iff : s.scheme? target = none ↔ s.exists? target = false := by
  rw [scheme?, exists?, Fields.has, Option.map_eq_none_iff, Option.isSome_eq_false_iff,
    Option.isNone_iff_eq_none]

theorem scheme?_create (s : TrieStore) (target scheme name : String) :
    (s.create target scheme).scheme? name =
      (s.scheme? name).or (if target = name then some scheme else none) := by
  by_cases he : s.exists? target
  · rw [create_present he]
    by_cases hn : target = name
    · subst hn
      obtain ⟨first, hf⟩ : ∃ first, s.scheme? target = some first := by
        rw [← Option.isSome_iff_exists, scheme?, Option.isSome_map]
        exact he
      rw [hf, Option.some_or]
    · rw [if_neg hn, Option.or_none]
  · have hf : s.exists? target = false := Bool.eq_false_iff.mpr he
    rw [create_missing hf]
    by_cases hn : target = name
    · subst hn
      rw [scheme?_eq_none_iff.mpr hf, if_pos rfl, scheme?, Fields.get?_insert_self]
      rfl
    · rw [if_neg hn, Option.or_none, scheme?, scheme?, Fields.get?_insert_of_ne hn]

/-- A target that was missing held nothing, and as it is created it holds nothing. -/
theorem entriesOf_create (s : TrieStore) (target scheme name : String) :
    (s.create target scheme).entriesOf name = s.entriesOf name := by
  by_cases he : s.exists? target
  · rw [create_present he]
  · have hf : s.exists? target = false := Bool.eq_false_iff.mpr he
    rw [create_missing hf]
    by_cases hn : target = name
    · subst hn
      have hg : Fields.get? target s.targets = none := by
        simpa [exists?, Fields.has] using hf
      rw [entriesOf, entriesOf, Fields.get?_insert_self, hg]
      rfl
    · rw [entriesOf, entriesOf, Fields.get?_insert_of_ne hn]

theorem entriesOf_put (h : s.exists? target) (key value : Bytes) (name : String) :
    (s.put target key value).2.entriesOf name =
      if target = name then putEntry key value (s.entriesOf name) else s.entriesOf name := by
  by_cases hn : target = name
  · subst hn
    obtain ⟨t, hg, hput⟩ := put_present h key value
    rw [if_pos rfl, hput, entriesOf, entriesOf, Fields.get?_insert_self, hg]
    rfl
  · rw [if_neg hn, entriesOf, entriesOf, (put_keeps target key value s).others name (Ne.symm hn)]

theorem get?_eq_find? (s : TrieStore) (target : String) (key : Bytes) :
    s.get? target key = ((s.entriesOf target).find? (·.1 = key)).map (·.2) := by
  rw [get?, entriesOf]
  cases Fields.get? target s.targets <;> rfl

theorem puts_snoc (target : String) (log : List Event) (e : Event) :
    puts target (log ++ [e]) = puts target log ++ (e.put? target).toList := by
  rw [puts, List.filterMap_append]
  cases h : e.put? target <;> simp [puts, h]

theorem lastPut?_snoc (target : String) (key : Bytes) (log : List Event) (e : Event) :
    lastPut? target key (log ++ [e]) =
      (((e.put? target).filter (·.1 = key)).map (·.2)).or (lastPut? target key log) := by
  rw [lastPut?, puts_snoc, List.filter_append]
  cases e.put? target with
  | none => simp [lastPut?]
  | some entry =>
    by_cases h : entry.1 = key
    · simp [Option.filter_some, h]
    · simp [Option.filter_some, lastPut?, h]

theorem firstScheme?_snoc (target : String) (log : List Event) (e : Event) :
    firstScheme? target (log ++ [e]) = (firstScheme? target log).or (e.scheme? target) := by
  rw [firstScheme?, List.findSome?_append]
  cases h : e.scheme? target <;> simp [firstScheme?, h]

namespace Faithful

/-- Nothing that a log tells of changes by events that neither put nor create. -/
theorem silent (h : Faithful log s) {e : Event} (hp : ∀ target, e.put? target = none)
    (hc : ∀ target, e.scheme? target = none) : Faithful (log ++ [e]) s := by
  constructor
  · intro target key
    rw [lastPut?_snoc, hp]
    exact h.found target key
  · intro target
    rw [firstScheme?_snoc, hc, Option.or_none]
    exact h.scheme target
  · exact h.distinct
  · intro target key
    rw [puts_snoc, hp, Option.toList_none, List.append_nil]
    exact h.keys target key

theorem put (h : Faithful log s) (target : String) (key value : Bytes) :
    Faithful (log ++ [.put target key value (s.put target key value).1])
      (s.put target key value).2 := by
  by_cases ht : s.exists? target
  · have he (name : String) : (Event.put target key value (s.put target key value).1).put? name =
        if target = name then some (key, value) else none := by
      obtain ⟨t, -, hput⟩ := put_present ht key value
      rw [hput]
      rfl
    constructor
    · intro name other
      rw [lastPut?_snoc, he, ← h.found name other, get?_eq_find?, get?_eq_find?, entriesOf_put ht]
      by_cases hn : target = name
      · rw [if_pos hn, if_pos hn]
        by_cases ho : key = other
        · subst ho
          rw [find?_putEntry_self]
          simp [Option.filter_some]
        · rw [find?_putEntry_of_ne ho]
          simp [Option.filter_some, ho]
      · rw [if_neg hn, if_neg hn]
        rfl
    · intro name
      rw [firstScheme?_snoc, (put_keeps target key value s).schemes name]
      exact (h.scheme name).trans (Option.or_none).symm
    · intro name
      rw [keysOf, entriesOf_put ht]
      split
      · exact nodup_keys_putEntry (h.distinct name)
      · exact h.distinct name
    · intro name other
      rw [keysOf, puts_snoc, he, List.map_append, List.mem_append, ← h.keys name other,
        entriesOf_put ht]
      by_cases hn : target = name
      · rw [if_pos hn, if_pos hn, mem_keys_putEntry]
        simp [keysOf, or_comm]
      · rw [if_neg hn, if_neg hn]
        simp [keysOf]
  · rw [put_missing (Bool.eq_false_iff.mpr ht)]
    exact h.silent (fun _ => rfl) fun _ => rfl

theorem create (h : Faithful log s) (target scheme : String) :
    Faithful (log ++ [.created target scheme]) (s.create target scheme) := by
  have hput (name : String) : (Event.created target scheme).put? name = none := rfl
  have hscheme (name : String) : (Event.created target scheme).scheme? name =
    if target = name then some scheme else none := rfl
  constructor
  · intro name key
    rw [lastPut?_snoc, hput, get?_eq_find?, entriesOf_create, ← get?_eq_find?]
    exact h.found name key
  · intro name
    rw [firstScheme?_snoc, hscheme, scheme?_create, h.scheme name]
  · intro name
    rw [keysOf, entriesOf_create]
    exact h.distinct name
  · intro name key
    rw [keysOf, entriesOf_create, puts_snoc, hput, Option.toList_none, List.append_nil]
    exact h.keys name key

theorem size (h : Faithful log s) (target : String) :
    s.size target = ((puts target log).map (·.1)).dedup.length := by
  have hp : (s.keysOf target).Perm ((puts target log).map (·.1)).dedup := by
    rw [List.perm_ext_iff_of_nodup (h.distinct target) (List.nodup_dedup _)]
    intro key
    rw [List.mem_dedup]
    exact h.keys target key
  rw [← hp.length_eq, keysOf, List.length_map, TrieStore.size, entriesOf]
  cases Fields.get? target s.targets <;> rfl

end Faithful

/-! ## Runs -/

theorem faithful_empty : Faithful [] empty :=
  ⟨fun _ _ => rfl, fun _ => rfl, fun _ => List.nodup_nil, fun _ _ => Iff.rfl⟩

variable {ι : Type} [DecidableEq ι] {w v : Shared ι} {e : Event}

theorem Faithful.step (h : Faithful log w.store) (hs : w.Step e v) :
    Faithful (log ++ [e]) v.store := by
  cases hs with
  | put i target key value _ => exact h.put target key value
  | create i target scheme _ => exact h.create target scheme
  | present i target _ _ => exact h.silent (fun _ => rfl) fun _ => rfl
  | absent i target scheme _ _ => exact h.silent (fun _ => rfl) fun _ => rfl
  | ensure i target scheme _ => exact h.create target scheme
  | get i target key _ => exact h.silent (fun _ => rfl) fun _ => rfl
  | proof i target key _ => exact h.silent (fun _ => rfl) fun _ => rfl

theorem Shared.Run.faithful (h : Shared.start.Run log w) : Faithful log w.store := by
  induction h with
  | start => exact faithful_empty
  | step _ hs ih => exact ih.step hs

theorem Shared.Run.split (h : w.Run log v) {before after : List Event}
    (hl : log = before ++ e :: after) : ∃ x y, w.Run before x ∧ x.Step e y ∧ y.Run after v := by
  induction h generalizing after with
  | start => exact absurd hl.symm (List.append_ne_nil_of_right_ne_nil _ (List.cons_ne_nil _ _))
  | @step log x u last hr hs ih =>
    rcases List.eq_nil_or_concat after with rfl | ⟨rest, final, rfl⟩
    · obtain ⟨rfl, he⟩ := List.append_inj' hl rfl
      cases he
      exact ⟨x, u, hr, hs, .start⟩
    · have hc : log ++ [last] = (before ++ e :: rest) ++ [final] := by
        rw [hl, List.concat_eq_append, List.append_assoc, List.cons_append]
      obtain ⟨hb, he⟩ := List.append_inj' hc rfl
      cases he
      obtain ⟨x', y', hx, hy, hv⟩ := ih hb
      refine ⟨x', y', hx, hy, ?_⟩
      rw [List.concat_eq_append]
      exact hv.step hs

/-- What an event after a log has to tell, and to leave alone. -/
def Event.Truthful (before : List Event) (w v : Shared ι) : Event → Prop
  | .put target _ _ result => (result = .ok () ↔ firstScheme? target before ≠ none) ∧
      (result ≠ .ok () → v = w)
  | .created target _ => firstScheme? target before ≠ none → v.store = w.store
  | .looked target there => there = (firstScheme? target before).isSome ∧ v.store = w.store
  | .read target key found => found = lastPut? target key before ∧ v = w

theorem isSome_firstScheme? (h : Faithful log s) (target : String) :
    (firstScheme? target log).isSome = s.exists? target := by
  rw [← h.scheme, scheme?, Option.isSome_map, exists?, Fields.has]

theorem Faithful.truthful (h : Faithful log w.store) (hs : w.Step e v) :
    e.Truthful log w v := by
  have hx (target : String) : firstScheme? target log ≠ none ↔ w.store.exists? target := by
    rw [← isSome_firstScheme? h, Option.isSome_iff_ne_none]
  cases hs with
  | put i target key value _ =>
    rw [Event.Truthful, hx]
    by_cases ht : w.store.exists? target
    · obtain ⟨t, -, hp⟩ := put_present ht key value
      rw [hp]
      exact ⟨iff_of_true rfl ht, fun hn => absurd rfl hn⟩
    · rw [put_missing (Bool.eq_false_iff.mpr ht)]
      exact ⟨iff_of_false nofun ht, fun _ => rfl⟩
  | create i target scheme _ =>
    intro ht
    exact create_present ((hx target).mp ht) scheme
  | present i target _ ht =>
    exact ⟨ht.symm.trans (isSome_firstScheme? h target).symm, rfl⟩
  | absent i target scheme _ ht =>
    exact ⟨ht.symm.trans (isSome_firstScheme? h target).symm, rfl⟩
  | ensure i target scheme _ =>
    intro ht
    exact create_present ((hx target).mp ht) scheme
  | get i target key _ => exact ⟨h.found target key, rfl⟩
  | proof i target key _ => exact ⟨h.found target key, rfl⟩

/-- A client that is not interrupted makes sure of a target as the store itself does. -/
theorem run_ensure {i : ι} (h : w.pending i = none) (target scheme : String) :
    w.Run (if w.store.exists? target then [.looked target true]
        else [.looked target false, .created target scheme])
      ⟨(w.store.ensure target scheme).2, w.pending⟩ := by
  rw [ensure]
  by_cases ht : w.store.exists? target
  · rw [if_pos ht, if_pos ht]
    exact Shared.Run.step .start (.present i target h ht)
  · rw [if_neg ht, if_neg ht]
    have hl := Shared.Run.step .start
      (Shared.Step.absent i target scheme h (Bool.eq_false_iff.mpr ht))
    have hc := hl.step (.ensure i target scheme (Function.update_self ..))
    have hp : Function.update (Function.update w.pending i (some (target, scheme))) i none =
        w.pending := by
      rw [Function.update_idem, ← h, Function.update_eq_self]
    rw [hp] at hc
    exact hc

/-- Whatever clients do to a store that starts empty: under each key it has what was put last with
success, in each target as many entries as different keys were put, and the scheme with which the
target was created first. Each read tells what was put last before it, a put works exactly if its
target has been created and otherwise changes nothing, and creating a target again changes
nothing. -/
theorem shared_store_keeps (h : Shared.start.Run log w) :
    (∀ target key, w.store.get? target key = lastPut? target key log ∧
      w.store.proof? target key = lastPut? target key log) ∧
    (∀ target, w.store.scheme? target = firstScheme? target log ∧
      w.store.size target = ((puts target log).map (·.1)).dedup.length) ∧
    (∀ before e after, log = before ++ e :: after →
      ∃ v u, Shared.start.Run before v ∧ v.Step e u ∧ u.Run after w ∧ e.Truthful before v u) ∧
    ∀ (v : Shared ι) i, v.pending i = none → ∀ target scheme,
      v.Run (if v.store.exists? target then [.looked target true]
          else [.looked target false, .created target scheme])
        ⟨(v.store.ensure target scheme).2, v.pending⟩ := by
  have hf := h.faithful
  refine ⟨fun target key => ⟨hf.found target key, hf.found target key⟩,
    fun target => ⟨hf.scheme target, hf.size target⟩, fun before e after hl => ?_,
    fun v i hi => run_ensure hi⟩
  obtain ⟨v, u, hv, hs, hu⟩ := h.split hl
  exact ⟨v, u, hv, hs, hu, hv.faithful.truthful hs⟩

/-- One client looks for the target, the other creates and fills it, and the first creates it
again. -/
def lateCreation : List Event :=
  [.looked "t" false, .created "t" "mpf", .put "t" [1] [10] (.ok ()),
    .created "t" "other", .put "t" [1] [11] (.ok ()), .put "u" [2] [12]
      (.error (.ingestion "u" "target does not exist")), .read "t" [1] (some [11])]

theorem run_lateCreation : (Shared.start : Shared Bool).Run lateCreation
    ⟨⟨[("t", ⟨"mpf", [([1], [11])]⟩)]⟩, Function.update
      (Function.update (fun _ => none) true (some ("t", "other"))) true none⟩ := by
  have begun : (Shared.start : Shared Bool).Run [] Shared.start := .start
  have looked := begun.step (.absent true "t" "other" rfl rfl)
  have created := looked.step (.create false "t" "mpf" rfl)
  have filled := created.step (.put false "t" [1] [10] rfl)
  have late := filled.step (.ensure true "t" "other" rfl)
  have replaced := late.step (.put true "t" [1] [11] rfl)
  have missed := replaced.step (.put false "u" [2] [12] rfl)
  exact missed.step (.get true "t" [1] rfl)

theorem shared_store_keeps_late :
    ∃ w : Shared Bool, Shared.start.Run lateCreation w ∧ w.store.get? "t" [1] = some [11] ∧
      w.store.scheme? "t" = some "mpf" ∧ w.store.size "t" = 1 ∧ w.store.size "u" = 0 := by
  obtain ⟨hg, hs, -, -⟩ := shared_store_keeps run_lateCreation
  refine ⟨_, run_lateCreation, (hg "t" [1]).1.trans ?_, (hs "t").1.trans ?_, (hs "t").2.trans ?_,
    (hs "u").2.trans ?_⟩
  · rfl
  · rfl
  · rfl
  · rfl

end TrieFeed.TrieStore
