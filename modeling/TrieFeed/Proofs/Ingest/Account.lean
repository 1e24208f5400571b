import Mathlib.Data.List.Basic
import TrieFeed.Ingest.Run
import TrieFeed.Proofs.Fields
import TrieFeed.Provider.Fixed
/-!
# The account of an ingestion

A provider reads each record apart from any store. Its readings, and whether the target exists,
decide the report of a run and what the run puts: each record is counted once, and the store changes
by the ingested entries and nothing else.
-/
namespace TrieFeed

variable {σ : Type}

/-! ## The store under puts -/

namespace TrieStore

variable {target : String} {store : TrieStore}

/-- The store after entries have been put into a target, one after the other. -/
def putAll (target : String) (entries : List (Bytes × Bytes)) (store : TrieStore) : TrieStore :=
  entries.foldl (fun store entry => (store.put target entry.1 entry.2).2) store

theorem put_missing (h : store.exists? target = false) (key value : Bytes) :
    store.put target key value =
      (.error (.ingestion target "target does not exist"), store) := by
  have hn : Fields.get? target store.targets = none := by
    simpa [exists?, Fields.has] using h
  rw [put, hn]

theorem put_present (h : store.exists? target) (key value : Bytes) :
    ∃ t, Fields.get? target store.targets = some t ∧ store.put target key value =
      (.ok (), ⟨Fields.insert target { t with entries := putEntry key value t.entries }
        store.targets⟩) := by
  obtain ⟨t, ht⟩ := Option.isSome_iff_exists.mp h
  exact ⟨t, ht, by rw [put, ht]⟩

theorem find?_putEntry_of_ne {key other : Bytes} (h : key ≠ other) (value : Bytes)
    (entries : List (Bytes × Bytes)) :
    (putEntry key value entries).find? (·.1 = other) = entries.find? (·.1 = other) := by
  induction entries with
  | nil => simp [putEntry, h]
  | cons entry rest ih =>
    obtain ⟨k, v⟩ := entry
    rw [putEntry]
    by_cases hk : k = key
    · subst hk
      simp [h]
    · rw [if_neg hk, List.find?_cons, List.find?_cons, ih]

theorem find?_putEntry_self (key value : Bytes) (entries : List (Bytes × Bytes)) :
    (putEntry key value entries).find? (·.1 = key) = some (key, value) := by
  induction entries with
  | nil => simp [putEntry]
  | cons entry rest ih =>
    obtain ⟨k, v⟩ := entry
    rw [putEntry]
    by_cases hk : k = key
    · rw [if_pos hk, List.find?_cons_of_pos (by simp)]
    · rw [if_neg hk, List.find?_cons_of_neg (by simpa using hk), ih]

structure Keeps (target : String) (keys : List Bytes) (store after : TrieStore) : Prop where
  others : ∀ other, other ≠ target →
    Fields.get? other after.targets = Fields.get? other store.targets
  schemes : ∀ name, after.scheme? name = store.scheme? name
  keys : ∀ key, key ∉ keys → after.get? target key = store.get? target key

theorem put_keeps (target : String) (key value : Bytes) (store : TrieStore) :
    Keeps target [key] store (store.put target key value).2 := by
  by_cases h : store.exists? target
  · obtain ⟨t, ht, hp⟩ := put_present h key value
    rw [hp]
    constructor
    · intro other ho
      exact Fields.get?_insert_of_ne (Ne.symm ho) ..
    · intro name
      by_cases hn : target = name
      · subst hn
        rw [scheme?, scheme?, Fields.get?_insert_self, ht]
        rfl
      · rw [scheme?, scheme?, Fields.get?_insert_of_ne hn]
    · intro other ho
      have hne : key ≠ other := fun he => ho (List.mem_singleton.mpr he.symm)
      rw [get?, get?, Fields.get?_insert_self, ht, Option.bind_some, Option.bind_some, Target.get?,
        Target.get?, find?_putEntry_of_ne hne]
  · rw [put_missing (Bool.eq_false_iff.mpr h)]
    exact ⟨fun _ _ => rfl, fun _ => rfl, fun _ _ => rfl⟩

theorem putAll_keeps (target : String) (entries : List (Bytes × Bytes)) (store : TrieStore) :
    Keeps target (entries.map (·.1)) store (store.putAll target entries) := by
  induction entries generalizing store with
  | nil => exact ⟨fun _ _ => rfl, fun _ => rfl, fun _ _ => rfl⟩
  | cons entry rest ih =>
    have hp := put_keeps target entry.1 entry.2 store
    have hr := ih (store.put target entry.1 entry.2).2
    constructor
    · intro other ho
      exact (hr.others other ho).trans (hp.others other ho)
    · intro name
      exact (hr.schemes name).trans (hp.schemes name)
    · intro key hk
      rw [List.map_cons, List.mem_cons, not_or] at hk
      exact (hr.keys key hk.2).trans (hp.keys key (by simpa using hk.1))

theorem exists?_put (key value : Bytes) :
    (store.put target key value).2.exists? target = store.exists? target := by
  have hs := (put_keeps target key value store).schemes target
  rw [exists?, exists?, Fields.has, Fields.has, ← Option.isSome_map (f := Target.scheme),
    ← Option.isSome_map (f := Target.scheme)]
  exact congrArg Option.isSome hs

theorem get?_put_self (h : store.exists? target) (key value : Bytes) :
    (store.put target key value).2.get? target key = some value := by
  obtain ⟨t, -, hp⟩ := put_present h key value
  rw [hp, get?, Fields.get?_insert_self, Option.bind_some, Target.get?, find?_putEntry_self]
  rfl

theorem exists?_putAll (entries : List (Bytes × Bytes)) :
    (store.putAll target entries).exists? target = store.exists? target := by
  induction entries generalizing store with
  | nil => rfl
  | cons entry rest ih =>
    rw [putAll, List.foldl_cons]
    exact ih.trans (exists?_put entry.1 entry.2)

theorem putAll_append (entries others : List (Bytes × Bytes)) :
    store.putAll target (entries ++ others) = (store.putAll target entries).putAll target others :=
  List.foldl_append ..

/-- Of entries under one key the last is found. -/
theorem get?_putAll (h : store.exists? target) {key : Bytes} {later : List (Bytes × Bytes)}
    (hl : key ∉ later.map (·.1)) (before : List (Bytes × Bytes)) (value : Bytes) :
    (store.putAll target (before ++ (key, value) :: later)).get? target key = some value := by
  rw [putAll_append, putAll, List.foldl_cons]
  have hk := (putAll_keeps target later ((store.putAll target before).put target key value).2).keys
  refine (hk key hl).trans (get?_put_self ?_ key value)
  rw [exists?_putAll]
  exact h

theorem putAll_missing (h : store.exists? target = false) (entries : List (Bytes × Bytes)) :
    store.putAll target entries = store := by
  induction entries with
  | nil => rfl
  | cons entry rest ih =>
    rw [putAll, List.foldl_cons, put_missing h]
    exact ih

end TrieStore

/-! ## Readings of records -/

inductive Reading where
  | invalid
  | unjudged (e : ProviderError)
  | unserialized (e : ProviderError)
  | entry (key value : Bytes)

/-- A provider judges a record first, and serializes it if it is valid, the key before the value. -/
inductive Provider.Reads (p : Provider σ) (record : Record) : σ → Reading → σ → Prop where
  | unjudged {s t e} : p.validate record s = (.error e, t) → Reads p record s (.unjudged e) t
  | invalid {s t v} : p.validate record s = (.ok v, t) → v.valid = false →
      Reads p record s .invalid t
  | keyless {s t u v e} : p.validate record s = (.ok v, t) → v.valid = true →
      p.key record t = (.error e, u) → Reads p record s (.unserialized e) u
  | valueless {s t u w v key e} : p.validate record s = (.ok v, t) → v.valid = true →
      p.key record t = (.ok key, u) → p.value record u = (.error e, w) →
      Reads p record s (.unserialized e) w
  | entry {s t u w v} (key value) : p.validate record s = (.ok v, t) → v.valid = true →
      p.key record t = (.ok key, u) → p.value record u = (.ok value, w) →
      Reads p record s (.entry key value) w

inductive Provider.ReadsAll (p : Provider σ) : List Record → σ → List Reading → σ → Prop where
  | nil (s) : ReadsAll p [] s [] s
  | cons {record rest s t u reading readings} : p.Reads record s reading t →
      ReadsAll p rest t readings u → ReadsAll p (record :: rest) s (reading :: readings) u

variable {p : Provider σ}

theorem Provider.exists_reads (p : Provider σ) (record : Record) (s : σ) :
    ∃ reading t, p.Reads record s reading t := by
  rcases hv : p.validate record s with ⟨e | v, t⟩
  · exact ⟨_, _, .unjudged hv⟩
  · cases hok : v.valid with
    | false => exact ⟨_, _, .invalid hv hok⟩
    | true =>
      rcases hk : p.key record t with ⟨e | key, u⟩
      · exact ⟨_, _, .keyless hv hok hk⟩
      · rcases hw : p.value record u with ⟨e | value, w⟩
        · exact ⟨_, _, .valueless hv hok hk hw⟩
        · exact ⟨_, _, .entry key value hv hok hk hw⟩

theorem Provider.exists_readsAll (p : Provider σ) (records : List Record) (s : σ) :
    ∃ readings t, p.ReadsAll records s readings t := by
  induction records generalizing s with
  | nil => exact ⟨[], s, .nil s⟩
  | cons record rest ih =>
    obtain ⟨reading, t, hr⟩ := p.exists_reads record s
    obtain ⟨readings, u, hrest⟩ := ih t
    exact ⟨reading :: readings, u, .cons hr hrest⟩

theorem Provider.ReadsAll.length {records : List Record} {readings : List Reading} {s t : σ}
    (h : p.ReadsAll records s readings t) : readings.length = records.length := by
  induction h with
  | nil => rfl
  | cons _ _ ih => rw [List.length_cons, List.length_cons, ih]

namespace Reading

/-- Why a record is not ingested although it was not found invalid. -/
def failure? (target : String) (present : Bool) : Reading → Option String
  | invalid => none
  | unjudged e => some ("validate: " ++ e.message)
  | unserialized e => some e.message
  | entry _ _ =>
    if present then none
    else some (ProviderError.ingestion target "target does not exist").message

def entry? : Reading → Option (Bytes × Bytes)
  | entry key value => some (key, value)
  | _ => none

def isInvalid : Reading → Bool
  | invalid => true
  | _ => false

/-- The failures among readings from a position on, each with its position. -/
def failures (target : String) (present : Bool) (start : Nat) (readings : List Reading) :
    List (Nat × String) :=
  (readings.zipIdx start).filterMap fun r => (r.1.failure? target present).map (r.2, ·)

/-- The entries of the records that are ingested, in their order. -/
def ingested (present : Bool) (readings : List Reading) : List (Bytes × Bytes) :=
  if present then readings.filterMap entry? else []

def outcome (target : String) (present : Bool) (position : Nat) (reading : Reading) :
    Ingest.Outcome :=
  match reading.failure? target present with
  | some reason => .failed s!"record {position}: {reason}"
  | none => if reading.isInvalid then .skipped else .ingested

def outcomes (target : String) (present : Bool) (start : Nat) (readings : List Reading) :
    List Ingest.Outcome :=
  (readings.zipIdx start).map fun r => r.1.outcome target present r.2

def puts (reading : Reading) : List (Bytes × Bytes) := reading.entry?.toList

theorem failures_ordered (target : String) (present : Bool) (start : Nat)
    (readings : List Reading) :
    ((failures target present start readings).map (·.1)).Pairwise (· < ·) := by
  have hz : (readings.zipIdx start).Pairwise fun r q => r.2 < q.2 := by
    rw [← List.pairwise_map, List.zipIdx_map_snd]
    exact List.pairwise_lt_range' ..
  rw [failures, List.pairwise_map, List.pairwise_filterMap]
  apply hz.imp
  intro r q hrq f hf g hg
  obtain ⟨reason, -, rfl⟩ := Option.map_eq_some_iff.mp hf
  obtain ⟨other, -, rfl⟩ := Option.map_eq_some_iff.mp hg
  exact hrq

theorem outcomes_cons (target : String) (present : Bool) (start : Nat) (reading : Reading)
    (rest : List Reading) : outcomes target present start (reading :: rest) =
      reading.outcome target present start :: outcomes target present (start + 1) rest := by
  rw [outcomes, List.zipIdx_cons, List.map_cons, outcomes]

end Reading

/-! ## One record after the other -/

namespace Ingest

open Reading

variable {target : String}

theorem unjudged_text (position : Nat) {message reason : String}
    (h : reason = "validate: " ++ message) :
    s!"record {position}: validate: {message}" = s!"record {position}: {reason}" := by
  have hs : ": validate: " = ": " ++ "validate: " := by decide
  simp only [h, toString, hs, String.append_assoc]

theorem takeRecord_eq {record : Record} {reading : Reading} {s t : σ}
    (h : p.Reads record s reading t) (position : Nat) (store : TrieStore) :
    takeRecord p target position record s store =
      (reading.outcome target (store.exists? target) position, t,
        store.putAll target reading.puts) := by
  cases h with
  | unjudged hv =>
    rw [takeRecord, hv]
    exact congrArg (fun text => (Outcome.failed text, t, store)) (unjudged_text position rfl)
  | invalid hv hok =>
    rw [takeRecord, hv]
    simp only [hok]
    rfl
  | keyless hv hok hk =>
    rw [takeRecord, hv]
    simp only [hok, if_true, putRecord, hk]
    rfl
  | valueless hv hok hk hw =>
    rw [takeRecord, hv]
    simp only [hok, if_true, putRecord, hk, hw]
    rfl
  | entry key value hv hok hk hw =>
    rw [takeRecord, hv]
    simp only [hok, if_true, putRecord, hk, hw]
    by_cases hp : store.exists? target
    · obtain ⟨_, -, he⟩ := TrieStore.put_present hp key value
      rw [outcome, failure?, if_pos hp, puts, entry?, Option.toList_some, TrieStore.putAll,
        List.foldl_cons, he]
      rfl
    · have hm := Bool.eq_false_iff.mpr hp
      rw [outcome, failure?, if_neg hp, puts, entry?, Option.toList_some, TrieStore.putAll,
        List.foldl_cons, TrieStore.put_missing hm]
      rfl

/-- Puts leave it open neither whether a target exists nor what later records come to. -/
theorem takeAll_eq {records : List Record} {readings : List Reading} {s t : σ}
    (h : p.ReadsAll records s readings t) (start : Nat) (store : TrieStore) :
    takeAll p target start records s store =
      (outcomes target (store.exists? target) start readings, t,
        store.putAll target (readings.flatMap puts)) := by
  induction h generalizing start store with
  | nil => rfl
  | @cons record rest s t u reading readings hr _ ih =>
    rw [takeAll, takeRecord_eq hr]
    dsimp only
    rw [ih, TrieStore.exists?_putAll, List.flatMap_cons, TrieStore.putAll_append, outcomes_cons]

/-! ## Reports -/

theorem countP_skipped (target : String) (present : Bool) (start : Nat) (readings : List Reading) :
    (outcomes target present start readings).countP (· = .skipped) =
      readings.countP (·.isInvalid) := by
  induction readings generalizing start with
  | nil => rfl
  | cons reading rest ih =>
    rw [outcomes_cons, List.countP_cons, List.countP_cons, ih]
    congr 1
    cases reading with
    | entry key value => cases present <;> rfl
    | _ => rfl

theorem countP_ingested (target : String) (present : Bool) (start : Nat)
    (readings : List Reading) :
    (outcomes target present start readings).countP (· = .ingested) =
      (ingested present readings).length := by
  induction readings generalizing start with
  | nil => cases present <;> rfl
  | cons reading rest ih =>
    rw [outcomes_cons, List.countP_cons, ih]
    cases reading with
    | entry key value => cases present <;> rfl
    | _ => cases present <;> rfl

theorem errors_eq (target : String) (present : Bool) (start : Nat) (readings : List Reading) :
    (outcomes target present start readings).filterMap Outcome.error? =
      (failures target present start readings).map fun f => s!"record {f.1}: {f.2}" := by
  rw [outcomes, failures, List.filterMap_map, List.map_filterMap]
  congr 1
  funext r
  rw [Function.comp_apply, outcome]
  cases r.1.failure? target present with
  | some reason => rfl
  | none => cases r.1.isInvalid <;> rfl

theorem length_outcomes (outcomes : List Outcome) : outcomes.length =
    outcomes.countP (· = .ingested) + outcomes.countP (· = .skipped) +
      (outcomes.filterMap Outcome.error?).length := by
  induction outcomes with
  | nil => rfl
  | cons outcome rest ih =>
    rw [List.length_cons, List.countP_cons, List.countP_cons, List.filterMap_cons, ih]
    cases outcome with
    | ingested => simp [Outcome.error?]; omega
    | skipped => simp [Outcome.error?]; omega
    | failed text => simp [Outcome.error?]; omega

theorem length_outcomes_eq (target : String) (present : Bool) (start : Nat)
    (readings : List Reading) : (outcomes target present start readings).length =
      readings.length := by
  rw [outcomes, List.length_map, List.length_zipIdx]

/-- Puts into a target that does not exist change nothing, so only ingested entries count. -/
theorem putAll_puts (target : String) (readings : List Reading) (store : TrieStore) :
    store.putAll target (readings.flatMap puts) =
      store.putAll target (Reading.ingested (store.exists? target) readings) := by
  cases hp : store.exists? target with
  | false => rw [TrieStore.putAll_missing hp, TrieStore.putAll_missing hp]
  | true =>
    rw [Reading.ingested, if_pos rfl, List.filterMap_eq_flatMap_toList]
    rfl

/-- What the readings of a run say about its report and about the store after it. -/
structure Accounted (target : String) (store : TrieStore) (readings : List Reading)
    (report : Report) (after : TrieStore) : Prop where
  fetched : report.fetched = readings.length
  counted : report.fetched = report.ingested + report.skipped + report.errors.length
  clean_iff : report.isClean ↔ report.fetched = report.ingested + report.skipped
  skipped : report.skipped = readings.countP (·.isInvalid)
  ingested : report.ingested = (ingested (store.exists? target) readings).length
  errors : report.errors = (failures target (store.exists? target) 0 readings).map fun f =>
    s!"record {f.1}: {f.2}"
  ordered : ((failures target (store.exists? target) 0 readings).map (·.1)).Pairwise (· < ·)
  stored : after = store.putAll target (Reading.ingested (store.exists? target) readings)
  found : ∀ before key value later,
    Reading.ingested (store.exists? target) readings = before ++ (key, value) :: later →
    key ∉ later.map (·.1) → after.get? target key = some value
  kept : store.Keeps target ((Reading.ingested (store.exists? target) readings).map (·.1)) after

theorem accounted_reportOf (provider target : String) (readings : List Reading)
    (store : TrieStore) :
    Accounted target store readings
      (reportOf provider target (outcomes target (store.exists? target) 0 readings))
      (store.putAll target (readings.flatMap puts)) := by
  have hcount := length_outcomes (outcomes target (store.exists? target) 0 readings)
  constructor
  · exact length_outcomes_eq ..
  · exact hcount
  · rw [Report.isClean, List.isEmpty_iff_length_eq_zero]
    constructor
    · intro he
      rw [reportOf] at he ⊢
      dsimp only at he ⊢
      omega
    · intro he
      rw [reportOf] at he ⊢
      dsimp only at he ⊢
      omega
  · exact countP_skipped ..
  · exact countP_ingested ..
  · exact errors_eq ..
  · exact failures_ordered ..
  · exact putAll_puts ..
  · intro before key value later he hl
    have hp : store.exists? target := by
      by_contra hn
      rw [Reading.ingested, if_neg hn] at he
      cases before <;> cases he
    rw [putAll_puts, he]
    exact TrieStore.get?_putAll hp hl before value
  · rw [putAll_puts]
    exact TrieStore.putAll_keeps ..

/-- A run whose fetch fails has that error and leaves the store alone. Any other counts each record
once, reports the failures in the order of the records, and puts the entries of the ingested records
in that order, which changes no other target, no other key and no scheme. -/
theorem run_accounted (p : Provider σ) (target : String) (config : Record) (s : σ)
    (store : TrieStore) :
    (∀ e t, p.fetch config s = (.error e, t) →
      run p target config s store = (.error e, t, store)) ∧
    ∀ records t, p.fetch config s = (.ok records, t) →
      ∃ readings u report after, p.ReadsAll records t readings u ∧
        run p target config s store = (.ok report, u, after) ∧
        report.fetched = records.length ∧ Accounted target store readings report after := by
  constructor
  · intro e t hf
    rw [run, hf]
  · intro records t hf
    obtain ⟨readings, u, hr⟩ := p.exists_readsAll records t
    refine ⟨readings, u, _, _, hr, ?_, ?_, accounted_reportOf p.name target readings store⟩
    · rw [run, hf]
      dsimp only
      rw [takeAll_eq hr]
    · rw [reportOf, length_outcomes_eq, hr.length]

/-- Two records of one key, one that is invalid, one that is not judged, and one without a key. -/
def mixedRecords : List Record :=
  [[("key", .bytes [1]), ("value", .bytes [10])], [("valid", .bool false)],
    [("valid", .text "unknown")], [("value", .bytes [12])],
    [("key", .bytes [1]), ("value", .bytes [11])]]

def mixedSource : Provider Unit := FixedSource.provider ⟨"a", "", .records mixedRecords⟩

def mixedStore : TrieStore := ⟨[("t", ⟨"mpf", [([2], [20])]⟩), ("u", ⟨"mpf", [([1], [30])]⟩)]⟩

theorem run_accounted_mixed :
    mixedSource.fetch [] () = (.ok mixedRecords, ()) ∧
    ∃ readings report after, run mixedSource "t" [] () mixedStore = (.ok report, (), after) ∧
      Accounted "t" mixedStore readings report after ∧
      (report.fetched, report.ingested, report.skipped, report.errors.length) = (5, 2, 1, 2) ∧
      after.get? "t" [1] = some [11] ∧ after.get? "t" [2] = some [20] ∧
      after.get? "u" [1] = some [30] := by
  have hf : mixedSource.fetch [] () = (.ok mixedRecords, ()) := rfl
  obtain ⟨readings, ⟨⟩, report, after, -, hrun, -, ha⟩ :=
    (run_accounted mixedSource "t" [] () mixedStore).2 mixedRecords () hf
  have hr : report = ((run mixedSource "t" [] () mixedStore).1.toOption).getD default := by
    rw [hrun]
    rfl
  have hs : after = (run mixedSource "t" [] () mixedStore).2.2 := by
    rw [hrun]
  refine ⟨hf, readings, report, after, hrun, ha, ?_, ?_, ?_, ?_⟩
  · rw [hr]
    rfl
  · rw [hs]
    rfl
  · rw [hs]
    rfl
  · rw [hs]
    rfl

end Ingest

end TrieFeed
