import TrieFeed.Capability.Set
import TrieFeed.Proofs.Outcome
/-!
# What capabilities leave alone

No call of a capability starts or ends an engine, and none touches the kept failure or the provider
of its set. Only queries write to the host at more than one place, so what they do to it at once is
told apart, and all calls are made of that.
-/
namespace TrieFeed

namespace Sql.Session

open TrieFeed.Outcome (run_bind)

variable {α β : Type}

/-! ## What queries are made of -/

/-- Gives a new pool its handle. -/
def enter (pool : Pool) : Session String := do
  let h ← host
  let opened ← pools
  let handle := s!"pool-{opened.length}"
  setPools (Fields.insert handle (some pool) opened)
  setHost { h with poolCount := h.poolCount + 1 }
  return handle

theorem createPool_eq (s : Settings) : createPool s = connect s >>= enter := rfl

/-- Holds of work in sequence, and of all that is done to the host at once. -/
structure Built (holds : ∀ {α : Type}, Session α → Prop) : Prop where
  pure {α : Type} (a : α) : holds (pure a)
  throw {α : Type} (e : PluginError) : holds (throw e : Session α)
  bind {α β : Type} {work : Session α} {next : α → Session β} (hw : holds work)
    (hn : ∀ a, holds (next a)) : holds (work >>= next)
  pools : holds pools
  setPools (p : Pools) : holds (setPools p)
  openFile (file : String) : holds (openFile file)
  connectServer (url : String) (s : Settings) : holds (connectServer url s)
  enter (pool : Pool) : holds (enter pool)
  runOnFile (handle file : String) (changed : Nat) (sql : String) (parameters : List Value) :
    holds (runOnFile handle file changed sql parameters)
  runOnServer (sql : String) (parameters : List Value) : holds (runOnServer sql parameters)

namespace Built

variable {holds : ∀ {α : Type}, Session α → Prop}

theorem lift (hb : Built holds) (result : Except PluginError α) : holds (liftM result : Session α) := by
  cases result with
  | ok a => exact hb.pure a
  | error e => exact hb.throw e

theorem connect (hb : Built holds) (s : Settings) : holds (connect s) := by
  refine hb.bind (hb.lift _) fun named => ?_
  cases named with
  | server url => exact hb.bind (hb.connectServer url s) fun _ => hb.pure _
  | file url =>
    dsimp only
    split
    · exact hb.throw connectionFailure
    · exact hb.bind (hb.openFile _) fun _ => hb.pure _

theorem pool (hb : Built holds) (handle : String) : holds (pool handle) := by
  refine hb.bind hb.pools fun pools => ?_
  split
  · exact hb.pure _
  · exact hb.throw _

theorem runCall (hb : Built holds) (args : Arguments) : holds (runCall args) := by
  refine hb.bind (hb.lift _) fun handle => ?_
  refine hb.bind (hb.pool handle) fun _ => ?_
  refine hb.bind (hb.lift _) fun sql => ?_
  refine hb.bind (hb.lift _) fun given => ?_
  refine hb.bind (hb.pool handle) fun pool => ?_
  cases pool with
  | file file changed => exact hb.runOnFile handle file changed sql given
  | server => exact hb.runOnServer sql given

theorem call (hb : Built holds) (method : String) (args : Arguments) :
    holds (call method args) := by
  unfold Session.call
  split
  · refine hb.bind (hb.lift _) fun v => ?_
    refine hb.bind (hb.lift _) fun s => ?_
    rw [createPool_eq]
    exact hb.bind (hb.bind (hb.connect s) hb.enter) fun _ => hb.pure _
  · exact hb.bind (hb.runCall args) fun _ => hb.pure _
  · exact hb.bind (hb.runCall args) fun _ => hb.pure _
  · exact hb.bind (hb.runCall args) fun _ => hb.pure _
  · refine hb.bind (hb.lift _) fun handle => ?_
    refine hb.bind hb.pools fun pools => ?_
    exact hb.bind (hb.setPools _) fun _ => hb.pure _
  · refine hb.bind (hb.lift _) fun url => ?_
    exact hb.bind (hb.connect _) fun _ => hb.pure _

end Built

/-! ## Engines that queries leave running -/

variable {engines : List String} {work : Session α}

/-- Work that leaves these engines running, if they are the ones that run. -/
def Keeps (engines : List String) (work : Session α) : Prop :=
  ∀ s, s.2.engines = engines → (work.run s).2.2.engines = engines

theorem keeps_pure (a : α) : Keeps engines (pure a) := fun _ hs => hs

theorem keeps_throw (e : PluginError) : Keeps engines (throw e : Session α) := fun _ hs => hs

theorem keeps_bind {next : α → Session β} (hw : Keeps engines work)
    (hn : ∀ a, Keeps engines (next a)) : Keeps engines (work >>= next) := by
  intro s hs
  have hw := hw s hs
  rw [run_bind]
  rcases hr : work.run s with ⟨_ | a, after⟩
  · rw [hr] at hw
    exact hw
  · rw [hr] at hw
    exact hn a after hw

theorem keeps_setHost {h : Host} (hh : h.engines = engines) : Keeps engines (setHost h) :=
  fun _ _ => hh

/-- What follows a look at the host sees one with the engines. -/
theorem keeps_host {next : Host → Session β}
    (hn : ∀ h, h.engines = engines → Keeps engines (next h)) :
    Keeps engines (host >>= next) := fun s hs => hn s.2 hs s hs

theorem openFile_keeps (file : String) : Keeps engines (openFile file) := by
  rw [openFile]
  refine keeps_host fun h hh => ?_
  dsimp only
  split
  · split
    · exact keeps_throw connectionFailure
    · exact keeps_pure ()
    · split
      · split
        · exact keeps_setHost hh
        · exact keeps_throw connectionFailure
      · exact keeps_throw connectionFailure
  · exact keeps_pure ()

theorem connectServer_keeps (url : String) (s : Settings) :
    Keeps engines (connectServer url s) := by
  rw [connectServer]
  split
  · exact keeps_throw _
  · refine keeps_host fun h hh => ?_
    split
    · exact keeps_throw _
    · refine keeps_bind (keeps_setHost hh) fun _ => ?_
      split
      · exact keeps_pure ()
      · exact keeps_throw _

theorem runOnFile_keeps (handle file : String) (changed : Nat) (sql : String)
    (parameters : List Value) :
    Keeps engines (runOnFile handle file changed sql parameters) := by
  refine keeps_host fun h hh => ?_
  refine keeps_bind (keeps_setHost hh) fun _ => ?_
  refine keeps_bind (fun _ hs => hs) fun pools => ?_
  refine keeps_bind (fun _ hs => hs) fun _ => ?_
  split
  · exact keeps_throw _
  · exact keeps_pure _

theorem runOnServer_keeps (sql : String) (parameters : List Value) :
    Keeps engines (runOnServer sql parameters) := by
  refine keeps_host fun h hh => ?_
  split
  · exact keeps_throw _
  · refine keeps_bind (keeps_setHost hh) fun _ => ?_
    split
    · exact keeps_pure _
    · exact keeps_throw _

theorem built_keeps (engines : List String) : Built (Keeps engines) where
  pure := keeps_pure
  throw := keeps_throw
  bind := keeps_bind
  pools _ hs := hs
  setPools _ _ hs := hs
  openFile := openFile_keeps
  connectServer := connectServer_keeps
  enter _ _ hs := hs
  runOnFile := runOnFile_keeps
  runOnServer := runOnServer_keeps

end Sql.Session

namespace Capabilities

theorem warned_engines (method : String) (args : Arguments) (h : Host) :
    (warned method args h).engines = h.engines := by
  unfold warned
  split <;> rfl

theorem call_keeps (c : Capabilities) (capability : Capability) (method : String)
    (args : Arguments) (h : Host) :
    (c.call capability method args h).2.1.lastFailure = c.lastFailure ∧
      (c.call capability method args h).2.1.provider = c.provider ∧
      (c.call capability method args h).2.2.engines = h.engines := by
  cases capability with
  | codec => exact ⟨rfl, rfl, warned_engines method args h⟩
  | httpClient =>
    rw [call]
    split <;> exact ⟨rfl, rfl, rfl⟩
  | relationalQuery =>
    rw [call]
    split
    · exact ⟨rfl, rfl, (Sql.Session.built_keeps h.engines).call method args (c.pools, h) rfl⟩
    · exact ⟨rfl, rfl, rfl⟩
  | log | hex | chainAddress | sandboxedFile | plutusBuilder => exact ⟨rfl, rfl, rfl⟩

theorem invoke_keeps (c : Capabilities) (object method : String) (values : List Value) (h : Host) :
    (c.invoke object method values h).2.1.lastFailure = c.lastFailure ∧
      (c.invoke object method values h).2.1.provider = c.provider ∧
      (c.invoke object method values h).2.2.engines = h.engines := by
  unfold invoke
  split
  · exact ⟨rfl, rfl, rfl⟩
  · split
    · exact call_keeps ..
    · exact ⟨rfl, rfl, rfl⟩

theorem invokeFromScript_keeps (c : Capabilities) (object method : String) (values : List Value)
    (h : Host) :
    (c.invokeFromScript object method values h).2.1.provider = c.provider ∧
      (c.invokeFromScript object method values h).2.2.engines = h.engines := by
  obtain ⟨-, hk⟩ := c.invoke_keeps object method values h
  rw [invokeFromScript]
  rcases hi : c.invoke object method values h with ⟨_ | _, c', h'⟩ <;>
    · rw [hi] at hk
      exact hk

end Capabilities

end TrieFeed
