import TrieFeed.Proofs.Capability.Calls
import TrieFeed.Proofs.Capability.Footprint
/-!
# Capabilities step by step

All that capabilities do to the host is made of single steps, so that what a call comes upon is well
defined. Lookups end, by whatever links they go, and queries come upon a file or the server at a
time.
-/
namespace TrieFeed

variable {α β σ : Type}

/-- Work that is made of single steps from every host on. -/
abbrev Stepwise (work : Host → α × Host) : Prop := Confined (fun _ => True) (fun _ => True) work

/-- A look that is made of single steps. -/
abbrev Seen (look : Host → α) : Prop := Looks (fun _ => True) (fun _ => True) look

theorem stepwise_aside {change : Host → Host} (hc : Host.Aside change) (a : α) :
    Stepwise fun h => (a, change h) := .aside sighted_all hc a

/-! ## Files -/

namespace FileTree

/-- Where a walk goes on by what has the next name. -/
def walkBy (tree : FileTree) (links : Nat) (place : Place) (n : String) (rest : List Path.Part) :
    Option FileEntry → Except FileFault Place
  | none => .error .notFound
  | some .directory => tree.walk links (place ++ [n]) rest
  | some (.file _) => if rest.isEmpty then .ok (place ++ [n]) else .error .notDirectory
  | some (.link target) => match links with
    | 0 => .error .tooManyLinks
    | links + 1 => tree.walk links (if (Path.read target).absolute then [] else place)
        ((Path.read target).parts ++ rest)

theorem walk_name {n : String} (hn : ¬ maxNameSize < Utf8.size n) (tree : FileTree) (links : Nat)
    (place : Place) (rest : List Path.Part) : tree.walk links place (.name n :: rest) =
      tree.walkBy links place n rest (tree.entry? (place ++ [n])) := by
  rw [walk, if_neg hn]
  cases tree.entry? (place ++ [n]) with
  | none => rfl
  | some entry =>
    cases entry with
    | directory | file => rfl
    | link target => cases links <;> rfl

theorem seen_walk (links : Nat) (place : Place) (parts : List Path.Part) :
    Seen fun h => h.files.walk links place parts := by
  cases parts with
  | nil =>
    refine (Looks.constant (Except.ok place)).of_eq fun h => ?_
    rw [walk]
  | cons part rest =>
    cases part with
    | here =>
      refine (seen_walk links place rest).of_eq fun h => ?_
      rw [walk]
    | up =>
      refine (seen_walk links place.dropLast rest).of_eq fun h => ?_
      rw [walk]
    | name n =>
      by_cases hn : maxNameSize < Utf8.size n
      · refine (Looks.constant (Except.error FileFault.nameTooLong)).of_eq fun h => ?_
        rw [walk, if_pos hn]
      refine (@Looks.bind _ _ _ _ _ (fun entry h => h.files.walkBy links place n rest entry)
        (@Looks.entry _ _ (place ++ [n]) trivial) fun h _ => ?_).of_eq
          fun h => walk_name hn h.files links place rest
      cases h.files.entry? (place ++ [n]) with
      | none => exact .constant (Except.error FileFault.notFound)
      | some entry =>
        cases entry with
        | directory => exact seen_walk links (place ++ [n]) rest
        | file content =>
          exact .constant (if rest.isEmpty then Except.ok (place ++ [n])
            else .error FileFault.notDirectory)
        | link target =>
          cases links with
          | zero => exact .constant (Except.error FileFault.tooManyLinks)
          | succ links => exact seen_walk links _ _
termination_by (links, parts.length)

theorem seen_find (path : Path) : Seen fun h => h.files.find path := by
  refine looks_find ?_
  exact @Looks.bind _ _ _ _ _ (fun working h =>
    h.files.walk maxLinks (if path.absolute then [] else working) path.parts) Looks.working
      fun h _ => seen_walk maxLinks _ path.parts

theorem seen_entryAt (path : Path) : Seen fun h => h.files.entryAt path :=
  looks_entryAt (seen_find path) fun _ _ _ _ => trivial

theorem seen_readBytes (path : Path) : Seen fun h => h.files.readBytes path :=
  looks_readBytes (seen_entryAt path)

theorem seen_readText (path : Path) : Seen fun h => h.files.readText path :=
  looks_readText (seen_entryAt path)

theorem seen_canonical (path : Path) : Seen fun h => h.files.canonical path :=
  (seen_find path).map fun found => found.map Place.toPath

end FileTree

namespace SandboxedFile

variable (file : SandboxedFile) (raw : String)

theorem seen_resolveIn : Seen fun h => file.resolveIn h.files raw := by
  refine ((FileTree.seen_canonical (file.root.join (.read raw)).normalize).map fun found =>
    file.resolve (fun _ => found.toOption) raw).of_eq fun h => ?_
  rfl

theorem seen_readWith {read : FileTree → Path → Except FileFault α}
    (hr : ∀ path, Seen fun h => read h.files path) :
    Seen fun h => file.readWith h.files (read h.files) raw := by
  refine (@Looks.bind _ _ _ _ _ (fun (resolved : Except PluginError Path) h =>
    resolved.bind fun path => (read h.files path).mapError fun fault =>
      failure s!"failed to read `{raw}`: {fault.message}") (seen_resolveIn file raw)
    fun h _ => ?_).of_eq fun h => ?_
  · cases file.resolveIn h.files raw with
    | error e => exact .constant _
    | ok path => exact (hr path).map (Except.mapError _)
  · rw [readWith]
    cases file.resolveIn h.files raw <;> rfl

theorem seen_readText : Seen fun h => file.readText h.files raw :=
  seen_readWith file raw FileTree.seen_readText

theorem seen_readBytes : Seen fun h => file.readBytes h.files raw :=
  seen_readWith file raw FileTree.seen_readBytes

/-- Whether there is something at a path that has been resolved. -/
def holdsAt (tree : FileTree) : Except PluginError Path → Bool
  | .ok path => tree.holds path
  | .error _ => false

theorem seen_holds : Seen fun h => file.holds h.files raw := by
  refine (@Looks.bind _ _ _ _ _ (fun resolved h => holdsAt h.files resolved)
    (seen_resolveIn file raw) fun h _ => ?_).of_eq fun h => ?_
  · cases file.resolveIn h.files raw with
    | error e => exact .constant false
    | ok path => exact (FileTree.seen_find path).map fun found => found.isOk
  · rw [holds]
    cases file.resolveIn h.files raw <;> rfl

def jsonOf (raw text : String) : Except PluginError Value :=
  match Json.read? text with
  | some json => .ok (.ofJson json)
  | none => .error (failure s!"invalid JSON in `{raw}`: not a document")

/-- What is answered about a path, as it is written. -/
def answer (tree : FileTree) (args : Arguments) (method : String) : Except PluginError Value :=
  match method with
  | "readText" => (file.readText tree raw).map .text
  | "readJson" => (file.readText tree raw).bind (jsonOf raw)
  | "readCsv" => (file.readRows tree (rowFormat args) raw).map fun rows => .list (rows.map .map)
  | "readLines" => (file.readLines tree raw).map fun lines => .list (lines.map .text)
  | "readBytes" => (file.readBytes tree raw).map .bytes
  | _ => .ok (.bool (file.holds tree raw))

theorem call_eq (tree : FileTree) (method : String) (args : Arguments) :
    file.call tree method args =
      (args.text 0).bind fun raw => file.answer raw tree args method := by
  unfold call
  cases args.text 0 <;> rfl

theorem seen_call (method : String) (args : Arguments) :
    Seen fun h => file.call h.files method args := by
  have htext (raw : String) := seen_readText file raw
  refine @Looks.of_eq _ _ _ (fun h => (args.text 0).bind fun raw =>
    file.answer raw h.files args method) _ ?_ fun h => call_eq file h.files method args
  cases args.text 0 with
  | error e => exact .constant (Except.error e)
  | ok raw =>
    change Seen fun h => file.answer raw h.files args method
    unfold answer
    split
    · exact (htext raw).map (Except.map Value.text)
    · exact (htext raw).map fun text => text.bind (jsonOf raw)
    · exact (htext raw).map fun text => (text.map (rowFormat args).records).map fun rows =>
        Value.list (rows.map .map)
    · exact (htext raw).map fun text => (text.map fun text =>
        (Text.linesOf text.toList).map String.ofList).map fun lines =>
          Value.list (lines.map .text)
    · exact (seen_readBytes file raw).map (Except.map Value.bytes)
    · exact (seen_holds file raw).map fun held => Except.ok (Value.bool held)

end SandboxedFile

/-! ## Queries -/

namespace Sql.Session

/-- Queries that are made of single steps, whichever pools are open. -/
def Stepwise (work : Session α) : Prop :=
  ∀ pools, TrieFeed.Stepwise (paired fun h => work.run (pools, h))

theorem stepwise_pure (a : α) : Stepwise (pure a : Session α) :=
  fun pools => .done (Except.ok a, pools)

theorem stepwise_throw (e : PluginError) : Stepwise (throw e : Session α) :=
  fun pools => .done (Except.error e, pools)

theorem stepwise_bind {work : Session α} {next : α → Session β} (hw : Stepwise work)
    (hn : ∀ a, Stepwise (next a)) : Stepwise (work >>= next) := by
  intro pools
  refine (@Confined.bind _ _ _ _ _ (fun (ran : Except PluginError α × Pools) h => match ran with
    | (.ok a, pools) => paired (fun h => (next a).run (pools, h)) h
    | (.error e, pools) => ((.error e, pools), h)) (hw pools) fun h _ => ?_).of_eq fun h => ?_
  · rcases (paired (fun h => work.run (pools, h)) h).1 with ⟨e | a, after⟩
    · exact .done (Except.error e, after)
    · exact hn a after
  · unfold paired
    dsimp only
    rw [Outcome.run_bind]
    rcases work.run (pools, h) with ⟨_ | _, _⟩ <;> rfl

theorem run_host (next : Host → Session α) (s : Pools × Host) :
    (host >>= next).run s = (next s.2).run s := rfl

/-- An empty file is made only in a directory. -/
theorem stepwise_make (above : Place) (name : String) (done failed : α) :
    TrieFeed.Stepwise fun h =>
      if h.files.entry? above = some .directory then
        (done, { h with files := h.files.put (above ++ [name]) (.file []) })
      else (failed, h) := by
  have hl : Seen fun h => h.files.entry? above := .entry trivial
  refine @Looks.follow _ _ _ _ _ (fun entry h =>
    if entry = some .directory then
      (done, { h with files := h.files.put (above ++ [name]) (.file []) })
    else (failed, h)) hl fun h _ => ?_
  split
  · exact Confined.map (fun h _ => ⟨.put trivial _ h, trivial⟩) fun _ => done
  · exact .done failed

/-- The answer and the pools, and the host. -/
abbrev Ended (α : Type) := (Except PluginError α × Pools) × Host

/-- Makes an empty file of a name in a directory that has been found. -/
def madeIn (pools : Pools) (last : Option Path.Part) (above : Except FileFault Place) (h : Host) :
    Ended Unit :=
  match above, last with
  | .ok above, some (.name n) =>
    if h.files.entry? above = some .directory then
      ((.ok (), pools), { h with files := h.files.put (above ++ [n]) (.file []) })
    else ((.error connectionFailure, pools), h)
  | _, _ => ((.error connectionFailure, pools), h)

/-- Opens the file of a path by what is there. -/
def openedAt (pools : Pools) (path : Path) (found : Except FileFault FileEntry) (h : Host) :
    Ended Unit :=
  match found with
  | .ok .directory => ((.error connectionFailure, pools), h)
  | .ok _ => ((.ok (), pools), h)
  | .error _ => madeIn pools path.parts.getLast? (h.files.find ⟨true, path.parts.dropLast⟩) h

theorem stepwise_madeIn (pools : Pools) (last : Option Path.Part) (above : Except FileFault Place) :
    TrieFeed.Stepwise (madeIn pools last above) := by
  unfold madeIn
  split
  · exact stepwise_make _ _ (Except.ok (), pools) (Except.error connectionFailure, pools)
  · exact .done (Except.error connectionFailure, pools)

theorem stepwise_openFile (file : String) : Stepwise (openFile file) := by
  intro pools
  obtain ⟨path, hpath⟩ : ∃ path, path = Path.read file := ⟨_, rfl⟩
  have hfailed : TrieFeed.Stepwise fun h =>
      (((.error connectionFailure, pools) : Except PluginError Unit × Pools), h) := .done _
  by_cases habsolute : path.absolute
  · refine (@Looks.follow _ _ _ _ _ (openedAt pools path) (FileTree.seen_entryAt path)
      fun h _ => ?_).of_eq fun h => ?_
    · cases h.files.entryAt path with
      | ok entry =>
        cases entry with
        | directory => exact hfailed
        | file | link => exact .done (Except.ok (), pools)
      | error fault =>
        exact @Looks.follow _ _ _ _ _ (madeIn pools path.parts.getLast?) (FileTree.seen_find _)
          fun h _ => stepwise_madeIn pools _ _
    · unfold paired openFile openedAt madeIn
      dsimp only
      rw [run_host, ← hpath, if_pos habsolute]
      dsimp only
      cases h.files.entryAt path with
      | ok entry => cases entry <;> rfl
      | error fault =>
        dsimp only
        cases h.files.find ⟨true, path.parts.dropLast⟩ with
        | error fault => rfl
        | ok above =>
          cases path.parts.getLast? with
          | none => rfl
          | some part =>
            cases part with
            | name n =>
              dsimp only
              split <;> rfl
            | here | up => rfl
  · refine (Confined.done (Except.ok (), pools)).of_eq fun h => ?_
    unfold paired openFile
    dsimp only
    rw [run_host, ← hpath, if_neg habsolute]
    rfl

/-- Connects to the server of a host, if it has one. -/
def connectedTo (a : ServerAddress) (pools : Pools) (server : Option Server) (h : Host) :
    Ended Unit :=
  match server with
  | none => ((.error connectionFailure, pools), h)
  | some server =>
    ((if (server.connect a).1 then .ok () else .error connectionFailure, pools),
      { h with server := some (server.connect a).2 })

theorem stepwise_connectServer (url : String) (s : Settings) : Stepwise (connectServer url s) := by
  rw [connectServer]
  cases (Web.Url.read? url).bind ServerAddress.ofUrl? with
  | none => exact stepwise_throw connectionFailure
  | some address =>
    intro pools
    have hl : Seen fun h => h.server := fun h _ => ⟨.server trivial h, trivial⟩
    refine (@Looks.follow _ _ _ _ _ (connectedTo { address with
      user := s.user.or address.user, password := s.password.or address.password } pools) hl
        fun h _ => ?_).of_eq fun h => ?_
    · cases h.server with
      | none => exact .done (Except.error connectionFailure, pools)
      | some server => exact Confined.map (fun h _ => ⟨.setServer trivial _ h, trivial⟩) fun _ => _
    · unfold paired connectedTo
      dsimp only
      rw [run_host]
      dsimp only
      cases h.server with
      | none => rfl
      | some server =>
        dsimp only
        split <;> rfl

theorem stepwise_enter (pool : Pool) : Stepwise (enter pool) := by
  intro pools
  have hc : Host.Aside fun h => { h with poolCount := h.poolCount + 1 } := fun h => ⟨rfl, rfl, rfl⟩
  exact stepwise_aside hc (Except.ok s!"pool-{pools.length}",
    Fields.insert s!"pool-{pools.length}" (some pool) pools)

/-- What the rows of a statement are answered with. -/
def ranOf (rows : Option (List ResultRow)) (changed : Nat) : Except PluginError Ran :=
  match rows with
  | none => .error queryFailure
  | some rows => .ok ⟨rows.map recordOf, changed⟩

theorem stepwise_runOnFile (handle file : String) (changed : Nat) (sql : String)
    (parameters : List Value) : Stepwise (runOnFile handle file changed sql parameters) := by
  intro pools
  have hl : Seen fun h => Fields.get? file h.databases := fun h _ => ⟨.database trivial h, trivial⟩
  refine (@Looks.follow _ _ _ _ _ (fun (database : Option Database) h =>
    let course := (database.getD .empty).runAll (parameters.map Cell.ofValue) changed sql
    ((ranOf course.rows course.changed,
      Fields.insert handle (some (.file file course.lastChanged)) pools),
      { h with databases := Fields.insert file course.database h.databases })) hl
    fun h _ => ?_).of_eq fun h => ?_
  · exact Confined.map (fun h _ => ⟨.store trivial _ h, trivial⟩) fun _ => _
  · unfold paired runOnFile
    dsimp only
    rw [run_host]
    dsimp only
    generalize ((Fields.get? file h.databases).getD Database.empty).runAll _ changed sql = course
    cases course.rows <;> rfl

def replyOf (reply : Option Reply) : Except PluginError Ran :=
  match reply with
  | some r => .ok ⟨Server.Reply.records r, Server.Reply.count r⟩
  | none => .error queryFailure

/-- Runs a statement on the server of a host, if it has one. -/
def ranOn (sql : String) (parameters : List Value) (pools : Pools) (server : Option Server)
    (h : Host) : Ended Ran :=
  match server with
  | none => ((.error queryFailure, pools), h)
  | some server =>
    ((replyOf (server.run sql parameters).1, pools),
      { h with server := some (server.run sql parameters).2 })

theorem stepwise_runOnServer (sql : String) (parameters : List Value) :
    Stepwise (runOnServer sql parameters) := by
  intro pools
  have hl : Seen fun h => h.server := fun h _ => ⟨.server trivial h, trivial⟩
  refine (@Looks.follow _ _ _ _ _ (ranOn sql parameters pools) hl fun h _ => ?_).of_eq fun h => ?_
  · cases h.server with
    | none => exact .done (Except.error queryFailure, pools)
    | some server => exact Confined.map (fun h _ => ⟨.setServer trivial _ h, trivial⟩) fun _ => _
  · unfold paired runOnServer ranOn
    dsimp only
    rw [run_host]
    dsimp only
    cases h.server with
    | none => rfl
    | some server =>
      dsimp only
      rcases server.run sql parameters with ⟨_ | _, _⟩ <;> rfl

theorem built_stepwise : Built Stepwise where
  pure := stepwise_pure
  throw := stepwise_throw
  bind := stepwise_bind
  pools pools := .done (Except.ok pools, pools)
  setPools p _ := .done (Except.ok (), p)
  openFile := stepwise_openFile
  connectServer := stepwise_connectServer
  enter := stepwise_enter
  runOnFile := stepwise_runOnFile
  runOnServer := stepwise_runOnServer

end Sql.Session

/-! ## Calls -/

namespace Capabilities

variable (c : Capabilities) (method : String)

theorem aside_warned (args : Arguments) : Host.Aside (warned method args) := by
  intro h
  unfold warned
  split <;> exact ⟨rfl, rfl, rfl⟩

theorem stepwise_call (capability : Capability) (args : Arguments) :
    Stepwise (paired (c.call capability method args)) := by
  cases capability with
  | log =>
    exact stepwise_aside (Host.aside_write (levelOf method) c.provider (messageText (args.get? 0)))
      (Except.ok Value.null, c)
  | codec =>
    exact stepwise_aside (aside_warned method args) (Capability.callCodec method args, c)
  | sandboxedFile => exact (c.file.seen_call method args).map fun result => (result, c)
  | httpClient =>
    by_cases hw : c.canWait
    · refine (Confined.done (Http.call c.sandbox.allowNetwork method args, c)).of_eq fun h => ?_
      rw [paired, call, if_pos hw]
    · refine (Confined.done (Except.error noRuntime, c)).of_eq fun h => ?_
      rw [paired, call, if_neg hw]
  | relationalQuery =>
    by_cases hw : c.canWait
    · refine ((Sql.Session.built_stepwise.call method args c.pools).map fun ran =>
        (ran.1, { c with pools := ran.2 })).of_eq fun h => ?_
      rw [paired, call, if_pos hw]
      rfl
    · refine (Confined.done (Except.error noRuntime, c)).of_eq fun h => ?_
      rw [paired, call, if_neg hw]
  | hex => exact .done (Capability.callHex method args, c)
  | chainAddress => exact .done (Capability.callAddress method args, c)
  | plutusBuilder => exact .done (Capability.callPlutus method args, c)

theorem stepwise_invoke (object : String) (values : List Value) :
    Stepwise (paired (c.invoke object method values)) := by
  unfold invoke
  split
  · exact Confined.done (Except.error _, c)
  · split
    · exact stepwise_call c method _ _
    · exact Confined.done (Except.error _, c)

theorem stepwise_invokeFromScript (object : String) (values : List Value) :
    Stepwise (paired (c.invokeFromScript object method values)) := by
  refine ((stepwise_invoke c method object values).map fun
    | (.ok v, c) => (.ok v, c)
    | (.error e, c) => (.error e.message, { c with lastFailure := some e })).of_eq fun h => ?_
  unfold paired invokeFromScript
  rcases c.invoke object method values h with ⟨_ | _, _, _⟩ <;> rfl

end Capabilities

end TrieFeed
