import TrieFeed.Proofs.Script.Dialogue
import TrieFeed.Proofs.Text.Occurrence
/-!
# Failures that come out of scripts

Of the failures of capability calls only the last one is kept while an entry point runs. So a
failure that leaves the entry point keeps its kind exactly when no other one came after it, whether
or not those were caught.
-/
namespace TrieFeed

namespace Script

namespace Dialogue

variable {α : Type} {object method : String} {values : List Value}
  {next : Except String Value → Dialogue α} {c c' : Capabilities} {h h' : Host}

theorem answered_ok {v : Value} (hi : c.invoke object method values h = (.ok v, c', h')) :
    (asked object method values next).answered c h = (next (.ok v)).answered c' h' := by
  rw [answered, Capabilities.invokeFromScript, hi]

theorem answered_error {e : PluginError}
    (hi : c.invoke object method values h = (.error e, c', h')) :
    (asked object method values next).answered c h =
      (next (.error e.message)).answered { c' with lastFailure := some e } h' := by
  rw [answered, Capabilities.invokeFromScript, hi]

theorem failures_ok {v : Value} (hi : c.invoke object method values h = (.ok v, c', h')) :
    (asked object method values next).failures c h = (next (.ok v)).failures c' h' := by
  rw [failures, Capabilities.invokeFromScript, hi]

theorem failures_error {e : PluginError}
    (hi : c.invoke object method values h = (.error e, c', h')) :
    (asked object method values next).failures c h =
      e :: (next (.error e.message)).failures { c' with lastFailure := some e } h' := by
  rw [failures, Capabilities.invokeFromScript, hi]

/-- What the host keeps at the end of a dialogue is the failure that came last. -/
theorem answered_lastFailure (d : Dialogue α) (c : Capabilities) (h : Host) :
    (d.answered c h).2.1.lastFailure = (d.failures c h).getLast?.or c.lastFailure := by
  induction d generalizing c h with
  | ended a => rfl
  | asked object method values next ih =>
    rcases hi : c.invoke object method values h with ⟨e | v, c', h'⟩
    · rw [answered_error hi, failures_error hi, ih, List.getLast?_cons]
      cases (failures _ _ h').getLast? <;> rfl
    · have hk := (c.invoke_keeps object method values h).1
      rw [hi] at hk
      rw [answered_ok hi, failures_ok hi, ih, hk]

end Dialogue

/-- How the failure of a call is thrown. -/
def thrownFailure (f : PluginError) : Stop := .thrown (.error f.message)

theorem contains_thrownFailure (f : PluginError) :
    Text.contains (thrownFailure f).message f.message :=
  Text.contains_of_append "Error: " "\n" rfl

namespace Engine

open Outcome (run_pure run_bind run_tryCatch)

variable {e : Engine} {name : String} {args : List Value} {h : Host} {stop : Stop}
  {d : Dialogue (Except Stop Datum × Datum)}

/-- The engine's script has the entry point, and calling it is the dialogue. -/
def Conducts (e : Engine) (name : String) (args : List Value)
    (d : Dialogue (Except Stop Datum × Datum)) : Prop :=
  ∃ m function, e.module = some m ∧
    (Fields.get? name m.exports).filter Export.isFunction = some function ∧
    Speaks (m.callExport function (args.map datumOf)) m.state d

theorem exists_conducts (hn : e.hasEntryPoint name) (args : List Value) :
    ∃ d, e.Conducts name args d := by
  rw [hasEntryPoint, Option.any_eq_true] at hn
  obtain ⟨m, hm, hf⟩ := hn
  rw [Module.isEntryPoint, Option.any_eq_true] at hf
  obtain ⟨function, hg, hi⟩ := hf
  obtain ⟨d, hd⟩ := callExport_spoken m function (args.map datumOf) m.state
  exact ⟨d, m, function, hm, by rw [hg, Option.filter_some, if_pos hi], hd⟩

/-- The failures of the capability calls that an entry point makes. Failures of earlier runs are
forgotten when it starts. -/
def failuresOf (e : Engine) (d : Dialogue (Except Stop Datum × Datum)) (h : Host) :
    List PluginError := d.failures e.capabilities.clearFailure h

def outcomeOf (e : Engine) (d : Dialogue (Except Stop Datum × Datum)) (h : Host) :
    Except Stop Datum := (d.answered e.capabilities.clearFailure h).1.1

/-- The outcome of an entry point is the value of what it comes to. If it stopped, its error is the
failure that came last, if this shows in what was thrown, and else an error of the script. -/
theorem call_eq (hd : e.Conducts name args d) :
    (e.call name args h).1 = match e.outcomeOf d h with
      | .ok datum => (valueOf datum).mapError fun fault => .unsupportedValue fault.message
      | .error stop => .error (((e.failuresOf d h).getLast?.filter fun f =>
        Text.contains stop.message f.message).getD (.script e.provider name stop.message)) := by
  obtain ⟨m, function, hm, hf, hr⟩ := hd
  have hl := d.answered_lastFailure e.capabilities.clearFailure h
  have hp := (d.answered_keeps e.capabilities.clearFailure h).1
  have hrun := hr e.capabilities.clearFailure h
  rw [outcomeOf, call, hm]
  dsimp only
  rw [hf]
  dsimp only
  rw [runWith, hrun]
  rcases ha : d.answered e.capabilities.clearFailure h with ⟨⟨result, state⟩, c, h'⟩
  rw [ha] at hl hp
  dsimp only at hl hp ⊢
  cases result with
  | ok datum => rfl
  | error stop =>
    have hlast : c.lastFailure = (e.failuresOf d h).getLast? := hl.trans Option.or_none
    have hprovider : c.provider = e.provider := hp
    dsimp only
    rw [failureOf, Capabilities.takeFailure, hlast]
    cases (e.failuresOf d h).getLast?.filter fun f => Text.contains stop.message f.message with
    | none =>
      change Except.error (PluginError.script c.provider name stop.message) = _
      rw [hprovider]
      rfl
    | some f => rfl

theorem call_ok {datum : Datum} (hd : e.Conducts name args d) (ho : e.outcomeOf d h = .ok datum) :
    (e.call name args h).1 =
      (valueOf datum).mapError fun fault => .unsupportedValue fault.message := by
  rw [call_eq hd, ho]

theorem call_error (hd : e.Conducts name args d) (hs : e.outcomeOf d h = .error stop) :
    (e.call name args h).1 = .error (((e.failuresOf d h).getLast?.filter fun f =>
      Text.contains stop.message f.message).getD (.script e.provider name stop.message)) := by
  rw [call_eq hd, hs]

theorem call_error_last {f : PluginError} (hd : e.Conducts name args d)
    (hs : e.outcomeOf d h = .error (thrownFailure f)) (hl : (e.failuresOf d h).getLast? = some f) :
    (e.call name args h).1 = .error f := by
  rw [call_error hd hs, hl, Option.filter_some, if_pos (contains_thrownFailure f)]
  rfl

theorem call_error_other {last : PluginError} (hd : e.Conducts name args d)
    (hs : e.outcomeOf d h = .error stop) (hl : (e.failuresOf d h).getLast? = some last) :
    (e.call name args h).1 = .error (if Text.contains stop.message last.message then last
      else .script e.provider name stop.message) := by
  rw [call_error hd hs, hl, Option.filter_some]
  split <;> rfl

theorem contains_script (provider name reason : String) :
    Text.contains (PluginError.script provider name reason).message reason :=
  Text.contains_of_append s!"`{name}` failed in `{provider}`: " "" (String.append_empty).symm

/-- An error of the script that quotes what was thrown is longer than that. -/
theorem script_ne (f : PluginError) (provider : String) :
    PluginError.script provider name (thrownFailure f).message ≠ f := by
  intro he
  have hc := contains_script provider name (thrownFailure f).message
  rw [he] at hc
  have hl := Text.length_le_of_contains hc
  have ht : (thrownFailure f).message = "Error: " ++ f.message ++ "\n" := rfl
  have hn : "Error: ".length = 7 := by decide
  rw [ht, String.length_append, String.length_append, hn] at hl
  omega

/-- An entry point that stops without a failure of its capability calls has an error of the script,
whatever failed before it was called. A failure that leaves the entry point is its error exactly
when it is the failure that came last: any other one that came later, caught or not, is the error
instead if its message shows in what was thrown, and else an error of the script is. -/
theorem failure_kept_iff (e : Engine) (name : String) (args : List Value) (h : Host) :
    (e.hasEntryPoint name → ∃ d, e.Conducts name args d) ∧
    ∀ d stop, e.Conducts name args d → e.outcomeOf d h = .error stop →
      (e.failuresOf d h = [] →
        (e.call name args h).1 = .error (.script e.provider name stop.message)) ∧
      ∀ f ∈ e.failuresOf d h, stop = thrownFailure f →
        ((e.call name args h).1 = .error f ↔ (e.failuresOf d h).getLast? = some f) ∧
        ∀ last, (e.failuresOf d h).getLast? = some last → last ≠ f →
          (e.call name args h).1 = .error (if Text.contains stop.message last.message then last
            else .script e.provider name stop.message) := by
  refine ⟨fun hn => exists_conducts hn args, fun d stop hd hs => ⟨fun hf => ?_, ?_⟩⟩
  · rw [call_error hd hs, hf]
    rfl
  · rintro f hf rfl
    refine ⟨⟨fun hc => ?_, call_error_last hd hs⟩, fun last hl _ => call_error_other hd hs hl⟩
    obtain ⟨last, hl⟩ := Option.isSome_iff_exists.mp
      (List.getLast?_isSome.mpr (List.ne_nil_of_mem hf))
    rw [call_error_other hd hs hl] at hc
    split at hc
    · rw [hl, Except.error.inj hc]
    · exact absurd (Except.error.inj hc) (script_ne f e.provider)

/-- A path that leads out of the directory by its parts alone is refused. -/
theorem invoke_outside (c : Capabilities) (raw : String)
    (ho : ((c.file.root.join (.read raw)).normalize.startsWith c.file.root) = false) (h : Host) :
    c.invoke "sandboxedFile" "readText" [.text raw] h = (.error (c.file.escape raw), c, h) := by
  have ht : c.file.readText h.files raw = .error (c.file.escape raw) := by
    rw [SandboxedFile.readText, SandboxedFile.readWith, SandboxedFile.resolveIn,
      SandboxedFile.resolve, ho]
    rfl
  have hc : c.file.call h.files "readText" ⟨"sandboxedFile", "readText", [.text raw]⟩ =
      .error (c.file.escape raw) := by
    change (c.file.readText h.files raw >>= fun s => Except.ok (Value.text s)) = _
    rw [ht]
    rfl
  have hf : Capability.find? "sandboxedFile" = some .sandboxedFile := by decide
  rw [Capabilities.invoke, hf]
  dsimp only
  rw [if_pos (by decide), if_neg (by decide), Capabilities.call]
  exact congrArg (fun r => (r, c, h)) hc

/-- Reads a file outside of its directory and, before it lets the failure through, another, whose
failure it catches. -/
def cleaningBody : Expr :=
  .attempt (.sequence [.dispatch "sandboxedFile" "readText" [.literal (.text "../x")],
      .literal .null])
    (.sequence [.attempt (.dispatch "sandboxedFile" "readText" [.literal (.text "../y")])
      (.literal .null), .raiseCaught])

def cleaningDialogue : Dialogue (Except Stop Datum × Datum) :=
  .asked "sandboxedFile" "readText" [.text "../x"] fun
    | .ok _ => .ended (.ok .null, .null)
    | .error message => .asked "sandboxedFile" "readText" [.text "../y"] fun _ =>
      .ended (.error (.thrown (.error message)), .null)

def cleaningEngine : Engine :=
  ⟨⟨"a", .default, true, ⟨⟨true, [.name "r"]⟩⟩, [], none⟩,
    some ⟨[("fetchData", .function false cleaningBody)], .null⟩, false⟩

theorem callHost_text (object method s : String) :
    callHost object method [.text s] = tell object method [.text s] := rfl

theorem cleaning_conducts : cleaningEngine.Conducts "fetchData" [] cleaningDialogue := by
  refine ⟨_, _, rfl, rfl, fun c h => ?_⟩
  rw [cleaningDialogue, Dialogue.answered]
  simp only [Module.callExport, cleaningBody, eval, evalAll, run_bind, run_tryCatch, run_pure,
    callHost_text, run_tell]
  rcases c.invokeFromScript "sandboxedFile" "readText" [.text "../x"] h with ⟨message | v, c', h'⟩
  · simp only [heard, Dialogue.answered, run_bind, run_tryCatch, run_pure, callHost_text, run_tell]
    rcases c'.invokeFromScript "sandboxedFile" "readText" [.text "../y"] h' with
      ⟨_ | _, c'', h''⟩ <;> rfl
  · rfl

def emptyHost : Host := .ofFiles ⟨[], []⟩

/-- How the directory of the engine refuses a path. -/
def escape (raw : String) : PluginError := cleaningEngine.capabilities.file.escape raw

theorem cleaning_fails :
    cleaningEngine.outcomeOf cleaningDialogue emptyHost = .error (thrownFailure (escape "../x")) ∧
      cleaningEngine.failuresOf cleaningDialogue emptyHost = [escape "../x", escape "../y"] := by
  let c := cleaningEngine.capabilities.clearFailure
  have hx := invoke_outside c "../x" (by decide) emptyHost
  have hy := invoke_outside { c with lastFailure := some (c.file.escape "../x") } "../y"
    (by decide) emptyHost
  rw [outcomeOf, failuresOf, cleaningDialogue, Dialogue.answered_error hx,
    Dialogue.failures_error hx]
  dsimp only
  rw [Dialogue.answered_error hy, Dialogue.failures_error hy]
  exact ⟨rfl, rfl⟩

/-- The failure that leaves the entry point is lost to the one that was caught. -/
theorem failure_lost_to_caught :
    cleaningEngine.Conducts "fetchData" [] cleaningDialogue ∧
    cleaningEngine.failuresOf cleaningDialogue emptyHost = [escape "../x", escape "../y"] ∧
    cleaningEngine.outcomeOf cleaningDialogue emptyHost = .error (thrownFailure (escape "../x")) ∧
    (cleaningEngine.call "fetchData" [] emptyHost).1 ≠ .error (escape "../x") ∧
    (cleaningEngine.call "fetchData" [] emptyHost).1 =
      .error (.script "a" "fetchData" (thrownFailure (escape "../x")).message) := by
  obtain ⟨hs, hf⟩ := cleaning_fails
  obtain ⟨-, hkept⟩ := (failure_kept_iff cleaningEngine "fetchData" [] emptyHost).2
    cleaningDialogue _ cleaning_conducts hs
  obtain ⟨hiff, hother⟩ := hkept (escape "../x") (by rw [hf]; exact List.mem_cons_self) rfl
  have hl : (cleaningEngine.failuresOf cleaningDialogue emptyHost).getLast? =
      some (escape "../y") := by rw [hf]; rfl
  have hd : escape "../y" ≠ escape "../x" := by decide
  refine ⟨cleaning_conducts, hf, hs,
    fun hc => hd (Option.some.inj (hl.symm.trans (hiff.mp hc))), ?_⟩
  rw [hother _ hl hd, if_neg (by decide)]
  rfl

end Engine

end Script

end TrieFeed
