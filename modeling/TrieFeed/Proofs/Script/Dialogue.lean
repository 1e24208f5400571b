import Mathlib.Tactic.Choose
import TrieFeed.Proofs.Capability.Calls
import TrieFeed.Script.Engine
/-!
# Scripts as dialogues

To its host a script is a dialogue: it calls capabilities, hears what each call yields or the
message of its failure, and goes on by that until it ends. Evaluation has no other way to the host.
-/
namespace TrieFeed.Script

open Outcome (run_pure run_throw run_bind run_tryCatch)

/-- A script as its host sees it. What follows a call decides whether its failure is caught. -/
inductive Dialogue (α : Type) where
  | ended (a : α)
  | asked (object method : String) (values : List Value) (next : Except String Value → Dialogue α)

namespace Dialogue

variable {α β : Type}

/-- One dialogue after another. -/
def followed (d : Dialogue α) (f : α → Dialogue β) : Dialogue β :=
  match d with
  | .ended a => f a
  | .asked object method values next =>
    .asked object method values fun result => (next result).followed f

/-- What a dialogue comes to when its calls are answered. -/
def answered : Dialogue α → Capabilities → Host → α × Capabilities × Host
  | .ended a, c, h => (a, c, h)
  | .asked object method values next, c, h =>
    match c.invokeFromScript object method values h with
    | (result, c, h) => (next result).answered c h

/-- The failures of the calls, in their order. -/
def failures : Dialogue α → Capabilities → Host → List PluginError
  | .ended _, _, _ => []
  | .asked object method values next, c, h =>
    let later := match c.invokeFromScript object method values h with
      | (result, c, h) => (next result).failures c h
    match (c.invoke object method values h).1 with
    | .ok _ => later
    | .error e => e :: later

theorem answered_followed (d : Dialogue α) (f : α → Dialogue β) (c : Capabilities) (h : Host) :
    (d.followed f).answered c h =
      match d.answered c h with
      | (a, c, h) => (f a).answered c h := by
  induction d generalizing c h with
  | ended a => rfl
  | asked object method values next ih =>
    rw [followed, answered, answered]
    exact ih ..

theorem answered_keeps (d : Dialogue α) (c : Capabilities) (h : Host) :
    (d.answered c h).2.1.provider = c.provider ∧
      (d.answered c h).2.2.engines = h.engines := by
  induction d generalizing c h with
  | ended a => exact ⟨rfl, rfl⟩
  | asked object method values next ih =>
    obtain ⟨hp, he⟩ := c.invokeFromScript_keeps object method values h
    rw [answered]
    rcases hi : c.invokeFromScript object method values h with ⟨result, c', h'⟩
    rw [hi] at hp he
    exact ⟨(ih result c' h').1.trans hp, (ih result c' h').2.trans he⟩

end Dialogue

/-! ## Steps of a run -/

variable {α β : Type} {run : Run α}

/-- From a state of the script on, the run is the dialogue. -/
def Speaks (run : Run α) (state : Datum) (d : Dialogue (Except Stop α × Datum)) : Prop :=
  ∀ c h, run.run ⟨c, h, state⟩ =
    match d.answered c h with
    | ((result, state), c, h) => (result, ⟨c, h, state⟩)

/-- From every state on, the run is some dialogue. -/
def Spoken (run : Run α) : Prop := ∀ state, ∃ d, Speaks run state d

theorem spoken_pure (a : α) : Spoken (pure a : Run α) :=
  fun state => ⟨.ended (.ok a, state), fun _ _ => run_pure ..⟩

theorem spoken_throw (stop : Stop) : Spoken (throw stop : Run α) :=
  fun state => ⟨.ended (.error stop, state), fun _ _ => run_throw ..⟩

theorem spoken_setState (d : Datum) : Spoken (setState d) :=
  fun _ => ⟨.ended (.ok (), d), fun _ _ => rfl⟩

theorem spoken_state (f : Datum → α) : Spoken (do return f (← get).state : Run α) :=
  fun state => ⟨.ended (.ok (f state), state), fun _ _ => rfl⟩

theorem spoken_bind {next : α → Run β} (hr : Spoken run) (hn : ∀ a, Spoken (next a)) :
    Spoken (run >>= next) := by
  intro state
  obtain ⟨d, hd⟩ := hr state
  choose follow hf using hn
  refine ⟨d.followed fun
    | (.ok a, state) => follow a state
    | (.error stop, state) => .ended (.error stop, state), fun c h => ?_⟩
  rw [run_bind, hd c h, Dialogue.answered_followed]
  rcases d.answered c h with ⟨⟨_ | a, after⟩, c', h'⟩
  · rfl
  · exact hf a after c' h'

theorem spoken_tryCatch {handler : Stop → Run α} (hr : Spoken run)
    (hn : ∀ stop, Spoken (handler stop)) : Spoken (tryCatch run handler) := by
  intro state
  obtain ⟨d, hd⟩ := hr state
  choose follow hf using hn
  refine ⟨d.followed fun
    | (.ok a, state) => .ended (.ok a, state)
    | (.error stop, state) => follow stop state, fun c h => ?_⟩
  rw [run_tryCatch, hd c h, Dialogue.answered_followed]
  rcases d.answered c h with ⟨⟨stop | _, after⟩, c', h'⟩
  · exact hf stop after c' h'
  · rfl

theorem spoken_mapM {f : α → Run β} (as : List α) (hf : ∀ a ∈ as, Spoken (f a)) :
    Spoken (as.mapM f) := by
  induction as with
  | nil =>
    rw [List.mapM_nil]
    exact spoken_pure []
  | cons a as ih =>
    rw [List.mapM_cons]
    refine spoken_bind (hf a List.mem_cons_self) fun b => ?_
    refine spoken_bind (ih fun a ha => hf a (List.mem_cons_of_mem _ ha)) fun bs => ?_
    exact spoken_pure _

theorem spoken_foldlM {f : β → α → Run β} (hf : ∀ b a, Spoken (f b a)) (as : List α) (b : β) :
    Spoken (as.foldlM f b) := by
  induction as generalizing b with
  | nil =>
    rw [List.foldlM_nil]
    exact spoken_pure b
  | cons a as ih =>
    rw [List.foldlM_cons]
    exact spoken_bind (hf b a) ih

theorem spoken_orThrow (r : Except Datum.Fault α) : Spoken (orThrow r) := by
  cases r with
  | ok a => exact spoken_pure a
  | error fault => exact spoken_throw _

theorem spoken_crossing (d : Datum) : Spoken (crossing d) := by
  unfold crossing
  split
  · exact spoken_pure _
  · exact spoken_throw _

theorem spoken_checkReadable (d : Datum) : Spoken (checkReadable d) := by
  unfold checkReadable
  split
  · exact spoken_throw _
  · exact spoken_throw _
  · exact spoken_throw _
  · exact spoken_pure _

theorem spoken_outcome (d : Datum) : Spoken (outcome d) := by
  unfold outcome
  split
  · exact spoken_pure _
  · exact spoken_throw _
  · exact spoken_throw _
  · exact spoken_pure _

/-- What a script hears of a call. -/
def heard : Except String Value → Except Stop Datum
  | .ok v => .ok (datumOf v)
  | .error message => .error (.thrown (.error message))

/-- A call of the host, once its arguments have crossed. -/
def tell (object method : String) (values : List Value) : Run Datum := do
  let m ← get
  let (result, capabilities, host) := m.capabilities.invokeFromScript object method values m.host
  set { m with capabilities, host }
  match result with
  | .ok v => return datumOf v
  | .error message => throw (.thrown (.error message))

theorem callHost_eq (object method : String) (args : List Datum) :
    callHost object method args = args.mapM crossing >>= tell object method := rfl

theorem run_tell (object method : String) (values : List Value) (c : Capabilities) (h : Host)
    (state : Datum) : (tell object method values).run ⟨c, h, state⟩ =
      match c.invokeFromScript object method values h with
      | (result, c, h) => (heard result, ⟨c, h, state⟩) := by
  have hs : ∀ told : Except String Value × Capabilities × Host,
      (match told with
        | (result, capabilities, host) => do
          set (⟨capabilities, host, state⟩ : Machine)
          match result with
          | .ok v => return datumOf v
          | .error message => throw (.thrown (.error message)) : Run Datum).run ⟨c, h, state⟩ =
        match told with
        | (result, c, h) => (heard result, ⟨c, h, state⟩) := by
    rintro ⟨_ | _, c', h'⟩ <;> rfl
  exact hs (c.invokeFromScript object method values h)

theorem spoken_callHost (object method : String) (args : List Datum) :
    Spoken (callHost object method args) := by
  rw [callHost_eq]
  refine spoken_bind (spoken_mapM args fun d _ => spoken_crossing d) fun values state => ?_
  refine ⟨.asked object method values fun result => .ended (heard result, state), fun c h => ?_⟩
  rw [run_tell, Dialogue.answered]
  rfl

mutual

theorem eval_spoken : ∀ (s : Scope) (e : Expr), Spoken (eval s e)
  | s, .literal d => by rw [eval]; exact spoken_pure d
  | s, .argument i => by rw [eval]; exact spoken_pure _
  | s, .argumentCount => by rw [eval]; exact spoken_pure _
  | s, .field e name => by
    rw [eval]
    refine spoken_bind (eval_spoken s e) fun d => ?_
    exact spoken_bind (spoken_checkReadable d) fun _ => spoken_pure _
  | s, .call object method args => by
    rw [eval]
    split
    · exact spoken_throw _
    · exact spoken_bind (evalAll_spoken s args) fun _ => spoken_throw _
    · exact spoken_bind (evalAll_spoken s args) fun ds => spoken_callHost _ _ ds
  | s, .dispatch object method args => by
    rw [eval]
    exact spoken_bind (evalAll_spoken s args) fun ds => spoken_callHost _ _ ds
  | s, .raise message => by rw [eval]; exact spoken_throw _
  | s, .raiseDatum d => by rw [eval]; exact spoken_throw _
  | s, .list items => by
    rw [eval]
    exact spoken_bind (evalAll_spoken s items) fun _ => spoken_pure _
  | s, .record fields => by
    rw [eval]
    exact spoken_bind (evalFields_spoken s fields) fun _ => spoken_pure _
  | s, .attempt body handler => by
    rw [eval]
    refine spoken_tryCatch (eval_spoken s body) fun stop => ?_
    cases stop with
    | thrown d => exact eval_spoken _ handler
    | stuck => exact spoken_throw _
  | s, .caughtMessage => by
    rw [eval]
    split
    · exact spoken_bind (spoken_checkReadable _) fun _ => spoken_pure _
    · exact spoken_throw _
  | s, .raiseCaught => by
    rw [eval]
    split
    · exact spoken_throw _
    · exact spoken_throw _
  | s, .kindOf e => by
    rw [eval]
    exact spoken_bind (eval_spoken s e) fun _ => spoken_pure _
  | s, .state => by rw [eval]; exact spoken_state id
  | s, .setState e => by
    rw [eval]
    refine spoken_bind (eval_spoken s e) fun d => ?_
    exact spoken_bind (spoken_setState d) fun _ => spoken_pure d
  | s, .add a b => by
    rw [eval]
    refine spoken_bind (eval_spoken s a) fun x => ?_
    exact spoken_bind (eval_spoken s b) fun y => spoken_orThrow _
  | s, .greater a b => by
    rw [eval]
    refine spoken_bind (eval_spoken s a) fun x => ?_
    refine spoken_bind (eval_spoken s b) fun y => ?_
    exact spoken_bind (spoken_orThrow _) fun _ => spoken_pure _
  | s, .choose condition yes no => by
    rw [eval]
    refine spoken_bind (eval_spoken s condition) fun d => ?_
    split
    · exact eval_spoken s yes
    · exact eval_spoken s no
  | s, .sequence es => by
    rw [eval]
    exact spoken_bind (evalAll_spoken s es) fun _ => spoken_pure _
  | s, .forEach e body => by
    rw [eval]
    refine spoken_bind (eval_spoken s e) fun d => ?_
    refine spoken_bind (spoken_checkReadable d) fun _ => ?_
    split
    · refine spoken_bind (spoken_mapM _ fun d _ => ?_) fun _ => spoken_pure _
      split
      · exact spoken_pure _
      · exact eval_spoken _ body
    · refine spoken_bind (spoken_mapM _ fun n _ => ?_) fun _ => spoken_pure _
      exact spoken_bind (eval_spoken _ body) fun d => spoken_orThrow _
    · exact spoken_throw _
  | s, .item => by rw [eval]; exact spoken_pure _
  | s, .size e => by
    rw [eval]
    refine spoken_bind (eval_spoken s e) fun d => ?_
    exact spoken_bind (spoken_checkReadable d) fun _ => spoken_pure _
  | s, .document e => by
    rw [eval]
    refine spoken_bind (eval_spoken s e) fun d => ?_
    refine spoken_bind (spoken_orThrow _) fun text => ?_
    split
    · exact spoken_pure _
    · exact spoken_pure _
  | s, .settled e => by
    rw [eval]
    exact spoken_bind (eval_spoken s e) fun _ => spoken_pure _
  | s, .failed message => by rw [eval]; exact spoken_pure _
  | s, .pending => by rw [eval]; exact spoken_pure _
  | s, .wait e => by
    rw [eval]
    exact spoken_bind (eval_spoken s e) fun d => spoken_outcome _
  | s, .ownKind name => by rw [eval]; exact spoken_pure _

theorem evalAll_spoken : ∀ (s : Scope) (es : List Expr), Spoken (evalAll s es)
  | s, [] => by rw [evalAll]; exact spoken_pure []
  | s, e :: rest => by
    rw [evalAll]
    refine spoken_bind (eval_spoken s e) fun d => ?_
    exact spoken_bind (evalAll_spoken s rest) fun _ => spoken_pure _

theorem evalFields_spoken : ∀ (s : Scope) (fields : List (String × Expr)),
    Spoken (evalFields s fields)
  | s, [] => by rw [evalFields]; exact spoken_pure []
  | s, (name, e) :: rest => by
    rw [evalFields]
    refine spoken_bind (eval_spoken s e) fun d => ?_
    exact spoken_bind (evalFields_spoken s rest) fun _ => spoken_pure _

end

theorem callExport_spoken (m : Module) (e : Export) (args : List Datum) :
    Spoken (m.callExport e args) := by
  unfold Module.callExport
  dsimp only
  split
  · refine spoken_bind (eval_spoken _ _) fun d => ?_
    split
    · exact spoken_outcome _
    · exact spoken_outcome _
  · exact spoken_throw _
  · exact spoken_pure _

theorem bindEntry_spoken (b : Module.Bindings) (e : Entry) : Spoken (Module.bindEntry b e) := by
  unfold Module.bindEntry
  dsimp only
  split
  · exact spoken_pure _
  · exact spoken_pure _
  · exact spoken_pure _
  · exact spoken_pure _
  · exact spoken_pure _
  · exact spoken_pure _
  · exact spoken_bind (eval_spoken _ _) fun _ => spoken_pure _
  · exact spoken_bind (eval_spoken _ _) fun _ => spoken_pure _
  · exact spoken_bind (eval_spoken _ _) fun _ => spoken_pure _

theorem load_spoken (s : Program) : Spoken (Module.load s) := by
  refine spoken_bind (spoken_setState _) fun _ => ?_
  refine spoken_bind (spoken_foldlM bindEntry_spoken _ _) fun bindings => ?_
  exact spoken_state fun state => (⟨bindings.captured, state⟩ : Module)

end TrieFeed.Script
