import TrieFeed.Proofs.Script.Failure
import TrieFeed.Proofs.Script.Order
import TrieFeed.Proofs.Script.Unfolding
/-!
# The memory of scripts

Arrays and objects refer to the cells of their parts, freely: two of them can share a part, and a
part can refer back to the whole. The data of the model are trees, and so show the cells only from
outside; the host, which looks no deeper than its limit, cannot tell the difference.
-/
namespace TrieFeed.Script

/-- Whether data have no parts for the host to look at. -/
def Datum.isLeaf : Datum → Bool
  | .list _ | .record _ _ | .units _ | .error _ | .boxed _ | .endless => false
  | _ => true

/-- What stands at one place `ρ` of the memory: leaves, plain arrays and plain objects. -/
inductive Cell (ρ : Type) where
  | leaf (d : Datum) (h : d.isLeaf)
  | array (items : List ρ)
  | object (fields : Fields ρ)

/-- Cells by their places. -/
def Memory (ρ : Type) : Type := ρ → Cell ρ

/-- A view without its parts. -/
def View.bare {δ γ : Type} : View δ → View γ
  | .value v => .value v
  | .fault f => .fault f
  | .list _ => .list []
  | .map _ => .map []

def Cell.view {ρ : Type} : Cell ρ → View ρ
  | .leaf d _ => d.view.bare
  | .array items => .list items
  | .object fields => .map (Datum.listed fields)

/-- Whether a cell has a value if its parts have values. -/
def Cell.HasValue {ρ : Type} : Cell ρ → Prop
  | .leaf d _ => ∃ v, valueOf d = .ok v
  | .array _ | .object _ => True

theorem Datum.isLeaf_view {d : Datum} (h : d.isLeaf) :
    (∃ v, d.view = .value v) ∨ ∃ fault, d.view = .fault fault := by
  cases d with
  | list _ | record _ _ | units _ | error _ | boxed _ | endless => cases h
  | wide n =>
    rw [Datum.view]
    cases Numeral.signedWord? 128 (toString n).toList with
    | none => exact .inr ⟨_, rfl⟩
    | some m => exact .inl ⟨_, rfl⟩
  | function | newable | symbol | settled _ | failed _ | pending => exact .inr ⟨_, rfl⟩
  | undefined | null | gap | bool _ | number _ | text _ | bytes _ | buffer _ => exact .inl ⟨_, rfl⟩

theorem Cell.hasValue_iff {ρ : Type} {c : Cell ρ} :
    c.HasValue ↔ ∀ fault, c.view ≠ .fault fault := by
  cases c with
  | array items => exact iff_of_true trivial nofun
  | object fields => exact iff_of_true trivial nofun
  | leaf d h =>
    rw [HasValue, valueOf, view]
    rcases d.isLeaf_view h with ⟨v, hv⟩ | ⟨fault, hf⟩
    · rw [valueThrough_of_value hv, hv]
      exact iff_of_true ⟨v, rfl⟩ nofun
    · rw [valueThrough_of_fault hf, hf]
      exact iff_of_false nofun fun h => h fault rfl

namespace Memory

variable {ρ : Type}

def view (m : Memory ρ) (a : ρ) : View ρ := (m a).view

/-- The value of what stands at a place. -/
def valueAt (m : Memory ρ) (a : ρ) : Except CrossingFault Value :=
  valueThrough m.view (maxDepth + 1) a

/-- Whether the data look like what stands at the place, however far one looks. -/
def Holds (m : Memory ρ) (a : ρ) (d : Datum) : Prop :=
  ∃ R : Datum → ρ → Prop, R d a ∧ ∀ e b, R e b → e.view.Alike R (m.view b)

theorem Holds.valueOf_eq {m : Memory ρ} {a : ρ} {d : Datum} (h : m.Holds a d) :
    valueOf d = m.valueAt a := by
  obtain ⟨R, hr, ha⟩ := h
  exact valueThrough_eq_of_alike ha hr (maxDepth + 1)

theorem shallow_iff {m : Memory ρ} {a : ρ} :
    Shallow m.view (maxDepth + 1) a ↔ ∀ n b, Way m.view n a b → n ≤ maxDepth := by
  simp only [Shallow, Nat.lt_succ_iff]

theorem clear_iff_hasValue {m : Memory ρ} {a : ρ} :
    Clear m.view a ↔ ∀ n b, Way m.view n a b → (m b).HasValue := by
  simp only [Clear, Cell.hasValue_iff]
  exact ⟨fun h n b hw fault => h n b fault hw, fun h n b fault hw => h n b hw fault⟩

/-- The host finds a value only where no way through the cells is longer than its limit, and the
value is then the tree that they unfold to. It does find one if moreover every cell on a way has a
value. Its errors tell which of the two is missing, and what leads to a circle is always an error. An
entry point whose result stands in the cells has this outcome, with all errors of one kind. -/
theorem valueAt_unfolds (m : Memory ρ) (a : ρ) :
    (∀ v, m.valueAt a = .ok v ↔
      Unfolds m.view a v ∧ ∀ n b, Way m.view n a b → n ≤ maxDepth) ∧
    ((∃ v, m.valueAt a = .ok v) ↔
      (∀ n b, Way m.view n a b → (m b).HasValue) ∧ ∀ n b, Way m.view n a b → n ≤ maxDepth) ∧
    (∀ fault, m.valueAt a = .error fault →
      (fault = .tooDeep ∧ ∃ b, Way m.view (maxDepth + 1) a b) ∨
        ∃ n b, Way m.view n a b ∧ m.view b = .fault fault) ∧
    (∀ k n b, Way m.view k a b → Way m.view (n + 1) b b → ∃ fault, m.valueAt a = .error fault) ∧
    ∀ (e : Engine) (name : String) (args : List Value) (h : Host)
      (dialogue : Dialogue (Except Stop Datum × Datum)) (d : Datum),
      e.Conducts name args dialogue → e.outcomeOf dialogue h = .ok d → m.Holds a d →
      (e.call name args h).1 =
        (m.valueAt a).mapError fun fault => .unsupportedValue fault.message := by
  refine ⟨fun v => ?_, ?_, fun fault hf => of_valueThrough_error hf, ?_, ?_⟩
  · rw [← shallow_iff]
    exact sees m.view (maxDepth + 1) a v
  · rw [← shallow_iff, ← clear_iff_hasValue]
    exact exists_valueThrough_iff
  · intro k n b hw hc
    exact error_of_circle hw hc (maxDepth + 1)
  · intro e name args h dialogue d hd ho ha
    rw [Engine.call_ok hd ho, ha.valueOf_eq]

/-- An object that is its own part. -/
def circle : Memory Unit := fun _ => .object [("self", ())]

/-- An engine whose script comes to such an object. -/
def circleEngine : Engine :=
  ⟨⟨"a", .default, true, ⟨⟨true, [.name "r"]⟩⟩, [], none⟩,
    some ⟨[("fetchData", .function false (.literal .endless))], .null⟩, false⟩

theorem circle_view (a : Unit) : circle.view a = .map [("self", ())] :=
  congrArg View.map (Datum.listed_eq_self_iff.mpr (List.pairwise_singleton _ _))

theorem circle_holds : circle.Holds () .endless := by
  refine ⟨fun d _ => d = .endless, rfl, ?_⟩
  rintro _ b rfl
  rw [circle_view]
  exact .map (.cons ⟨rfl, rfl⟩ .nil)

theorem circle_way : Way circle.view 1 () () :=
  .cons ((shows_map (circle_view ())).mpr ⟨("self", ()), List.mem_cons_self, rfl⟩) (.nil ())

theorem circle_refused :
    circle.Holds () .endless ∧ Way circle.view 1 () () ∧ circle.valueAt () = .error .tooDeep ∧
      (circleEngine.call "fetchData" [] Engine.emptyHost).1 =
        .error (.unsupportedValue
          "value nested deeper than 128 levels (cyclic structure?)") := by
  obtain ⟨-, -, herror, hcircle, hcall⟩ := valueAt_unfolds circle ()
  obtain ⟨fault, hfault⟩ := hcircle 0 0 () (.nil ()) circle_way
  have hdeep : fault = .tooDeep := by
    rcases herror fault hfault with ⟨rfl, -⟩ | ⟨n, b, -, hb⟩
    · rfl
    · cases (circle_view b).symm.trans hb
  rw [hdeep] at hfault
  refine ⟨circle_holds, circle_way, hfault, ?_⟩
  have hconducts : circleEngine.Conducts "fetchData" [] (.ended (.ok .endless, .null)) :=
    ⟨_, _, rfl, rfl, fun c h => rfl⟩
  rw [hcall circleEngine "fetchData" [] Engine.emptyHost _ .endless hconducts rfl circle_holds,
    hfault]
  rfl

end Memory

end TrieFeed.Script
