import Mathlib.Control.Monad.Basic
import Directives.Expansion

/-! The texts of a tree and their places. A visit to a tree is a visit to each of its texts, from left
to right, after which the values stand where the texts stood. So a visit that fails does so at the
first text that fails, and the failure is placed there. -/
namespace Directives

def Fault.beneath (place : Location) (f : Fault) : Fault := { f with location := place ++ f.location }

@[simp] theorem Fault.bare_beneath (place : Location) (f : Fault) :
    (f.beneath place).bare = f.bare := rfl

/-- An entry of two lists in a row stands in the first or in the second. -/
theorem append_eq_append_cons {α : Type} {first second before after : List α} {a : α}
    (split : first ++ second = before ++ a :: after) :
    (∃ rest, first = before ++ a :: rest) ∨
      ∃ rest, before = first ++ rest ∧ second = rest ++ a :: after := by
  rcases List.append_eq_append_iff.mp split with ⟨rest, rfl, later⟩ | ⟨rest, rfl, later⟩
  · exact .inr ⟨rest, rfl, later⟩
  · cases rest with
    | nil => exact .inr ⟨[], by simp, later.symm⟩
    | cons b rest =>
      obtain ⟨rfl, _⟩ := List.cons.inj later
      exact .inl ⟨rest, rfl⟩

namespace Traced
variable {ι κ σ ε ε' α β : Type} {f : ι → Traced κ σ ε α} {s : σ}

/-- The one answer is the other with a trace in front of it. Where they fail, they may leave different
states. -/
structure Answer.Resumes (answer : Answer κ σ ε α) (trail : List κ) (rest : Answer κ σ ε α) :
    Prop where
  outcome : answer.outcome = rest.outcome
  calls : answer.calls = trail ++ rest.calls
  state : ∀ {a}, rest.outcome = .ok a → answer.state = rest.state

theorem Answer.Resumes.refl (answer : Answer κ σ ε α) : answer.Resumes [] answer := ⟨rfl, rfl, fun _ => rfl⟩

theorem resumes_of_ok {m : Traced κ σ ε α} {a : α} (done : (m s).outcome = .ok a)
    (next : α → Traced κ σ ε β) : ((m >>= next) s).Resumes (m s).calls (next a (m s).state) := by
  rw [bind_of_ok done]
  exact ⟨rfl, rfl, fun _ => rfl⟩

theorem resumes_of_error {m : Traced κ σ ε α} {e : ε} (failed : (m s).outcome = .error e)
    (next : α → Traced κ σ ε β) :
    ((m >>= next) s).Resumes (m s).calls ⟨.error e, (m s).state, []⟩ := by
  rw [bind_of_error failed]
  exact ⟨rfl, (List.append_nil _).symm, fun _ => rfl⟩

theorem bind_calls (m : Traced κ σ ε α) (next : α → Traced κ σ ε β) (s : σ) :
    ∃ rest, ((m >>= next) s).calls = (m s).calls ++ rest := by
  cases outcome : (m s).outcome with
  | ok a => exact ⟨_, (resumes_of_ok outcome next).calls⟩
  | error e => exact ⟨_, (resumes_of_error outcome next).calls⟩

theorem Answer.Resumes.trans {answer middle rest : Answer κ σ ε α} {trail trail' : List κ}
    (first : answer.Resumes trail middle) (second : middle.Resumes trail' rest) :
    answer.Resumes (trail ++ trail') rest where
  outcome := first.outcome.trans second.outcome
  calls := by rw [first.calls, second.calls, List.append_assoc]
  state done := (first.state (second.outcome.trans done)).trans (second.state done)

theorem Answer.Resumes.mapError {m m' : Traced κ σ ε α} {s s' : σ} {trail : List κ}
    (resumes : (m s).Resumes trail (m' s')) (place : ε → ε') :
    (m.mapError place s).Resumes trail (m'.mapError place s') where
  outcome := congrArg (Except.mapError place) resumes.outcome
  calls := resumes.calls
  state done := resumes.state (mapError_outcome_ok.mp done)

theorem Answer.Resumes.bind {m m' : Traced κ σ ε α} {s s' : σ} {trail : List κ}
    (resumes : (m s).Resumes trail (m' s')) (next : α → Traced κ σ ε β) :
    ((m >>= next) s).Resumes trail ((m' >>= next) s') := by
  cases outcome : (m' s').outcome with
  | error e =>
    rw [bind_of_error outcome, bind_of_error (resumes.outcome.trans outcome)]
    exact ⟨rfl, resumes.calls, fun done => nomatch done⟩
  | ok a =>
    rw [bind_of_ok outcome, bind_of_ok (resumes.outcome.trans outcome), resumes.state outcome]
    exact ⟨rfl, by simp only [resumes.calls, List.append_assoc], fun _ => rfl⟩

theorem mapError_mapM (g : ε → ε') (f : ι → Traced κ σ ε α) (is : List ι) :
    (is.mapM f).mapError g = is.mapM fun i => (f i).mapError g := by
  induction is with
  | nil => rfl
  | cons i rest ih =>
    simp only [List.mapM_cons, mapError_bind, ih, mapError_pure]

theorem mapError_id (m : Traced κ σ ε α) : m.mapError id = m := by
  funext s
  cases h : m s with
  | mk outcome state calls => cases outcome <;> simp only [mapError, h] <;> rfl

theorem length_of_mapM {is : List ι} {values : List α} (done : (is.mapM f s).outcome = .ok values) :
    values.length = is.length := by
  induction is generalizing s values with
  | nil => cases done; rfl
  | cons i rest ih =>
    rw [List.mapM_cons] at done
    obtain ⟨a, _, done⟩ := bind_outcome_ok.mp done
    obtain ⟨as, doneRest, done⟩ := bind_outcome_ok.mp done
    cases done
    exact congrArg Nat.succ (ih doneRest)

/-- What follows a pass over a list only matters for as many values as the list is long. -/
theorem mapM_bind_congr {is : List ι} {next next' : List α → Traced κ σ ε β}
    (same : ∀ values, values.length = is.length → next values = next' values) :
    is.mapM f >>= next = is.mapM f >>= next' := by
  funext s
  cases done : (is.mapM f s).outcome with
  | ok values => rw [bind_of_ok done, bind_of_ok done, same values (length_of_mapM done)]
  | error e => rw [bind_of_error done, bind_of_error done]

theorem mapM_split (before : List ι) (i : ι) (after : List ι) :
    (before ++ i :: after).mapM f = before.mapM f >>= fun earlier => f i >>= fun a =>
      after.mapM f >>= fun later => pure (earlier ++ a :: later) := by
  simp only [List.mapM_append, List.mapM_cons, LawfulMonad.bind_assoc, pure_bind]

theorem mapM_cons_of_ok {i : ι} {a : α} (first : (f i s).outcome = .ok a) (rest : List ι) :
    (i :: rest).mapM f s = ⟨(rest.mapM f (f i s).state).outcome.map (a :: ·),
      (rest.mapM f (f i s).state).state, (f i s).calls ++ (rest.mapM f (f i s).state).calls⟩ := by
  rw [List.mapM_cons, bind_of_ok first, bind_pure_apply]

theorem mapM_cons_of_error {i : ι} {e : ε} (first : (f i s).outcome = .error e) (rest : List ι) :
    (i :: rest).mapM f s = ⟨.error e, (f i s).state, (f i s).calls⟩ := by
  rw [List.mapM_cons, bind_of_error first]

/-- A pass over a list that fails does so at the first item that fails. -/
theorem mapM_error {is : List ι} {e : ε} (failed : (is.mapM f s).outcome = .error e) :
    ∃ before i after values, is = before ++ i :: after ∧ (before.mapM f s).outcome = .ok values ∧
      (f i (before.mapM f s).state).outcome = .error e := by
  induction is generalizing s with
  | nil => cases failed
  | cons i rest ih =>
    cases first : (f i s).outcome with
    | error e' =>
      rw [mapM_cons_of_error first] at failed
      cases failed
      exact ⟨[], i, rest, [], rfl, rfl, first⟩
    | ok a =>
      rw [mapM_cons_of_ok first] at failed
      cases later : (rest.mapM f (f i s).state).outcome with
      | ok as => simp [later, Except.map] at failed
      | error e' =>
        obtain rfl : e' = e := by simpa [later, Except.map] using failed
        obtain ⟨before, j, after, values, rfl, passed, refused⟩ := ih later
        refine ⟨i :: before, j, after, a :: values, rfl, ?_, ?_⟩
        · rw [mapM_cons_of_ok first, passed]
          rfl
        · rwa [mapM_cons_of_ok first]

/-- Whatever a pass over a list calls, it calls for one of the items, after all before succeeded. -/
theorem mapM_calls {is : List ι} {earlier later : List κ} {call : κ}
    (split : (is.mapM f s).calls = earlier ++ call :: later) :
    ∃ before i after values b c, is = before ++ i :: after ∧
      (before.mapM f s).outcome = .ok values ∧ earlier = (before.mapM f s).calls ++ b ∧
      (f i (before.mapM f s).state).calls = b ++ call :: c := by
  induction is generalizing s earlier with
  | nil => simp [pure_apply] at split
  | cons i rest ih =>
    cases first : (f i s).outcome with
    | error e =>
      rw [mapM_cons_of_error first] at split
      exact ⟨[], i, rest, [], earlier, later, rfl, rfl, rfl, split⟩
    | ok a =>
      rw [mapM_cons_of_ok first] at split
      rcases append_eq_append_cons split with ⟨c, called⟩ | ⟨b, rfl, called⟩
      · exact ⟨[], i, rest, [], earlier, c, rfl, rfl, rfl, called⟩
      · obtain ⟨before, j, after, values, b, c, rfl, passed, rfl, called⟩ := ih called
        refine ⟨i :: before, j, after, a :: values, b, c, rfl, ?_, ?_, ?_⟩
        · rw [mapM_cons_of_ok first, passed]
          rfl
        · rw [mapM_cons_of_ok first, List.append_assoc]
        · rwa [mapM_cons_of_ok first]

end Traced

namespace Tree
variable {κ σ : Type} {leaf : String → Traced κ σ Fault Tree}

def lower (step : Step) (text : Location × String) : Location × String := (step :: text.1, text.2)

mutual

/-- The texts in a tree with their places, from left to right. -/
def leaves : Tree → List (Location × String)
  | .text raw => [([], raw)]
  | .sequence items => itemLeaves 0 items
  | .mapping fields => fieldLeaves fields
  | _ => []
termination_by structural t => t

def itemLeaves (position : Nat) : List Tree → List (Location × String)
  | [] => []
  | item :: rest => (leaves item).map (lower (.index position)) ++ itemLeaves (position + 1) rest
termination_by structural items => items

def fieldLeaves : List (String × Tree) → List (Location × String)
  | [] => []
  | (key, value) :: rest => (leaves value).map (lower (.key key)) ++ fieldLeaves rest
termination_by structural fields => fields

end

mutual

/-- The tree with other values, from left to right, where its texts stand. -/
def refill : Tree → List Tree → Tree
  | .text raw, values => values.headD (.text raw)
  | .sequence items, values => .sequence (refillItems items values)
  | .mapping fields, values => .mapping (refillFields fields values)
  | scalar, _ => scalar
termination_by structural t => t

def refillItems : List Tree → List Tree → List Tree
  | [], _ => []
  | item :: rest, values =>
    refill item (values.take item.leaves.length) ::
      refillItems rest (values.drop item.leaves.length)
termination_by structural items => items

def refillFields : List (String × Tree) → List Tree → List (String × Tree)
  | [], _ => []
  | (key, value) :: rest, values =>
    (key, refill value (values.take value.leaves.length)) ::
      refillFields rest (values.drop value.leaves.length)
termination_by structural fields => fields

end

def visitLeaf (leaf : String → Traced κ σ Fault Tree) (text : Location × String) :
    Traced κ σ Fault Tree :=
  (leaf text.2).mapError (Fault.beneath text.1)

theorem visitLeaf_lower (step : Step) (texts : List (Location × String)) :
    (texts.map (lower step)).mapM (visitLeaf leaf) =
      (texts.mapM (visitLeaf leaf)).mapError (Fault.under step) := by
  rw [List.mapM_map, Traced.mapError_mapM]
  have each : visitLeaf leaf ∘ lower step = fun text => (visitLeaf leaf text).mapError (Fault.under step) :=
    funext fun text =>
      (Traced.mapError_mapError (Fault.beneath text.1) (Fault.under step) (leaf text.2)).symm
  rw [each]

mutual

theorem visit_eq : ∀ t : Tree,
    t.visit leaf = t.leaves.mapM (visitLeaf leaf) >>= fun values => pure (t.refill values)
  | .text raw => by
    have placed : visitLeaf leaf ([], raw) = leaf raw := Traced.mapError_id (leaf raw)
    simp [visit, leaves, refill, placed]
  | .sequence items => by
    rw [visit, visitItems_eq items 0, leaves]
    simp only [bind_assoc, pure_bind, refill]
  | .mapping fields => by
    rw [visit, visitFields_eq fields, leaves]
    simp only [bind_assoc, pure_bind, refill]
  | .null | .bool _ | .integer _ | .float _ | .duration _ => rfl
termination_by structural t => t

theorem visitItems_eq : ∀ (items : List Tree) (position : Nat),
    visitItems leaf position items =
      (itemLeaves position items).mapM (visitLeaf leaf) >>= fun values =>
        pure (refillItems items values)
  | [], _ => rfl
  | item :: rest, position => by
    rw [visitItems, visit_eq item, visitItems_eq rest (position + 1), itemLeaves, List.mapM_append,
      visitLeaf_lower, Traced.mapError_bind]
    simp only [bind_assoc, pure_bind, Traced.mapError_pure, Traced.mapError_mapM]
    refine Traced.mapM_bind_congr fun values long => ?_
    refine congrArg _ (funext fun others => ?_)
    rw [refillItems, List.take_left' long, List.drop_left' long]
termination_by structural items => items

theorem visitFields_eq : ∀ fields : List (String × Tree),
    visitFields leaf fields =
      (fieldLeaves fields).mapM (visitLeaf leaf) >>= fun values => pure (refillFields fields values)
  | [] => rfl
  | (key, value) :: rest => by
    rw [visitFields, visit_eq value, visitFields_eq rest, fieldLeaves, List.mapM_append,
      visitLeaf_lower, Traced.mapError_bind]
    simp only [bind_assoc, pure_bind, Traced.mapError_pure, Traced.mapError_mapM]
    refine Traced.mapM_bind_congr fun values long => ?_
    refine congrArg _ (funext fun others => ?_)
    rw [refillFields, List.take_left' long, List.drop_left' long]
termination_by structural fields => fields

end

/-- A visit to the tree comes to a text: the visits to all texts before it have succeeded and left this
trail and this state. -/
def Meets (leaf : String → Traced κ σ Fault Tree) (t : Tree) (s : σ) (place : Location) (raw : String)
    (trail : List κ) (s' : σ) : Prop :=
  ∃ before after values, t.leaves = before ++ (place, raw) :: after ∧
    before.mapM (visitLeaf leaf) s = ⟨.ok values, s', trail⟩

section
variable {t : Tree} {s s' : σ} {place : Location} {raw : String} {trail : List κ}

theorem Meets.mem (meets : t.Meets leaf s place raw trail s') : (place, raw) ∈ t.leaves := by
  obtain ⟨before, after, values, split, _⟩ := meets
  rw [split]
  exact List.mem_append_right _ List.mem_cons_self

/-- From one of its texts on, a visit goes on with that text and with those behind it. -/
theorem visit_resumes {before after : List (Location × String)} {values : List Tree}
    (split : t.leaves = before ++ (place, raw) :: after)
    (passed : before.mapM (visitLeaf leaf) s = ⟨.ok values, s', trail⟩) :
    (t.visit leaf s).Resumes trail
      (((leaf raw).mapError (Fault.beneath place) >>= fun value => after.mapM (visitLeaf leaf) >>=
        fun later => pure (t.refill (values ++ value :: later))) s') := by
  have done : (before.mapM (visitLeaf leaf) s).outcome = .ok values := by rw [passed]
  rw [visit_eq, split, Traced.mapM_split]
  simp only [bind_assoc, pure_bind]
  rw [Traced.bind_of_ok done, passed]
  exact ⟨rfl, rfl, fun _ => rfl⟩

theorem visit_error {f : Fault} (failed : (t.visit leaf s).outcome = .error f) :
    ∃ place raw trail s' g, t.Meets leaf s place raw trail s' ∧
      (leaf raw s').outcome = .error g ∧ f = g.beneath place := by
  rw [visit_eq, Traced.bind_pure_apply] at failed
  have swept : (t.leaves.mapM (visitLeaf leaf) s).outcome = .error f := by
    cases outcome : (t.leaves.mapM (visitLeaf leaf) s).outcome with
    | ok values => simp [outcome, Except.map] at failed
    | error g => simpa [outcome, Except.map] using failed
  obtain ⟨before, ⟨place, raw⟩, after, values, split, passed, refused⟩ := Traced.mapM_error swept
  have meets : t.Meets leaf s place raw (before.mapM (visitLeaf leaf) s).calls
      (before.mapM (visitLeaf leaf) s).state :=
    ⟨before, after, values, split, by rw [← passed]⟩
  cases outcome : (leaf raw (before.mapM (visitLeaf leaf) s).state).outcome with
  | ok v => rw [visitLeaf, Traced.mapError_of_ok outcome] at refused; cases refused
  | error g =>
    rw [visitLeaf, Traced.mapError_of_error outcome] at refused
    cases refused
    exact ⟨place, raw, _, _, g, meets, outcome, rfl⟩

theorem visit_calls {earlier later : List κ} {call : κ}
    (split : (t.visit leaf s).calls = earlier ++ call :: later) :
    ∃ place raw trail s' b c, t.Meets leaf s place raw trail s' ∧ earlier = trail ++ b ∧
      (leaf raw s').calls = b ++ call :: c := by
  rw [visit_eq, Traced.bind_pure_apply] at split
  obtain ⟨before, ⟨place, raw⟩, after, values, b, c, texts, passed, rfl, called⟩ :=
    Traced.mapM_calls split
  exact ⟨place, raw, _, _, b, c, ⟨before, after, values, texts, by rw [← passed]⟩, rfl, called⟩

end
end Tree
end Directives
