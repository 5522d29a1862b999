import Directives.Proofs.Nodes
import Directives.Proofs.Numerals
import Directives.Tree.Lookup

/-! Paths as texts. The text that a failure gives for its place is read back as that place, as long as no key
on the way is empty or has a character that separates steps; and only such keys can be read. -/
namespace Directives

/-- A step that a path can name: a key has a character and none that separates steps, and an index is one that
a word can hold. -/
def Step.Nameable : Step → Prop
  | .key name => name ≠ "" ∧ ∀ c ∈ name.toList, c ≠ '.' ∧ c ≠ '[' ∧ c ≠ ']'
  | .index position => (position : Int) ≤ Integer.maxWord64

namespace Location
variable {key text rest : List Char} {steps : Location}

theorem read_point (key rest : List Char) :
    read key none ('.' :: rest) = (read [] none rest).map (keyStep key ++ ·) := by
  simp [read]

theorem read_bracket (key rest : List Char) :
    read key none ('[' :: rest) = (read [] (some []) rest).map (keyStep key ++ ·) := by
  simp [read]

theorem read_name (key : List Char) {name : List Char} (plain : ∀ c ∈ name, c ≠ '.' ∧ c ≠ '[' ∧ c ≠ ']')
    (rest : List Char) : read key none (name ++ rest) = read (key ++ name) none rest := by
  induction name generalizing key with
  | nil => simp
  | cons c name ih =>
    obtain ⟨⟨point, opens, closes⟩, plain⟩ := List.forall_mem_cons.mp plain
    rw [List.cons_append, read, if_neg point, if_neg opens, if_neg closes, ih _ plain]
    simp

theorem read_index (sofar : List Char) {text : List Char} (inside : ']' ∉ text) (rest : List Char) :
    read [] (some sofar) (text ++ ']' :: rest) = do
      let step ← indexStep (sofar ++ text)
      return step :: (← read [] none rest) := by
  induction text generalizing sofar with
  | nil => simp [read]
  | cons c text ih =>
    rw [List.mem_cons, not_or] at inside
    rw [List.cons_append, read, if_neg (Ne.symm inside.1), ih _ inside.2]
    simp

def own : Step → String
  | .key name => name
  | .index position => "[" ++ toString position ++ "]"

/-- What stands behind a step, given the text of those below it. -/
def behind : Option String → String
  | none => ""
  | some inner => if inner.startsWith "[" then inner else "." ++ inner

theorem renderStep_eq (step : Step) (inner : Option String) : renderStep step inner = own step ++ behind inner := by
  have closed (text : String) : "]." ++ text = "]" ++ ("." ++ text) := by
    rw [← String.append_assoc]
    rfl
  match step, inner with
  | .key _, none | .index _, none => exact String.append_empty.symm
  | .key name, some inner =>
    rw [renderStep, behind]
    split
    · rfl
    · exact String.append_assoc
  | .index position, some inner =>
    rw [renderStep, behind]
    split
    · rfl
    · show "[" ++ toString position ++ "]." ++ inner = "[" ++ toString position ++ "]" ++ ("." ++ inner)
      rw [String.append_assoc, closed, ← String.append_assoc]

/-- Behind a key, the text of the steps below it is read as those steps. -/
theorem read_behind {below : Location}
    (reads : ∀ text, render below = some text → read [] none text.toList = .ok below) (key : List Char) :
    read key none (behind (render below)).toList = .ok (keyStep key ++ below) := by
  cases rendered : render below with
  | none =>
    obtain rfl := render_eq_none.mp rendered
    simp [behind, read]
  | some inner =>
    have done := reads inner rendered
    by_cases bracket : inner.startsWith "["
    · obtain ⟨tail, shape⟩ := String.startsWith_string_iff.mp bracket
      have shape : inner.toList = '[' :: tail := shape.symm
      rw [shape, read_bracket] at done
      rw [behind, if_pos bracket, shape, read_bracket]
      cases read : read [] (some []) tail with
      | error malformed => simp [read, Except.map] at done
      | ok steps =>
        obtain rfl : steps = below := by simpa [read, Except.map, keyStep] using done
        rfl
    · rw [behind, if_neg bracket, String.toList_append]
      show read key none ('.' :: inner.toList) = _
      rw [read_point, done]
      rfl

/-- The text of a place is read as its steps, if each of them can be named. -/
theorem read_render (nameable : ∀ step ∈ steps, step.Nameable) {text : String}
    (rendered : render steps = some text) : read [] none text.toList = .ok steps := by
  induction steps generalizing text with
  | nil => cases rendered
  | cons step below ih =>
    obtain ⟨here, nameable⟩ := List.forall_mem_cons.mp nameable
    have rest := read_behind fun text => ih nameable
    cases rendered
    rw [renderStep_eq, String.toList_append]
    cases step with
    | key name =>
      have filled : (name.toList.isEmpty) = false := by simpa using here.1
      rw [own, read_name [] here.2, List.nil_append, rest, keyStep, filled]
      simp
    | index position =>
      have written : (own (.index position)).toList = '[' :: ((toString position).toList ++ [']']) := by
        simp [own, String.toList_append]
      have inside : ']' ∉ (toString position).toList := fun closes =>
        absurd (Integer.isDigit_of_mem_toString closes) (by decide)
      have step : indexStep (toString position).toList = .ok (.index position) := by
        rw [indexStep, String.ofList_toList, Integer.word64OfText_toString here]
      rw [written, List.cons_append, List.append_assoc, read_bracket, List.singleton_append,
        read_index [] inside, List.nil_append, step, rest]
      rfl

theorem ofText_render (nameable : ∀ step ∈ steps, step.Nameable) :
    ofText ((render steps).getD "") = .ok steps := by
  cases rendered : render steps with
  | none =>
    obtain rfl := render_eq_none.mp rendered
    rfl
  | some text => exact read_render nameable rendered

/-! What can be read. -/

theorem nameable_of_mem_keyStep (plain : ∀ c ∈ key, c ≠ '.' ∧ c ≠ '[' ∧ c ≠ ']') {step : Step}
    (member : step ∈ keyStep key) : step.Nameable := by
  rw [keyStep] at member
  split at member
  · cases member
  · next filled =>
    cases List.mem_singleton.mp member
    exact ⟨by simpa using filled, by simpa using plain⟩

theorem nameable_of_indexStep {step : Step} (done : indexStep text = .ok step) : step.Nameable := by
  rw [indexStep] at done
  split at done
  · next position read =>
    cases done
    exact Integer.le_of_word64OfText read
  · cases done

/-- Steps in front of others that were read. -/
theorem nameable_of_map {here : List Step} {below : Except Malformed Location}
    (named : ∀ step ∈ here, step.Nameable)
    (rest : ∀ {steps}, below = .ok steps → ∀ step ∈ steps, step.Nameable)
    (done : below.map (here ++ ·) = .ok steps) : ∀ step ∈ steps, step.Nameable := by
  cases below with
  | error malformed => cases done
  | ok below =>
    cases done
    exact List.forall_mem_append.mpr ⟨named, rest rfl⟩

/-- Whatever is read can be named. -/
theorem nameable_of_read {index : Option (List Char)} (plain : ∀ c ∈ key, c ≠ '.' ∧ c ≠ '[' ∧ c ≠ ']')
    (done : read key index text = .ok steps) : ∀ step ∈ steps, step.Nameable := by
  have empty : ∀ c ∈ ([] : List Char), c ≠ '.' ∧ c ≠ '[' ∧ c ≠ ']' := by simp
  fun_induction read key index text generalizing steps with
  | case1 key =>
    cases done
    exact fun _ => nameable_of_mem_keyStep plain
  | case2 key sofar =>
    cases named : indexStep sofar with
    | error malformed => simp [named, Except.map] at done
    | ok step =>
      obtain rfl : [step] = steps := by simpa [named, Except.map] using done
      exact List.forall_mem_singleton.mpr (nameable_of_indexStep named)
  | case3 key rest sofar ih =>
    cases named : indexStep sofar with
    | error malformed => simp [named, bind, Except.bind] at done
    | ok step =>
      refine nameable_of_map (List.forall_mem_singleton.mpr (nameable_of_indexStep named)) (ih empty) ?_
      rw [named] at done
      exact done
  | case4 key c rest sofar _ ih => exact ih empty done
  | case5 key rest ih => exact nameable_of_map (fun _ => nameable_of_mem_keyStep plain) (ih empty) done
  | case6 key rest _ ih => exact nameable_of_map (fun _ => nameable_of_mem_keyStep plain) (ih empty) done
  | case7 => cases done
  | case8 key c rest point opens closes ih =>
    exact ih (List.forall_mem_append.mpr ⟨plain, List.forall_mem_singleton.mpr ⟨point, opens, closes⟩⟩) done

end Location

namespace Tree
variable {t v : Tree} {steps : Location}

/-- Every value in the tree has a place that can be named. -/
structure Addressable (t : Tree) : Prop where
  keys : ∀ fields, .mapping fields ∈ t.nodes → ∀ field ∈ fields, (Step.key field.1).Nameable
  indices : ∀ items, .sequence items ∈ t.nodes → (items.length : Int) ≤ Integer.maxWord64 + 1

/-- A step into a tree leads into a mapping by one of its keys or into a sequence by one of its indices. -/
theorem child?_eq_some {step : Step} {u : Tree} (child : t.child? step = some u) :
    (∃ fields name, t = .mapping fields ∧ step = .key name ∧ (name, u) ∈ fields) ∨
    ∃ items position, t = .sequence items ∧ step = .index position ∧ position < items.length ∧ u ∈ items := by
  unfold child? at child
  split at child
  · next fields name =>
    obtain ⟨before, after, rfl, _⟩ := List.lookup_eq_some_iff.mp child
    exact .inl ⟨_, name, rfl, rfl, by simp⟩
  · next items position =>
    obtain ⟨inside, _⟩ := List.getElem?_eq_some_iff.mp child
    exact .inr ⟨items, position, rfl, rfl, inside, List.mem_of_getElem? child⟩
  · cases child

theorem nodes_child? {step : Step} {u node : Tree} (child : t.child? step = some u) (member : node ∈ u.nodes) :
    node ∈ t.nodes := by
  obtain ⟨fields, name, rfl, rfl, among⟩ | ⟨items, position, rfl, rfl, _, among⟩ := child?_eq_some child
  · exact List.mem_cons_of_mem _ (mem_nodesOfFields.mpr ⟨_, among, member⟩)
  · exact List.mem_cons_of_mem _ (mem_nodesOfItems.mpr ⟨u, among, member⟩)

theorem Addressable.child {step : Step} {u : Tree} (addressable : t.Addressable)
    (child : t.child? step = some u) : step.Nameable ∧ u.Addressable := by
  refine ⟨?_, fun fields member => addressable.keys fields (nodes_child? child member),
    fun items member => addressable.indices items (nodes_child? child member)⟩
  obtain ⟨fields, name, rfl, rfl, among⟩ | ⟨items, position, rfl, rfl, inside, _⟩ := child?_eq_some child
  · exact addressable.keys fields (mem_nodes_self _) _ among
  · have := addressable.indices items (mem_nodes_self _)
    show (position : Int) ≤ Integer.maxWord64
    omega

theorem Addressable.nameable (addressable : t.Addressable) (found : t.at? steps = some v) :
    ∀ step ∈ steps, step.Nameable := by
  induction steps generalizing t with
  | nil => exact fun _ member => absurd member List.not_mem_nil
  | cons step rest ih =>
    rw [at?, List.foldlM_cons] at found
    obtain ⟨u, child, found⟩ := Option.bind_eq_some_iff.mp found
    obtain ⟨here, below⟩ := addressable.child child
    exact List.forall_mem_cons.mpr ⟨here, ih below found⟩

/-- The text of a place leads to the value there, if each step to it can be named. -/
theorem find_render (nameable : ∀ step ∈ steps, step.Nameable) :
    t.find ((Location.render steps).getD "") = match t.at? steps with
      | some v => .ok v
      | none => .error (pathNotFound ((Location.render steps).getD "")) := by
  have read := Location.ofText_render nameable
  by_cases root : steps = []
  · subst root
    rfl
  · have filled : (Location.render steps).getD "" ≠ "" := by
      intro empty
      rw [empty] at read
      exact root (Except.ok.inj read).symm
    have filled : ((Location.render steps).getD "").isEmpty = false := by simpa using filled
    rw [find, filled, read]
    rfl

end Tree

namespace Location

/-- Each step is put in front of the text that is there. -/
theorem path_under (f : Fault) (step : Step) : (f.under step).path = some (renderStep step f.path) := rfl

/-- The text of the place of a failure that is carried up from where none was known. -/
theorem path_foldr_under {f : Fault} (unplaced : f.path = none) (steps : Location) :
    (steps.foldr Fault.under f).path = render steps := by
  induction steps with
  | nil => exact unplaced
  | cons step below ih => rw [List.foldr_cons, path_under, ih, render]

/-- The text of a failure's place is read as the steps that the failure was carried up, and leads to the value
there; and a text that is read has only steps that can be named, so that its steps are written and read
again. -/
theorem paths_read_back (f : Fault) (unplaced : f.path = none) :
    (∀ steps : Location, steps ≠ [] → (∀ step ∈ steps, step.Nameable) →
      ∃ path, (steps.foldr Fault.under f).path = some path ∧ ofText path = .ok steps ∧
        ∀ t : Tree, t.find path = match t.at? steps with
          | some v => .ok v
          | none => .error (Tree.pathNotFound path)) ∧
    (∀ (t v : Tree) (steps : Location), t.Addressable → t.at? steps = some v →
      t.find ((steps.foldr Fault.under f).path.getD "") = .ok v) ∧
    (∀ text steps, ofText text = .ok steps → (∀ step ∈ steps, step.Nameable) ∧
      ofText ((steps.foldr Fault.under f).path.getD "") = .ok steps) := by
  refine ⟨fun steps below nameable => ?_, fun t v steps addressable found => ?_, fun text steps done => ?_⟩
  · obtain ⟨path, written⟩ := Option.ne_none_iff_exists'.mp (render_eq_none.not.mpr below)
    have read := ofText_render nameable
    have finds := fun t => Tree.find_render (t := t) nameable
    rw [written, Option.getD_some] at read finds
    exact ⟨path, (path_foldr_under unplaced steps).trans written, read, finds⟩
  · rw [path_foldr_under unplaced, Tree.find_render (addressable.nameable found), found]
  · have nameable := nameable_of_read (fun _ member => absurd member List.not_mem_nil) done
    rw [path_foldr_under unplaced]
    exact ⟨nameable, ofText_render nameable⟩

theorem paths_read_back_mixed :
    let steps : Location := [.index 0, .key "servers", .index 2, .key "host"]
    (Fault.parse "bad").path = none ∧ (∀ step ∈ steps, step.Nameable) ∧
      (steps.foldr Fault.under (Fault.parse "bad")).path = some "[0].servers[2].host" ∧
      ofText "[0].servers[2].host" = .ok steps := by
  have nameable : ∀ step ∈ [Step.index 0, .key "servers", .index 2, .key "host"], step.Nameable := by
    simp [Step.Nameable, Integer.maxWord64]
  have written : ([Step.index 0, .key "servers", .index 2, .key "host"].foldr Fault.under
      (Fault.parse "bad")).path = some "[0].servers[2].host" := by
    decide +kernel
  obtain ⟨path, same, read, _⟩ := (paths_read_back (Fault.parse "bad") rfl).1 _ (List.cons_ne_nil _ _) nameable
  cases written.symm.trans same
  exact ⟨rfl, nameable, written, read⟩

end Location
end Directives
