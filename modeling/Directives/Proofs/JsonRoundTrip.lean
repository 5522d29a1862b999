import Directives.Proofs.JsonTokens
import Directives.Proofs.Nodes
import Directives.Source

/-! Trees that are written as JSON texts and read again. Nothing is lost but what JSON cannot say: floats
may be read as others, durations become objects, and containers may only nest so deep. -/
namespace Directives

namespace Document
open Json

mutual

def depth : Document → Nat
  | list items => depthOfItems items + 1
  | object entries => depthOfEntries entries + 1
  | _ => 0
termination_by structural d => d

def depthOfItems : List Document → Nat
  | [] => 0
  | item :: rest => max (depth item) (depthOfItems rest)
termination_by structural items => items

def depthOfEntries : List (String × Document) → Nat
  | [] => 0
  | (_, value) :: rest => max (depth value) (depthOfEntries rest)
termination_by structural entries => entries

end

namespace Json
variable {limit : Nat}

theorem foldlM_of_take {p q : Partial} {token : Token} (taken : Partial.take limit p token = some q)
    (rest : List Token) :
    (token :: rest).foldlM (Partial.take limit) p = rest.foldlM (Partial.take limit) q := by
  rw [List.foldlM_cons, taken]
  rfl

theorem foldlM_of_run {p q : Partial} {run : List Token}
    (taken : run.foldlM (Partial.take limit) p = some q) (rest : List Token) :
    (run ++ rest).foldlM (Partial.take limit) p = rest.foldlM (Partial.take limit) q := by
  rw [List.foldlM_append, taken]
  rfl

theorem foldlM_of_refused {p : Partial} {run : List Token} (refused : run.foldlM (Partial.take limit) p = none)
    (rest : List Token) : (run ++ rest).foldlM (Partial.take limit) p = none := by
  rw [List.foldlM_append, refused]
  rfl

theorem take_openList {p : Partial} {first : Bool} (value : p.expected = .value first)
    (room : p.stack.length < limit) : Partial.take limit p .openList =
      some { expected := .value true, stack := .list [] :: p.stack } := by
  simp [Partial.take, value, Partial.enter, room]

theorem take_openObject {p : Partial} {first : Bool} (value : p.expected = .value first)
    (room : p.stack.length < limit) : Partial.take limit p .openObject =
      some { expected := .key true, stack := .object [] :: p.stack } := by
  simp [Partial.take, value, Partial.enter, room]

mutual

/-- Where a value is expected and the stack has room for it, its tokens complete it. -/
theorem foldlM_tokensOf : ∀ (d : Document) (p : Partial) (first : Bool), p.expected = .value first →
    p.stack.length + d.depth ≤ limit →
    (tokensOf d).foldlM (Partial.take limit) p = some (.complete p.stack d)
  | .null, p, first, value, _ | .bool _, p, first, value, _ | .integer _, p, first, value, _
  | .float _, p, first, value, _ | .text _, p, first, value, _ =>
    foldlM_of_take (by simp [Partial.take, value]) []
  | .list [], p, first, value, room => by
    simp only [depth, depthOfItems] at room
    rw [tokensOf, foldlM_of_take (take_openList value (by omega))]
    rfl
  | .list (item :: rest), p, first, value, room => by
    -- Each item is read with the list on the stack, so the room it needs is counted from there.
    simp only [depth, depthOfItems] at room
    have inside := foldlM_tokensOf item { expected := .value true, stack := .list [] :: p.stack } true rfl
      (by simp only [List.length_cons]; omega)
    have others := foldlM_tokensOfItems rest [item] p.stack (by omega)
    rw [tokensOf, foldlM_of_take (take_openList value (by omega)), List.append_assoc,
      foldlM_of_run inside, Partial.complete, foldlM_of_run others, foldlM_of_take (q := .complete p.stack _)]
    · rfl
    · simp [Partial.take]
  | .object [], p, first, value, room => by
    simp only [depth, depthOfEntries] at room
    rw [tokensOf, foldlM_of_take (take_openObject value (by omega))]
    rfl
  | .object ((key, v) :: rest), p, first, value, room => by
    simp only [depth, depthOfEntries] at room
    have inside := foldlM_tokensOf v { expected := .value false, stack := .entry [] key :: p.stack } false rfl
      (by simp only [List.length_cons]; omega)
    have others := foldlM_tokensOfEntries rest [(key, v)] p.stack (by omega)
    rw [tokensOf, foldlM_of_take (take_openObject value (by omega)), foldlM_of_take rfl, foldlM_of_take rfl,
      List.append_assoc, foldlM_of_run inside, Partial.complete, foldlM_of_run others,
      foldlM_of_take (q := .complete p.stack _)]
    · rfl
    · simp [Partial.take]
termination_by structural d => d

theorem foldlM_tokensOfItems : ∀ (items before : List Document) (stack : List Frame),
    stack.length + (depthOfItems items + 1) ≤ limit →
    (tokensOfItems items).foldlM (Partial.take limit)
      { expected := .separator, stack := .list before :: stack } =
        some { expected := .separator, stack := .list (items.reverse ++ before) :: stack }
  | [], _, _, _ => rfl
  | item :: rest, before, stack, room => by
    simp only [depthOfItems] at room
    have inside := foldlM_tokensOf item { expected := .value false, stack := .list before :: stack } false rfl
      (by simp only [List.length_cons]; omega)
    have others := foldlM_tokensOfItems rest (item :: before) stack (by omega)
    rw [tokensOfItems, foldlM_of_take rfl, foldlM_of_run inside, Partial.complete, others]
    simp
termination_by structural items => items

theorem foldlM_tokensOfEntries : ∀ (entries before : List (String × Document)) (stack : List Frame),
    stack.length + (depthOfEntries entries + 1) ≤ limit →
    (tokensOfEntries entries).foldlM (Partial.take limit)
      { expected := .separator, stack := .object before :: stack } =
        some { expected := .separator, stack := .object (entries.reverse ++ before) :: stack }
  | [], _, _, _ => rfl
  | (key, value) :: rest, before, stack, room => by
    simp only [depthOfEntries] at room
    have inside := foldlM_tokensOf value { expected := .value false, stack := .entry before key :: stack }
      false rfl (by simp only [List.length_cons]; omega)
    have others := foldlM_tokensOfEntries rest ((key, value) :: before) stack (by omega)
    rw [tokensOfEntries, foldlM_of_take rfl, foldlM_of_take rfl, foldlM_of_take rfl, foldlM_of_run inside,
      Partial.complete, others]
    simp
termination_by structural entries => entries

end

theorem foldlM_open_full {p : Partial} {first : Bool} (value : p.expected = .value first)
    (full : limit ≤ p.stack.length) (rest : List Token) :
    (.openList :: rest).foldlM (Partial.take limit) p = none ∧
      (.openObject :: rest).foldlM (Partial.take limit) p = none := by
  have closed : ¬ p.stack.length < limit := Nat.not_lt.mpr full
  constructor
  · rw [List.foldlM_cons]
    simp [Partial.take, value, Partial.enter, closed]
  · rw [List.foldlM_cons]
    simp [Partial.take, value, Partial.enter, closed]

mutual

/-- Where a value is expected and the stack has no room for it, its tokens are refused. -/
theorem foldlM_tokensOf_deep : ∀ (d : Document) (p : Partial) (first : Bool), p.expected = .value first →
    p.stack.length ≤ limit → limit < p.stack.length + d.depth →
    (tokensOf d).foldlM (Partial.take limit) p = none
  | .null, p, first, _, room, deep | .bool _, p, first, _, room, deep | .integer _, p, first, _, room, deep
  | .float _, p, first, _, room, deep | .text _, p, first, _, room, deep =>
    absurd deep (Nat.not_lt.mpr room)
  | .list [], p, first, value, room, deep => by
    simp only [depth, depthOfItems] at deep
    exact (foldlM_open_full value (by omega) _).1
  | .list (item :: rest), p, first, value, room, deep => by
    simp only [depth, depthOfItems] at deep
    by_cases full : limit ≤ p.stack.length
    · exact (foldlM_open_full value full _).1
    let opened : Partial := { expected := .value true, stack := .list [] :: p.stack }
    have inner : opened.stack.length = p.stack.length + 1 := rfl
    rw [tokensOf, foldlM_of_take (take_openList value (by omega)), List.append_assoc]
    -- The deepest value stands in the first item, or behind it.
    by_cases fits : opened.stack.length + item.depth ≤ limit
    · have inside := foldlM_tokensOf item opened true rfl fits
      have others := foldlM_tokensOfItems_deep rest [item] p.stack (by omega) (by omega)
      rw [foldlM_of_run inside]
      exact foldlM_of_refused others _
    · exact foldlM_of_refused (foldlM_tokensOf_deep item opened true rfl (by omega) (by omega)) _
  | .object [], p, first, value, room, deep => by
    simp only [depth, depthOfEntries] at deep
    exact (foldlM_open_full value (by omega) _).2
  | .object ((key, v) :: rest), p, first, value, room, deep => by
    simp only [depth, depthOfEntries] at deep
    by_cases full : limit ≤ p.stack.length
    · exact (foldlM_open_full value full _).2
    let opened : Partial := { expected := .value false, stack := .entry [] key :: p.stack }
    have inner : opened.stack.length = p.stack.length + 1 := rfl
    rw [tokensOf, foldlM_of_take (take_openObject value (by omega)), foldlM_of_take rfl, foldlM_of_take rfl,
      List.append_assoc]
    by_cases fits : opened.stack.length + v.depth ≤ limit
    · have inside := foldlM_tokensOf v opened false rfl fits
      have others := foldlM_tokensOfEntries_deep rest [(key, v)] p.stack (by omega) (by omega)
      rw [foldlM_of_run inside]
      exact foldlM_of_refused others _
    · exact foldlM_of_refused (foldlM_tokensOf_deep v opened false rfl (by omega) (by omega)) _
termination_by structural d => d

theorem foldlM_tokensOfItems_deep : ∀ (items before : List Document) (stack : List Frame),
    stack.length < limit → limit < stack.length + (depthOfItems items + 1) →
    (tokensOfItems items).foldlM (Partial.take limit)
      { expected := .separator, stack := .list before :: stack } = none
  | [], _, _, room, deep => by
    simp only [depthOfItems] at deep
    omega
  | item :: rest, before, stack, room, deep => by
    simp only [depthOfItems] at deep
    let next : Partial := { expected := .value false, stack := .list before :: stack }
    have inner : next.stack.length = stack.length + 1 := rfl
    rw [tokensOfItems, foldlM_of_take rfl]
    by_cases fits : next.stack.length + item.depth ≤ limit
    · have inside := foldlM_tokensOf item next false rfl fits
      rw [foldlM_of_run inside]
      exact foldlM_tokensOfItems_deep rest (item :: before) stack room (by omega)
    · exact foldlM_of_refused (foldlM_tokensOf_deep item next false rfl (by omega) (by omega)) _
termination_by structural items => items

theorem foldlM_tokensOfEntries_deep : ∀ (entries before : List (String × Document)) (stack : List Frame),
    stack.length < limit → limit < stack.length + (depthOfEntries entries + 1) →
    (tokensOfEntries entries).foldlM (Partial.take limit)
      { expected := .separator, stack := .object before :: stack } = none
  | [], _, _, room, deep => by
    simp only [depthOfEntries] at deep
    omega
  | (key, value) :: rest, before, stack, room, deep => by
    simp only [depthOfEntries] at deep
    let next : Partial := { expected := .value false, stack := .entry before key :: stack }
    have inner : next.stack.length = stack.length + 1 := rfl
    rw [tokensOfEntries, foldlM_of_take rfl, foldlM_of_take rfl, foldlM_of_take rfl]
    by_cases fits : next.stack.length + value.depth ≤ limit
    · have inside := foldlM_tokensOf value next false rfl fits
      rw [foldlM_of_run inside]
      exact foldlM_tokensOfEntries_deep rest ((key, value) :: before) stack room (by omega)
    · exact foldlM_of_refused (foldlM_tokensOf_deep value next false rfl (by omega) (by omega)) _
termination_by structural entries => entries

end

/-- A document that is written is read as it was, in either style, if its numbers are exact integers and
its containers nest no deeper than the limit. -/
theorem readWithin_write {d : Document} (isExact : ∀ token ∈ tokensOf d, token.IsExact)
    (shallow : d.depth ≤ limit) (style : Style) {ending : List Char} (ends : Ends ending)
    (blank : tokensFrom .between ending = some []) :
    readWithin limit (String.ofList (write style 0 d ++ ending)) = some d := by
  have done : (tokensOf d).foldlM (Partial.take limit) {} = some (.complete [] d) :=
    foldlM_tokensOf d {} false rfl (by simpa using shallow)
  rw [readWithin, tokens_write isExact style ends blank, Option.bind_some, ofTokens, done]
  rfl

/-- A document that nests deeper than the limit is not read. -/
theorem readWithin_write_deep {d : Document} (isExact : ∀ token ∈ tokensOf d, token.IsExact)
    (deep : limit < d.depth) (style : Style) {ending : List Char} (ends : Ends ending)
    (blank : tokensFrom .between ending = some []) :
    readWithin limit (String.ofList (write style 0 d ++ ending)) = none := by
  have refused : (tokensOf d).foldlM (Partial.take limit) {} = none :=
    foldlM_tokensOf_deep d {} false rfl (Nat.zero_le limit) (by simpa using deep)
  rw [readWithin, tokens_write isExact style ends blank, Option.bind_some, ofTokens, refused]
  rfl

end Json
end Document

namespace Tree
open Document Document.Json

/-- Whether JSON can say what this value is, apart from the values below it. -/
def InJson : Tree → Prop
  | .float _ | .duration _ => False
  | .mapping fields => (fields.map Prod.fst).Nodup
  | _ => True

theorem fits_toInt (i : Int64) : Fits i.toInt := by
  have low := i.le_toInt
  have high := i.toInt_lt
  constructor <;> omega

theorem number_toInt (i : Int64) : Document.number i.toInt = .integer i := by
  have low := i.le_toInt
  have high := i.toInt_lt
  rw [Document.number, if_pos ⟨by omega, by omega⟩, Int64.ofInt_toInt]

theorem isExact_list {items : List Document} (isExact : ∀ token ∈ tokensOfItems items, token.IsExact) :
    ∀ token ∈ tokensOf (.list items), token.IsExact := by
  cases items with
  | nil => simp [tokensOf, Token.IsExact]
  | cons item rest =>
    simp only [tokensOfItems, List.forall_mem_cons, List.forall_mem_append] at isExact
    simpa [tokensOf, Token.IsExact, or_imp, forall_and] using isExact.2

theorem isExact_object {entries : List (String × Document)}
    (isExact : ∀ token ∈ tokensOfEntries entries, token.IsExact) :
    ∀ token ∈ tokensOf (.object entries), token.IsExact := by
  cases entries with
  | nil => simp [tokensOf, Token.IsExact]
  | cons entry rest =>
    simp only [tokensOfEntries, List.forall_mem_cons, List.forall_mem_append] at isExact
    simpa [tokensOf, Token.IsExact, or_imp, forall_and] using isExact.2.2.2

/-- The document says all there is to say of the tree. -/
structure Told (t : Tree) (d : Document) : Prop where
  depth : d.depth = t.depth
  isExact : ∀ token ∈ tokensOf d, token.IsExact
  toTree : d.toTree = t

structure ToldItems (items : List Tree) (ds : List Document) : Prop where
  depth : Document.depthOfItems ds = depthOfItems items
  isExact : ∀ token ∈ tokensOfItems ds, token.IsExact
  toTree : treesOf ds = items

structure ToldFields (fields : List (String × Tree)) (entries : List (String × Document)) : Prop where
  depth : Document.depthOfEntries entries = depthOfFields fields
  isExact : ∀ token ∈ tokensOfEntries entries, token.IsExact
  toTree : fieldsOf entries = fields

mutual

theorem told_ofTree : ∀ t : Tree, (∀ node ∈ t.nodes, node.InJson) → Told t (ofTree t)
  | .null, _ | .bool _, _ | .text _, _ => ⟨rfl, List.forall_mem_singleton.mpr trivial, rfl⟩
  | .integer i, _ => ⟨rfl, List.forall_mem_singleton.mpr (fits_toInt i), number_toInt i⟩
  | .float _, simple | .duration _, simple => (simple _ List.mem_cons_self).elim
  | .sequence items, simple => by
    obtain ⟨depth, isExact, trees⟩ :=
      toldItems_ofItems items fun node member => simple node (List.mem_cons_of_mem _ member)
    exact ⟨congrArg (· + 1) depth, isExact_list isExact, congrArg Tree.sequence trees⟩
  | .mapping fields, simple => by
    obtain ⟨depth, isExact, trees⟩ :=
      toldFields_ofFields fields fun node member => simple node (List.mem_cons_of_mem _ member)
    have distinct : (fields.map Prod.fst).Nodup := simple _ List.mem_cons_self
    refine ⟨congrArg (· + 1) depth, isExact_object isExact, ?_⟩
    rw [ofTree, Document.toTree, trees, ofEntries_of_nodup distinct]
termination_by structural t => t

theorem toldItems_ofItems : ∀ items : List Tree, (∀ node ∈ nodesOfItems items, node.InJson) →
    ToldItems items (ofItems items)
  | [], _ => ⟨rfl, fun _ member => (nomatch member), rfl⟩
  | item :: rest, simple => by
    obtain ⟨depth, isExact, tree⟩ :=
      told_ofTree item fun node member => simple node (List.mem_append_left _ member)
    obtain ⟨depths, exacts, trees⟩ :=
      toldItems_ofItems rest fun node member => simple node (List.mem_append_right _ member)
    refine ⟨congrArg₂ max depth depths, ?_, congrArg₂ List.cons tree trees⟩
    exact List.forall_mem_cons.mpr ⟨trivial, List.forall_mem_append.mpr ⟨isExact, exacts⟩⟩
termination_by structural items => items

theorem toldFields_ofFields : ∀ fields : List (String × Tree),
    (∀ node ∈ nodesOfFields fields, node.InJson) → ToldFields fields (ofFields fields)
  | [], _ => ⟨rfl, fun _ member => (nomatch member), rfl⟩
  | (key, value) :: rest, simple => by
    obtain ⟨depth, isExact, tree⟩ :=
      told_ofTree value fun node member => simple node (List.mem_append_left _ member)
    obtain ⟨depths, exacts, trees⟩ :=
      toldFields_ofFields rest fun node member => simple node (List.mem_append_right _ member)
    refine ⟨congrArg₂ max depth depths, ?_, congrArg₂ (fun v fields => (key, v) :: fields) tree trees⟩
    refine List.forall_mem_cons.mpr ⟨trivial, List.forall_mem_cons.mpr ⟨trivial, ?_⟩⟩
    exact List.forall_mem_cons.mpr ⟨trivial, List.forall_mem_append.mpr ⟨isExact, exacts⟩⟩
termination_by structural fields => fields

end

/-- A tree that JSON can say and whose containers nest no deeper than they may is read as it was written,
in either style. -/
theorem decode_write {t : Tree} (simple : ∀ node ∈ t.nodes, node.InJson) (shallow : t.depth ≤ maxDepth)
    (style : Style) {ending : List Char} (ends : Ends ending) (blank : tokensFrom .between ending = some []) :
    Source.Format.json.decode (String.ofList (write style 0 (ofTree t) ++ ending)) = .ok t := by
  obtain ⟨depth, isExact, tree⟩ := told_ofTree t simple
  have done : Json.read (String.ofList (write style 0 (ofTree t) ++ ending)) = some (ofTree t) :=
    readWithin_write isExact (by rw [depth]; exact shallow) style ends blank
  simp only [Source.Format.decode, done, Source.Format.tree_mapError, tree]

/-- What JSON can say of a tree without floats and durations is all of it. -/
theorem inJson_of_keyed {t : Tree} (keyed : t.Keyed) (noFloat : ∀ x, .float x ∉ t.nodes)
    (noDuration : ∀ d, .duration d ∉ t.nodes) : ∀ node ∈ t.nodes, node.InJson := by
  intro node member
  cases node with
  | float x => exact absurd member (noFloat x)
  | duration d => exact absurd member (noDuration d)
  | mapping fields => exact keyed fields member
  | null | bool _ | integer _ | text _ | sequence _ => trivial

/-- JSON text keeps a tree. One without floats and durations, whose mappings have distinct keys, is read from
its text on one line just as it was: the kinds of its values, its integers and texts, and the order of its
keys. So it is as far as containers may nest, and deeper ones are refused. -/
theorem decode_compactText {t : Tree} (keyed : t.Keyed) (noFloat : ∀ x, .float x ∉ t.nodes)
    (noDuration : ∀ d, .duration d ∉ t.nodes) :
    let text := compactText (ofTree t)
    (t.depth ≤ 127 → Source.Format.json.decode text = .ok t) ∧
      (127 < t.depth → Source.Format.json.decode text = .error .json) := by
  intro text
  have simple := inJson_of_keyed keyed noFloat noDuration
  have ends : Ends [] := fun c member => by cases member
  have written : text = String.ofList (write .compact 0 (ofTree t) ++ []) := by
    rw [List.append_nil]
    rfl
  constructor
  · intro shallow
    rw [written]
    exact decode_write simple shallow .compact ends rfl
  · intro deep
    obtain ⟨depth, isExact, _⟩ := told_ofTree t simple
    have refused : Json.read text = none := by
      rw [written]
      exact readWithin_write_deep isExact (by rwa [depth]) .compact ends rfl
    simp only [Source.Format.decode, refused]

/-- Keys stay in their order, and empty containers and null stay apart; a text may have any character. -/
theorem decode_compactText_mixed :
    let t : Tree := .mapping [("b", .null), ("a", .sequence [.sequence [], .mapping [], .text ""]),
      ("", .integer Int64.minValue), ("\"\\/\n\x01é😀", .text "\t\x7f\u2028")]
    let text := "\x7b\"b\":null,\"a\":[[],\x7b\x7d,\"\"],\"\":-9223372036854775808," ++
      "\"\\\"\\\\/\\n\\u0001é😀\":\"\\t\x7f\u2028\"\x7d"
    t.Keyed ∧ (∀ x, .float x ∉ t.nodes) ∧ (∀ d, .duration d ∉ t.nodes) ∧ t.depth = 3 ∧
      compactText (ofTree t) = text ∧ Source.Format.json.decode text = .ok t := by
  intro t text
  have keyed : t.Keyed := by
    intro fields member
    simp only [t, nodes, nodesOfItems, nodesOfFields, List.mem_cons, Tree.mapping.injEq, reduceCtorEq,
      false_or, List.append_nil, List.nil_append, List.cons_append, List.not_mem_nil, or_false] at member
    rcases member with rfl | rfl
    · decide
    · exact List.nodup_nil
  have noFloat : ∀ x, .float x ∉ t.nodes := by simp [t, nodes, nodesOfItems, nodesOfFields]
  have noDuration : ∀ d, .duration d ∉ t.nodes := by simp [t, nodes, nodesOfItems, nodesOfFields]
  have written : compactText (ofTree t) = text := by decide +kernel
  have read := (decode_compactText keyed noFloat noDuration).1 (by decide)
  rw [written] at read
  exact ⟨keyed, noFloat, noDuration, by decide, written, read⟩

end Tree
end Directives
