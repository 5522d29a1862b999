import Mathlib.Data.List.Sort
import Directives.Decoder
import Directives.Proofs.Nodes
import Directives.Text.Utf8
import Directives.Tree.Equality

/-! What becomes of a tree that is decoded as a tree. It is brought to a normal form, in which mappings are
sorted by key and there are neither durations nor numbers that are not finite; and what is in that form stays
as it is. -/
namespace Directives

/-- Keys are in the order of their octets. -/
def KeyOrder {α : Type} (a b : String × α) : Prop := Text.toUtf8 a.1 ≤ Text.toUtf8 b.1

section
variable {α : Type}

instance : DecidableRel (KeyOrder (α := α)) := fun a b =>
  inferInstanceAs (Decidable (Text.toUtf8 a.1 ≤ Text.toUtf8 b.1))

instance : Std.Total (KeyOrder (α := α)) := ⟨fun a b => List.le_total (Text.toUtf8 a.1) (Text.toUtf8 b.1)⟩

instance : IsTrans (String × α) KeyOrder := ⟨fun _ _ _ => List.le_trans⟩

theorem keyOrder_iff (a b : String × α) : KeyOrder a b ↔ ¬ b.1 < a.1 := by
  rw [KeyOrder, ← List.not_lt, Text.toUtf8_lt_iff]

end

namespace Tree

def sorted (fields : List (String × Tree)) : List (String × Tree) := fields.insertionSort KeyOrder

mutual

/-- The tree with its fields sorted, null for numbers that are not finite, and each duration as the mapping of
its two parts. -/
def normal : Tree → Tree
  | .float x => if x.isFinite then .float x else .null
  | .sequence items => .sequence (normalItems items)
  | .mapping fields => .mapping (sorted (normalFields fields))
  | .duration d =>
    .mapping [("nanos", .integer (Int64.ofInt d.nanos)), ("secs", .integer (Int64.ofInt d.seconds))]
  | other => other
termination_by structural t => t

def normalItems : List Tree → List Tree
  | [] => []
  | item :: rest => normal item :: normalItems rest
termination_by structural items => items

def normalFields : List (String × Tree) → List (String × Tree)
  | [] => []
  | (key, value) :: rest => (key, normal value) :: normalFields rest
termination_by structural fields => fields

end

/-- What a value of a decoded tree is like: a finite number if it is a float, sorted by key if it is a mapping,
and no duration. -/
def IsNormal : Tree → Prop
  | .float x => x.isFinite = true
  | .mapping fields => fields.Pairwise KeyOrder
  | .duration _ => False
  | _ => True

theorem perm_sorted (fields : List (String × Tree)) : (sorted fields).Perm fields :=
  List.perm_insertionSort KeyOrder fields

theorem keys_normalFields (fields : List (String × Tree)) :
    (normalFields fields).map Prod.fst = fields.map Prod.fst := by
  induction fields with
  | nil => rfl
  | cons field rest ih => exact congrArg (field.1 :: ·) ih

/-! The normal form of a document and that of a tree. -/

theorem fieldsOf_insertSorted (entry : String × Document) (entries : List (String × Document)) :
    Document.fieldsOf (Document.insertSorted entry entries) =
      (Document.fieldsOf entries).orderedInsert KeyOrder (entry.1, entry.2.toTree) := by
  induction entries with
  | nil => rfl
  | cons other rest ih =>
    obtain ⟨key, d⟩ := other
    have order := keyOrder_iff (entry.1, entry.2.toTree) (key, d.toTree)
    by_cases before : key < entry.1
    · have after : ¬ KeyOrder (entry.1, entry.2.toTree) (key, d.toTree) := fun le => order.mp le before
      rw [Document.insertSorted, if_pos before, Document.fieldsOf, ih, Document.fieldsOf,
        List.orderedInsert_of_not_le _ _ after]
    · have le : KeyOrder (entry.1, entry.2.toTree) (key, d.toTree) := order.mpr before
      rw [Document.insertSorted, if_neg before, Document.fieldsOf, Document.fieldsOf,
        List.orderedInsert_cons_of_le _ _ le]

theorem number_natCast {n : Nat} (fits : n ≤ 9223372036854775807) :
    Document.number n = .integer (Int64.ofInt n) := by
  rw [Document.number, if_pos ⟨by omega, by omega⟩]

/-- A duration is decoded from its parts in the order of their names. -/
theorem normalize_ofDuration (d : Duration) : (Document.ofTree (.duration d)).normalize =
    .object [("nanos", .integer d.nanos), ("secs", .integer d.seconds)] := by
  have before : "nanos" < "secs" := by decide
  have same (i : Int) : (Document.integer i).normalize = .integer i := rfl
  rw [Document.ofTree, Document.ofDuration, Document.normalize, Document.normalizeEntries,
    Document.normalizeEntries, Document.normalizeEntries, same, same, Document.insertSorted,
    Document.insertSorted, if_pos before, Document.insertSorted]

mutual

/-- Documents are normalized as the trees that they are written for. -/
theorem toTree_normalize : ∀ t : Tree, t.Keyed →
    (∀ d, .duration d ∈ t.nodes → d.seconds ≤ 9223372036854775807) →
    (Document.ofTree t).normalize.toTree = t.normal
  | .null, _, _ | .bool _, _, _ | .text _, _, _ => rfl
  | .integer i, _, _ => by
    have low := i.le_toInt
    have high := i.toInt_lt
    show Document.number i.toInt = _
    rw [Document.number, if_pos ⟨by omega, by omega⟩, Int64.ofInt_toInt]
    rfl
  | .float x, _, _ => by
    rw [Document.ofTree, Document.normalize, normal]
    split
    · rfl
    · rfl
  | .duration d, _, fits => by
    have seconds := number_natCast (fits d List.mem_cons_self)
    have nanos := number_natCast (n := d.nanos) (by have := d.nanos_lt; omega)
    have distinct : ["nanos", "secs"].Nodup := by decide
    rw [normalize_ofDuration, Document.toTree, Document.fieldsOf, Document.fieldsOf, Document.fieldsOf,
      Document.toTree, Document.toTree, nanos, seconds, normal]
    exact congrArg Tree.mapping (ofEntries_of_nodup distinct)
  | .sequence items, keyed, fits => by
    have inner := treesOf_normalizeItems items (keyed_sequence_iff.mp keyed)
      fun d member => fits d (List.mem_cons_of_mem _ member)
    rw [Document.ofTree, Document.normalize, Document.toTree, inner, normal]
  | .mapping fields, keyed, fits => by
    obtain ⟨distinct, below⟩ := keyed_mapping_iff.mp keyed
    have inner := fieldsOf_normalizeEntries fields below
      fun d member => fits d (List.mem_cons_of_mem _ member)
    have kept : ((sorted (normalFields fields)).map Prod.fst).Nodup := by
      rw [((perm_sorted _).map Prod.fst).nodup_iff, keys_normalFields]
      exact distinct
    rw [Document.ofTree, Document.normalize, Document.toTree, inner, normal, ofEntries_of_nodup kept]
termination_by structural t => t

theorem treesOf_normalizeItems : ∀ items : List Tree, (∀ item ∈ items, item.Keyed) →
    (∀ d, .duration d ∈ nodesOfItems items → d.seconds ≤ 9223372036854775807) →
    Document.treesOf (Document.normalizeItems (Document.ofItems items)) = normalItems items
  | [], _, _ => rfl
  | item :: rest, keyed, fits => by
    obtain ⟨first, others⟩ := List.forall_mem_cons.mp keyed
    have here := toTree_normalize item first fun d member => fits d (List.mem_append_left _ member)
    have later := treesOf_normalizeItems rest others fun d member => fits d (List.mem_append_right _ member)
    rw [Document.ofItems, Document.normalizeItems, Document.treesOf, here, later, normalItems]
termination_by structural items => items

theorem fieldsOf_normalizeEntries : ∀ fields : List (String × Tree), (∀ field ∈ fields, field.2.Keyed) →
    (∀ d, .duration d ∈ nodesOfFields fields → d.seconds ≤ 9223372036854775807) →
    Document.fieldsOf (Document.normalizeEntries (Document.ofFields fields)) = sorted (normalFields fields)
  | [], _, _ => rfl
  | (key, value) :: rest, keyed, fits => by
    obtain ⟨first, others⟩ := List.forall_mem_cons.mp keyed
    have here := toTree_normalize value first fun d member => fits d (List.mem_append_left _ member)
    have later := fieldsOf_normalizeEntries rest others fun d member => fits d (List.mem_append_right _ member)
    rw [Document.ofFields, Document.normalizeEntries, fieldsOf_insertSorted, here, later, normalFields]
    rfl
termination_by structural fields => fields

end

/-! What the normal form is like. -/

mutual

theorem isNormal_normal : ∀ t : Tree, ∀ node ∈ t.normal.nodes, node.IsNormal
  | .null | .bool _ | .integer _ | .text _ => List.forall_mem_singleton.mpr trivial
  | .float x => by
    rw [normal]
    split
    · next finite => exact List.forall_mem_singleton.mpr finite
    · exact List.forall_mem_singleton.mpr trivial
  | .duration d => by
    have order : Text.toUtf8 "nanos" ≤ Text.toUtf8 "secs" := by decide +kernel
    simp [normal, nodes, nodesOfFields, IsNormal, KeyOrder, order]
  | .sequence items => by
    rw [normal]
    exact List.forall_mem_cons.mpr ⟨trivial, isNormal_normalItems items⟩
  | .mapping fields => by
    rw [normal]
    refine List.forall_mem_cons.mpr ⟨List.pairwise_insertionSort KeyOrder _, fun node member => ?_⟩
    obtain ⟨field, among, inside⟩ := mem_nodesOfFields.mp member
    have kept := (perm_sorted _).mem_iff.mp among
    exact isNormal_normalFields fields node (mem_nodesOfFields.mpr ⟨field, kept, inside⟩)
termination_by structural t => t

theorem isNormal_normalItems : ∀ items : List Tree, ∀ node ∈ nodesOfItems (normalItems items), node.IsNormal
  | [] => List.forall_mem_nil _
  | item :: rest => List.forall_mem_append.mpr ⟨isNormal_normal item, isNormal_normalItems rest⟩
termination_by structural items => items

theorem isNormal_normalFields : ∀ fields : List (String × Tree),
    ∀ node ∈ nodesOfFields (normalFields fields), node.IsNormal
  | [] => List.forall_mem_nil _
  | (_, value) :: rest => List.forall_mem_append.mpr ⟨isNormal_normal value, isNormal_normalFields rest⟩
termination_by structural fields => fields

end

mutual

/-- What is in normal form stays as it is. -/
theorem normal_eq_self : ∀ t : Tree, (∀ node ∈ t.nodes, node.IsNormal) → t.normal = t
  | .null, _ | .bool _, _ | .integer _, _ | .text _, _ => rfl
  | .float x, simple => if_pos (simple _ List.mem_cons_self)
  | .duration d, simple => (simple _ List.mem_cons_self).elim
  | .sequence items, simple => by
    obtain ⟨_, below⟩ := List.forall_mem_cons.mp simple
    rw [normal, normalItems_eq_self items below]
  | .mapping fields, simple => by
    obtain ⟨order, below⟩ := List.forall_mem_cons.mp simple
    rw [normal, normalFields_eq_self fields below]
    exact congrArg Tree.mapping (List.Pairwise.insertionSort_eq order)
termination_by structural t => t

theorem normalItems_eq_self : ∀ items : List Tree, (∀ node ∈ nodesOfItems items, node.IsNormal) →
    normalItems items = items
  | [], _ => rfl
  | item :: rest, simple => by
    obtain ⟨first, others⟩ := List.forall_mem_append.mp simple
    rw [normalItems, normal_eq_self item first, normalItems_eq_self rest others]
termination_by structural items => items

theorem normalFields_eq_self : ∀ fields : List (String × Tree),
    (∀ node ∈ nodesOfFields fields, node.IsNormal) → normalFields fields = fields
  | [], _ => rfl
  | (key, value) :: rest, simple => by
    obtain ⟨first, others⟩ := List.forall_mem_append.mp simple
    rw [normalFields, normal_eq_self value first, normalFields_eq_self rest others]
termination_by structural fields => fields

end

mutual

theorem keyed_normal : ∀ t : Tree, t.Keyed → t.normal.Keyed
  | .null, _ | .bool _, _ | .integer _, _ => keyed_of_isOpaque rfl
  | .text s, _ => keyed_text s
  | .float x, _ => by
    rw [normal]
    split
    · exact keyed_of_isOpaque rfl
    · exact keyed_of_isOpaque rfl
  | .duration d, _ => by
    have distinct : ["nanos", "secs"].Nodup := by decide
    refine keyed_mapping_iff.mpr ⟨distinct, ?_⟩
    exact List.forall_mem_cons.mpr
      ⟨keyed_of_isOpaque rfl, List.forall_mem_singleton.mpr (keyed_of_isOpaque rfl)⟩
  | .sequence items, keyed => by
    rw [normal]
    exact keyed_sequence_iff.mpr (keyed_normalItems items (keyed_sequence_iff.mp keyed))
  | .mapping fields, keyed => by
    obtain ⟨distinct, below⟩ := keyed_mapping_iff.mp keyed
    rw [normal]
    refine keyed_mapping_iff.mpr ⟨?_, fun field member => ?_⟩
    · rw [((perm_sorted _).map Prod.fst).nodup_iff, keys_normalFields]
      exact distinct
    · exact keyed_normalFields fields below field ((perm_sorted _).mem_iff.mp member)
termination_by structural t => t

theorem keyed_normalItems : ∀ items : List Tree, (∀ item ∈ items, item.Keyed) →
    ∀ item ∈ normalItems items, item.Keyed
  | [], _ => List.forall_mem_nil _
  | item :: rest, keyed => by
    obtain ⟨first, others⟩ := List.forall_mem_cons.mp keyed
    exact List.forall_mem_cons.mpr ⟨keyed_normal item first, keyed_normalItems rest others⟩
termination_by structural items => items

theorem keyed_normalFields : ∀ fields : List (String × Tree), (∀ field ∈ fields, field.2.Keyed) →
    ∀ field ∈ normalFields fields, field.2.Keyed
  | [], _ => List.forall_mem_nil _
  | (_, value) :: rest, keyed => by
    obtain ⟨first, others⟩ := List.forall_mem_cons.mp keyed
    exact List.forall_mem_cons.mpr ⟨keyed_normal value first, keyed_normalFields rest others⟩
termination_by structural fields => fields

end

theorem decode_eq_ok {α : Type} {decoder : Decoder α} {t : Tree} {a : α}
    (done : decoder (Document.ofTree t).normalize = .ok a) : t.decode decoder = .ok a := by
  rw [Tree.decode, done]

theorem decode_tree {t : Tree} (keyed : t.Keyed)
    (fits : ∀ d, .duration d ∈ t.nodes → d.seconds ≤ 9223372036854775807) :
    t.decode Decoder.tree = .ok t.normal :=
  decode_eq_ok (by rw [Decoder.tree_eq_toTree, toTree_normalize t keyed fits])

/-- A record of two parts that are there is a duration where they fit together. -/
theorem duration_of_parts {entries : List (String × Document)} {d : Duration}
    (selected : Decoder.durationRecord.select (.object entries) = .ok entries)
    (seconds : Decoder.value entries "secs" Decoder.word64 = .ok d.seconds)
    (nanos : Decoder.value entries "nanos" Decoder.word32 = .ok d.nanos) :
    Decoder.duration (.object entries) = .ok d := by
  have parts : Duration.ofParts? d.seconds d.nanos = some d := by
    rw [Duration.ofParts?, ← Duration.toNanos, Duration.ofNanos?_toNanos]
  have next {α β : Type} (a : α) (f : α → Except Mismatch β) : (Except.ok a >>= f) = f a := rfl
  rw [Decoder.duration, selected, next, seconds, next, nanos, next, parts]
  rfl

/-- A duration is decoded from the two parts that it is written as. -/
theorem decode_duration (d : Duration) : (Tree.duration d).decode Decoder.duration = .ok d := by
  have seconds : Decoder.word64 (.integer d.seconds) = .ok d.seconds := by
    have := d.seconds_lt
    rw [Decoder.word64, Decoder.integer, if_pos ⟨by omega, by omega⟩]
    rfl
  have nanos : Decoder.word32 (.integer d.nanos) = .ok d.nanos := by
    have := d.nanos_lt
    rw [Decoder.word32, Decoder.integer, if_pos ⟨by omega, by omega⟩]
    rfl
  let entries : List (String × Document) := [("nanos", .integer d.nanos), ("secs", .integer d.seconds)]
  have selected : Decoder.durationRecord.select (.object entries) = .ok entries := by
    have checked : Decoder.durationRecord.checkEntries [] entries = .ok () := by
      simp [entries, Decoder.durationRecord, Decoder.Record.checkEntries, Decoder.Field.required, seconds, nanos,
        Except.map, bind, Except.bind]
    have complete : (Decoder.durationRecord.fields.find? fun field =>
        !field.optional && (entries.lookup field.name).isNone) = none := rfl
    rw [Decoder.Record.select, checked, complete]
    rfl
  have decoded := duration_of_parts selected seconds nanos
  apply decode_eq_ok
  rw [normalize_ofDuration, decoded]

mutual

/-- No document is read as a tree with a duration: what could be one is a list or a mapping before. -/
theorem no_duration_toTree (d : Duration) : ∀ document : Document, .duration d ∉ document.toTree.nodes
  | .null | .bool _ | .float _ | .text _ => by simp [Document.toTree, nodes]
  | .integer i => by
    rw [Document.toTree, Document.number]
    split <;> simp [nodes]
  | .list items => by
    intro member
    rcases List.mem_cons.mp member with same | below
    · cases same
    · obtain ⟨item, among, inside⟩ := mem_nodesOfItems.mp below
      exact no_duration_treesOf d items item among inside
  | .object entries => by
    intro member
    rcases List.mem_cons.mp member with same | below
    · cases same
    · obtain ⟨field, among, inside⟩ := mem_nodesOfFields.mp below
      exact no_duration_fieldsOf d entries field ((ofEntries_spec _).2 field among) inside
termination_by structural document => document

theorem no_duration_treesOf (d : Duration) : ∀ items : List Document,
    ∀ t ∈ Document.treesOf items, .duration d ∉ t.nodes
  | [] => List.forall_mem_nil _
  | item :: rest => List.forall_mem_cons.mpr ⟨no_duration_toTree d item, no_duration_treesOf d rest⟩
termination_by structural items => items

theorem no_duration_fieldsOf (d : Duration) : ∀ entries : List (String × Document),
    ∀ field ∈ Document.fieldsOf entries, .duration d ∉ field.2.nodes
  | [] => List.forall_mem_nil _
  | (_, value) :: rest =>
    List.forall_mem_cons.mpr ⟨no_duration_toTree d value, no_duration_fieldsOf d rest⟩
termination_by structural entries => entries

end

theorem no_duration_normal (t : Tree) (d : Duration) : .duration d ∉ t.normal.nodes := fun member =>
  isNormal_normal t _ member

/-- Decoding a tree as a tree gives its normal form, and nothing else. That has its mappings sorted by the octets
of their keys, only finite numbers, and no durations even where a mapping has the keys of one; and it is decoded
as it is. For every document is read by trying the variants one after the other, and one before that of durations
can always be read. A duration is decoded as a duration all the same. -/
theorem decode_normal {t : Tree} (keyed : t.Keyed)
    (fits : ∀ d, .duration d ∈ t.nodes → d.seconds ≤ 9223372036854775807) :
    t.decode Decoder.tree = .ok t.normal ∧
      (∀ node ∈ t.normal.nodes, node.IsNormal) ∧
      (∀ d, .duration d ∉ t.normal.nodes) ∧
      t.normal.decode Decoder.tree = .ok t.normal ∧
      (∀ document, Decoder.tree document = Decoder.trial "Value"
          (Decoder.variants (Decoder.list Decoder.tree) (Decoder.fields Decoder.tree)) document ∧
        ∃ read, Decoder.tree document = .ok read ∧ ∀ d, .duration d ∉ read.nodes) ∧
      ∀ d : Duration, (Tree.duration d).decode Decoder.duration = .ok d := by
  have simple := isNormal_normal t
  have plain := no_duration_normal t
  refine ⟨decode_tree keyed fits, simple, plain, ?_, fun document => ?_, decode_duration⟩
  · rw [decode_tree (keyed_normal t keyed) fun d member => absurd member (plain d),
      normal_eq_self t.normal simple]
  · exact ⟨Decoder.tree_eq_trial document, document.toTree, Decoder.tree_eq_toTree document,
      fun d => no_duration_toTree d document⟩

/-- Keys that a duration has make none; one with the most seconds that fit is there as its parts. -/
theorem decode_normal_mixed :
    let longest : Duration := ⟨9223372036854775807, 999999999, by decide, by decide⟩
    let t : Tree := .mapping [("secs", .integer 1), ("nanos", .float .nan), ("é", .float (.zero true)),
      ("Z", .sequence [.duration longest, .mapping [("secs", .null), ("nanos", .text "x")]])]
    let kept : Tree := .mapping [("Z", .sequence
        [.mapping [("nanos", .integer 999999999), ("secs", .integer Int64.maxValue)],
          .mapping [("nanos", .text "x"), ("secs", .null)]]),
      ("nanos", .null), ("secs", .integer 1), ("é", .float (.zero true))]
    t.Keyed ∧ (∀ d, .duration d ∈ t.nodes → d.seconds ≤ 9223372036854775807) ∧
      t.decode Decoder.tree = .ok kept ∧ kept.decode Decoder.tree = .ok kept := by
  intro longest t kept
  have keyed : t.Keyed := by
    intro fields member
    simp only [t, nodes, nodesOfItems, nodesOfFields, List.mem_cons, Tree.mapping.injEq, reduceCtorEq,
      false_or, List.append_nil, List.nil_append, List.cons_append, List.not_mem_nil, or_false] at member
    rcases member with rfl | rfl
    · decide
    · decide
  have fits : ∀ d, .duration d ∈ t.nodes → d.seconds ≤ 9223372036854775807 := by
    intro d member
    simp only [t, nodes, nodesOfItems, nodesOfFields, List.mem_cons, Tree.duration.injEq, reduceCtorEq,
      false_or, List.append_nil, List.nil_append, List.cons_append, List.not_mem_nil, or_false] at member
    rw [member]
  have form : t.normal = kept := by decide +kernel
  obtain ⟨decoded, _, _, again, _⟩ := decode_normal keyed fits
  rw [form] at decoded again
  exact ⟨keyed, fits, decoded, again⟩

end Tree
end Directives
