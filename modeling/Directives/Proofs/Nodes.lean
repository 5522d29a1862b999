import Directives.Proofs.Visiting
import Directives.Rendering

/-! The nodes of a tree: the tree itself and every value below it. What JSON can say of a tree, and what
becomes of a tree when its durations are spelled out, is told by its nodes. -/
namespace Directives

namespace Tree

mutual

/-- The tree and all values below it, each before those below it. -/
def nodes : Tree → List Tree
  | .sequence items => .sequence items :: nodesOfItems items
  | .mapping fields => .mapping fields :: nodesOfFields fields
  | scalar => [scalar]
termination_by structural t => t

def nodesOfItems : List Tree → List Tree
  | [] => []
  | item :: rest => nodes item ++ nodesOfItems rest
termination_by structural items => items

def nodesOfFields : List (String × Tree) → List Tree
  | [] => []
  | (_, value) :: rest => nodes value ++ nodesOfFields rest
termination_by structural fields => fields

end

theorem mem_nodes_self (t : Tree) : t ∈ t.nodes := by
  cases t <;> simp [nodes]

mutual

def depth : Tree → Nat
  | .sequence items => depthOfItems items + 1
  | .mapping fields => depthOfFields fields + 1
  | _ => 0
termination_by structural t => t

def depthOfItems : List Tree → Nat
  | [] => 0
  | item :: rest => max (depth item) (depthOfItems rest)
termination_by structural items => items

def depthOfFields : List (String × Tree) → Nat
  | [] => 0
  | (_, value) :: rest => max (depth value) (depthOfFields rest)
termination_by structural fields => fields

end

mutual

theorem mem_texts_iff {text : String} : ∀ t : Tree, text ∈ t.texts ↔ .text text ∈ t.nodes
  | .sequence items => by simpa [texts, nodes] using mem_itemTexts_iff items
  | .mapping fields => by simpa [texts, nodes] using mem_fieldTexts_iff fields
  | .text _ => by simp [texts, nodes]
  | .null | .bool _ | .integer _ | .float _ | .duration _ => by simp [texts, nodes]
termination_by structural t => t

theorem mem_itemTexts_iff {text : String} : ∀ items : List Tree,
    text ∈ itemTexts items ↔ .text text ∈ nodesOfItems items
  | [] => by simp [itemTexts, nodesOfItems]
  | item :: rest => by
    simp only [itemTexts, nodesOfItems, List.mem_append, mem_texts_iff item, mem_itemTexts_iff rest]
termination_by structural items => items

theorem mem_fieldTexts_iff {text : String} : ∀ fields : List (String × Tree),
    text ∈ fieldTexts fields ↔ .text text ∈ nodesOfFields fields
  | [] => by simp [fieldTexts, nodesOfFields]
  | (_, value) :: rest => by
    simp only [fieldTexts, nodesOfFields, List.mem_append, mem_texts_iff value, mem_fieldTexts_iff rest]
termination_by structural fields => fields

end

theorem mem_nodesOfItems {node : Tree} {items : List Tree} :
    node ∈ nodesOfItems items ↔ ∃ item ∈ items, node ∈ item.nodes := by
  induction items with
  | nil => simp [nodesOfItems]
  | cons item rest ih => simp [nodesOfItems, ih]

theorem mem_nodesOfFields {node : Tree} {fields : List (String × Tree)} :
    node ∈ nodesOfFields fields ↔ ∃ field ∈ fields, node ∈ field.2.nodes := by
  induction fields with
  | nil => simp [nodesOfFields]
  | cons field rest ih => simp [nodesOfFields, ih]

/-! Spelling out durations. -/

mutual

theorem nodes_spellOut : ∀ t : Tree, t.spellOut.nodes = t.nodes.map spellOut
  | .sequence items => by simp [spellOut, nodes, nodesOfItems_spellOut items]
  | .mapping fields => by simp [spellOut, nodes, nodesOfFields_spellOut fields]
  | .null | .bool _ | .integer _ | .float _ | .text _ | .duration _ => rfl
termination_by structural t => t

theorem nodesOfItems_spellOut : ∀ items : List Tree,
    nodesOfItems (spellOutItems items) = (nodesOfItems items).map spellOut
  | [] => rfl
  | item :: rest => by
    simp only [spellOutItems, nodesOfItems, List.map_append, nodes_spellOut item, nodesOfItems_spellOut rest]
termination_by structural items => items

theorem nodesOfFields_spellOut : ∀ fields : List (String × Tree),
    nodesOfFields (spellOutFields fields) = (nodesOfFields fields).map spellOut
  | [] => rfl
  | (_, value) :: rest => by
    simp only [spellOutFields, nodesOfFields, List.map_append, nodes_spellOut value,
      nodesOfFields_spellOut rest]
termination_by structural fields => fields

end

mutual

theorem depth_spellOut : ∀ t : Tree, t.spellOut.depth = t.depth
  | .sequence items => congrArg (· + 1) (depthOfItems_spellOut items)
  | .mapping fields => congrArg (· + 1) (depthOfFields_spellOut fields)
  | .null | .bool _ | .integer _ | .float _ | .text _ | .duration _ => rfl
termination_by structural t => t

theorem depthOfItems_spellOut : ∀ items : List Tree, depthOfItems (spellOutItems items) = depthOfItems items
  | [] => rfl
  | item :: rest => by
    simp only [spellOutItems, depthOfItems, depth_spellOut item, depthOfItems_spellOut rest]
termination_by structural items => items

theorem depthOfFields_spellOut : ∀ fields : List (String × Tree),
    depthOfFields (spellOutFields fields) = depthOfFields fields
  | [] => rfl
  | (_, value) :: rest => by
    simp only [spellOutFields, depthOfFields, depth_spellOut value, depthOfFields_spellOut rest]
termination_by structural fields => fields

end

theorem keys_spellOutFields (fields : List (String × Tree)) :
    (spellOutFields fields).map Prod.fst = fields.map Prod.fst := by
  induction fields with
  | nil => rfl
  | cons field rest ih => exact congrArg (field.1 :: ·) ih

mutual

theorem spellOut_eq_self : ∀ t : Tree, (∀ d, .duration d ∉ t.nodes) → t.spellOut = t
  | .sequence items, plain => by
    rw [spellOut, spellOutItems_eq_self items fun d member => plain d (List.mem_cons_of_mem _ member)]
  | .mapping fields, plain => by
    rw [spellOut, spellOutFields_eq_self fields fun d member => plain d (List.mem_cons_of_mem _ member)]
  | .duration d, plain => absurd List.mem_cons_self (plain d)
  | .null, _ | .bool _, _ | .integer _, _ | .float _, _ | .text _, _ => rfl
termination_by structural t => t

theorem spellOutItems_eq_self : ∀ items : List Tree, (∀ d, .duration d ∉ nodesOfItems items) →
    spellOutItems items = items
  | [], _ => rfl
  | item :: rest, plain => by
    rw [spellOutItems, spellOut_eq_self item fun d member => plain d (List.mem_append_left _ member),
      spellOutItems_eq_self rest fun d member => plain d (List.mem_append_right _ member)]
termination_by structural items => items

theorem spellOutFields_eq_self : ∀ fields : List (String × Tree), (∀ d, .duration d ∉ nodesOfFields fields) →
    spellOutFields fields = fields
  | [], _ => rfl
  | (_, value) :: rest, plain => by
    rw [spellOutFields, spellOut_eq_self value fun d member => plain d (List.mem_append_left _ member),
      spellOutFields_eq_self rest fun d member => plain d (List.mem_append_right _ member)]
termination_by structural fields => fields

end

/-- No duration is left when all are spelled out. -/
theorem duration_not_mem_spellOut (t : Tree) (d : Duration) : .duration d ∉ t.spellOut.nodes := by
  rw [nodes_spellOut]
  intro member
  obtain ⟨node, _, spelled⟩ := List.mem_map.mp member
  cases node <;> cases spelled

theorem spellOut_spellOut (t : Tree) : t.spellOut.spellOut = t.spellOut :=
  spellOut_eq_self _ (duration_not_mem_spellOut t)

/-! Distinct keys. -/

section
variable {α : Type}

theorem put_of_new {key : String} {fields : List (String × α)} (new : key ∉ fields.map Prod.fst) (value : α) :
    put key value fields = fields ++ [(key, value)] := by
  induction fields with
  | nil => rfl
  | cons field rest ih =>
    rw [List.map_cons, List.mem_cons, not_or] at new
    rw [put, if_neg (Ne.symm new.1), ih new.2, List.cons_append]

theorem keys_put_of_mem {key : String} {fields : List (String × α)} (known : key ∈ fields.map Prod.fst)
    (value : α) : (put key value fields).map Prod.fst = fields.map Prod.fst := by
  induction fields with
  | nil => cases known
  | cons field rest ih =>
    by_cases here : field.1 = key
    · simp [put, here]
    · have later : key ∈ rest.map Prod.fst := (List.mem_cons.mp known).resolve_left (Ne.symm here)
      rw [put, if_neg here, List.map_cons, ih later, List.map_cons]

theorem nodup_keys_put {fields : List (String × α)} (distinct : (fields.map Prod.fst).Nodup) (key : String)
    (value : α) : ((put key value fields).map Prod.fst).Nodup := by
  by_cases known : key ∈ fields.map Prod.fst
  · rwa [keys_put_of_mem known]
  · rw [put_of_new known, List.map_append]
    refine List.nodup_append.mpr ⟨distinct, by simp, fun other member last single => ?_⟩
    rintro rfl
    obtain rfl : other = key := List.mem_singleton.mp single
    exact known member

theorem mem_of_mem_put {key : String} {value : α} {fields : List (String × α)} {field : String × α}
    (member : field ∈ put key value fields) : field = (key, value) ∨ field ∈ fields := by
  induction fields with
  | nil => exact .inl (List.mem_singleton.mp member)
  | cons other rest ih =>
    rw [put] at member
    split at member
    · next same =>
      rcases List.mem_cons.mp member with rfl | member
      · exact .inl (by rw [same])
      · exact .inr (List.mem_cons_of_mem _ member)
    · rcases List.mem_cons.mp member with rfl | member
      · exact .inr List.mem_cons_self
      · exact (ih member).imp_right (List.mem_cons_of_mem _)

theorem foldl_put_of_nodup {fields entries : List (String × α)}
    (distinct : ((fields ++ entries).map Prod.fst).Nodup) :
    entries.foldl (fun fields (key, value) => put key value fields) fields = fields ++ entries := by
  induction entries generalizing fields with
  | nil => exact (List.append_nil fields).symm
  | cons entry rest ih =>
    obtain ⟨key, value⟩ := entry
    have new : key ∉ fields.map Prod.fst := by
      rw [List.map_append, List.nodup_append] at distinct
      exact fun member => distinct.2.2 key member key List.mem_cons_self rfl
    rw [List.append_cons] at distinct ⊢
    rw [← ih distinct, ← put_of_new new value]
    rfl

/-- Entries that have distinct keys are kept as they are. -/
theorem ofEntries_of_nodup {entries : List (String × α)} (distinct : (entries.map Prod.fst).Nodup) :
    ofEntries entries = entries := foldl_put_of_nodup distinct

/-- Entries that are taken up one after the other leave distinct keys, and values of theirs. -/
theorem ofEntries_spec (entries : List (String × α)) :
    ((ofEntries entries).map Prod.fst).Nodup ∧ ∀ field ∈ ofEntries entries, field ∈ entries := by
  have after (fields : List (String × α)) (distinct : (fields.map Prod.fst).Nodup) :
      let taken := entries.foldl (fun fields (key, value) => put key value fields) fields
      (taken.map Prod.fst).Nodup ∧ ∀ field ∈ taken, field ∈ fields ∨ field ∈ entries := by
    induction entries generalizing fields with
    | nil => exact ⟨distinct, fun _ => .inl⟩
    | cons entry rest ih =>
      obtain ⟨key, value⟩ := entry
      obtain ⟨kept, members⟩ := ih _ (nodup_keys_put distinct key value)
      refine ⟨kept, fun field member => ?_⟩
      rcases members field member with member | member
      · rcases mem_of_mem_put member with rfl | member
        · exact .inr List.mem_cons_self
        · exact .inl member
      · exact .inr (List.mem_cons_of_mem _ member)
  obtain ⟨distinct, members⟩ := after [] List.nodup_nil
  exact ⟨distinct, fun field member => (members field member).resolve_left List.not_mem_nil⟩

end

/-- Every mapping in the tree has distinct keys. -/
def Keyed (t : Tree) : Prop := ∀ fields, .mapping fields ∈ t.nodes → (fields.map Prod.fst).Nodup

theorem keyed_text (text : String) : (Tree.text text).Keyed := by
  intro fields member
  cases List.mem_singleton.mp member

theorem keyed_of_isOpaque {t : Tree} (scalar : t.isOpaque = true) : t.Keyed := by
  intro fields member
  cases t with
  | text _ | sequence _ | mapping _ => cases scalar
  | _ => cases List.mem_singleton.mp member

theorem keyed_sequence_iff {items : List Tree} :
    (Tree.sequence items).Keyed ↔ ∀ item ∈ items, item.Keyed := by
  constructor
  · intro keyed item among fields member
    exact keyed fields (List.mem_cons_of_mem _ (mem_nodesOfItems.mpr ⟨item, among, member⟩))
  · intro keyed fields member
    rcases List.mem_cons.mp member with same | below
    · cases same
    · obtain ⟨item, among, member⟩ := mem_nodesOfItems.mp below
      exact keyed item among fields member

theorem keyed_mapping_iff {fields : List (String × Tree)} :
    (Tree.mapping fields).Keyed ↔ (fields.map Prod.fst).Nodup ∧ ∀ field ∈ fields, field.2.Keyed := by
  constructor
  · intro keyed
    refine ⟨keyed fields List.mem_cons_self, fun field among inner member => ?_⟩
    exact keyed inner (List.mem_cons_of_mem _ (mem_nodesOfFields.mpr ⟨field, among, member⟩))
  · rintro ⟨distinct, keyed⟩ inner member
    rcases List.mem_cons.mp member with same | below
    · cases same
      exact distinct
    · obtain ⟨field, among, member⟩ := mem_nodesOfFields.mp below
      exact keyed field among inner member

theorem keyed_ofEntries {entries : List (String × Tree)} (keyed : ∀ entry ∈ entries, entry.2.Keyed) :
    (Tree.mapping (ofEntries entries)).Keyed := by
  obtain ⟨distinct, members⟩ := ofEntries_spec entries
  exact keyed_mapping_iff.mpr ⟨distinct, fun field member => keyed field (members field member)⟩

end Tree
end Directives
