import Directives.Proofs.Nodes
import Directives.Proofs.Origins
import Directives.Vault.Session

/-! Distinct keys in resolved trees. Wherever a tree comes from, its mappings are made of entries in which
the last value of a key counts, and resolution leaves keys as they are. -/
namespace Directives

namespace Tree

theorem keyed_number (i : Int) : (Document.number i).Keyed := by
  rw [Document.number]
  split
  · exact keyed_of_isOpaque rfl
  · exact keyed_of_isOpaque rfl

mutual

theorem keyed_toTree : ∀ d : Document, d.toTree.Keyed
  | .null | .bool _ | .float _ => keyed_of_isOpaque rfl
  | .integer i => keyed_number i
  | .text s => keyed_text s
  | .list items => keyed_sequence_iff.mpr (keyed_treesOf items)
  | .object entries => keyed_ofEntries (keyed_fieldsOf entries)
termination_by structural d => d

theorem keyed_treesOf : ∀ (items : List Document), ∀ t ∈ Document.treesOf items, t.Keyed
  | [] => List.forall_mem_nil _
  | item :: rest => List.forall_mem_cons.mpr ⟨keyed_toTree item, keyed_treesOf rest⟩
termination_by structural items => items

theorem keyed_fieldsOf : ∀ (entries : List (String × Document)),
    ∀ field ∈ Document.fieldsOf entries, field.2.Keyed
  | [] => List.forall_mem_nil _
  | (_, value) :: rest => List.forall_mem_cons.mpr ⟨keyed_toTree value, keyed_fieldsOf rest⟩
termination_by structural entries => entries

end

theorem keyed_decode {format : Source.Format} {content : String} {t : Tree}
    (done : format.decode content = .ok t) : t.Keyed := by
  cases format with
  | yaml =>
    rw [Source.Format.decode] at done
    split at done
    · rw [Source.Format.tree_mapError] at done
      cases done
      exact keyed_toTree _
    · cases done
  | json =>
    rw [Source.Format.decode] at done
    split at done
    · rw [Source.Format.tree_mapError] at done
      cases done
      exact keyed_toTree _
    · cases done
  | text =>
    cases done
    exact keyed_text content

theorem keyed_read {files : Files} {path : String} {t : Tree} (done : Source.read files path = .ok t) :
    t.Keyed := by
  rw [Source.read] at done
  split at done
  · exact keyed_decode done
  · cases done

section
open Traced (Yields)
variable {κ σ : Type} {leaf : String → Traced κ σ Fault Tree}

mutual

/-- A visit leaves keys as they are. -/
theorem yields_keyed_visit (texts : ∀ raw, Yields Keyed (leaf raw)) :
    ∀ t : Tree, t.Keyed → Yields Keyed (t.visit leaf)
  | .text raw, _ => texts raw
  | .sequence items, keyed =>
    (yields_keyed_visitItems texts 0 items (keyed_sequence_iff.mp keyed)).bind fun _ kept =>
      .pure (keyed_sequence_iff.mpr kept)
  | .mapping fields, keyed =>
    (yields_keyed_visitFields texts fields (keyed_mapping_iff.mp keyed).2).bind fun _ kept =>
      .pure (keyed_mapping_iff.mpr ⟨kept.1 ▸ (keyed_mapping_iff.mp keyed).1, kept.2⟩)
  | .null, keyed | .bool _, keyed | .integer _, keyed | .float _, keyed | .duration _, keyed => .pure keyed
termination_by structural t => t

theorem yields_keyed_visitItems (texts : ∀ raw, Yields Keyed (leaf raw)) (position : Nat) :
    ∀ items : List Tree, (∀ item ∈ items, item.Keyed) →
      Yields (fun items' => ∀ item ∈ items', item.Keyed) (visitItems leaf position items)
  | [], keyed => .pure keyed
  | item :: rest, keyed => by
    obtain ⟨first, others⟩ := List.forall_mem_cons.mp keyed
    have visited : Yields Keyed ((visit leaf item).mapError (Fault.under (.index position))) :=
      (yields_keyed_visit texts item first).mapError fun _ => id
    exact visited.bind fun _ kept => (yields_keyed_visitItems texts (position + 1) rest others).bind
      fun _ keptRest => .pure (List.forall_mem_cons.mpr ⟨kept, keptRest⟩)
termination_by structural items => items

theorem yields_keyed_visitFields (texts : ∀ raw, Yields Keyed (leaf raw)) :
    ∀ fields : List (String × Tree), (∀ field ∈ fields, field.2.Keyed) →
      Yields (fun fields' => fields'.map Prod.fst = fields.map Prod.fst ∧ ∀ field ∈ fields', field.2.Keyed)
        (visitFields leaf fields)
  | [], keyed => .pure ⟨rfl, keyed⟩
  | (key, value) :: rest, keyed => by
    obtain ⟨first, others⟩ := List.forall_mem_cons.mp keyed
    have visited : Yields Keyed ((visit leaf value).mapError (Fault.under (.key key))) :=
      (yields_keyed_visit texts value first).mapError fun _ => id
    exact visited.bind fun _ kept => (yields_keyed_visitFields texts rest others).bind
      fun _ keptRest => .pure ⟨congrArg (key :: ·) keptRest.1, List.forall_mem_cons.mpr ⟨kept, keptRest.2⟩⟩
termination_by structural fields => fields

end

end
end Tree

namespace Builtin
open Walk Expansion Vault
open Traced (Yields yields_anything yields_of_outcome)
variable {σ : Type} {context : Context σ}

/-- All mappings that a computation finds in secrets have distinct keys. -/
abbrev YieldsSecret (m : Run σ Fault (List (String × Tree))) : Prop :=
  Yields (fun fields => (Tree.mapping fields).Keyed) m

theorem keyed_of_fields {d : Document} {fields : List (String × Tree)}
    (decoded : Decoder.fields Decoder.tree d = .ok fields) : (Tree.mapping fields).Keyed := by
  cases d with
  | object entries =>
    rw [Decoder.fields_tree] at decoded
    cases decoded
    exact Tree.keyed_toTree (.object entries)
  | _ => cases decoded

theorem keyed_of_secretDecoder {d : Document} {fields : List (String × Tree)}
    (decoded : secretDecoder d = .ok fields) : (Tree.mapping fields).Keyed := by
  obtain ⟨outer, _, decoded⟩ := Decoder.exists_of_bind decoded
  obtain ⟨inner, _, decoded⟩ := Decoder.exists_of_bind decoded
  rw [Decoder.value] at decoded
  split at decoded
  · exact keyed_of_fields decoded
  · cases decoded

theorem yields_keyed_store (c : Client) (link : Link σ) (moment : σ → Cancel.Moment) (token : Cancel.Token)
    (path : String) (mount : Option String) : YieldsSecret ((c.store link moment).read token path mount) := by
  refine yields_of_outcome fun {s fields} done => ?_
  cases checked : token.check (moment s) with
  | error f =>
    rw [Client.store_read_of_error checked] at done
    cases done
  | ok _ =>
    rw [Client.store_read_of_ok checked] at done
    cases replied : readReply secretDecoder (c.readRequest path mount).url
        (link.exchange (c.readRequest path mount) (token.bound (moment s) requestLimit) s).1 with
    | error problem =>
      rw [replied] at done
      cases done
    | ok secret =>
      rw [replied] at done
      cases done
      obtain ⟨_, _, d, _, _, _, decoded⟩ := readReply_eq_ok_iff.mp replied
      exact keyed_of_secretDecoder decoded

theorem yields_keyed_resolve {resolver : Resolver σ} (member : resolver ∈ resolvers)
    (secrets : ∀ store, context.secrets = some store → ∀ path mount,
      YieldsSecret (store.read context.token path mount)) (payload : String) :
    Yields (fun resolved => resolved.value.Keyed) (resolver.resolve context payload) := by
  have file : Yields (fun answer => ∀ t, answer.1 = .ok t → t.Keyed) (readFile context payload) :=
    (yields_anything _).bind fun _ _ => (yields_anything _).bind fun _ _ => .read fun _ _ => Tree.keyed_read
  simp only [resolvers, List.mem_cons, List.not_mem_nil, or_false] at member
  rcases member with rfl | rfl | rfl | rfl | rfl
  · refine (yields_anything (lookUp context payload)).bind fun value _ => ?_
    cases value with
    | none => exact .fail trivial
    | some value =>
      dsimp only
      split
      · exact .fail trivial
      · exact .pure (Tree.keyed_text value)
  · exact (yields_anything _).bind fun _ _ => .pure (Tree.keyed_text _)
  · refine file.bind fun answer keyed => ?_
    split
    · exact .pure (keyed _ rfl)
    · exact .fail trivial
  · refine file.bind fun answer keyed => ?_
    split
    · exact .pure (keyed _ rfl)
    · split
      · exact .pure (Tree.keyed_of_isOpaque rfl)
      · exact .fail trivial
  · cases stored : context.secrets with
    | none =>
      simp only [secretResolver, stored]
      exact .fail trivial
    | some store =>
      simp only [secretResolver, stored]
      refine (yields_anything _).bind fun _ _ => (yields_anything _).bind fun _ _ => ?_
      exact (secrets store stored _ _).bind fun fields keyed => .pure keyed

theorem isOpaque_of_toInteger {t v : Tree} (done : toInteger t = .ok v) : v.isOpaque = true := by
  cases t with
  | integer i =>
    cases done
    rfl
  | text text =>
    rw [toInteger] at done
    split at done
    · cases done
      rfl
    · cases done
  | _ => cases done

theorem isOpaque_of_toDuration {t v : Tree} (done : toDuration t = .ok v) : v.isOpaque = true := by
  cases t with
  | duration d =>
    cases done
    rfl
  | integer i | text text =>
    rw [toDuration] at done
    split at done
    · cases done
      rfl
    · cases done
  | _ => cases done

theorem yields_keyed_apply {coercion : Coercion σ} (member : coercion ∈ (coercions : List (Coercion σ)))
    (t : Tree) : Yields Tree.Keyed (coercion.apply t) := by
  simp only [coercions, List.mem_cons, List.not_mem_nil, or_false] at member
  rcases member with rfl | rfl
  · exact .ofExcept (fun _ _ => trivial) fun _ done => Tree.keyed_of_isOpaque (isOpaque_of_toInteger done)
  · exact .ofExcept (fun _ _ => trivial) fun _ done => Tree.keyed_of_isOpaque (isOpaque_of_toDuration done)

theorem yields_lift {α : Type} {given : α → Prop} {m : Run σ Fault α} (yields : Yields given m) :
    Yields given (lift m) := yields_of_outcome fun done => yields.result trivial done

theorem yields_keyed_coerce {names : List String} (known : (registry : Registry σ).Knows names) {t : Tree}
    (keyed : t.Keyed) : Yields Tree.Keyed (coerce (registry : Registry σ) names t) := by
  induction names generalizing t with
  | nil => exact .pure keyed
  | cons name rest ih =>
    obtain ⟨coercion, member, rfl, found⟩ := known name List.mem_cons_self
    have applied : Yields Tree.Keyed ((lift (coercion.apply t)).mapError (Fault.inCoercion coercion.name)) :=
      (yields_lift (yields_keyed_apply member t)).mapError fun _ => id
    rw [coerce, found]
    refine (yields_anything _).bind fun _ _ => applied.bind fun _ kept => ih ?_ kept
    exact fun name member => known name (List.mem_cons_of_mem _ member)

theorem keyed_of_evaluate (secrets : ∀ store, context.secrets = some store → ∀ path mount,
    YieldsSecret (store.read context.token path mount)) {raw : String} {w : Walk σ} {resolved : Resolved}
    (done : (evaluate registry context ((registry : Registry σ).split raw) w).outcome = .ok resolved) :
    resolved.value.Keyed := by
  have fetched : Yields (fun resolved => resolved.value.Keyed)
      (fetch context ((registry : Registry σ).split raw).stem
        ((registry : Registry σ).resolver? ((registry : Registry σ).split raw).stem)) := by
    cases found : (registry : Registry σ).resolver? ((registry : Registry σ).split raw).stem with
    | none => exact .pure (Tree.keyed_text _)
    | some pair =>
      have member : pair.1 ∈ resolvers := (Registry.mem_of_resolver? found).1
      exact (yields_anything _).bind fun _ _ => (yields_anything _).bind fun _ _ =>
        yields_lift (yields_keyed_resolve member secrets pair.2)
  have evaluated : Yields (fun resolved => resolved.value.Keyed)
      (evaluate registry context ((registry : Registry σ).split raw)) :=
    fetched.bind fun _ keyed =>
      (yields_keyed_coerce (registry.knows_split raw) keyed).bind fun _ kept => .pure kept
  exact evaluated.result trivial done

/-- Resolution keeps keys distinct. -/
theorem keyed_of_expandTree (secrets : ∀ store, context.secrets = some store → ∀ path mount,
    YieldsSecret (store.read context.token path mount)) {limit room : Nat} {t v : Tree} {w : Walk σ}
    (keyed : t.Keyed) (done : (expandTree registry context limit room t w).outcome = .ok v) : v.Keyed := by
  -- What a directive evaluates to is expanded in turn, so a visit and an evaluation have to keep keys alike.
  refine outcome_of_expandTree Tree.Keyed Tree.Keyed (keyed_of_evaluate secrets) ?_ keyed done
  intro expand directives t w v keyed done
  refine (Tree.yields_keyed_visit (fun raw => yields_of_outcome fun done => ?_) t keyed).result trivial done
  by_cases plain : isPlain (registry : Registry σ) raw = true
  · rw [expandText_plain plain] at done
    cases done
    exact Tree.keyed_text raw
  · rw [expandText_directive plain, Traced.mapError_outcome_ok] at done
    exact directives done

end Builtin
end Directives
