import Directives.Proofs.ExitCodes
import Directives.Proofs.Fixpoint
import Directives.Proofs.JsonRoundTrip
import Directives.Proofs.Keys

/-! What is saved as JSON is resolved for good. Read again in other surroundings it gives the tree that was
written, and this holds nothing that could still be resolved. -/
namespace Directives

namespace Tree

theorem settled_spellOut {σ : Type} {t : Tree}
    (settled : Expansion.Settled (Builtin.registry : Registry σ) t) :
    Expansion.Settled (Builtin.registry : Registry σ) t.spellOut := by
  intro text member
  rw [mem_texts_iff, nodes_spellOut] at member
  obtain ⟨node, among, spelled⟩ := List.mem_map.mp member
  cases node with
  | text raw =>
    cases spelled
    exact settled text ((mem_texts_iff t).mpr among)
  | duration d =>
    cases spelled
    have unmarked {c : Char} (other : c.isDigit = false ∧ c.isLower = false ∧ c ≠ ' ') :
        c ∉ d.toText.toList := by
      intro member
      simpa [other] using d.plain_toText c member
    exact Builtin.isPlain_of_unmarked (unmarked (by decide)) (unmarked (by decide))
  | _ => cases spelled

/-- Without floats, JSON can say a tree whose durations are spelled out. -/
theorem inJson_spellOut {t : Tree} (keyed : t.Keyed) (exact : ∀ x, .float x ∉ t.nodes) :
    ∀ node ∈ t.spellOut.nodes, node.InJson := by
  intro node member
  rw [nodes_spellOut] at member
  obtain ⟨node, among, rfl⟩ := List.mem_map.mp member
  cases node with
  | float x => exact absurd among (exact x)
  | mapping fields =>
    have distinct := keyed fields among
    rwa [← keys_spellOutFields] at distinct
  | _ => trivial

theorem render_json (t : Tree) : Rendering.json.render t =
    String.ofList (Document.Json.write .indented 0 (Document.ofTree t) ++ ['\n']) := by
  rw [String.ofList_append]
  rfl

/-- A tree is read as it was printed as JSON. -/
theorem decode_render_json {t : Tree} (simple : ∀ node ∈ t.nodes, node.InJson) (shallow : t.depth < 128) :
    Source.Format.json.decode (Rendering.json.render t) = .ok t := by
  rw [render_json]
  exact decode_write simple (Nat.le_of_lt_succ shallow) .indented (Document.Json.ends_of_mark (by decide) [])
    rfl

end Tree

namespace Command
variable {σ : Type}

theorem keyed_of_readTree {files : Files} {path : String} {t : Tree}
    (done : Load.readTree files path = .ok t) : t.Keyed := by
  rw [Load.readTree] at done
  split at done
  · next read =>
    cases done
    exact Tree.keyed_read read
  · cases done

/-- What a file resolves to is settled and has distinct keys. -/
theorem settled_of_resolveFile {m : Machine σ} {file : String} {limits : Limits} {s : σ} {t : Tree}
    (done : (resolveFile m file limits s).outcome = .ok t) :
    t.Keyed ∧ Expansion.Settled (Builtin.registry : Registry σ) t := by
  obtain ⟨_, raw, context, read, attached, resolved⟩ := resolveFile_ok_iff.mp done
  have secrets : ∀ store, context.secrets = some store → ∀ path mount,
      Builtin.YieldsSecret (store.read context.token path mount) := by
    intro store found path mount
    rcases context_of_attachVault attached with rfl | ⟨c, rfl⟩
    · cases found
    · cases found
      exact Builtin.yields_keyed_store c m.link m.moment _ path mount
  exact ⟨Builtin.keyed_of_expandTree secrets (keyed_of_readTree read) resolved,
    Expansion.settled_of_expandTree resolved⟩

section
variable {m : Machine σ} {file : String} {limits : Limits} {s : σ}

theorem execute_saved {t : Tree} (done : (resolveFile m file limits s).outcome = .ok t) (out : String) :
    let after := (resolveFile m file limits s).state
    execute m (.resolve file "json" (some out) limits) s =
      match (m.world after).files.write out (Rendering.json.render t.spellOut) with
      | .ok files => (.written out, m.putFiles files after)
      | .error problem => (.writingFailed problem.message, after) := by
  intro after
  rw [execute_resolve m file limits s (by decide), done]
  rfl

/-- A command that ends well has resolved its file, and the tree is written. -/
theorem saved_of_code {out : String}
    (done : (execute m (.resolve file "json" (some out) limits) s).1.code = 0) :
    let after := (resolveFile m file limits s).state
    ∃ t files, (resolveFile m file limits s).outcome = .ok t ∧
      (m.world after).files.write out (Rendering.json.render t.spellOut) = .ok files ∧
      (execute m (.resolve file "json" (some out) limits) s).2 = m.putFiles files after := by
  intro after
  obtain ⟨_, well, _⟩ := resolve_ends m file "json" (some out) limits s
  obtain ⟨_, t, resolves, writes⟩ := well.mp done
  obtain ⟨files, written⟩ := writes _ out rfl rfl
  have resolved := resolveFile_ok_iff.mpr resolves
  exact ⟨t, files, resolved, written, by rw [execute_saved resolved, written]⟩

/-- A file that is settled is resolved without a look at anything else. -/
theorem resolveFile_settled {t : Tree} (stands : Source.read (m.world s).files file = .ok t)
    (settled : Expansion.Settled (Builtin.registry : Registry σ) t) (timeout : Option Duration) :
    let limits : Limits := { timeout, withoutVault := true }
    resolveFile m file limits s =
      ⟨if m.InTime limits then .ok t else .error .aborted, s, [.file file]⟩ := by
  intro limits
  rw [resolveFile_withoutVault stands, Tree.resolve, Tree.walk, settled.expandTree]
  split
  · rfl
  · rfl

end

/-- Resolved output is stable. Whatever a file resolves to, what was saved of it as JSON is resolved to the
same octets in any other surroundings, without Vault and without a look at anything else, unless a time limit
leads beyond the last instant. The tree that is read there is the one that was resolved, its durations spelled
out; no duration and no directive is in it, and printing it again changes nothing. -/
theorem resolve_saved {τ : Type} (m : Machine σ) (m' : Machine τ) {file out : String} {limits : Limits}
    {s : σ} {s' : τ} (timeout : Option Duration)
    (kept : ∀ files s, (m.world (m.putFiles files s)).files = files)
    (ended : (execute m (.resolve file "json" (some out) limits) s).1.code = 0)
    (json : Source.Format.ofPath out = .json)
    (stands : (m'.world s').files.octets out =
      (m.world (execute m (.resolve file "json" (some out) limits) s).2).files.octets out) :
    let limits' : Limits := { timeout, withoutVault := true }
    let again : Command := .resolve out "json" none limits'
    ∃ t, (resolveFile m file limits s).outcome = .ok t ∧
      ((∀ x, .float x ∉ t.nodes) → t.depth < 128 →
        let text := Rendering.json.render t.spellOut
        (m'.world s').files.octets out = .ok (Text.toUtf8 text) ∧
          execute m' again s' = (if m'.InTime limits' then { stdout := text } else .aborted, s') ∧
          (prepare m' again s').calls = [.file out] ∧
          Source.Format.json.decode text = .ok t.spellOut ∧ (∀ d, .duration d ∉ t.spellOut.nodes) ∧
          (∀ raw ∈ t.spellOut.texts, Expansion.isPlain (Builtin.registry : Registry τ) raw = true) ∧
          Rendering.json.render t.spellOut.spellOut = text) := by
  intro limits' again
  obtain ⟨t, files, resolved, written, after⟩ := saved_of_code ended
  obtain ⟨keyed, settled⟩ := settled_of_resolveFile resolved
  refine ⟨t, resolved, fun exact shallow => ?_⟩
  intro text
  rw [after, kept, Files.octets_of_write written] at stands
  have decoded : Source.Format.json.decode text = .ok t.spellOut :=
    Tree.decode_render_json (Tree.inJson_spellOut keyed exact) (by rwa [Tree.depth_spellOut])
  have read : Source.read (m'.world s').files out = .ok t.spellOut := by
    simp only [Source.read, Files.read, stands, Text.ofUtf8?_toUtf8, json]
    exact decoded
  have plain : Expansion.Settled (Builtin.registry : Registry τ) t.spellOut := fun raw member =>
    Expansion.isPlain_elsewhere (Tree.settled_spellOut settled raw member)
  have same : Rendering.json.render t.spellOut.spellOut = text := by rw [Tree.spellOut_spellOut]
  -- The second run is over a settled tree, so none of its world is asked but the file itself.
  have second : resolveFile m' out limits' s' = _ := resolveFile_settled read plain timeout
  refine ⟨stands, ?_, ?_, decoded, Tree.duration_not_mem_spellOut t, plain, same⟩
  · rw [execute_resolve m' out limits' s' (by decide), second]
    by_cases inTime : m'.InTime limits'
    · rw [if_pos inTime, if_pos inTime, ← same]
      rfl
    · rw [if_neg inTime, if_neg inTime]
      rfl
  · rw [prepare_resolve m' out limits' s' (by decide), second]

/-- A file is resolved in place; its duration is a text then, and is resolved without the variable it came
from. -/
theorem resolve_saved_in_place :
    let machine : Machine World :=
      { world := id, putFiles := fun files w => { w with files }, moment := fun _ => {}
        link := Network.isolated }
    let command : Command := .resolve "a.json" "json" (some "a.json") { withoutVault := true }
    let before : World :=
      { environment := ⟨[Text.toUtf8 "WAIT=90s"]⟩
        files := { nodes := [(["a.json"], .file (Text.toUtf8 "[\"ENV->WAIT::duration\"]"))] } }
    let elsewhere : World := { files := (execute machine command before).2.files }
    (∀ files w, (machine.world (machine.putFiles files w)).files = files) ∧
      (execute machine command before).1.code = 0 ∧ Source.Format.ofPath "a.json" = .json ∧
      elsewhere.files.octets "a.json" = (execute machine command before).2.files.octets "a.json" ∧
      execute machine (.resolve "a.json" "json" none { withoutVault := true }) elsewhere =
        ({ stdout := "[\n  \"1m 30s\"\n]\n" }, elsewhere) := by
  intro machine command before elsewhere
  have kept : ∀ files w, (machine.world (machine.putFiles files w)).files = files := fun _ _ => rfl
  have json : Source.Format.ofPath "a.json" = .json := by decide +kernel
  have located : before.files.locate "a.json" =
      .ok (.found ["a.json"] (.file (Text.toUtf8 "[\"ENV->WAIT::duration\"]"))) := by
    have names : Files.components "a.json" = ["a.json"] := by decide +kernel
    rw [Files.locate_relative (by simp) (by decide +kernel) (by decide +kernel) (by decide +kernel), names]
    simp [Files.walk, Files.node?, before, show ¬ Files.maxName < "a.json".utf8ByteSize by decide +kernel]
  have read : Source.read before.files "a.json" = .ok (.sequence [.text "ENV->WAIT::duration"]) := by
    simp only [Source.read, Files.read, Files.octets, located, Text.ofUtf8?_toUtf8, json]
    decide +kernel
  have resolved : (resolveFile machine "a.json" { withoutVault := true } before).outcome =
      .ok (.sequence [.duration ⟨90, 0, by decide, by decide⟩]) := by
    rw [resolveFile_withoutVault read, if_pos (inTime_of_untimed rfl)]
    decide +kernel
  have files : (resolveFile machine "a.json" { withoutVault := true } before).state.files = before.files := by
    rw [resolveFile_withoutVault read, if_pos (inTime_of_untimed rfl)]
    decide +kernel
  have written (text : String) : before.files.write "a.json" text =
      .ok (before.files.insert ["a.json"] (.file (Text.toUtf8 text))) := by
    rw [Files.write, if_neg (by decide +kernel), located]
  have ended : (execute machine command before).1.code = 0 := by
    rw [execute_saved resolved]
    dsimp only [machine, id]
    rw [files, written]
    rfl
  have stands : (machine.world elsewhere).files.octets "a.json" =
      (machine.world (execute machine command before).2).files.octets "a.json" := rfl
  obtain ⟨t, resolved', again⟩ := resolve_saved machine machine none kept ended json stands
  obtain rfl := Except.ok.inj (resolved'.symm.trans resolved)
  obtain ⟨_, shown, _⟩ := again (by simp [Tree.nodes, Tree.nodesOfItems]) (by decide)
  have text : Rendering.json.render (Tree.sequence [.duration ⟨90, 0, by decide, by decide⟩]).spellOut =
      "[\n  \"1m 30s\"\n]\n" := by decide +kernel
  exact ⟨kept, ended, json, stands, shown.trans (by rw [if_pos (inTime_of_untimed rfl), text])⟩

end Command
end Directives
