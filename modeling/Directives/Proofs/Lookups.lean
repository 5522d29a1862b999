import Mathlib.Control.Monad.Basic
import Directives.Proofs.Commands
import Directives.Proofs.Nodes
import Directives.Tree.Equality

/-! Looking up a value and spelling out durations, in either order. A path leads to the same place in a tree
and in the tree with its durations spelled out, so what is shown of a value is what stands there in what is
shown of the whole. -/
namespace Directives

namespace Tree
variable {t : Tree}

theorem spellOutItems_eq_map (items : List Tree) : spellOutItems items = items.map spellOut := by
  induction items with
  | nil => rfl
  | cons item rest ih => rw [spellOutItems, ih, List.map_cons]

theorem lookup_spellOutFields (name : String) (fields : List (String × Tree)) :
    (spellOutFields fields).lookup name = (fields.lookup name).map spellOut := by
  induction fields with
  | nil => rfl
  | cons field rest ih =>
    obtain ⟨key, value⟩ := field
    rw [spellOutFields, List.lookup_cons, List.lookup_cons, ih]
    split <;> rfl

/-- One step leads to the same child, spelled out. -/
theorem child?_spellOut (t : Tree) (step : Step) : t.spellOut.child? step = (t.child? step).map spellOut := by
  cases t with
  | sequence items =>
    cases step with
    | key name => rfl
    | index position =>
      rw [spellOut, child?, child?, spellOutItems_eq_map]
      exact List.getElem?_map
  | mapping fields =>
    cases step with
    | key name => exact lookup_spellOutFields name fields
    | index position => rfl
  | null | bool _ | integer _ | float _ | text _ | duration _ => rfl

theorem at?_spellOut (t : Tree) (place : Location) : t.spellOut.at? place = (t.at? place).map spellOut := by
  induction place generalizing t with
  | nil => rfl
  | cons step rest ih =>
    simp only [at?, List.foldlM_cons] at ih ⊢
    rw [child?_spellOut]
    cases t.child? step with
    | none => rfl
    | some child => exact ih child

/-- A path leads to the same value, spelled out, or fails for the same reason. -/
theorem find_spellOut (t : Tree) (path : String) : t.spellOut.find path = (t.find path).map spellOut := by
  rw [find, find]
  split
  · rfl
  · cases Location.ofText path with
    | error malformed => rfl
    | ok place =>
      dsimp only
      rw [at?_spellOut]
      cases t.at? place <;> rfl

end Tree

namespace Command
variable {σ : Type}

/-- A value is shown as it stands in the whole. Spelling out durations and following a path may be done in
either order, with the same value or the same failure. So where a file is resolved, `get` prints what stands at
the path in the tree that `resolve` prints, and where that has nothing there the default, or the report that
nothing is found. -/
theorem get_agrees_with_resolve :
    (∀ (t : Tree) (path : String), t.spellOut.find path = (t.find path).map Tree.spellOut) ∧
    ∀ (m : Machine σ) (file : String) (limits : Limits) (s : σ) (t : Tree),
      (resolveFile m file limits s).outcome = .ok t →
      let after := (resolveFile m file limits s).state
      execute m (.resolve file "json" none limits) s =
          ({ stdout := Rendering.json.render t.spellOut }, after) ∧
        ∀ (path : String) (default : Option String),
          execute m (.get file path "json" default limits) s =
            (match t.spellOut.find path, default with
              | .ok found, _ => { stdout := Rendering.json.render found }
              | .error _, some text => { stdout := text ++ "\n" }
              | .error _, none => .failed Report.unresolved s!"Error: Path '{path}' not found", after) := by
  refine ⟨Tree.find_spellOut, fun m file limits s t done => ?_⟩
  intro after
  refine ⟨?_, fun path default => ?_⟩
  · rw [execute_resolve m file limits s (by decide), done]
    rfl
  · rw [execute_get, done, Tree.find_spellOut]
    simp only [Except.bind, pick]
    cases t.find path with
    | ok found => rfl
    | error f => cases default <;> rfl

/-- A duration in a file is shown alike by itself and within the whole. -/
theorem get_agrees_with_resolve_wait :
    let limits : Limits := { withoutVault := true }
    let w : World :=
      { files := { nodes := [(["a.json"], .file (Text.toUtf8 "\x7b\"wait\": \"90s::duration\"\x7d"))] } }
    (resolveFile .ofWorlds "a.json" limits w).outcome =
        .ok (.mapping [("wait", .duration ⟨90, 0, by decide, by decide⟩)]) ∧
      execute .ofWorlds (.resolve "a.json" "json" none limits) w =
        ({ stdout := "\x7b\n  \"wait\": \"1m 30s\"\n\x7d\n" }, w) ∧
      execute .ofWorlds (.get "a.json" "wait" "json" none limits) w = ({ stdout := "\"1m 30s\"\n" }, w) := by
  intro limits w
  have content : w.files.read "a.json" = .ok "\x7b\"wait\": \"90s::duration\"\x7d" :=
    Files.read_beside (by simp) (by decide +kernel) (by decide +kernel) (by decide) (by decide +kernel) rfl
  have read : Source.read w.files "a.json" = .ok (.mapping [("wait", .text "90s::duration")]) :=
    (Source.read_of_text content).trans (by decide +kernel)
  have run : resolveFile .ofWorlds "a.json" limits w = _ :=
    (resolveFile_withoutVault read none).trans (if_pos (inTime_of_untimed rfl))
  have done : (resolveFile .ofWorlds "a.json" limits w).outcome =
      .ok (.mapping [("wait", .duration ⟨90, 0, by decide, by decide⟩)]) := by
    rw [run]
    decide +kernel
  have state : (resolveFile .ofWorlds "a.json" limits w).state = w := by
    rw [run]
    decide +kernel
  obtain ⟨whole, alone⟩ := get_agrees_with_resolve.2 .ofWorlds "a.json" limits w _ done
  rw [state] at whole alone
  refine ⟨done, whole.trans ?_, (alone "wait" none).trans ?_⟩
  · decide +kernel
  · decide +kernel

end Command
end Directives
