import Directives.Command.Report
import Directives.Network.Isolated

/-! What comes of the commands that resolve a file. Once the file is resolved there is a text to be handed out,
or a report that says why there is none; and only the text is shown or saved. -/
namespace Directives.Command
variable {σ : Type}

/-- A text as output: it is shown, or saved under a path. -/
def Output.ofText (output : Option String) (text : String) : Output :=
  output.elim (.shown text) fun path => .saved path text

/-- What comes of a text that is to be handed out, or of the report that there is none. -/
def handedOut (m : Machine σ) (output : Option String) (s : σ) : Except Report String → Report × σ
  | .error report => (report, s)
  | .ok text =>
    match output with
    | none => ({ stdout := text }, s)
    | some path =>
      match (m.world s).files.write path text with
      | .ok files => (.written path, m.putFiles files s)
      | .error problem => (.writingFailed problem.message, s)

/-- What `get` hands out of a resolved tree: the value at a path, or what stands in for it. -/
def pick (path format : String) (default : Option String) (t : Tree) : Except Report String :=
  match t.find path, default with
  | .ok found, _ => rendered format found.spellOut
  | .error _, some text => .ok (text ++ "\n")
  | .error _, none => .error (.failed Report.unresolved s!"Error: Path '{path}' not found")

theorem execute_of_prepared {m : Machine σ} {command : Command} {s after : σ} {output : Option String}
    {found : Except Report String} {calls : List Call}
    (prepared : prepare m command s = ⟨found.map (Output.ofText output), after, calls⟩) :
    execute m command s = handedOut m output after found := by
  have outcome := congrArg Traced.Answer.outcome prepared
  cases found with
  | error report =>
    have ran : (prepare m command).bind (finish m) s = _ := Traced.bind_of_error outcome
    simp only [execute, ran, prepared, handedOut]
  | ok text =>
    have ran : (prepare m command).bind (finish m) s = _ := Traced.bind_of_ok outcome
    simp only [execute, ran, prepared]
    cases output with
    | none => rfl
    | some path =>
      simp only [Output.ofText, Option.elim, finish, Traced.read_bind, handedOut]
      cases (m.world after).files.write path text <;> rfl

/-- A machine whose states are worlds, without a network. -/
def Machine.ofWorlds : Machine World where
  world := id
  putFiles files w := { w with files }
  moment _ := {}
  link := Network.isolated

def Machine.contextOf (m : Machine σ) (limits : Limits) (c : Vault.Client) : Context σ :=
  { m.context limits with secrets := some (c.store m.link m.moment) }

/-- Set-up does nothing where Vault is left out or not named, and otherwise is a login. -/
theorem attachVault_cases (m : Machine σ) (limits : Limits) (s : σ) :
    let setUp := attachVault m limits (m.context limits) s
    let entered := Vault.Session.ofEnvironment m.link (m.context limits) s
    let alone := limits.withoutVault = true ∨
      (m.world s).environment.octets? Vault.credentialsVariable = none
    (alone ∧ setUp.outcome = .ok (m.context limits) ∧ setUp.state = s) ∨
      (¬ alone ∧ setUp.outcome = entered.outcome.map (fun session => m.contextOf limits session.client) ∧
        setUp.state = entered.state) := by
  intro setUp entered alone
  by_cases left : limits.withoutVault = true
  · have ran : attachVault m limits (m.context limits) s = ⟨.ok (m.context limits), s, []⟩ := by
      rw [attachVault, if_pos left]
      rfl
    exact .inl ⟨.inl left, congrArg Traced.Answer.outcome ran, congrArg Traced.Answer.state ran⟩
  · cases named : (m.world s).environment.octets? Vault.credentialsVariable with
    | none =>
      have ran : attachVault m limits (m.context limits) s =
          ⟨.ok (m.context limits), s, [.environment Vault.credentialsVariable]⟩ := by
        rw [attachVault, if_neg left, Traced.record_bind, Traced.read_bind, named]
        rfl
      exact .inl ⟨.inr named, congrArg Traced.Answer.outcome ran, congrArg Traced.Answer.state ran⟩
    | some octets =>
      have ran : attachVault m limits (m.context limits) s =
          ⟨entered.outcome.map fun session => m.contextOf limits session.client, entered.state,
            .environment Vault.credentialsVariable :: entered.calls⟩ := by
        rw [attachVault, if_neg left, Traced.record_bind, Traced.read_bind, named]
        have attached := Traced.bind_pure_apply (Vault.Session.ofEnvironment m.link (m.context limits))
          (fun session => m.contextOf limits session.client) s
        exact congrArg (fun answer : Run.Answer σ Fault (Context σ) =>
          (⟨answer.outcome, answer.state, .environment Vault.credentialsVariable :: answer.calls⟩ :
            Run.Answer σ Fault (Context σ))) attached
      refine .inr ⟨by simp [alone, left, named], ?_⟩
      exact ⟨congrArg Traced.Answer.outcome ran, congrArg Traced.Answer.state ran⟩

/-- Set-up gives the context of the machine, perhaps with the secrets of a client. -/
theorem context_of_attachVault {m : Machine σ} {limits : Limits} {s : σ} {context : Context σ}
    (done : (attachVault m limits (m.context limits) s).outcome = .ok context) :
    context = m.context limits ∨ ∃ c, context = m.contextOf limits c := by
  rcases attachVault_cases m limits s with ⟨_, outcome, _⟩ | ⟨_, outcome, _⟩
  · exact .inl (Except.ok.inj (done.symm.trans outcome))
  · rw [outcome] at done
    cases entered : (Vault.Session.ofEnvironment m.link (m.context limits) s).outcome with
    | error f => simp [entered, Except.map] at done
    | ok session =>
      rw [entered] at done
      exact .inr ⟨session.client, (Except.ok.inj done).symm⟩

/-- Without a time limit there is no instant to be told. -/
theorem inTime_of_untimed {m : Machine σ} {limits : Limits} (untimed : limits.timeout = none) :
    m.InTime limits := fun d given => by
  rw [untimed] at given
  cases given

/-- A file that is read is resolved in the context that set-up gives, in time. -/
theorem resolveFile_of_read {m : Machine σ} {file : String} {limits : Limits} {s : σ} {raw : Tree}
    (read : Load.readTree (m.world s).files file = .ok raw) :
    resolveFile m file limits s =
      if m.InTime limits then
        let answer := ((attachVault m limits (m.context limits)).mapError Report.setupFailed >>= fun context =>
          (raw.resolve Builtin.registry context defaultMaxDepth).mapError Report.resolutionFailed) s
        ⟨answer.outcome, answer.state, .file file :: answer.calls⟩
      else ⟨.error .aborted, s, [.file file]⟩ := by
  have taken : (Run.ofExcept (.ok raw) : Run σ Fault Tree).mapError Report.setupFailed = pure raw := rfl
  rw [resolveFile, Traced.record_bind, Traced.read_bind, read, taken, pure_bind]
  split
  · rfl
  · rfl

/-- Without Vault a file is resolved in the context of the machine. -/
theorem resolveFile_withoutVault {m : Machine σ} {file : String} {s : σ} {raw : Tree}
    (stands : Source.read (m.world s).files file = .ok raw) (timeout : Option Duration) :
    let limits : Limits := { timeout, withoutVault := true }
    let answer := raw.resolve Builtin.registry (m.context limits) defaultMaxDepth s
    resolveFile m file limits s =
      if m.InTime limits then
        ⟨answer.outcome.mapError Report.resolutionFailed, answer.state, .file file :: answer.calls⟩
      else ⟨.error .aborted, s, [.file file]⟩ := by
  intro limits answer
  have read : Load.readTree (m.world s).files file = .ok raw := by rw [Load.readTree, stands]
  have detached : (attachVault m limits (m.context limits)).mapError Report.setupFailed =
      pure (m.context limits) := rfl
  rw [resolveFile_of_read read, detached, pure_bind]
  rfl

section
variable (m : Machine σ) (file : String) (limits : Limits) (s : σ)

theorem prepare_resolve {format : String} (proper : format ≠ "text") (output : Option String) :
    let resolved := resolveFile m file limits s
    prepare m (.resolve file format output limits) s =
      ⟨(resolved.outcome.bind fun t => rendered format t.spellOut).map (Output.ofText output), resolved.state,
        resolved.calls⟩ := by
  intro resolved
  have stages : prepare m (.resolve file format output limits) = resolveFile m file limits >>= fun t =>
      Run.ofExcept ((rendered format t.spellOut).map (Output.ofText output)) := by
    rw [prepare, prepareResolve, if_neg proper]
    refine congrArg (resolveFile m file limits >>= ·) (funext fun t => ?_)
    cases rendered format t.spellOut with
    | error report => rfl
    | ok text => cases output <;> rfl
  rw [stages, Traced.bind_ofExcept_apply]
  cases (resolveFile m file limits s).outcome <;> rfl

theorem execute_resolve {format : String} (proper : format ≠ "text") (output : Option String) :
    let resolved := resolveFile m file limits s
    execute m (.resolve file format output limits) s =
      handedOut m output resolved.state (resolved.outcome.bind fun t => rendered format t.spellOut) :=
  execute_of_prepared (prepare_resolve m file limits s proper output)

theorem execute_resolve_text (output : Option String) : execute m (.resolve file "text" output limits) s =
    (.failed Report.unprepared "Error: resolve supports yaml or json", s) := by
  let refused : Except Report String := .error (.failed Report.unprepared "Error: resolve supports yaml or json")
  have prepared : prepare m (.resolve file "text" output limits) s =
      ⟨refused.map (Output.ofText output), s, []⟩ := by
    rw [prepare, prepareResolve, if_pos rfl]
    rfl
  exact execute_of_prepared prepared

theorem prepare_get (path format : String) (default : Option String) :
    let resolved := resolveFile m file limits s
    prepare m (.get file path format default limits) s =
      ⟨(resolved.outcome.bind (pick path format default)).map (Output.ofText none), resolved.state,
        resolved.calls⟩ := by
  intro resolved
  have stages : prepare m (.get file path format default limits) = resolveFile m file limits >>= fun t =>
      Run.ofExcept ((pick path format default t).map (Output.ofText none)) := by
    rw [prepare, prepareGet]
    refine congrArg (resolveFile m file limits >>= ·) (funext fun t => ?_)
    unfold pick
    cases t.find path with
    | error f => cases default <;> rfl
    | ok found =>
      dsimp only
      cases rendered format found.spellOut <;> rfl
  rw [stages, Traced.bind_ofExcept_apply]
  cases (resolveFile m file limits s).outcome <;> rfl

theorem execute_get (path format : String) (default : Option String) :
    let resolved := resolveFile m file limits s
    execute m (.get file path format default limits) s =
      handedOut m none resolved.state (resolved.outcome.bind (pick path format default)) :=
  execute_of_prepared (prepare_get m file limits s path format default)

end
end Directives.Command
