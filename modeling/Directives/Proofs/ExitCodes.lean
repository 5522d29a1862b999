import Directives.Proofs.Frames

/-! How `resolve` and `get` end. The first stage that fails decides the code, and a command that fails shows
nothing and leaves the files as they were; one that does not fail shows or saves the text that it is asked
for. -/
namespace Directives.Command
variable {σ : Type}

/-- A report of failure shows nothing, and its code is one of two, or that of an abort where it is too late. -/
def Report.IsFailure (late : Prop) (report : Report) : Prop :=
  ∃ code text, (code = unresolved ∨ code = unprepared ∨ late ∧ code = abort) ∧ report = .failed code text

/-- If there is no text to hand out, that is reported as a failure. -/
def Failing {α : Type} (late : Prop) (found : Except Report α) : Prop :=
  ∀ report, found = .error report → report.IsFailure late

theorem Failing.bind {α β : Type} {late : Prop} {found : Except Report α} {next : α → Except Report β}
    (failing : Failing late found) (rest : ∀ a, Failing late (next a)) : Failing late (found.bind next) := by
  cases found with
  | error report =>
    rintro _ ⟨⟩
    exact failing report rfl
  | ok a => exact rest a

/-- A report that directives cannot be resolved, or that nothing is found. -/
def Unresolved {α : Type} (found : Except Report α) : Prop :=
  ∃ text, found = .error (.failed Report.unresolved text)

/-- Set-up succeeds: Vault is left out or not named, or the login succeeds. -/
def SetsUp (m : Machine σ) (limits : Limits) (s : σ) : Prop :=
  (limits.withoutVault = true ∨ (m.world s).environment.octets? Vault.credentialsVariable = none) ∨
    ∃ session, (Vault.Session.ofEnvironment m.link (m.context limits) s).outcome = .ok session

/-- The file decodes and set-up succeeds, in time, and then the directives are resolved with this outcome. -/
def Resolves (m : Machine σ) (file : String) (limits : Limits) (s : σ) (outcome : Except Fault Tree) : Prop :=
  let setUp := attachVault m limits (m.context limits) s
  m.InTime limits ∧ ∃ raw context, Load.readTree (m.world s).files file = .ok raw ∧ setUp.outcome = .ok context ∧
    (raw.resolve Builtin.registry context defaultMaxDepth setUp.state).outcome = outcome

section
variable {m : Machine σ} {file : String} {limits : Limits} {s : σ} {outcome outcome' : Except Fault Tree}

theorem setsUp_iff : (∃ context, (attachVault m limits (m.context limits) s).outcome = .ok context) ↔
    SetsUp m limits s := by
  rcases attachVault_cases m limits s with ⟨alone, outcome, _⟩ | ⟨wanted, outcome, _⟩
  · exact iff_of_true ⟨_, outcome⟩ (.inl alone)
  · rw [SetsUp, outcome, or_iff_right wanted]
    cases (Vault.Session.ofEnvironment m.link (m.context limits) s).outcome <;> simp [Except.map]

theorem Resolves.unique (resolves : Resolves m file limits s outcome)
    (resolves' : Resolves m file limits s outcome') : outcome = outcome' := by
  obtain ⟨_, raw, context, read, attached, rfl⟩ := resolves
  obtain ⟨_, raw', context', read', attached', rfl⟩ := resolves'
  cases read.symm.trans read'
  cases attached.symm.trans attached'
  rfl

/-- A file that can be read is not resolved if the time limit leads beyond the last instant. -/
theorem resolveFile_aborted {raw : Tree} (late : ¬ m.InTime limits)
    (read : Load.readTree (m.world s).files file = .ok raw) :
    resolveFile m file limits s = ⟨.error .aborted, s, [.file file]⟩ := by
  rw [resolveFile_of_read read, if_neg late]

/-- Resolution of a file fails before it comes to the directives, or as they do. -/
theorem resolveFile_cases (m : Machine σ) (file : String) (limits : Limits) (s : σ) :
    (∃ report, (resolveFile m file limits s).outcome = .error report ∧
      ((∃ f, report = .setupFailed f) ∨ ¬ m.InTime limits ∧ report = .aborted) ∧
      ∀ outcome, ¬ Resolves m file limits s outcome) ∨
    ∃ outcome, (resolveFile m file limits s).outcome = outcome.mapError Report.resolutionFailed ∧
      Resolves m file limits s outcome := by
  cases read : Load.readTree (m.world s).files file with
  | error f =>
    have failed : (resolveFile m file limits s).outcome = .error (.setupFailed f) := by
      rw [resolveFile, Traced.record_bind, Traced.read_bind, read]
      rfl
    refine .inl ⟨_, failed, .inl ⟨f, rfl⟩, ?_⟩
    rintro outcome ⟨_, _, _, decoded, _⟩
    cases read.symm.trans decoded
  | ok raw =>
    by_cases inTime : m.InTime limits
    · rw [resolveFile_of_read read, if_pos inTime]
      dsimp only
      cases attached : (attachVault m limits (m.context limits) s).outcome with
      | error f =>
        rw [Traced.bind_of_error (Traced.mapError_of_error attached)]
        refine .inl ⟨_, rfl, .inl ⟨f, rfl⟩, ?_⟩
        rintro outcome ⟨_, _, _, _, entered, _⟩
        cases attached.symm.trans entered
      | ok context =>
        rw [Traced.bind_of_ok (Traced.mapError_of_ok attached)]
        exact .inr ⟨_, rfl, inTime, raw, context, read, attached, rfl⟩
    · rw [resolveFile_aborted inTime read]
      exact .inl ⟨_, rfl, .inr ⟨inTime, rfl⟩, fun outcome resolves => inTime resolves.1⟩

theorem resolveFile_ok_iff {t : Tree} :
    (resolveFile m file limits s).outcome = .ok t ↔ Resolves m file limits s (.ok t) := by
  rcases resolveFile_cases m file limits s with ⟨_, ended, _, none⟩ | ⟨outcome, ended, resolves⟩
  · exact iff_of_false (by simp [ended]) (none _)
  · rw [ended]
    constructor
    · intro done
      cases outcome with
      | error f => cases done
      | ok v =>
        cases done
        exact resolves
    · intro resolves'
      cases resolves.unique resolves'
      rfl

theorem resolveFile_unresolved_iff :
    Unresolved (resolveFile m file limits s).outcome ↔ ∃ f, Resolves m file limits s (.error f) := by
  rcases resolveFile_cases m file limits s with ⟨report, ended, known, none⟩ | ⟨outcome, ended, resolves⟩
  · refine iff_of_false ?_ fun ⟨f, resolves⟩ => none _ resolves
    rintro ⟨text, failed⟩
    obtain rfl : report = _ := Except.error.inj (ended.symm.trans failed)
    rcases known with ⟨f, same⟩ | ⟨_, same⟩
    · cases congrArg Report.code same
    · cases congrArg Report.code same
  · rw [ended]
    constructor
    · rintro ⟨text, failed⟩
      cases outcome with
      | error f => exact ⟨f, resolves⟩
      | ok v => cases failed
    · rintro ⟨f, resolves'⟩
      cases resolves.unique resolves'
      exact ⟨_, rfl⟩

end

theorem failing_resolveFile (m : Machine σ) (file : String) (limits : Limits) (s : σ) :
    Failing (¬ m.InTime limits) (resolveFile m file limits s).outcome := by
  intro report failed
  rcases resolveFile_cases m file limits s with ⟨report', ended, known, _⟩ | ⟨outcome, ended, _⟩
  · obtain rfl := Except.error.inj (ended.symm.trans failed)
    rcases known with ⟨f, rfl⟩ | ⟨late, rfl⟩
    · exact ⟨_, _, .inr (.inl rfl), rfl⟩
    · exact ⟨_, _, .inr (.inr ⟨late, rfl⟩), rfl⟩
  · cases outcome with
    | ok t => cases ended.symm.trans failed
    | error f =>
      cases ended.symm.trans failed
      exact ⟨_, _, .inl rfl, rfl⟩

section
variable (late : Prop)

theorem failing_rendered (format : String) (t : Tree) : Failing late (rendered format t) := by
  intro report failed
  rw [rendered] at failed
  split at failed
  · cases failed
  · cases failed
    exact ⟨_, _, .inr (.inl rfl), rfl⟩

theorem failing_pick (path format : String) (default : Option String) (t : Tree) :
    Failing late (pick path format default t) := by
  unfold pick
  split
  · exact failing_rendered late format _
  · exact fun _ failed => nomatch failed
  · rintro _ ⟨⟩
    exact ⟨_, _, .inl rfl, rfl⟩

end

/-- A text is handed out: it is shown, or saved under a path. -/
def HandsOut (m : Machine σ) (output : Option String) (s : σ) (text : String) (ended : Report × σ) : Prop :=
  (output = none → ended = ({ stdout := text }, s)) ∧
    ∀ path, output = some path → ∃ files, (m.world s).files.write path text = .ok files ∧
      files.octets path = .ok (Text.toUtf8 text) ∧ ended = (.written path, m.putFiles files s)

/-- A command ends well if there is a text and nothing stands in the way of writing it, and hands it out then;
where it does not, it shows nothing and is as it was. -/
theorem handedOut_ends (m : Machine σ) (output : Option String) (s : σ) {late : Prop}
    {found : Except Report String} (failing : Failing late found) :
    let ended := handedOut m output s found
    (ended.1.code = 0 ↔ ∃ text, found = .ok text ∧ ∀ path, output = some path →
      ∃ files, (m.world s).files.write path text = .ok files) ∧
    (ended.1.code = 1 ↔ Unresolved found) ∧ (¬ late → ended.1.code ≤ 2) ∧
      (ended.1.code ≠ 0 → ended.1.stdout = "" ∧ ended.2 = s) ∧
      (ended.1.code = 0 → ∃ text, found = .ok text ∧ HandsOut m output s text ended) := by
  intro ended
  cases found with
  | error report =>
    obtain ⟨code, text, rfl | rfl | ⟨late, rfl⟩, rfl⟩ := failing report rfl
    · simp [ended, Unresolved, handedOut, Report.failed, Report.unresolved]
    · simp [ended, Unresolved, handedOut, Report.failed, Report.unresolved, Report.unprepared]
    · simp [ended, Unresolved, handedOut, Report.failed, Report.unresolved, Report.abort, late]
  | ok text =>
    cases output with
    | none => simp [ended, Unresolved, handedOut, HandsOut]
    | some path =>
      cases written : (m.world s).files.write path text with
      | ok files =>
        simp [ended, Unresolved, handedOut, written, Report.written, HandsOut, Files.octets_of_write written]
      | error problem =>
        simp [ended, Unresolved, handedOut, written, Report.writingFailed, Report.failed, Report.unprepared]

section
variable {α β : Type} {found : Except Report α} {next : α → Except Report β}

theorem bind_ok_iff {b : β} : found.bind next = .ok b ↔ ∃ a, found = .ok a ∧ next a = .ok b := by
  cases found <;> simp [Except.bind]

theorem unresolved_bind_iff :
    Unresolved (found.bind next) ↔ Unresolved found ∨ ∃ a, found = .ok a ∧ Unresolved (next a) := by
  cases found <;> simp [Unresolved, Except.bind]

end

theorem ofName?_eq_none_iff {format : String} :
    Rendering.ofName? format = none ↔ format ∉ ["text", "json", "yaml", "yml"] := by
  unfold Rendering.ofName?
  split <;> simp_all

theorem rendered_ok_iff {format : String} {t : Tree} :
    (∃ text, rendered format t = .ok text) ↔ format ∈ ["text", "json", "yaml", "yml"] := by
  rw [← not_iff_not, ← ofName?_eq_none_iff, rendered]
  cases Rendering.ofName? format <;> simp

theorem not_unresolved_rendered (format : String) (t : Tree) : ¬ Unresolved (rendered format t) := by
  rintro ⟨text, failed⟩
  rw [rendered] at failed
  split at failed
  · cases failed
  · cases congrArg Report.code (Except.error.inj failed)

theorem pick_ok_iff {path format : String} {default : Option String} {t : Tree} :
    (∃ text, pick path format default t = .ok text) ↔
      (∃ found, t.find path = .ok found) ∧ format ∈ ["text", "json", "yaml", "yml"] ∨
        (∃ f, t.find path = .error f) ∧ default ≠ none := by
  unfold pick
  cases t.find path with
  | ok found => simp [rendered_ok_iff]
  | error f => cases default <;> simp

theorem unresolved_pick_iff {path format : String} {default : Option String} {t : Tree} :
    Unresolved (pick path format default t) ↔ (∃ f, t.find path = .error f) ∧ default = none := by
  unfold pick
  cases t.find path with
  | ok found => simp [not_unresolved_rendered]
  | error f => cases default <;> simp [Unresolved]

/-- What `get` prints: the value at the path, or the default. -/
theorem pick_eq_ok_iff {path format text : String} {default : Option String} {t : Tree} :
    pick path format default t = .ok text ↔
      (∃ found, t.find path = .ok found ∧ rendered format found.spellOut = .ok text) ∨
        ∃ f given, t.find path = .error f ∧ default = some given ∧ text = given ++ "\n" := by
  unfold pick
  cases t.find path with
  | ok found => simp
  | error f => cases default <;> simp [eq_comm]

/-- How `resolve` ends. -/
theorem resolve_ends (m : Machine σ) (file format : String) (output : Option String) (limits : Limits) (s : σ) :
    let ended := execute m (.resolve file format output limits) s
    let after := (resolveFile m file limits s).state
    (ended.1.code = 1 ↔ format ≠ "text" ∧ ∃ f, Resolves m file limits s (.error f)) ∧
    (ended.1.code = 0 ↔ format ∈ ["json", "yaml", "yml"] ∧ ∃ t, Resolves m file limits s (.ok t) ∧
      ∀ text out, rendered format t.spellOut = .ok text → output = some out →
        ∃ files, (m.world after).files.write out text = .ok files) ∧
    (m.InTime limits → ended.1.code ≤ 2) ∧
    (ended.1.code ≠ 0 → ended.1.stdout = "" ∧ (ended.2 = s ∨ ended.2 = after)) ∧
    (ended.1.code = 0 → ∃ t text, Resolves m file limits s (.ok t) ∧ rendered format t.spellOut = .ok text ∧
      HandsOut m output after text ended) := by
  intro ended after
  -- One format is refused before the file is looked at; there it does not matter what the file holds.
  by_cases text : format = "text"
  · subst text
    simp [ended, execute_resolve_text, Report.failed, Report.unprepared]
  · have handed : ended = handedOut m output after
        ((resolveFile m file limits s).outcome.bind fun t => rendered format t.spellOut) :=
      execute_resolve m file limits s text output
    obtain ⟨well, bad, most, silent, shows⟩ := handedOut_ends m output after
      ((failing_resolveFile m file limits s).bind fun t => failing_rendered _ format t.spellOut)
    rw [handed]
    refine ⟨bad.trans ?_, well.trans ?_, fun inTime => most (not_not_intro inTime),
      fun failed => (silent failed).imp_right .inr, fun done => ?_⟩
    · simp [unresolved_bind_iff, resolveFile_unresolved_iff, not_unresolved_rendered, text]
    · simp only [bind_ok_iff, resolveFile_ok_iff]
      constructor
      · rintro ⟨text', ⟨t, resolves, shown⟩, writes⟩
        have known := rendered_ok_iff.mp ⟨text', shown⟩
        refine ⟨by simpa [text] using known, t, resolves, fun other out shown' same => ?_⟩
        cases shown.symm.trans shown'
        exact writes out same
      · rintro ⟨known, t, resolves, writes⟩
        obtain ⟨text', shown⟩ := rendered_ok_iff.mpr (List.mem_cons_of_mem "text" known)
        exact ⟨text', ⟨t, resolves, shown⟩, fun out same => writes text' out shown same⟩
    · obtain ⟨text', found, handsOut⟩ := shows done
      obtain ⟨t, resolved, shown⟩ := bind_ok_iff.mp found
      exact ⟨t, text', resolveFile_ok_iff.mp resolved, shown, handsOut⟩

/-- How `get` ends. -/
theorem get_ends (m : Machine σ) (file path format : String) (default : Option String) (limits : Limits)
    (s : σ) :
    let ended := execute m (.get file path format default limits) s
    let after := (resolveFile m file limits s).state
    (ended.1.code = 1 ↔ (∃ f, Resolves m file limits s (.error f)) ∨
      ∃ t, Resolves m file limits s (.ok t) ∧ (∃ f, t.find path = .error f) ∧ default = none) ∧
    (ended.1.code = 0 ↔ ∃ t, Resolves m file limits s (.ok t) ∧
      ((∃ found, t.find path = .ok found) ∧ format ∈ ["text", "json", "yaml", "yml"] ∨
        (∃ f, t.find path = .error f) ∧ default ≠ none)) ∧
    (m.InTime limits → ended.1.code ≤ 2) ∧
    (ended.1.code ≠ 0 → ended.1.stdout = "" ∧ ended.2 = after) ∧
    (ended.1.code = 0 → ∃ t text, Resolves m file limits s (.ok t) ∧ ended = ({ stdout := text }, after) ∧
      ((∃ found, t.find path = .ok found ∧ rendered format found.spellOut = .ok text) ∨
        ∃ f given, t.find path = .error f ∧ default = some given ∧ text = given ++ "\n")) := by
  intro ended after
  have handed : ended = handedOut m none after
      ((resolveFile m file limits s).outcome.bind (pick path format default)) :=
    execute_get m file limits s path format default
  obtain ⟨well, bad, most, silent, shows⟩ := handedOut_ends m none after
    ((failing_resolveFile m file limits s).bind (failing_pick _ path format default))
  rw [handed]
  refine ⟨bad.trans ?_, well.trans ?_, fun inTime => most (not_not_intro inTime), silent, fun done => ?_⟩
  · simp only [unresolved_bind_iff, resolveFile_unresolved_iff, resolveFile_ok_iff, unresolved_pick_iff]
  · simp only [bind_ok_iff, resolveFile_ok_iff, ← pick_ok_iff]
    constructor
    · rintro ⟨text, ⟨t, resolves, picked⟩, _⟩
      exact ⟨t, resolves, text, picked⟩
    · rintro ⟨t, resolves, text, picked⟩
      exact ⟨text, ⟨t, resolves, picked⟩, fun _ absent => nomatch absent⟩
  · obtain ⟨text, found, shown, _⟩ := shows done
    obtain ⟨t, resolved, picked⟩ := bind_ok_iff.mp found
    exact ⟨t, text, resolveFile_ok_iff.mp resolved, shown rfl, pick_eq_ok_iff.mp picked⟩

/-- Where the time limit leads beyond the last instant, a command that has read its file is aborted. -/
theorem execute_aborted {m : Machine σ} {file : String} {limits : Limits} {s : σ} {raw : Tree}
    (late : ¬ m.InTime limits) (read : Load.readTree (m.world s).files file = .ok raw) (format : String) :
    (∀ output, format ≠ "text" → execute m (.resolve file format output limits) s = (.aborted, s)) ∧
      ∀ path default, execute m (.get file path format default limits) s = (.aborted, s) := by
  have aborted := resolveFile_aborted late read
  constructor
  · intro output text
    rw [execute_resolve m file limits s text, aborted]
    rfl
  · intro path default
    rw [execute_get, aborted]
    rfl

end Directives.Command
