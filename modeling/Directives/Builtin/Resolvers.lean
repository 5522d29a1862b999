import Directives.Registry
import Directives.Secret
import Directives.Source

/-! The resolvers that every program has: environment variables and files, each required or
optional, and secrets. -/
namespace Directives.Builtin
variable {σ : Type}

def envToken : String := "ENV->"
def optionalEnvToken : String := "OENV->"
def fileToken : String := "FS->"
def optionalFileToken : String := "OFS->"
def secretToken : String := "VAULT->"

/-- The name under which circular references to a variable are found. -/
def variableSource (name : String) : String := "env:" ++ name

/-- The name under which circular references to a file are found: its one path without links. -/
def fileSource (files : Files) (path : String) : String :=
  "file:" ++ (files.canonical? path).getD path

def lookUp (context : Context σ) (name : String) : Run σ Fault (Option String) := do
  Run.record (.environment name)
  Run.read fun s => (context.world s).environment.text? name

/-- A variable that must be set to something. -/
def environmentResolver : Resolver σ where
  token := envToken
  resolve context name := do
    match ← lookUp context name with
    | some value =>
      if value.isEmpty then .fail (.missingVariable name)
      else return ⟨.text value, some (variableSource name)⟩
    | none => .fail (.missingVariable name)

/-- A variable that is empty where it is not set. -/
def optionalEnvironmentResolver : Resolver σ where
  token := optionalEnvToken
  resolve context name := do
    return ⟨.text ((← lookUp context name).getD ""), some (variableSource name)⟩

def fileFault (path : String) (problem : Source.Problem) : Fault :=
  .access s!"file {path}" problem.message

def readFile (context : Context σ) (path : String) :
    Run σ Fault (Except Source.Problem Tree × String) := do
  context.check
  Run.record (.file path)
  Run.read fun s =>
    let files := (context.world s).files
    (Source.read files path, fileSource files path)

theorem readFile_of_live {context : Context σ} {s : σ} (live : (context.check s).outcome = .ok ())
    (path : String) : readFile context path s =
      ⟨.ok (Source.read (context.world s).files path, fileSource (context.world s).files path), s,
        [.file path]⟩ := by
  rw [readFile, Traced.bind_of_ok live]
  rfl

theorem readFile_of_error {context : Context σ} {s : σ} {f : Fault}
    (failed : (context.check s).outcome = .error f) (path : String) :
    readFile context path s = ⟨.error f, s, []⟩ :=
  Traced.bind_of_error failed

def fileResolver : Resolver σ where
  token := fileToken
  resolve context path := do
    match ← readFile context path with
    | (.ok value, source) => return ⟨value, some source⟩
    | (.error problem, _) => .fail (fileFault path problem)

/-- A file that is null where there is none. -/
def optionalFileResolver : Resolver σ where
  token := optionalFileToken
  resolve context path := do
    match ← readFile context path with
    | (.ok value, source) => return ⟨value, some source⟩
    | (.error problem, _) =>
      if problem.isNotFound then return ⟨.null, none⟩ else .fail (fileFault path problem)

section
variable {context : Context σ} {s : σ} {name value path : String} {t : Tree} {problem : Source.Problem}
  {f : Fault}

theorem environmentResolver_of_set (set : (context.world s).environment.text? name = some value)
    (full : value ≠ "") : environmentResolver.resolve context name s =
      ⟨.ok ⟨.text value, some (variableSource name)⟩, s, [.environment name]⟩ := by
  have looked : (lookUp context name s).outcome = .ok (some value) := congrArg Except.ok set
  simp only [environmentResolver]
  rw [Traced.bind_of_ok looked]
  dsimp only
  rw [if_neg (by simpa using full)]
  rfl

theorem environmentResolver_of_unset (unset : (context.world s).environment.Unset name) :
    environmentResolver.resolve context name s =
      ⟨.error (.missingVariable name), s, [.environment name]⟩ := by
  simp only [environmentResolver]
  rcases unset with unset | unset
  · have looked : (lookUp context name s).outcome = .ok none := congrArg Except.ok unset
    rw [Traced.bind_of_ok looked]
    rfl
  · have looked : (lookUp context name s).outcome = .ok (some "") := congrArg Except.ok unset
    rw [Traced.bind_of_ok looked]
    rfl

theorem optionalEnvironmentResolver_of_set (set : (context.world s).environment.text? name = some value) :
    optionalEnvironmentResolver.resolve context name s =
      ⟨.ok ⟨.text value, some (variableSource name)⟩, s, [.environment name]⟩ := by
  have looked : (lookUp context name s).outcome = .ok (some value) := congrArg Except.ok set
  simp only [optionalEnvironmentResolver]
  rw [Traced.bind_of_ok looked]
  rfl

theorem fileResolver_of_error (failed : (context.check s).outcome = .error f) :
    fileResolver.resolve context path s = ⟨.error f, s, []⟩ := by
  have refused : (readFile context path s).outcome = .error f := by rw [readFile_of_error failed]
  simp only [fileResolver]
  rw [Traced.bind_of_error refused, readFile_of_error failed]

theorem optionalFileResolver_of_error (failed : (context.check s).outcome = .error f) :
    optionalFileResolver.resolve context path s = ⟨.error f, s, []⟩ := by
  have refused : (readFile context path s).outcome = .error f := by rw [readFile_of_error failed]
  simp only [optionalFileResolver]
  rw [Traced.bind_of_error refused, readFile_of_error failed]

variable (live : (context.check s).outcome = .ok ())
include live

theorem fileResolver_of_read (read : Source.read (context.world s).files path = .ok t) :
    fileResolver.resolve context path s =
      ⟨.ok ⟨t, some (fileSource (context.world s).files path)⟩, s, [.file path]⟩ := by
  have found := readFile_of_live live path
  rw [read] at found
  simp only [fileResolver]
  rw [Traced.bind_of_ok (congrArg Traced.Answer.outcome found), found]
  rfl

theorem fileResolver_of_problem (failed : Source.read (context.world s).files path = .error problem) :
    fileResolver.resolve context path s = ⟨.error (fileFault path problem), s, [.file path]⟩ := by
  have found := readFile_of_live live path
  rw [failed] at found
  simp only [fileResolver]
  rw [Traced.bind_of_ok (congrArg Traced.Answer.outcome found), found]
  rfl

theorem optionalFileResolver_of_read (read : Source.read (context.world s).files path = .ok t) :
    optionalFileResolver.resolve context path s =
      ⟨.ok ⟨t, some (fileSource (context.world s).files path)⟩, s, [.file path]⟩ := by
  have found := readFile_of_live live path
  rw [read] at found
  simp only [optionalFileResolver]
  rw [Traced.bind_of_ok (congrArg Traced.Answer.outcome found), found]
  rfl

theorem optionalFileResolver_of_notFound (failed : Source.read (context.world s).files path = .error problem)
    (none : problem.isNotFound = true) :
    optionalFileResolver.resolve context path s = ⟨.ok ⟨.null, .none⟩, s, [.file path]⟩ := by
  have found := readFile_of_live live path
  rw [failed] at found
  simp only [optionalFileResolver]
  rw [Traced.bind_of_ok (congrArg Traced.Answer.outcome found), found]
  dsimp only
  rw [if_pos none]
  rfl

theorem optionalFileResolver_of_problem (failed : Source.read (context.world s).files path = .error problem)
    (there : problem.isNotFound = false) :
    optionalFileResolver.resolve context path s = ⟨.error (fileFault path problem), s, [.file path]⟩ := by
  have found := readFile_of_live live path
  rw [failed] at found
  simp only [optionalFileResolver]
  rw [Traced.bind_of_ok (congrArg Traced.Answer.outcome found), found]
  dsimp only
  rw [if_neg (by simp [there])]
  rfl

end

def secretResolver : Resolver σ where
  token := secretToken
  resolve context payload := do
    match context.secrets with
    | none => .fail (.noProvider secretToken)
    | some store =>
      context.check
      let secret := SecretRef.ofText payload
      Run.record (.secret secret.mount secret.path)
      let fields ← store.read context.token secret.path secret.mount
      return ⟨.mapping fields, some secret.source⟩

def resolvers : List (Resolver σ) :=
  [environmentResolver, optionalEnvironmentResolver, fileResolver, optionalFileResolver,
   secretResolver]

end Directives.Builtin
