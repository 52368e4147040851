import HardwareSigner.Cli.Arguments
import HardwareSigner.Cli.Execute
import HardwareSigner.Stream.Link

/-!
The command line tool on a desk of its own: a link, a log that is kept, and files that are only
names and texts.
-/

namespace HardwareSigner

structure Desk (τ : Type) where
  link : τ
  files : List (String × String)
  log : List LogRecord

namespace Desk

variable {τ : Type} [Transport τ]

/-- A file under a name, in place of one that has it already. -/
def store (d : Desk τ) (name text : String) : Desk τ :=
  { d with files := (name, text) :: d.files.filter (·.1 ≠ name) }

instance : Console (StateT (Desk τ) Option) where
  log r := modify fun d => { d with log := d.log ++ [r] }
  exchange p := fun d =>
    match p.run.run d.link with
    | (some r, link) => some (r, { d with link })
    | (none, _) => none
  readText name := fun d =>
    match d.files.lookup name with
    | some text => some (.ok text, d)
    | none => some (.error "No such file or directory (os error 2)", d)
  writeText name text := fun d => some (.ok (), d.store name text)

end Desk

structure Outcome where
  exitCode : Nat
  log : List LogRecord
  /-- Lines that tell of an error; arguments that are refused have none of these. -/
  errors : Option (List String)
  files : List (String × String)

/-- A run of the tool, from its arguments to its end; there is none if the wallet gets stuck. -/
def runTool {τ : Type} [Transport τ] (system : SignatureSystem) (network : Network τ)
    (files : List (String × String)) (args : List String) : Option Outcome :=
  match Arguments.parse args with
  | .error .refused => some ⟨2, [], none, files⟩
  | .error .help => some ⟨0, [], some [], files⟩
  | .ok o =>
    match network.connect with
    | .error e => some ⟨1, [], some (CliError.client e).report, files⟩
    | .ok link =>
      let run : ExceptT CliError (StateT (Desk τ) Option) Unit :=
        o.command.execute (o.handle system)
      match run.run ⟨link, files, []⟩ with
      | none => none
      | some (r, d) =>
        let log := d.log.filter (·.isShown o.logLevel)
        match r with
        | .ok () => some ⟨0, log, some [], d.files⟩
        | .error e => some ⟨1, log, some e.report, d.files⟩

end HardwareSigner
