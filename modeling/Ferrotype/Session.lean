import Ferrotype.Transpile

/-! # Sessions -/

namespace Ferrotype

/-- A session runs with the same options and collects the notices of its runs. -/
structure Session where
  options : Options
  verbose : Bool
  notices : List Notice

namespace Session

def start (options : Options) (verbose : Bool) : Session := ⟨options, verbose, []⟩

inductive Request where
  | transpile (source : String)
  | extract (source : String)
  | clear
  | summary
  | print
  | list

inductive Reply where
  | output (text : String)
  | schema (schema : Schema)
  | done
  | report (text : String)
  | notices (notices : List Notice)
  | failed (error : ExtractError)

/-- The reply to a run, and the session with the notices of the run. -/
def finish (s : Session) (run : Extraction α) (reply : α → Reply) : Reply × Session :=
  let s := { s with notices := s.notices ++ run.run.notices }
  match run.run.value with
  | .ok a => (reply a, s)
  | .error error => (.failed error, s)

def step (s : Session) : Request → Reply × Session
  | .transpile source => s.finish (Ferrotype.transpile s.options source) .output
  | .extract source => s.finish (Ferrotype.extract s.options.extract source) .schema
  | .clear => (.done, { s with notices := [] })
  | .summary => (.report (Report.summary s.notices), s)
  | .print => (.report (Report.print s.verbose s.notices), s)
  | .list => (.notices s.notices, s)

end Session

end Ferrotype
