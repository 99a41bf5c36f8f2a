import CostlyCalls.Engine
import CostlyCalls.Report
import CostlyCalls.Snapshot.FromJson

/-!
# Sessions

A session is an engine in use: a stop signal that stays set until it is replaced, and the findings
of the last analysis that came to its end.
-/

set_option autoImplicit false

namespace CostlyCalls

structure Session where
  engine : Engine
  stopped : Bool := false
  findings : List Finding := []

namespace Session

def stop (session : Session) : Session := { session with stopped := true }

def resume (session : Session) : Session := { session with stopped := false }

def rebuild (session : Session) (engine : Engine) : Session := { session with engine }

def restrictTo (session : Session) (ids : List RuleId) : Session :=
  { session with engine := session.engine.restrictTo ids }

def suppress (session : Session) (suppressions : List Suppression) : Session :=
  { session with engine := session.engine.withSuppressions suppressions }

/-- Analyse an arena. A signal that is set before the run, or by a rule during it, stays set; only a
run that came to its end replaces the findings. -/
def analyze (session : Session) (arena : Arena) (model : Model) : Engine.Run × Session :=
  let run := session.engine.analyze arena model (fun _ => session.stopped)
  (run, { session with
    stopped := session.stopped || run.stopped
    findings := run.findings.getD session.findings })

end Session

end CostlyCalls
