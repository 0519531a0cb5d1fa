import RelayFleet.StatusReport
import RelayFleet.Workload

/-!
# Sessions that stay

A workload that has a session on its relay goes back there even when the relay is full; otherwise
its client would be thrown from one relay to another in the middle of a session. The last report of
the relay decides, and where it cannot, a binding is trusted for some time after it was made.
-/

namespace RelayFleet

/-- Whether a binding is younger than `timeout` milliseconds; one made in the future is. -/
def Binding.isRecent (b : Binding) (timeout now : Millis) : Bool :=
  now.toNat - b.assignedAt.toNat < timeout.toNat

/-- Whether the workload of a binding has a session on a relay that is worth keeping. A report that
lists the workload says yes. One without it says no if it was received at or after the time of the
binding; without a usable report, or with an earlier one, the binding is trusted while it is
recent. -/
def hasPreviousSession (timeout now : Millis) (r : Relay) (b : Binding) : Bool :=
  match r.statusPayload with
  | none => b.isRecent timeout now
  | some payload =>
    match StatusReport.parse payload with
    | .error _ => b.isRecent timeout now
    | .ok report =>
      if report.hasConnectionFor b.workloadId then true
      else match r.statusReceivedAt with
        | some received => if b.assignedAt ≤ received then false else b.isRecent timeout now
        | none => b.isRecent timeout now

end RelayFleet
