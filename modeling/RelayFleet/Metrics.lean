import RelayFleet.Allocation.Outcome
import RelayFleet.Capacity
import RelayFleet.Mode

/-!
# Metrics

The capacity of the zones, the mode and the outcomes of assignments as a text that a monitoring
system collects: for each metric two comment lines and then a line for each of its samples.
-/

namespace RelayFleet.Metrics

/-- A sample: the value of a metric for one value of its label. -/
structure Sample where
  label : String
  value : Nat
deriving Repr, DecidableEq, Inhabited

/-- A metric with its samples. -/
structure Metric where
  name : String
  help : String
  /-- Whether the value goes up and down or counts. -/
  kind : String
  /-- The name of the label of the samples. -/
  labelName : String
  samples : List Sample
deriving Repr, DecidableEq, Inhabited

/-- The line of a sample. -/
def sampleLine (m : Metric) (s : Sample) : String :=
  m.name ++ "\x7b" ++ m.labelName ++ "=\"" ++ s.label ++ "\"\x7d " ++ toString s.value ++ "\n"

/-- The lines of a metric. -/
def metricText (m : Metric) : String :=
  "# HELP " ++ m.name ++ " " ++ m.help ++ "\n" ++
    "# TYPE " ++ m.name ++ " " ++ m.kind ++ "\n" ++
    String.join (m.samples.map (sampleLine m))

/-- A metric of the zones. -/
def zoneMetric (name help : String) (value : ZoneCapacity → Nat) (zones : List ZoneCapacity) :
    Metric where
  name := name
  help := help
  kind := "gauge"
  labelName := "zone"
  samples := zones.map fun z => ⟨z.zoneId, value z⟩

/-- The metric of the mode, one for the mode in force and zero for the others. -/
def modeMetric (mode : Mode) : Metric where
  name := "relaygrid_management_state"
  help := "Current management mode (1 = active)."
  kind := "gauge"
  labelName := "state"
  samples := Mode.all.map fun m => ⟨m.word, if mode = m then 1 else 0⟩

/-- The metric of the outcomes of assignments. -/
def assignMetric (counters : AssignCounters) : Metric where
  name := "relaygrid_assign_total"
  help := "Relay assignment requests by outcome."
  kind := "counter"
  labelName := "outcome"
  samples := AssignOutcome.all.map fun o => ⟨o.word, (counters.count o).toNat⟩

/-- All metrics, the zones in the given order. -/
def metrics (zones : List ZoneCapacity) (mode : Mode) (counters : AssignCounters) : List Metric :=
  [zoneMetric "relaygrid_zone_running_relays" "Relays in the Running state."
      (·.runningCount.toNat) zones,
    zoneMetric "relaygrid_zone_active_sessions" "Sessions reported by running relays."
      (·.activeSessions.toNat) zones,
    zoneMetric "relaygrid_zone_transitional_relays" "Relays starting or stopping."
      (·.transitionalCount.toNat) zones,
    zoneMetric "relaygrid_zone_stopped_relays" "Relays in the stopped pool."
      (·.stoppedCount.toNat) zones,
    modeMetric mode,
    assignMetric counters]

/-- The text of all metrics. -/
def text (zones : List ZoneCapacity) (mode : Mode) (counters : AssignCounters) : String :=
  String.join ((metrics zones mode counters).map metricText)

end RelayFleet.Metrics
