import RelayFleet.Proofs.Interleaving.Serial
import RelayFleet.Proofs.Lifecycle.Rollback
import RelayFleet.Proofs.Scan.Additive

/-!
# Alerts

A zone that needs a relay and gets none gives an alert, an event of the kind `createFailure`. An
expansion gives it in the branch in which it has failed, except where there are no resources for a
new relay: there the creation has given it already. Starts and destructions give none, so an
expansion gives one alert or none, as `Alerted` says branch by branch.
-/

namespace RelayFleet

/-! ## Who gives alerts -/

/-- No alert is given. -/
def Action.IsCalm : Action → Prop
  | .emit e => e.kind ≠ .createFailure
  | _ => True

/-- The alerts that are given on the way. -/
def alertsOf (l : List Deed) : List Event := (eventsOf l).filter (·.kind = .createFailure)

/-- The alerts of two parts follow each other. -/
theorem alertsOf_append (l₁ l₂ : List Deed) : alertsOf (l₁ ++ l₂) = alertsOf l₁ ++ alertsOf l₂ := by
  simp [alertsOf, eventsOf]

/-- What is calm gives no alert. -/
theorem alertsOf_of_isCalm {l : List Deed} (h : ∀ d ∈ l, d.action.IsCalm) :
    alertsOf l = [] := by
  refine List.filter_eq_nil_iff.mpr fun e he => ?_
  obtain ⟨d, hd, hevent⟩ := List.mem_filterMap.mp he
  have hcalm := h d hd
  generalize d.action = a at hevent hcalm
  cases a with
  | emit =>
    cases hevent
    exact fun hkind => hcalm (of_decide_eq_true hkind)
  | _ => cases hevent

/-- A calm part may come before. -/
theorem alertsOf_append_of_isCalm {l₁ : List Deed} (h : ∀ d ∈ l₁, d.action.IsCalm)
    (l₂ : List Deed) : alertsOf (l₁ ++ l₂) = alertsOf l₂ := by
  rw [alertsOf_append, alertsOf_of_isCalm h, List.nil_append]

/-- A listing is calm. -/
theorem Deed.Lists.isCalm {d : Deed} (h : d.Lists) : d.action.IsCalm := by
  obtain ⟨keep, haction⟩ := h
  rw [haction]
  trivial

namespace Lifecycle

variable {id : RelayId}

/-- A start gives no alert. -/
theorem calm_start : Asks Action.IsCalm (start id).run fun _ => True :=
  asks_start_of trivial fun _ => asks_boot trivial (fun _ _ => trivial) nofun

/-- A destruction gives no alert. -/
theorem calm_destroy : Asks Action.IsCalm (destroy id).run fun _ => True :=
  ⟨trivial, asksThen_destroy_of trivial (fun _ => trivial) trivial fun _ => nofun⟩

end Lifecycle

/-- The alert of an expansion. -/
def ScanRules.alert (zone : ZoneId) (id : Option RelayId) (reason : String) : Event :=
  ⟨.createFailure, zone, id, "no relay brought online: " ++ reason⟩

/-! ## The alerts of expansions -/

/-- The lock is had on the way. -/
def Locked (l : List Deed) : Prop := ∃ d ∈ l, d.action.obtainsLock d.reply

open ScanRules in
/-- How the attempt to bring a zone one relay online ends, and the alerts that it gives. -/
inductive Attempted (rules : ScanRules) (zone : ZoneId) (g : Registry) :
    Except ExpandError StageOutcome → List Event → Prop
  | applied : Attempted rules zone g (.ok .applied) []
  /-- The zone has as many relays as it may have. -/
  | full (limit : rules.launchMaxPerZone ≤ (g.capacityOf zone).totalCount) :
    Attempted rules zone g (.ok .skipped) [alert zone none ("zone at launch limit of "
      ++ toString rules.launchMaxPerZone.toNat ++ " relays")]
  /-- A relay of the pool did not boot. -/
  | restarting {id : RelayId} {r : Relay} {e : LifecycleError} (pooled : g.Pooled zone id r) :
    Attempted rules zone g (.error (.restarting id zone e)) [alert zone (some id) e.message]
  /-- There were no resources for a new relay. -/
  | provisioning {p : ProvisionError} :
    Attempted rules zone g (.error (.provisioning zone (.provisioning g.nextRelayId.1 p)))
      [⟨.createFailure, zone, some g.nextRelayId.1, "relay allocation failed: " ++ p.message⟩]
  /-- A new relay did not boot. -/
  | starting {e : LifecycleError} :
    Attempted rules zone g (.error (.starting g.nextRelayId.1 zone e))
      [alert zone (some g.nextRelayId.1) e.message]

/-- How an expansion ends, and the alerts that it gives. -/
inductive Alerted (rules : ScanRules) (zone : ZoneId) (g : Registry) (l : List Deed) :
    Except ExpandError StageOutcome → Prop
  /-- The lock is not to be had. -/
  | waits {e : LockTimeout} (unlocked : ¬ Locked l)
    (alerts_eq : alertsOf l = [ScanRules.alert zone none e.message]) :
    Alerted rules zone g l (.ok .deferred)
  /-- No relay is needed any more. -/
  | idle (locked : Locked l) (idle : ¬ rules.Needs (g.capacityOf zone))
    (alerts_eq : alertsOf l = []) : Alerted rules zone g l (.ok .skipped)
  | attempts {x : Except ExpandError StageOutcome} (needs : rules.Needs (g.capacityOf zone))
    (attempted : Attempted rules zone g x (alertsOf l)) : Alerted rules zone g l x

/-- An attempt gives one alert of the zone, unless a relay was brought online. -/
theorem Attempted.alerts {rules : ScanRules} {zone : ZoneId} {g : Registry}
    {x : Except ExpandError StageOutcome} {alerts : List Event}
    (h : Attempted rules zone g x alerts) :
    x = .ok .applied ∧ alerts = [] ∨
      x ≠ .ok .applied ∧ ∃ e, alerts = [e] ∧ e.zoneId = zone := by
  cases h with
  | applied => exact .inl ⟨rfl, rfl⟩
  | _ => exact .inr ⟨nofun, _, rfl, rfl⟩

namespace Alone

variable {rules : ScanRules} {zone : ZoneId} {g g' : Registry} {id : RelayId} {r : Relay}
  {l : List Deed} {x : Except ExpandError StageOutcome}

/-- What is announced of a failure is the alert. -/
theorem alertsOf_announceFailure {k : Option RelayId} {reason : String} {y : Unit}
    (h : Alone g (ScanRules.announceFailure zone k reason) l y g') :
    alertsOf l = [ScanRules.alert zone k reason] := by
  obtain ⟨time, -, rfl, -⟩ := perform h
  rfl

/-- A creation gives an alert if there are no resources. -/
theorem alertsOf_create {spec : LaunchSpec} {y : Except LifecycleError Relay}
    (h : Alone g (Lifecycle.create zone spec).run l y g') :
    (∃ r, y = .ok r ∧ r.id = g.nextRelayId.1 ∧ alertsOf l = []) ∨
      ∃ p, y = .error (.provisioning g.nextRelayId.1 p) ∧
        alertsOf l = [⟨.createFailure, zone, some g.nextRelayId.1,
          "relay allocation failed: " ++ p.message⟩] := by
  cases y with
  | error e =>
    obtain ⟨-, p, rfl, hevents⟩ := h.create_fails
    refine .inr ⟨p, rfl, ?_⟩
    rw [alertsOf, hevents]
    rfl
  | ok r =>
    obtain ⟨_, l₂, rfl, h₂⟩ := attempted h fun _ => rfl
    obtain ⟨_, reply, l₃, -, rfl, h₃⟩ := performed h₂
    cases reply with
    | error p =>
      obtain ⟨_, _, l₄, -, -, h₄⟩ := performed h₃
      cases (of_pure h₄).2.1
    | ok =>
      obtain ⟨_, _, l₄, -, rfl, h₄⟩ := performed h₃
      obtain ⟨_, l₅, rfl, h₅⟩ := attempted h₄ fun _ => rfl
      obtain ⟨_, _, l₆, -, rfl, h₆⟩ := performed h₅
      obtain ⟨rfl, hr, -⟩ := of_pure h₆
      cases hr
      exact .inl ⟨_, rfl, rfl, rfl⟩

/-- A relay of the pool is restarted. -/
theorem attempted_restart (pooled : g.Pooled zone id r)
    (h : Alone g (ScanRules.restart zone id).run l x g') :
    Attempted rules zone g x (alertsOf l) := by
  obtain ⟨l₁, y, g₁, l₂, rfl, h₁, h₂⟩ := h.lift
  rw [alertsOf_append_of_isCalm (h₁.asks Lifecycle.calm_start).1]
  cases y with
  | ok =>
    obtain ⟨rfl, rfl, -⟩ := of_pure h₂
    exact .applied
  | error e =>
    obtain ⟨l₃, _, g₃, l₄, rfl, h₃, h₄⟩ := h₂.lift
    obtain ⟨l₅, _, g₅, l₆, rfl, h₅, h₆⟩ := h₄.lift
    obtain ⟨rfl, rfl, -⟩ := of_pure h₆
    rw [alertsOf_append, alertsOf_announceFailure h₃, List.append_nil,
      alertsOf_of_isCalm (h₅.asks Lifecycle.calm_destroy).1]
    exact .restarting pooled

/-- A new relay is made and booted. -/
theorem attempted_launchNew (h : Alone g (rules.launchNew zone).run l x g') :
    Attempted rules zone g x (alertsOf l) := by
  obtain ⟨l₁, y, g₁, l₂, rfl, h₁, h₂⟩ := h.lift
  rw [alertsOf_append]
  rcases alertsOf_create h₁ with ⟨r, rfl, hid, halerts⟩ | ⟨p, rfl, halerts⟩
  · obtain ⟨l₃, y', g₃, l₄, rfl, h₃, h₄⟩ := h₂.lift
    rw [halerts, List.nil_append,
      alertsOf_append_of_isCalm (h₃.asks Lifecycle.calm_start).1]
    cases y' with
    | ok =>
      obtain ⟨rfl, rfl, -⟩ := of_pure h₄
      exact .applied
    | error e =>
      obtain ⟨l₅, _, g₅, l₆, rfl, h₅, h₆⟩ := h₄.lift
      obtain ⟨rfl, rfl, -⟩ := of_pure h₆
      rw [List.append_nil, alertsOf_announceFailure h₅, hid]
      exact .starting
  · obtain ⟨rfl, rfl, -⟩ := of_pure h₂
    rw [halerts]
    exact .provisioning

/-- The expansion of a zone under the lock. -/
theorem alerted_expandLocked (hg : g.Sound) (h : Alone g (rules.expandLocked zone).run l x g') :
    (x = .ok .skipped ∧ ¬ rules.Needs (g.capacityOf zone) ∧ alertsOf l = []) ∨
      rules.Needs (g.capacityOf zone) ∧ Attempted rules zone g x (alertsOf l) := by
  obtain ⟨l₁, l₂, p, rfl, hlists, hplan, h₁⟩ := plan hg h
  rw [alertsOf_append_of_isCalm fun d hd => (hlists d hd).isCalm]
  cases hplan with
  | idle idle =>
    obtain ⟨rfl, rfl, -⟩ := of_pure h₁
    exact .inl ⟨rfl, idle, rfl⟩
  | @restarts r rest needs pool_eq =>
    have hr : r ∈ g.pool zone := pool_eq ▸ List.mem_cons_self
    exact .inr ⟨needs, attempted_restart (hg.mem_pool.mp hr) h₁⟩
  | full needs _ limit =>
    obtain ⟨l₃, _, g₃, l₄, rfl, h₃, h₄⟩ := h₁.lift
    obtain ⟨rfl, rfl, -⟩ := of_pure h₄
    rw [List.append_nil, alertsOf_announceFailure h₃]
    exact .inr ⟨needs, .full limit⟩
  | launches needs => exact .inr ⟨needs, attempted_launchNew h₁⟩

/-- The expansion of a zone. -/
theorem alerted_expand (hg : g.Sound) (h : Alone g (rules.expand zone) l x g') :
    Alerted rules zone g l x := by
  rcases h.withLock with ⟨time, e, l₁, rfl, h₁⟩ | ⟨time, l₁, time', rfl, h₁⟩
  · obtain ⟨l₂, _, g₂, l₃, rfl, h₂, h₃⟩ := h₁.bind
    obtain ⟨rfl, rfl, -⟩ := of_pure h₃
    rw [List.append_nil]
    have halert : alertsOf l₂ = _ := alertsOf_announceFailure h₂
    refine .waits ?_ halert
    obtain ⟨time', -, rfl, -⟩ := perform h₂
    simp [Locked, Action.obtainsLock]
  · have hlocked : Locked (⟨g, .acquire rules.lockTimeout, time, .ok ()⟩ ::
        l₁ ++ [⟨g', .release, time', ()⟩]) := ⟨_, List.mem_cons_self, rfl⟩
    have halerts : alertsOf (⟨g, .acquire rules.lockTimeout, time, .ok ()⟩ ::
        l₁ ++ [⟨g', .release, time', ()⟩]) = alertsOf l₁ :=
      (alertsOf_append l₁ [⟨g', .release, time', ()⟩]).trans (List.append_nil _)
    rcases alerted_expandLocked hg h₁ with ⟨rfl, idle, hnone⟩ | ⟨needs, hattempted⟩
    · exact .idle hlocked idle (halerts.trans hnone)
    · exact .attempts needs (halerts ▸ hattempted)

end Alone

/-- **An expansion that brings no relay online gives exactly one alert.** Take a registry of which
every row decodes and stands under the id of its relay and in which the id that is issued next is
free, as it is where no relay has one that is still to be issued; any zone and rules; and an
expansion that nobody interrupts, whatever the provisioner answers and whether or not the lock is to
be had. It gives no alert if it was applied, or if it had the lock and found that the zone needs no
relay: that one is starting or stopping or that the running ones have more sessions to spare than
the threshold, which its counters tell as long as the relays of the zone can be counted. In every
other case it gives one alert, of this zone, as `Alerted` says for each. It is applied exactly if
one more relay of the zone runs than before. -/
theorem GoesThrough.expand_alerts {ι : Type} [DecidableEq ι] {i : ι} {s s' : System ι Outcome}
    {h : List (Moment ι Outcome)} {o : Outcome} {rules : ScanRules} {zone : ZoneId}
    (hg : s.registry.Sound) (hnext : s.registry.relay? s.registry.nextRelayId.1 = none)
    (through : GoesThrough (Operation.expand rules zone).program i s h s' o) :
    ∃ x, o = .expanded x ∧
      let l := h.map Moment.deed
      let idle := Locked l ∧ ¬ rules.Needs (s.registry.capacityOf zone)
      (x = .ok .applied ∨ idle → alertsOf l = []) ∧
      (¬ (x = .ok .applied ∨ idle) → ∃ e, alertsOf l = [e] ∧ e.zoneId = zone) ∧
      Alerted rules zone s.registry l x ∧
      (x = .ok .applied ↔ s'.registry.zoneTotal zone Relay.running =
        s.registry.zoneTotal zone Relay.running + 1) ∧
      (s.registry.zoneTotal zone Relay.live < 2 ^ 32 →
        (rules.Needs (s.registry.capacityOf zone) ↔
          s.registry.zoneTotal zone Relay.transitional = 0 ∧
            rules.spare s.registry zone ≤ rules.standbyThreshold.toNat)) := by
  obtain ⟨x, rfl, halone⟩ := through.alone.map
  have halerted := halone.alerted_expand hg
  have hrunning := (halone.expand hg).1.running_eq_of_fresh fun _ => hnext
  refine ⟨x, rfl, ?_, ?_, halerted, ?_, ScanRules.needs_iff⟩
  · rintro (rfl | ⟨hlocked, hidle⟩)
    · cases halerted with
      | attempts _ attempted =>
        exact attempted.alerts.elim And.right fun h => absurd rfl h.1
    · cases halerted with
      | waits unlocked => exact absurd hlocked unlocked
      | idle _ _ alerts_eq => exact alerts_eq
      | attempts needs => exact absurd needs hidle
  · intro hnot
    obtain ⟨hx, hidle⟩ := not_or.mp hnot
    cases halerted with
    | waits _ alerts_eq => exact ⟨_, alerts_eq, rfl⟩
    | idle locked idle => exact absurd ⟨locked, idle⟩ hidle
    | attempts _ attempted =>
      exact attempted.alerts.elim (fun h => absurd h.1 hx) And.right
  · by_cases hx : x = .ok .applied <;> simp [hrunning, hx]

/-! ## An expansion that destroys a relay -/

/-- The registry in which the first relay of the zone is stopped. -/
def pooledRegistry : Registry :=
  ({ Registry.empty with sequence := 1 } : Registry).withRow (Registry.relayId 1)
    (crowdingRelay 1 .stopped)

/-- The relay of the pool does not boot and is destroyed, and there is one alert. -/
theorem GoesThrough.expand_alerts_restarting :
    let call : Operation := .expand crowdingRules "zone-a"
    ∃ (h : List (Moment Unit Outcome)) (s' : System Unit Outcome) (e : LifecycleError),
      GoesThrough call.program () (.start pooledRegistry fun _ => call.program) h s'
        (.expanded (.error (.restarting (Registry.relayId 1) "zone-a" e))) ∧
      pooledRegistry.Sound ∧ pooledRegistry.relay? pooledRegistry.nextRelayId.1 = none ∧
      s'.registry.relay? (Registry.relayId 1) = none ∧
      ∃ alert, alertsOf (h.map Moment.deed) = [alert] ∧ alert.zoneId = "zone-a" := by
  intro call
  let s₀ : System Unit Outcome := .start pooledRegistry fun _ => call.program
  let r := crowdingRelay 1
  let e : LifecycleError := .provisioning (Registry.relayId 1) ⟨.start, "no host"⟩
  have hempty : ({ Registry.empty with sequence := 1 } : Registry).Sound := Registry.sound_empty
  have hg : pooledRegistry.Sound := Registry.Sound.withRow hempty rfl
  have hnext : pooledRegistry.relay? pooledRegistry.nextRelayId.1 = none := by
    have hne : Registry.relayId 2 ≠ Registry.relayId 1 := by decide
    exact (Registry.relay?_withRow ..).trans (if_neg hne)
  have hneeds : crowdingRules.Needs (pooledRegistry.capacityOf "zone-a") := by
    rw [Registry.capacityOf, pooledRegistry, Registry.rows_withRow_of_empty rfl]
    exact ⟨rfl, ScanRules.decision_eq_expand_iff.mp rfl⟩
  obtain ⟨_, seen⟩ := ((Run.start : Run s₀ [] s₀).perform () rfl 0 (.ok ()) rfl).listRow
    hempty rfl rfl rfl () rfl [r .stopped] rfl
  obtain ⟨_, pooled⟩ := seen.listRow hempty rfl rfl rfl () rfl [r .stopped] rfl
  have starting := pooled.changeRow hempty rfl rfl () rfl 0 (r .starting) rfl
  have stopped := (starting.perform
    () rfl 0 (.error ⟨.start, "no host"⟩) trivial).changeRow hempty rfl rfl
    () rfl 0 (r .stopped) rfl
  have condemned := (stopped.perform () rfl 0 () trivial).changeRow hempty rfl rfl
    () rfl 0 (r .destroyed) rfl
  have removed := ((condemned.perform
    () rfl 0 (.ok ()) trivial).perform () rfl 0 (.ok true) rfl).perform () rfl 0 () trivial
  have through : GoesThrough call.program () s₀ _ _
      (.expanded (.error (.restarting (Registry.relayId 1) "zone-a" e))) :=
    ⟨removed.perform () rfl 0 () rfl, rfl, fun _ _ => rfl, rfl⟩
  have hreg : s₀.registry = pooledRegistry := rfl
  obtain ⟨x, hx, -, hone, -⟩ := through.expand_alerts (hreg ▸ hg) (by rw [hreg]; exact hnext)
  cases hx
  refine ⟨_, _, e, through, hg, hnext, (Registry.relay?_withoutRow ..).trans (if_pos rfl), hone ?_⟩
  rintro (hx | ⟨-, hidle⟩)
  · cases hx
  · exact hidle hneeds

end RelayFleet
