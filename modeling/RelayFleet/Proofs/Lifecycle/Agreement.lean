import RelayFleet.Proofs.Interleaving.Since
import RelayFleet.Proofs.Lifecycle.Errand

/-!
# Rows and workers

A call moves a row and has the provisioner change the worker in separate steps. Where stops overlap
boots the provisioner may complete a start or a stop after others have moved the row on, and then
the row and the worker disagree in the end. What the last start or stop met decides where the row
ends (`Heads`): if it found the relay starting or running, the row is running in the end, and
stopped otherwise. So row and worker agree if and only if the last start or stop was not late in
this sense (`Run.agrees_iff`), and runs in which it is late exist (`Run.overlapping`).
-/

namespace RelayFleet

/-! ## Agreement and lateness -/

section
variable {ι α : Type}

/-- The provisioner has carried out a call. -/
def Moment.Completes (e : Moment ι α) (call : ProvisionCall) : Prop :=
  ∃ time gain, e.move = ⟨e.move.caller, .provision call, time, .ok gain⟩

/-- The provisioner has failed. -/
def Moment.Fails (e : Moment ι α) : Prop :=
  ∃ call time x, e.move = ⟨e.move.caller, .provision call, time, .error x⟩

/-- The provisioner has booted or stopped a relay. -/
def Moment.Switches (id : RelayId) (e : Moment ι α) : Prop :=
  e.Completes (.start id) ∨ e.Completes (.stop id)

/-- The relay is starting or running. -/
def Registry.IsUp (g : Registry) (id : RelayId) : Prop := g.IsIn id .starting ∨ g.IsIn id .running

/-- The row of a relay agrees with its worker: it is running only if the worker was started or
rebooted and not stopped since, and stopped only if it was not started since it was stopped. -/
structure Agrees (h : List (Moment ι α)) (g : Registry) (id : RelayId) : Prop where
  running : g.IsIn id .running →
    Since (fun e => e.Completes (.start id) ∨ e.Completes (.reboot id))
      (fun e => e.Completes (.stop id)) h
  stopped : g.IsIn id .stopped →
    ¬ Since (fun e => e.Completes (.start id)) (fun e => e.Completes (.stop id)) h

/-- The last start or stop of the relay came late: it was a start that found the relay neither
starting nor running, or a stop that found it starting or running, and no reboot has followed. -/
def Late (h : List (Moment ι α)) (id : RelayId) : Prop :=
  Since (fun e => e.Completes (.start id) ∧ ¬ e.before.registry.IsUp id) (Moment.Switches id) h ∨
    Since (fun e => e.Completes (.stop id) ∧ e.before.registry.IsUp id)
      (fun e => e.Switches id ∨ e.Completes (.reboot id)) h

/-- The last start or stop of a relay met a registry as `X` says. -/
def LastMet (X : Registry → Prop) (h : List (Moment ι α)) (id : RelayId) : Prop :=
  Since (fun e => e.Switches id ∧ X e.before.registry) (Moment.Switches id) h

/-- A call is completed in one way. -/
theorem Moment.Completes.unique {e : Moment ι α} {call call' : ProvisionCall}
    (h : e.Completes call) (h' : e.Completes call') : call = call' := by
  obtain ⟨time, gain, heq⟩ := h
  obtain ⟨time', gain', heq'⟩ := h'
  have hmove := heq.symm.trans heq'
  injection hmove with _ haction
  injection haction

/-- A row that is running agrees with its worker unless a stop has found it up. -/
theorem agrees_iff_of_up {h : List (Moment ι α)} {g : Registry} {id : RelayId}
    (hstate : g.state? id = some .running) (hup : LastMet (·.IsUp id) h id) :
    Agrees h g id ↔ ¬ Late h id := by
  have hnotStart : ¬ Since (fun e => e.Completes (.start id) ∧ ¬ e.before.registry.IsUp id)
      (Moment.Switches id) h := by
    intro hlate
    obtain ⟨e, -, he, he'⟩ := hlate.meet hup (fun _ h => .inl h.1) fun _ h => h.1
    exact he.2 he'.2
  constructor
  · rintro hagrees (hlate | hlate)
    · exact hnotStart hlate
    · -- the start or reboot after the last stop would have ended the lateness
      have hran := hagrees.running (Registry.isIn_iff.mpr hstate)
      obtain ⟨e, -, he, he'⟩ := hran.meet hlate
        (fun _ h => h.elim (fun h => .inl (.inl h)) .inr) fun _ h => h.1
      rcases he with he | he
      · cases he.unique he'.1
      · cases he.unique he'.1
  · intro hnot
    refine ⟨fun _ => ?_, fun hstopped => ?_⟩
    · rcases hup.and_or (fun e => e.Completes (.start id)) with hstart | hstop
      · exact hstart.mono (fun _ h => .inl h.2) fun _ h => .inr h
      · have hstop : Since (fun e => e.Completes (.stop id) ∧ e.before.registry.IsUp id)
            (Moment.Switches id) h :=
          hstop.mono (fun _ h => ⟨h.1.1.resolve_left h.2, h.1.2⟩) fun _ h => h
        rcases hstop.or_since (R := fun e => e.Completes (.reboot id)) with hlate | hreboot
        · exact absurd (.inr hlate) hnot
        · exact hreboot.mono (fun _ h => .inr h) fun _ h => .inr h
    · rw [Registry.isIn_iff, hstate] at hstopped
      cases hstopped

/-- A row that is stopped agrees with its worker unless a start has found it not up. -/
theorem agrees_iff_of_not_up {h : List (Moment ι α)} {g : Registry} {id : RelayId}
    (hstate : g.state? id = some .stopped) (hup : ¬ LastMet (·.IsUp id) h id) :
    Agrees h g id ↔ ¬ Late h id := by
  have hnotStop : ¬ Since (fun e => e.Completes (.stop id) ∧ e.before.registry.IsUp id)
      (fun e => e.Switches id ∨ e.Completes (.reboot id)) h :=
    fun hlate => hup (hlate.mono (fun _ h => ⟨.inr h.1, h.2⟩) fun _ h => .inl h)
  constructor
  · rintro hagrees (hlate | hlate)
    · refine hagrees.stopped (Registry.isIn_iff.mpr hstate) ?_
      exact hlate.mono (fun _ h => h.1) fun _ h => .inr h
    · exact hnotStop hlate
  · intro hnot
    refine ⟨fun hrunning => ?_, fun _ hstarted => ?_⟩
    · rw [Registry.isIn_iff, hstate] at hrunning
      cases hrunning
    · rcases hstarted.last.and_or (fun e => e.before.registry.IsUp id) with hmet | hmet
      · exact hup (hmet.mono (fun _ h => ⟨.inl h.1, h.2⟩) fun _ h => h)
      · exact hnot (.inl hmet)

end

/-! ## Calls that switch relays on and off -/

/-- A call that makes a relay or switches it on or off. -/
def Operation.IsPowerCall : Operation → Prop
  | create _ _ | start _ | stop _ | reboot _ | agentDisconnected _ => True
  | _ => False

/-- A call that makes a relay or switches it on or off is an errand. -/
theorem Operation.IsPowerCall.isErrand {c : Operation} (h : c.IsPowerCall) : c.IsErrand := by
  cases c <;> first | exact h | cases h

/-- A duty that such calls have where the provisioner does not fail. -/
def Duty.Thrives : Duty → Prop
  | .bootFailed _ | .stopFailed _ _ | .destroying _ _ | .gone _ | .destroyFailed _ _ => False
  | _ => True

/-- The operations that such calls perform. -/
inductive Duty.Switches (id : RelayId) : Duty → RelayOp → Prop
  | start : Switches id .idle .start
  | stop : Switches id .idle .stop
  | reboot : Switches id .idle .reboot
  | agentDisconnected : Switches id .idle .agentDisconnected
  | startCompleted : Switches id (.booted id) .startCompleted
  | stopCompleted : Switches id (.stopped id) .stopCompleted
  | haFenced : Switches id (.fenced id) .haFenced
  | restart : Switches id (.restarting id) .start

section
variable {id : RelayId} {d d' : Duty} {c : Operation} {op : RelayOp}

/-- An operation of a call that only switches relays is one of these. -/
theorem Duty.Asks.switches (hc : c.IsPowerCall) (hd : d.Thrives)
    (asks : d.Asks c.rights .out op id) : d.Switches id op := by
  cases d with
  | idle =>
    cases c <;> try cases hc
    all_goals cases op <;> first | constructor | cases asks
  | booted | stopped | fenced | restarting =>
    obtain ⟨rfl, rfl⟩ := asks
    constructor
  | bootFailed => cases hd
  | _ => cases asks

/-- The duties stay such duties. -/
theorem Turn.thrives {ι α : Type} {e e' : Errand} {m : Move ι} {s : System ι α}
    {x y : Option RelayState} (h : Turn id e x m.action m.reply e' y)
    (hid : e'.duty.relay? = some id) (hc : e.call.IsPowerCall) (hd : e.duty.Thrives)
    (hok : ¬ (⟨s, m⟩ : Moment ι α).Fails) : e'.duty.Thrives := by
  obtain ⟨i, a, time, r⟩ := m
  cases h with
  | rests => exact hd
  | elsewhere _ _ hne => exact absurd hid hne
  | @operates c d x₀ op _ _ _ _ hop =>
    have hswitches := hop.switches hc hd
    cases hswitches <;> cases x₀ <;> trivial
  | provisions calls => cases calls <;> first | trivial | exact absurd ⟨_, _, _, rfl⟩ hok
  | _ => trivial

/-! ## Where a row heads -/

/-- The provisioner is asked to boot or to stop the relay. -/
def Duty.Awaits (id : RelayId) (d : Duty) : Prop :=
  d = .booting id ∨ (∃ s, d = .stopping id s) ∨ d = .fencing id

/-- Where the row of a relay heads, unless a start or stop is awaited: to `running` if the last one
found the relay up (`up`), to a restart if it found it being fenced (`away`), and to `stopped`
otherwise. A row that is not there yet is moved on by a call with the duty that is named (`D`). -/
inductive Heads (id : RelayId) (up away : Prop) (D : Duty → Prop) : Option RelayState → Prop
  | awaited {x : Option RelayState} {d : Duty} (hd : D d) (hawaits : d.Awaits id) :
    Heads id up away D x
  | running (hup : up) : Heads id up away D (some .running)
  | starting (hup : up) (hd : D (.booted id)) : Heads id up away D (some .starting)
  | ha (haway : away) (hd : D (.fenced id)) : Heads id up away D (some .ha)
  | restarting (haway : away) (hd : D (.restarting id)) : Heads id up away D (some .stopped)
  | absent (hup : ¬ up) (haway : ¬ away) : Heads id up away D none
  | stopped (hup : ¬ up) (haway : ¬ away) : Heads id up away D (some .stopped)
  | stopping (hup : ¬ up) (haway : ¬ away) (hd : D (.stopped id)) :
    Heads id up away D (some .stopping)

/-- The duties that a row in state `x` needs to get on. -/
inductive Duty.Moves (id : RelayId) : Duty → Option RelayState → Prop
  | booted : Moves id (.booted id) (some .starting)
  | fenced : Moves id (.fenced id) (some .ha)
  | restarting : Moves id (.restarting id) (some .stopped)
  | stopped : Moves id (.stopped id) (some .stopping)

section
variable {up away : Prop} {D D' : Duty → Prop} {x : Option RelayState}

/-- A row heads where it headed as long as no duty is lost that it needs. -/
theorem Heads.keep (h : Heads id up away D x)
    (hkeep : ∀ d, D d → d.Awaits id ∨ d.Moves id x → D' d) : Heads id up away D' x := by
  cases h with
  | awaited hd hawaits => exact .awaited (hkeep _ hd (.inl hawaits)) hawaits
  | running hup => exact .running hup
  | starting hup hd => exact .starting hup (hkeep _ hd (.inr .booted))
  | ha haway hd => exact .ha haway (hkeep _ hd (.inr .fenced))
  | restarting haway hd => exact .restarting haway (hkeep _ hd (.inr .restarting))
  | absent hup haway => exact .absent hup haway
  | stopped hup haway => exact .stopped hup haway
  | stopping hup haway hd => exact .stopping hup haway (hkeep _ hd (.inr .stopped))

/-- Who operates on a relay awaits nothing. -/
theorem Duty.Switches.not_awaits (h : d.Switches id op) : ¬ d.Awaits id := by
  cases h <;> simp [Duty.Awaits]

/-- An operation leaves the row where it is, or a start or stop is awaited from then on, or it is
the move that the duty is for. -/
theorem Duty.Switches.cases_after (h : d.Switches id op) (s : RelayState) :
    s.after op = s ∧ ¬ d.Moves id (some s) ∨ (d.next op id s).Awaits id ∨
      (d = .booted id ∧ s = .starting ∧ s.after op = .running) ∨
      (d = .stopped id ∧ s = .stopping ∧ s.after op = .stopped) ∨
      d = .fenced id ∧ s = .ha ∧ s.after op = .stopped ∧ d.next op id s = .restarting id := by
  have hmoves : ∀ {d x}, (d = .booted id → x ≠ some .starting) → (d = .fenced id → x ≠ some .ha) →
      (d = .restarting id → x ≠ some .stopped) → (d = .stopped id → x ≠ some .stopping) →
      ¬ Duty.Moves id d x := by
    intro d x h₁ h₂ h₃ h₄ hmoves
    cases hmoves
    · exact h₁ rfl rfl
    · exact h₂ rfl rfl
    · exact h₃ rfl rfl
    · exact h₄ rfl rfl
  cases h <;> cases s <;>
    simp [RelayState.after, nextState, Duty.next, Duty.Awaits, hmoves]

/-- An operation on the row moves it on to where it heads, or a start or stop is awaited. -/
theorem Heads.operates {s : RelayState} (h : Heads id up away D (some s))
    (hop : d.Switches id op) (hlost : ∀ d₁, D d₁ → d₁ = d ∨ D' d₁) (hnew : D' (d.next op id s)) :
    Heads id up away D' (some (s.after op)) := by
  have hothers : ∀ d₁, D d₁ → d₁.Awaits id → D' d₁ := by
    intro d₁ hd₁ hawaits
    refine (hlost d₁ hd₁).resolve_left ?_
    rintro rfl
    exact hop.not_awaits hawaits
  rcases hop.cases_after s with ⟨hsame, hnot⟩ | hawaits | ⟨-, rfl, hafter⟩ | ⟨-, rfl, hafter⟩ |
    ⟨-, rfl, hafter, hnext⟩
  · rw [hsame]
    refine h.keep ?_
    rintro d₁ hd₁ (hawaits | hmoves)
    · exact hothers d₁ hd₁ hawaits
    · refine (hlost d₁ hd₁).resolve_left ?_
      rintro rfl
      exact hnot hmoves
  · exact .awaited hnew hawaits
  · rw [hafter]
    cases h with
    | awaited hd hawaits => exact .awaited (hothers _ hd hawaits) hawaits
    | starting hup => exact .running hup
  · rw [hafter]
    cases h with
    | awaited hd hawaits => exact .awaited (hothers _ hd hawaits) hawaits
    | stopping hup haway => exact .stopped hup haway
  · rw [hafter]
    cases h with
    | awaited hd hawaits => exact .awaited (hothers _ hd hawaits) hawaits
    | ha haway => exact .restarting haway (hnext ▸ hnew)

/-- A start or stop that is completed decides anew where the row heads. -/
theorem Heads.completed (hup : up ↔ x = some .starting ∨ x = some .running)
    (haway : away ↔ x = some .ha) (hstate : ∀ s, x = some s → s ≠ .migrating ∧ s ≠ .destroyed)
    (htended : ∀ s, x = some s → ¬ s.IsSettled → ∃ d, D d ∧ d.Tends id s)
    (hthrives : ∀ d, D d → d.Thrives) : Heads id up away D x := by
  have hnot : x ≠ some .starting → x ≠ some .running → x ≠ some .ha → ¬ up ∧ ¬ away := by
    intro h₁ h₂ h₃
    simp [hup, haway, h₁, h₂, h₃]
  cases x with
  | none =>
    obtain ⟨hup, haway⟩ := hnot (by simp) (by simp) (by simp)
    exact .absent hup haway
  | some s =>
    cases s with
    | stopped =>
      obtain ⟨hup, haway⟩ := hnot (by simp) (by simp) (by simp)
      exact .stopped hup haway
    | starting =>
      obtain ⟨d, hd, ht⟩ := htended _ rfl (by simp [RelayState.IsSettled])
      cases d with
      | booting => cases ht; exact .awaited hd (.inl rfl)
      | booted => cases ht; exact .starting (hup.mpr (.inl rfl)) hd
      | bootFailed => cases hthrives _ hd
      | _ => cases ht
    | running => exact .running (hup.mpr (.inr rfl))
    | stopping =>
      obtain ⟨hup, haway⟩ := hnot (by simp) (by simp) (by simp)
      obtain ⟨d, hd, ht⟩ := htended _ rfl (by simp [RelayState.IsSettled])
      cases d with
      | stopping => cases ht; exact .awaited hd (.inr (.inl ⟨_, rfl⟩))
      | stopped => cases ht; exact .stopping hup haway hd
      | stopFailed => cases hthrives _ hd
      | _ => cases ht
    | ha =>
      obtain ⟨d, hd, ht⟩ := htended _ rfl (by simp [RelayState.IsSettled])
      cases d with
      | fencing => cases ht; exact .awaited hd (.inr (.inr rfl))
      | fenced => cases ht; exact .ha (haway.mpr rfl) hd
      | _ => cases ht
    | migrating => exact absurd rfl (hstate _ rfl).1
    | destroyed => exact absurd rfl (hstate _ rfl).2

end

end

/-! ## Runs -/

section
variable {ι : Type} {calls : ι → Operation} {h : List (Moment ι Outcome)} {g : Registry}
  {e : ι → Errand} {s s' : System ι Outcome} {m : Move ι} {e' : Errand} {id : RelayId}

/-- A relay is on its way to where its row heads. -/
structure OnItsWay (h : List (Moment ι Outcome)) (g : Registry) (e : ι → Errand) (id : RelayId) :
    Prop where
  state : ∀ x, g.state? id = some x → x ≠ .migrating ∧ x ≠ .destroyed
  tended : ∀ x, g.state? id = some x → ¬ x.IsSettled → ∃ i, (e i).duty.Tends id x
  heads : Heads id (LastMet (·.IsUp id) h id) (LastMet (·.IsIn id .ha) h id)
    (fun d => ∃ i, (e i).duty = d) (g.state? id)

/-- Every relay is on its way, and no call has met a failure. -/
structure AllOnTheirWay (h : List (Moment ι Outcome)) (g : Registry) (e : ι → Errand) : Prop where
  thrives : ∀ i, (e i).duty.Thrives
  onItsWay : ∀ id, OnItsWay h g e id

/-- Without relays and duties nothing is to be done. -/
theorem AllOnTheirWay.start : AllOnTheirWay [] .empty fun i => ⟨calls i, .idle⟩ := by
  refine ⟨fun _ => trivial, fun id => ⟨by simp [Registry.state?], by simp [Registry.state?], ?_⟩⟩
  exact .absent Since.not_nil Since.not_nil

/-- The states of relays that are only switched on and off. -/
theorem Turn.state {e : Errand} {x y : Option RelayState} {a : Action} {r : a.Reply}
    (h : Turn id e x a r e' y) (hc : e.call.IsPowerCall) (hd : e.duty.Thrives)
    (hx : ∀ q, x = some q → q ≠ .migrating ∧ q ≠ .destroyed) (q : RelayState) (hy : y = some q) :
    q ≠ .migrating ∧ q ≠ .destroyed := by
  cases h with
  | @operates _ _ x₀ _ _ _ _ _ hop =>
    cases hy
    have hx₀ := hx x₀ rfl
    cases hop.switches hc hd <;> cases x₀ <;> simp [RelayState.after, nextState] at hx₀ ⊢
  | restores hfailed => rcases hfailed with rfl | rfl <;> cases hd
  | stores =>
    cases hy
    simp
  | misses | removes => cases hy
  | _ => exact hx q hy

/-- A duty that a row needs is about its relay. -/
theorem Duty.relay?_of_needs {d : Duty} {x : Option RelayState}
    (h : d.Awaits id ∨ d.Moves id x) : d.relay? = some id := by
  rcases h with (rfl | ⟨s, rfl⟩ | rfl) | hmoves
  · rfl
  · rfl
  · rfl
  · cases hmoves <;> rfl

/-- A step by which no start or stop is completed leaves a row to head where it headed. -/
theorem Turn.heads {up away : Prop} {D D' : Duty → Prop} {e : Errand} {x y : Option RelayState}
    (h : Turn id e x m.action m.reply e' y) (hheads : Heads id up away D x)
    (hc : e.call.IsPowerCall) (hd : e.duty.Thrives) (hok : ¬ (⟨s, m⟩ : Moment ι Outcome).Fails)
    (hswitches : ¬ (⟨s, m⟩ : Moment ι Outcome).Switches id)
    (hlost : ∀ d, D d → d = e.duty ∨ D' d) (hnew : D' e'.duty)
    (hnone : ∀ r, m.action = .transact (.putRelay r) → r.id = id → x = none) :
    Heads id up away D' y := by
  have hkeep : ¬ (e.duty.Awaits id ∨ e.duty.Moves id x) → Heads id up away D' x := by
    intro hnot
    refine hheads.keep ?_
    intro d hd hneeds
    refine (hlost d hd).resolve_left ?_
    rintro rfl
    exact hnot hneeds
  obtain ⟨i, a, time, r⟩ := m
  cases h with
  | rests =>
    refine hheads.keep ?_
    intro d hd _
    rcases hlost d hd with rfl | hd
    · exact hnew
    · exact hd
  | elsewhere _ hne => exact hkeep fun h => hne (Duty.relay?_of_needs h)
  | operates _ hop => exact hheads.operates (hop.switches hc hd) hlost hnew
  | misses asks =>
    have hop := (asks default).switches hc hd
    exact hkeep (not_or.mpr ⟨hop.not_awaits, fun h => by cases h⟩)
  | @provisions _ d d' _ call r calls hid =>
    cases calls with
    | up => cases hid; exact absurd (.inl ⟨_, _, rfl⟩) hswitches
    | stopped => cases hid; exact absurd (.inr ⟨_, _, rfl⟩) hswitches
    | down | stopFailed | destroyFailed | refused => exact absurd ⟨_, _, _, rfl⟩ hok
    | destroyed => cases hd
    | fenced =>
      cases hid
      cases r with
      | ok => exact absurd (.inr ⟨_, _, rfl⟩) hswitches
      | error => exact absurd ⟨_, _, _, rfl⟩ hok
    | rebooted | allocated =>
      exact hkeep (not_or.mpr ⟨by simp [Duty.Awaits], fun h => by cases h⟩)
  | restores hfailed => rcases hfailed with rfl | rfl <;> cases hd
  | removes => cases hd
  | issues => exact hkeep fun h => by cases Duty.relay?_of_needs h
  | stores hid =>
    cases hnone _ rfl hid
    cases hheads with
    | awaited hd hawaits =>
      refine .awaited ((hlost _ hd).resolve_left ?_) hawaits
      rintro rfl
      simp [Duty.Awaits] at hawaits
    | absent hup haway => exact .stopped hup haway

/-- What the last start or stop met after one more step. -/
theorem lastMet_snoc_iff {X : Registry → Prop} :
    LastMet X (h ++ [⟨s, m⟩]) id ↔
      (⟨s, m⟩ : Moment ι Outcome).Switches id ∧ X s.registry ∨
        LastMet X h id ∧ ¬ (⟨s, m⟩ : Moment ι Outcome).Switches id :=
  Since.snoc_iff

/-- The ids last and the provisioner does not fail. -/
structure Unfailing (h : List (Moment ι Outcome)) : Prop where
  idsLast : IdsLast .empty h
  ok : ∀ e ∈ h, ¬ e.Fails

/-- It was so before. -/
theorem Unfailing.of_snoc {m : Moment ι Outcome} (hk : Unfailing (h ++ [m])) : Unfailing h :=
  ⟨hk.idsLast.of_snoc, fun e he => hk.ok e (List.mem_append_left _ he)⟩

variable [DecidableEq ι]

/-- The step of a call takes the relay on. -/
theorem OnItsWay.step (inv : OnItsWay h s.registry e id) (hthrives : ∀ i, (e i).duty.Thrives)
    (hthrives' : e'.duty.Thrives) (hc : (e m.caller).call.IsPowerCall)
    (hok : ¬ (⟨s, m⟩ : Moment ι Outcome).Fails) (hs : RelayFleet.Step s m s')
    (hturn : Turn id (e m.caller) (s.registry.state? id) m.action m.reply e'
      (s'.registry.state? id))
    (hnew : ∀ r, m.action = .transact (.putRelay r) → s.registry.state? r.id = none) :
    OnItsWay (h ++ [⟨s, m⟩]) s'.registry (Function.update e m.caller e') id := by
  have hlost : ∀ i, (e i).duty = (e m.caller).duty ∨
      ∃ j, (Function.update e m.caller e' j).duty = (e i).duty := by
    intro i
    by_cases hi : i = m.caller
    · exact .inl (by rw [hi])
    · exact .inr ⟨i, by rw [Function.update_of_ne hi]⟩
  have hcaller : (Function.update e m.caller e' m.caller).duty = e'.duty := by
    rw [Function.update_self]
  have htended : ∀ x, s'.registry.state? id = some x → ¬ x.IsSettled →
      ∃ i, (Function.update e m.caller e' i).duty.Tends id x := by
    intro x hx hunsettled
    rcases hturn.tended hx with hsettled | ht | hfailed | ⟨hx, ht⟩
    · exact absurd hsettled hunsettled
    · exact ⟨m.caller, hcaller ▸ ht⟩
    · have hd := hthrives m.caller
      rcases hfailed with hfailed | hfailed <;> rw [hfailed] at hd <;> cases hd
    · obtain ⟨i, hi⟩ := inv.tended x hx hunsettled
      by_cases hic : i = m.caller
      · exact ⟨m.caller, hcaller ▸ ht (hic ▸ hi)⟩
      · exact ⟨i, by rwa [Function.update_of_ne hic]⟩
  refine ⟨hturn.state hc (hthrives _) inv.state, htended, ?_⟩
  simp only [lastMet_snoc_iff]
  by_cases hswitches : (⟨s, m⟩ : Moment ι Outcome).Switches id
  · -- the provisioner has booted or stopped the relay, and the row is as before
    have hregistry : s'.registry = s.registry := by
      rw [hs.registry_eq]
      rcases hswitches with ⟨_, _, hm⟩ | ⟨_, _, hm⟩ <;> rw [show m = _ from hm] <;> rfl
    rw [← hregistry]
    refine .completed ?_ ?_ (hregistry ▸ inv.state) (fun x hx hunsettled => ?_) ?_
    · simp [hswitches, Registry.IsUp, Registry.isIn_iff]
    · simp [hswitches, Registry.isIn_iff]
    · obtain ⟨i, hi⟩ := htended x hx hunsettled
      exact ⟨_, ⟨i, rfl⟩, hi⟩
    · rintro d ⟨i, rfl⟩
      exact (Function.forall_update_iff e fun _ a => a.duty.Thrives).mpr
        ⟨hthrives', fun i _ => hthrives i⟩ i
  · simp only [hswitches, false_and, false_or, not_false_eq_true, and_true]
    refine hturn.heads inv.heads hc (hthrives _) hok hswitches ?_ ⟨m.caller, hcaller⟩ ?_
    · rintro d ⟨i, rfl⟩
      exact hlost i
    · rintro r ha rfl
      exact hnew r ha

/-- A step that is no failure keeps every relay on its way, where no relay that is stored replaces
one. -/
theorem AllOnTheirWay.step (inv : AllOnTheirWay h s.registry e)
    (hc : (e m.caller).call.IsPowerCall) (hok : ¬ (⟨s, m⟩ : Moment ι Outcome).Fails)
    (hs : RelayFleet.Step s m s')
    (hturn : ∀ id, Turn id (e m.caller) (s.registry.state? id) m.action m.reply e'
      (s'.registry.state? id))
    (hnew : ∀ r : Relay, m.action = .transact (.putRelay r) → s.registry.state? r.id = none) :
    AllOnTheirWay (h ++ [⟨s, m⟩]) s'.registry (Function.update e m.caller e') := by
  have hthrives' : e'.duty.Thrives := by
    cases hrelay : e'.duty.relay? with
    | none =>
      rw [Duty.eq_idle_of_relay? hrelay]
      trivial
    | some id => exact (hturn id).thrives hrelay hc (inv.thrives _) hok
  refine ⟨?_, fun id => (inv.onItsWay id).step inv.thrives hthrives' hc hok hs (hturn id) hnew⟩
  exact (Function.forall_update_iff e fun _ x => x.duty.Thrives).mpr
    ⟨hthrives', fun i _ => inv.thrives i⟩

/-- In a run of such calls in which the provisioner does not fail, every relay is on its way. -/
theorem Run.allOnTheirWay (hcalls : ∀ i, (calls i).IsPowerCall)
    (run : Run (System.start .empty fun i => (calls i).program) h s) (hk : Unfailing h) :
    ∃ e : ι → Errand, AllOnTheirWay h s.registry e ∧
      ∀ i, errands.Follows (e i) (s.calls i) fun e _ => e.duty = .idle := by
  have hissued : Registry.empty.Issued := fun id hid => absurd (Registry.relay?_empty id) hid
  obtain ⟨e, inv, -, -, hf⟩ := run.turns (K := Unfailing) (I := AllOnTheirWay)
    Registry.sound_empty (fun i => (hcalls i).isErrand) (fun _ _ => Unfailing.of_snoc) .start
    (fun _ _ _ m _ _ run hk hcall inv hs _ hturn => by
      refine inv.step (hcall m.caller ▸ hcalls m.caller) (hk.ok _ (by simp)) hs hturn fun r ha => ?_
      exact run.state?_of_stores Registry.sound_empty hissued hk.of_snoc.idsLast hs ha) hk
  exact ⟨e, inv, hf⟩

/-- When the calls are over a relay is running if the last start or stop found it up, and stopped
otherwise. -/
theorem Run.state_of_finished (hcalls : ∀ i, (calls i).IsPowerCall)
    (run : Run (System.start .empty fun i => (calls i).program) h s) (hfinished : s.Finished)
    (hk : Unfailing h) {r : Relay} (hr : s.registry.relay? id = some r) :
    s.registry.state? id = some .running ∧ LastMet (·.IsUp id) h id ∨
      s.registry.state? id = some .stopped ∧ ¬ LastMet (·.IsUp id) h id := by
  obtain ⟨e, hway, hf⟩ := run.allOnTheirWay hcalls hk
  have hidle : ∀ i, (e i).duty = .idle := by
    intro i
    obtain ⟨a, ha⟩ := hfinished i
    have hover := hf i
    rw [ha] at hover
    exact hover
  have hstate := Registry.state?_eq hr
  have hheads := (hway.onItsWay id).heads
  rw [hstate] at hheads ⊢
  generalize r.state = x at hheads ⊢
  cases hheads with
  | awaited hd hawaits =>
    obtain ⟨i, rfl⟩ := hd
    simp [hidle, Duty.Awaits] at hawaits
  | running hup => exact .inl ⟨rfl, hup⟩
  | stopped hup => exact .inr ⟨rfl, hup⟩
  | starting _ hd | ha _ hd | restarting _ hd | stopping _ _ hd =>
    obtain ⟨i, hi⟩ := hd
    rw [hidle] at hi
    cases hi

/-- **Rows agree with workers unless a start or stop came late.** When any number of calls that make
relays, start, stop and reboot them and restart those whose agents are lost are over, run from a
registry without relays in any order of steps, the provisioner having failed at nothing, then the
row of a relay agrees with its worker if and only if its last start or stop was not late. -/
theorem Run.agrees_iff (hcalls : ∀ i, (calls i).IsPowerCall)
    (run : Run (System.start .empty fun i => (calls i).program) h s) (hfinished : s.Finished)
    (hids : IdsLast .empty h) (hok : ∀ e ∈ h, ¬ e.Fails) {r : Relay}
    (hr : s.registry.relay? id = some r) : Agrees h s.registry id ↔ ¬ Late h id := by
  rcases run.state_of_finished hcalls hfinished ⟨hids, hok⟩ hr with ⟨hstate, hup⟩ | ⟨hstate, hup⟩
  · exact agrees_iff_of_up hstate hup
  · exact agrees_iff_of_not_up hstate hup

end

/-- These calls only make a relay and switch it on and off. -/
theorem isPowerCall_strandingCalls : ∀ i, (strandingCalls i).IsPowerCall
  | 0 => trivial
  | 1 => trivial
  | 2 => trivial

/-- A stop begins and ends while the relay boots: the row is stopped when the worker comes up. -/
theorem Run.overlapping :
    ∃ (h : List (Moment (Fin 3) Outcome)) (s : System (Fin 3) Outcome) (r : Relay),
      Run (System.start .empty fun i => (strandingCalls i).program) h s ∧ s.Finished ∧
      IdsLast .empty h ∧ (∀ e ∈ h, ¬ e.Fails) ∧
      s.registry.relay? (Registry.relayId 1) = some r ∧ r.state = .stopped ∧
      Since (fun e => e.Completes (.start (Registry.relayId 1)) ∧
          ¬ e.before.registry.IsUp (Registry.relayId 1))
        (Moment.Switches (Registry.relayId 1)) h := by
  let s₀ : System (Fin 3) Outcome := .start .empty fun i => (strandingCalls i).program
  let r (x : RelayState) : Relay :=
    { Relay.fresh 0 (Registry.relayId 1) "zone-a" none 0 with state := x }
  have hg : ({ Registry.empty with sequence := 1 } : Registry).Sound := Registry.sound_empty
  have hroom : Registry.empty.sequence.toNat + 1 < 2 ^ 64 := by decide
  have hdown : ¬ (Registry.withRow { Registry.empty with sequence := 1 } (Registry.relayId 1)
      (r .stopped)).IsUp (Registry.relayId 1) := by
    simp [Registry.IsUp, Registry.isIn_iff, r]
  have created := (((((Run.start : Run s₀ [] s₀).perform
    0 rfl 0 (.ok (Registry.relayId 1)) rfl).perform 0 rfl 0 (.ok ⟨none, 0⟩) trivial).perform
    0 rfl 0 0 rfl).perform 0 rfl 0 (.ok ()) rfl).perform 0 rfl 0 () trivial
  have starting := created.changeRow hg rfl rfl 1 rfl 0 (r .starting) rfl
  have stopping := starting.changeRow hg rfl rfl 2 rfl 0 (r .stopping) rfl
  have stopped := (stopping.perform 2 rfl 0 (.ok ()) trivial).changeRow
    hg rfl rfl 2 rfl 0 (r .stopped) rfl
  have booted := (stopped.perform 1 rfl 0 (.ok ()) trivial).changeRow
    hg rfl rfl 1 rfl 0 (r .stopped) rfl
  refine ⟨_, _, r .stopped, booted, fun i => ?_, ?_, ?_, Registry.relay?_withRow_self _ _ _, rfl,
    ?_⟩
  · match i with
    | 0 => exact ⟨_, rfl⟩
    | 1 => exact ⟨_, rfl⟩
    | 2 => exact ⟨_, rfl⟩
  · exact hroom
  · simp only [List.nil_append, List.forall_mem_append, List.forall_mem_singleton]
    and_intros <;> rintro ⟨_, _, _, hm⟩ <;> cases hm
  · refine Since.snoc_iff.mpr (.inr ⟨Since.snoc_iff.mpr (.inl ⟨⟨_, _, rfl⟩, hdown⟩), ?_⟩)
    rintro (⟨_, _, hm⟩ | ⟨_, _, hm⟩) <;> cases hm

/-- In this run the start came late, and the stopped row disagrees with the worker that runs. -/
theorem Run.agrees_iff_overlapping :
    ∃ (h : List (Moment (Fin 3) Outcome)) (s : System (Fin 3) Outcome),
      Run (System.start .empty fun i => (strandingCalls i).program) h s ∧ s.Finished ∧
      IdsLast .empty h ∧ (∀ e ∈ h, ¬ e.Fails) ∧
      s.registry.IsIn (Registry.relayId 1) .stopped ∧ Late h (Registry.relayId 1) ∧
      ¬ Agrees h s.registry (Registry.relayId 1) := by
  obtain ⟨h, s, r, run, hfinished, hids, hok, hr, hx, hlate⟩ := Run.overlapping
  have hiff := Run.agrees_iff isPowerCall_strandingCalls run hfinished hids hok hr
  have hlate : Late h (Registry.relayId 1) := .inl hlate
  exact ⟨h, s, run, hfinished, hids, hok, ⟨r, hr, hx⟩, hlate, fun hagrees => hiff.mp hagrees hlate⟩

/-- It is not so that rows always agree with workers when the calls are over. -/
theorem Run.not_always_agrees :
    ¬ ∀ calls : Fin 3 → Operation, (∀ i, (calls i).IsPowerCall) →
      ∀ (h : List (Moment (Fin 3) Outcome)) (s : System (Fin 3) Outcome),
        Run (System.start .empty fun i => (calls i).program) h s → s.Finished →
        IdsLast .empty h → (∀ e ∈ h, ¬ e.Fails) → ∀ id, Agrees h s.registry id := by
  intro hclaim
  obtain ⟨h, s, r, run, hfinished, hids, hok, hr, hx, hlate⟩ := Run.overlapping
  have hagrees := hclaim strandingCalls isPowerCall_strandingCalls h s run hfinished hids hok
    (Registry.relayId 1)
  refine hagrees.stopped ⟨r, hr, hx⟩ ?_
  exact hlate.mono (fun _ h => h.1) fun _ h => .inr h

end RelayFleet
