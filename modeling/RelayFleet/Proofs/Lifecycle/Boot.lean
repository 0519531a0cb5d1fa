import RelayFleet.Proofs.Lifecycle.Errand

/-!
# Who boots a relay

Starts, reboots and the restarts after a lost agent all boot a relay, and each of them takes it to
`starting` first. Starts and reboots that find it starting already leave it to whoever boots it. A
restart does not: having fenced the relay it releases it to `stopped`, and boots it also if another
call has begun to boot it by then. So no relay is booted twice at once exactly when no restart has a
rival: a start or reboot of a relay that was running, or a second one of a relay that was stopped
(`Run.boots_once_iff`). Where other calls join in, a stop between two starts does the same
(`Run.boots_twice_of_stop`).
-/

namespace RelayFleet

open Protocol

/-! ## Calls that boot -/

namespace Operation

/-- A call that may boot the relay. -/
def MayBoot (id : RelayId) : Operation → Prop
  | start k | reboot k | agentDisconnected k => k = id
  | _ => False

/-- A start or a reboot. -/
def IsStart : Operation → Prop
  | start _ | reboot _ => True
  | _ => False

/-- A call that may boot a relay is an errand. -/
theorem MayBoot.isErrand {c : Operation} {id : RelayId} (h : c.MayBoot id) : c.IsErrand := by
  cases c <;> trivial

/-- What a call that may boot a relay begins. -/
theorem MayBoot.of_opens {c : Operation} {id : RelayId} {op : RelayOp} (hc : c.MayBoot id)
    (h : c.Opens op) : c.IsStart ∧ (op = .start ∨ op = .reboot) ∨
      c = .agentDisconnected id ∧ op = .agentDisconnected := by
  cases c with
  | start =>
    cases op with
    | start => exact .inl ⟨trivial, .inl rfl⟩
    | _ => cases h
  | reboot =>
    cases op with
    | reboot => exact .inl ⟨trivial, .inr rfl⟩
    | _ => cases h
  | agentDisconnected =>
    cases hc
    cases op with
    | agentDisconnected => exact .inr ⟨rfl, rfl⟩
    | _ => cases h
  | _ => cases hc

/-- Once it has begun, a start or reboot takes no relay out of `stopped`. -/
theorem IsStart.asksThen {c : Operation} (h : c.IsStart) :
    AsksThen Action.KeepsStopped c.program := by
  cases c with
  | start => exact .bind Lifecycle.asksThen_start fun _ => trivial
  | reboot => exact .bind Lifecycle.asksThen_reboot fun _ => trivial
  | _ => cases h

end Operation

section
variable {ι α : Type}

/-- The provisioner is booting the relay for the call. -/
def System.Boots (s : System ι α) (i : ι) (id : RelayId) : Prop :=
  ∃ next, s.calls i = .ask (.provision (.start id)) next

/-- Who goes to boot a relay has the provisioner boot it. -/
theorem System.boots_of_calls {s : System ι Outcome} {i : ι} {id : RelayId} {r : Relay}
    (hr : r.id = id) (hi : s.calls i = .relay <$> (Lifecycle.boot r).run) : s.Boots i id := by
  subst hr
  exact ⟨_, hi⟩

/-- The restart of a relay has rivals: others may boot the relay between its fencing and the boot
that follows. -/
def Rivals (calls : ι → Operation) (g : Registry) (id : RelayId) : Prop :=
  (∃ i, calls i = .agentDisconnected id) ∧
    (g.IsIn id .running ∧ (∃ i, (calls i).IsStart) ∨
      g.IsIn id .stopped ∧ ∃ i j, i ≠ j ∧ (calls i).IsStart ∧ (calls j).IsStart)

/-- What a program asks for after its first action is what its call asks for once it has begun. -/
theorem Run.asks_of_begun [DecidableEq ι] {A : Action → Prop} {s₀ s : System ι α}
    {h : List (Moment ι α)} {i : ι} (hthen : AsksThen A (s₀.calls i)) (run : Run s₀ h s) :
    ¬ Begun h i ∧ s.calls i = s₀.calls i ∨ Begun h i ∧ Asks A (s.calls i) fun _ => True := by
  induction run with
  | start => exact .inl ⟨by simp [Begun], rfl⟩
  | @step h s s' m run hs ih =>
    by_cases hi : m.caller = i
    · subst hi
      obtain ⟨next, asks, -⟩ := hs
      refine .inr ⟨begun_snoc_self h ⟨s, m⟩, ?_⟩
      show Asks A (Function.update s.calls m.caller (next m.reply) m.caller) _
      rw [Function.update_self]
      rcases ih with ⟨-, hcall⟩ | ⟨-, hasks⟩
      · rw [← hcall, asks] at hthen
        exact hthen m.reply
      · rw [asks] at hasks
        exact hasks.2 m.reply
    · rw [hs.calls_of_ne (Ne.symm hi)]
      rcases ih with ⟨hnot, hcall⟩ | ⟨hbegun, hasks⟩
      · refine .inl ⟨?_, hcall⟩
        rintro ⟨m', hm', rfl⟩
        rcases List.mem_append.mp hm' with hm' | hm'
        · exact hnot ⟨m', hm', rfl⟩
        · rw [List.mem_singleton.mp hm'] at hi
          exact hi rfl
      · exact .inr ⟨hbegun.snoc _, hasks⟩

end

/-! ## Boots and the states that they keep -/

/-- The state in which a boot keeps its relay, from the fencing before it to its end. -/
def Duty.bootState : Duty → Option RelayState
  | .booting _ | .booted _ | .bootFailed _ => some .starting
  | .fencing _ | .fenced _ => some .ha
  | .restarting _ => some .stopped
  | _ => none

/-- The duty is one of a boot of the relay. -/
def Duty.Boots (id : RelayId) (d : Duty) : Prop := d.relay? = some id ∧ d.bootState ≠ none

/-- What the duty owes to the relay, if anything, is a boot or a reboot in place. -/
def Duty.IsBootDuty (id : RelayId) (d : Duty) : Prop :=
  d.relay? = some id → d.Boots id ∨ d = .rebooting id

section
variable {id : RelayId} {e e' : Errand} {x y : Option RelayState} {a : Action} {r : a.Reply}

/-- A boot keeps no relay running. -/
theorem Duty.bootState_ne_running (d : Duty) : d.bootState ≠ some .running := by
  cases d <;> simp [Duty.bootState]

/-- What a step of a call that may boot the relay is to its boots. -/
inductive Outing (id : RelayId) (e : Errand) (x : Option RelayState) (a : Action) (e' : Errand)
    (y : Option RelayState) : Prop
  | begins (hd : ¬ e.duty.Boots id) (hd' : e'.duty.Boots id) (hy : y = e'.duty.bootState)
    (hx : x = some .running ∧ e.call = .agentDisconnected id ∨
      x = some .stopped ∧ y = some .starting ∧ e.call.IsStart ∧ ¬ a.KeepsStopped)
  | goes_on (hd : e.duty.Boots id)
    (hd' : e'.duty.Boots id → y = e'.duty.bootState ∧ (y = some .starting ∨ x ≠ some .starting))
  | stays (hd : ¬ e.duty.Boots id) (hd' : ¬ e'.duty.Boots id) (hxy : y = x)

/-- Who has no duty boots nothing. -/
@[simp]
theorem Duty.not_boots_idle : ¬ Duty.Boots id .idle := by
  simp [Duty.Boots, Duty.relay?]

/-- Who reboots a relay in place does not boot it. -/
@[simp]
theorem Duty.not_boots_rebooting {k : RelayId} : ¬ Duty.Boots id (.rebooting k) := by
  simp [Duty.Boots, Duty.bootState]

/-- A duty to the relay that keeps it in no state is no boot. -/
theorem Duty.not_isBootDuty {d : Duty} (hid : d.relay? = some id) (hnone : d.bootState = none)
    (hne : d ≠ .rebooting id) : ¬ d.IsBootDuty id := by
  intro h
  rcases h hid with ⟨-, hstate⟩ | heq
  · exact hstate hnone
  · exact hne heq

/-- Who boots the relay, or reboots it, or owes it nothing, has a boot duty. -/
theorem Duty.isBootDuty_of {d : Duty} (h : d.bootState ≠ none ∨ d = .rebooting id ∨ d = .idle) :
    d.IsBootDuty id := by
  intro hid
  rcases h with hstate | rfl | rfl
  · exact .inl ⟨hid, hstate⟩
  · exact .inr rfl
  · cases hid

/-- A start or reboot of a stopped relay boots it. -/
theorem Outing.starts {c : Operation} {op : RelayOp} {choose : Relay → RelayOp}
    {onMove : RelayState → Relay → Relay} (hc : c.MayBoot id) (hstart : c.IsStart)
    (hop : op = .start ∨ op = .reboot) (asks : ∀ r, c.Opens (choose r))
    (keeps : ∀ s r, (onMove s r).state = r.state) :
    Outing id ⟨c, .idle⟩ (some .stopped)
      (.transact (.updateRelay id (Lifecycle.moved choose onMove)))
      ⟨c, Duty.idle.next op id .stopped⟩ (some (RelayState.after .stopped op)) := by
  have hnext : Duty.idle.next op id .stopped = .booting id ∧
      RelayState.after .stopped op = .starting := by
    rcases hop with rfl | rfl <;> exact ⟨rfl, rfl⟩
  rw [hnext.1, hnext.2]
  refine .begins Duty.not_boots_idle ⟨rfl, by simp [Duty.bootState]⟩ rfl
    (.inr ⟨rfl, rfl, hstart, fun hstopped => ?_⟩)
  have hrow := hstopped { (default : Relay) with state := .stopped } rfl
  rw [Lifecycle.state_moved keeps] at hrow
  rcases hc.of_opens (asks _) with ⟨-, hop | hop⟩ | ⟨rfl, -⟩
  · rw [hop] at hrow
    cases hrow
  · rw [hop] at hrow
    cases hrow
  · cases hstart

/-- An operation of a call that may boot the relay. -/
theorem Outing.operates {c : Operation} {d : Duty} {s : RelayState} {op : RelayOp}
    {choose : Relay → RelayOp} {onMove : RelayState → Relay → Relay} (hc : c.MayBoot id)
    (hd : d.IsBootDuty id)
    (hkept : d.Boots id → some s = d.bootState)
    (asks : ∀ r, d.Asks c.rights .out (choose r) id) (hop : d.Asks c.rights .out op id)
    (keeps : ∀ s r, (onMove s r).state = r.state) :
    Outing id ⟨c, d⟩ (some s) (.transact (.updateRelay id (Lifecycle.moved choose onMove)))
      ⟨c, d.next op id s⟩ (some (s.after op)) := by
  cases d with
  | idle =>
    rcases hc.of_opens hop with ⟨hstart, hop⟩ | ⟨rfl, rfl⟩
    · cases s with
      | stopped => exact .starts hc hstart hop asks keeps
      | _ =>
        rcases hop with rfl | rfl <;>
          exact .stays Duty.not_boots_idle (by simp [Duty.next, nextState]) rfl
    · cases s with
      | running =>
        exact .begins Duty.not_boots_idle ⟨rfl, by simp [Duty.next, nextState, Duty.bootState]⟩ rfl
          (.inl ⟨rfl, rfl⟩)
      | _ => exact .stays Duty.not_boots_idle (by simp [Duty.next, nextState]) rfl
  | booted k | bootFailed k | fenced k | restarting k =>
    obtain ⟨rfl, rfl⟩ := hop
    have hboots := (hd rfl).resolve_right (by simp)
    cases hkept hboots
    refine .goes_on hboots ?_
    simp [Duty.next, nextState, Duty.bootState, RelayState.after]
  | stopped k =>
    obtain ⟨-, rfl⟩ := hop
    rcases hd rfl with ⟨-, hnone⟩ | heq
    · exact absurd rfl hnone
    · cases heq
  | _ => cases hop

/-- Every turn of a call that may boot the relay is an outing. -/
theorem Turn.outing (h : Turn id e x a r e' y) (hc : e.call.MayBoot id)
    (hd : e.duty.IsBootDuty id)
    (hkept : e.duty.Boots id → x = e.duty.bootState) : Outing id e x a e' y := by
  cases h with
  | rests =>
    by_cases hboots : e.duty.Boots id
    · exact .goes_on hboots fun _ => ⟨hkept hboots, Decidable.em _⟩
    · exact .stays hboots hboots rfl
  | elsewhere _ hne hne' => exact .stays (fun h => hne h.1) (fun h => hne' h.1) rfl
  | operates asks hop keeps => exact .operates hc hd hkept asks hop keeps
  | misses => exact .stays (fun h => h.2 (hkept h).symm) Duty.not_boots_idle rfl
  | provisions calls hid =>
    subst hid
    cases calls with
    | up | down | fenced =>
      have hboots := (hd rfl).resolve_right (by simp)
      cases hkept hboots
      exact .goes_on hboots fun _ => ⟨rfl, by simp [Duty.bootState]⟩
    | rebooted => exact .stays Duty.not_boots_rebooting Duty.not_boots_idle rfl
    | _ => exact absurd hd (Duty.not_isBootDuty rfl rfl (by simp))
  | restores hfailed =>
    rcases hfailed with rfl | rfl <;> exact absurd hd (Duty.not_isBootDuty rfl rfl (by simp))
  | removes | stores => exact absurd hd (Duty.not_isBootDuty rfl rfl (by simp))
  | issues may =>
    obtain ⟨zone, spec, rfl⟩ := may
    cases hc

/-- The duty after an operation of a call that may boot the relay. -/
theorem Duty.Asks.isBootDuty_next {c : Operation} {d : Duty} {op : RelayOp} (s : RelayState)
    (h : d.Asks c.rights .out op id) (hc : c.MayBoot id) (hd : d.IsBootDuty id) :
    (d.next op id s).IsBootDuty id := by
  refine Duty.isBootDuty_of ?_
  cases d with
  | idle =>
    rcases hc.of_opens h with ⟨-, rfl | rfl⟩ | ⟨-, rfl⟩ <;> cases s <;>
      simp [Duty.next, nextState, Duty.bootState]
  | booted | bootFailed | fenced | restarting =>
    obtain ⟨rfl, -⟩ := h
    cases s <;> simp [Duty.next, nextState, Duty.bootState]
  | stopped =>
    obtain ⟨-, rfl⟩ := h
    exact absurd hd (Duty.not_isBootDuty rfl rfl (by simp))
  | _ => cases h

/-- The duties of a call that may boot the relay stay boot duties. -/
theorem Turn.isBootDuty (h : Turn id e x a r e' y) (hc : e.call.MayBoot id)
    (hd : e.duty.IsBootDuty id) : e'.duty.IsBootDuty id := by
  cases h with
  | rests => exact hd
  | elsewhere _ _ hne => exact fun h => absurd h hne
  | @operates _ _ s _ _ _ _ _ hop => exact hop.isBootDuty_next s hc hd
  | provisions calls hid =>
    subst hid
    refine Duty.isBootDuty_of ?_
    cases calls with
    | up | down | fenced | rebooted => simp [Duty.bootState]
    | _ => exact absurd hd (Duty.not_isBootDuty rfl rfl (by simp))
  | issues may =>
    obtain ⟨zone, spec, rfl⟩ := may
    cases hc
  | _ => exact Duty.isBootDuty_of (.inr (.inr rfl))

end

/-! ## Runs -/

/-- Who boots the relay does so alone. Only restarts keep it in another state than `starting`, and
the relay was running when the calls began, or stopped and then started. -/
structure Exclusive {ι : Type} (calls : ι → Operation) (g₀ : Registry) (id : RelayId)
    (h : List (Moment ι Outcome)) (g : Registry) (e : ι → Errand) : Prop where
  isBootDuty : ∀ i, (e i).duty.IsBootDuty id
  kept : ∀ i, (e i).duty.Boots id → g.state? id = (e i).duty.bootState
  alone : ∀ i j, (e i).duty.Boots id → (e j).duty.Boots id → i = j
  restarts : ∀ i, (e i).duty.Boots id → (e i).duty.bootState ≠ some .starting →
    calls i = .agentDisconnected id
  awake : (∃ i, (e i).duty.Boots id) ∨ g.state? id ≠ g₀.state? id →
    g₀.IsIn id .running ∨ g₀.IsIn id .stopped ∧ ∃ i, (calls i).IsStart ∧ Begun h i

section
variable {ι : Type} {calls : ι → Operation} {h : List (Moment ι Outcome)} {g₀ g g' : Registry}
  {e : ι → Errand} {s s' : System ι Outcome} {m : Move ι} {e' : Errand} {id : RelayId}

/-- Nobody boots a relay that is running, nor one that a call starts which is no rival. -/
theorem Exclusive.not_boots (inv : Exclusive calls g₀ id h g e) (hnot : ¬ Rivals calls g₀ id)
    {i : ι} (hx : g.state? id = some .running ∨
      g.state? id = some .stopped ∧ (calls i).IsStart ∧ ¬ Begun h i) (j : ι) :
    ¬ (e j).duty.Boots id := by
  intro hj
  have hkept := inv.kept j hj
  rcases hx with hrunning | ⟨hstopped, hstart, hfresh⟩
  · exact (e j).duty.bootState_ne_running (hkept ▸ hrunning)
  · -- the boot is a restart that has released the relay
    have hrestarts := inv.restarts j hj (by rw [← hkept, hstopped]; simp)
    rcases inv.awake (.inl ⟨j, hj⟩) with hrunning | ⟨hwas, k, hk, hbegun⟩
    · exact hnot ⟨⟨j, hrestarts⟩, .inl ⟨hrunning, i, hstart⟩⟩
    · refine hnot ⟨⟨j, hrestarts⟩, .inr ⟨hwas, i, k, ?_, hstart, hk⟩⟩
      rintro rfl
      exact hfresh hbegun

/-- Who has the provisioner boot a relay has the duty to. -/
theorem Errand.duty_of_boots {Q : Errand → Outcome → Prop} {x : Errand} {i : ι}
    (hf : errands.Follows x (s.calls i) Q) (hboots : s.Boots i id) : x.duty = .booting id := by
  obtain ⟨next, hnext⟩ := hboots
  rw [hnext] at hf
  obtain ⟨x', hstep, -⟩ := hf (.ok ()) trivial
  cases hstep with
  | rests ha => cases ha
  | conducts hs =>
    cases hs with
    | looks ha => cases ha
    | provisions calls =>
      cases calls
      rfl

variable [DecidableEq ι]

/-- Boots stay alone where the caller boots only if no one else does, and the state of a relay that
someone else boots is left. -/
theorem Exclusive.update (inv : Exclusive calls g₀ id h g e) (hduty : e'.duty.IsBootDuty id)
    (hothers : ∀ j, j ≠ m.caller → (e j).duty.Boots id →
      ¬ e'.duty.Boots id ∧ g'.state? id = g.state? id)
    (hmine : e'.duty.Boots id → g'.state? id = e'.duty.bootState ∧
      (e'.duty.bootState ≠ some .starting → calls m.caller = .agentDisconnected id))
    (hawake : e'.duty.Boots id ∨ (∃ j, (e j).duty.Boots id) ∨ g'.state? id ≠ g₀.state? id →
      g₀.IsIn id .running ∨
        g₀.IsIn id .stopped ∧ ∃ i, (calls i).IsStart ∧ Begun (h ++ [⟨s, m⟩]) i) :
    Exclusive calls g₀ id (h ++ [⟨s, m⟩]) g' (Function.update e m.caller e') := by
  refine ⟨?_, ?_, ?_, ?_, fun hpremise => hawake ?_⟩
  · exact (Function.forall_update_iff e fun _ x => x.duty.IsBootDuty id).mpr
      ⟨hduty, fun j _ => inv.isBootDuty j⟩
  · refine (Function.forall_update_iff e fun _ x => x.duty.Boots id →
      g'.state? id = x.duty.bootState).mpr ⟨fun hb => (hmine hb).1, fun j hj hb => ?_⟩
    rw [(hothers j hj hb).2, inv.kept j hb]
  · intro j k hj hk
    by_cases hjm : j = m.caller <;> by_cases hkm : k = m.caller
    · rw [hjm, hkm]
    · rw [hjm, Function.update_self] at hj
      rw [Function.update_of_ne hkm] at hk
      exact absurd hj (hothers k hkm hk).1
    · rw [Function.update_of_ne hjm] at hj
      rw [hkm, Function.update_self] at hk
      exact absurd hk (hothers j hjm hj).1
    · rw [Function.update_of_ne hjm] at hj
      rw [Function.update_of_ne hkm] at hk
      exact inv.alone j k hj hk
  · exact (Function.forall_update_iff e fun j x => x.duty.Boots id →
      x.duty.bootState ≠ some .starting → calls j = .agentDisconnected id).mpr
      ⟨fun hb => (hmine hb).2, fun j _ => inv.restarts j⟩
  · rcases hpremise with ⟨j, hj⟩ | hmoved
    · by_cases hjm : j = m.caller
      · rw [hjm, Function.update_self] at hj
        exact .inl hj
      · rw [Function.update_of_ne hjm] at hj
        exact .inr (.inl ⟨j, hj⟩)
    · exact .inr (.inr hmoved)

/-- Boots stay alone in a step of a call that may boot the relay, where no restart has rivals. -/
theorem Exclusive.step (inv : Exclusive calls g₀ id h g e) (hnot : ¬ Rivals calls g₀ id)
    (hcall : (e m.caller).call = calls m.caller)
    (hout : Outing id (e m.caller) (g.state? id) m.action e' (g'.state? id))
    (hduty : e'.duty.IsBootDuty id)
    (hfresh : (calls m.caller).IsStart → ¬ m.action.KeepsStopped → ¬ Begun h m.caller) :
    Exclusive calls g₀ id (h ++ [⟨s, m⟩]) g' (Function.update e m.caller e') := by
  have hbefore : (∃ i, (e i).duty.Boots id) ∨ g.state? id ≠ g₀.state? id →
      g₀.IsIn id .running ∨
        g₀.IsIn id .stopped ∧ ∃ i, (calls i).IsStart ∧ Begun (h ++ [⟨s, m⟩]) i := by
    intro hpremise
    rcases inv.awake hpremise with hrunning | ⟨hstopped, i, hi, hbegun⟩
    · exact .inl hrunning
    · exact .inr ⟨hstopped, i, hi, hbegun.snoc _⟩
  cases hout with
  | begins _ _ hy hx =>
    rw [hcall] at hx
    have hnone : ∀ j, ¬ (e j).duty.Boots id := by
      refine inv.not_boots (i := m.caller) hnot ?_
      rcases hx with ⟨hx, -⟩ | ⟨hx, -, hstart, hkeeps⟩
      · exact .inl hx
      · exact .inr ⟨hx, hstart, hfresh hstart hkeeps⟩
    refine inv.update hduty (fun j _ hj => absurd hj (hnone j)) (fun _ => ⟨hy, fun hne => ?_⟩)
      fun _ => ?_
    · rcases hx with ⟨-, hagent⟩ | ⟨-, hstarting, -⟩
      · exact hagent
      · exact absurd (hy ▸ hstarting) hne
    · by_cases hsame : g.state? id = g₀.state? id
      · rw [Registry.isIn_iff, Registry.isIn_iff, ← hsame]
        rcases hx with ⟨hx, -⟩ | ⟨hx, -, hstart, -⟩
        · exact .inl hx
        · exact .inr ⟨hx, m.caller, hstart, begun_snoc_self h ⟨s, m⟩⟩
      · exact hbefore (.inr hsame)
  | goes_on hd hd' =>
    refine inv.update hduty (fun j hj hb => absurd (inv.alone j _ hb hd) hj) (fun hb => ?_)
      fun _ => hbefore (.inl ⟨_, hd⟩)
    obtain ⟨hy, hor⟩ := hd' hb
    refine ⟨hy, fun hne => inv.restarts _ hd ?_⟩
    rw [← inv.kept _ hd]
    exact hor.resolve_left (hy ▸ hne)
  | stays hd hd' hxy =>
    refine inv.update hduty (fun _ _ _ => ⟨hd', hxy⟩) (fun hb => absurd hb hd') fun hpremise => ?_
    exact hbefore (hxy ▸ hpremise.resolve_left hd')

/-- Where no restart has rivals the relay is booted by one call at a time. -/
theorem Run.exclusive (hg : g₀.Sound) (hcalls : ∀ i, (calls i).MayBoot id)
    (hnot : ¬ Rivals calls g₀ id)
    (run : Run (System.start g₀ fun i => (calls i).program) h s) :
    ∃ e, Exclusive calls g₀ id h s.registry e ∧
      ∀ i, errands.Follows (e i) (s.calls i) fun e _ => e.duty = .idle := by
  obtain ⟨e, inv, -, -, hf⟩ := run.turns (K := fun _ => True)
    (I := fun h g e => Exclusive calls g₀ id h g e) hg (fun i => (hcalls i).isErrand)
    (fun _ _ _ => trivial)
    ⟨fun _ => Duty.isBootDuty_of (.inr (.inr rfl)), by simp, by simp, by simp, by simp⟩
    (fun h s e m s' e' run _ hcall inv hs hp hturn => by
      have hc : (e m.caller).call.MayBoot id := hcall m.caller ▸ hcalls m.caller
      have hduty := inv.isBootDuty m.caller
      refine inv.step hnot (hcall m.caller) ((hturn id).outing hc hduty (inv.kept _))
        ((hturn id).isBootDuty hc hduty) ?_
      -- a call that has begun takes no relay out of `stopped`
      intro hstart hkeeps hbegun
      rcases run.asks_of_begun (i := m.caller) hstart.asksThen with ⟨hfresh, -⟩ | ⟨-, hasks⟩
      · exact hfresh hbegun
      · obtain ⟨next, hnext, -⟩ := hs
        rw [hnext] at hasks
        exact hkeeps hasks.1) trivial
  exact ⟨e, inv, hf⟩

/-- Where no restart has rivals no relay is booted twice at once. -/
theorem Run.boots_unique (hg : g₀.Sound) (hcalls : ∀ i, (calls i).MayBoot id)
    (hnot : ¬ Rivals calls g₀ id) (run : Run (System.start g₀ fun i => (calls i).program) h s)
    {i j : ι} (hi : s.Boots i id) (hj : s.Boots j id) : i = j := by
  obtain ⟨e, inv, hf⟩ := run.exclusive hg hcalls hnot
  have hboots : ∀ k, s.Boots k id → (e k).duty.Boots id := by
    intro k hk
    rw [Errand.duty_of_boots (hf k) hk]
    exact ⟨rfl, by simp [Duty.bootState]⟩
  exact inv.alone i j (hboots i hi) (hboots j hj)

end

/-! ## Rivals -/

/-- Calls can come to stand at these programs, with the relay in this state. -/
def System.CanStand {ι α : Type} [DecidableEq ι] (s₀ : System ι α) (id : RelayId) (x : RelayState)
    (calls : ι → Fleet α) : Prop :=
  ∃ h s, Run s₀ h s ∧ s.registry.Sound ∧ s.registry.IsIn id x ∧ s.calls = calls

namespace System.CanStand

section
variable {ι α β : Type} [DecidableEq ι] {s₀ : System ι α} {id : RelayId} {x : RelayState}
  {c : ι → Fleet α} {i : ι} {f : Except LifecycleError β → α}

/-- The provisioner may answer anything. -/
theorem provision (hs : s₀.CanStand id x c) {call : ProvisionCall}
    {k : call.Reply → LifecycleM β}
    (asks : c i = f <$> ((liftM (Fleet.provision call) : LifecycleM call.Reply) >>= k).run)
    (reply : call.Reply) : s₀.CanStand id x (Function.update c i (f <$> (k reply).run)) := by
  obtain ⟨h, s, run, hsound, hin, rfl⟩ := hs
  exact ⟨_, _, run.perform i asks 0 reply trivial, hsound, hin, rfl⟩

/-- A legal operation moves the relay. -/
theorem transition (hs : s₀.CanStand id x c) (op : RelayOp) {onMove : RelayState → Relay → Relay}
    (keeps : ∀ s r, r.Keeps (onMove s r) ∧ (onMove s r).state = r.state)
    {k : Applied → LifecycleM β} {t : Transition}
    (asks : c i = f <$> (Lifecycle.transition id (fun _ => op) onMove >>= k).run)
    (hnext : nextState x op = .ok t) :
    ∃ r, r.id = id ∧
      s₀.CanStand id (x.after op) (Function.update c i (f <$> (k ⟨r, x, t⟩).run)) := by
  obtain ⟨h, s, run, hsound, ⟨r, hr, rfl⟩, rfl⟩ := hs
  obtain ⟨next, hask, hgoes⟩ := Lifecycle.transition_eq_ask id (fun _ => op) onMove
  let r' : Relay := { Lifecycle.moved (fun _ => op) onMove r with updatedAt := 0 }
  have hrun : s.registry.updateRelay 0 id (Lifecycle.moved (fun _ => op) onMove) =
    (.ok ⟨r, r'⟩, s.registry.withRow id r') := hsound.updateRelay_some hr 0 _
  have hmoved := Lifecycle.moved_moved (fun _ => op) keeps r
  have hid : r'.id = id := hmoved.keeps.id_eq.trans (hsound.id_eq hr)
  rw [ExceptT.run_bind, hask] at asks
  have hnow := run.perform i asks 0 (.ok ⟨r, r'⟩) (congrArg Prod.fst hrun).symm
  beta_reduce at hnow
  rw [hgoes ⟨r, r'⟩ t hnext, Action.registryAfter, Transaction.run, hrun] at hnow
  refine ⟨r', hid, _, _, hnow, hsound.withRow hid, ?_, rfl⟩
  exact ⟨r', Registry.relay?_withRow_self _ _ _, hmoved.state_eq⟩

end

section
variable {ι : Type} [DecidableEq ι] {s₀ : System ι Outcome} {id : RelayId} {c : ι → Fleet Outcome}
  {i : ι}

/-- A start or reboot of a stopped relay goes to boot it. -/
theorem starts {op : Operation} (hs : s₀.CanStand id .stopped c) (hop : op.MayBoot id)
    (hstart : op.IsStart) (hi : c i = op.program) :
    ∃ r, r.id = id ∧
      s₀.CanStand id .starting (Function.update c i (.relay <$> (Lifecycle.boot r).run)) := by
  cases op with
  | start =>
    cases hop
    exact hs.transition .start Lifecycle.keeps_id hi rfl
  | reboot =>
    cases hop
    exact hs.transition .reboot Lifecycle.keeps_id hi rfl
  | _ => cases hstart

/-- A boot may succeed. -/
theorem boots {r : Relay} (hs : s₀.CanStand id .starting c) (hr : r.id = id)
    (hi : c i = .relay <$> (Lifecycle.boot r).run) :
    ∃ p, s₀.CanStand id .running (Function.update c i p) := by
  subst hr
  have hup := hs.provision hi (.ok ())
  obtain ⟨r', -, hrunning⟩ := hup.transition .startCompleted (i := i)
    Lifecycle.keeps_id (Function.update_self _ _ _) rfl
  rw [Function.update_idem] at hrunning
  exact ⟨_, hrunning⟩

/-- The restart of a relay that runs may fence it, and leave it stopped to be started again. -/
theorem fences (hs : s₀.CanStand id .running c)
    (hi : c i = (Operation.agentDisconnected id).program) :
    s₀.CanStand id .stopped (Function.update c i (.relay <$>
      (do Lifecycle.boot (← Lifecycle.apply id .start).relay).run)) := by
  obtain ⟨r, -, hfencing⟩ := hs.transition .agentDisconnected
    Lifecycle.keeps_id hi rfl
  have hfenced := hfencing.provision (i := i) (Function.update_self _ _ _) (.ok ())
  obtain ⟨r', -, hreleased⟩ := hfenced.transition .haFenced (i := i)
    Lifecycle.keeps_withoutSessions (Function.update_self _ _ _) rfl
  rw [Function.update_idem, Function.update_idem] at hreleased
  exact hreleased

/-- A relay that is starting may be stopped. -/
theorem stops (hs : s₀.CanStand id .starting c) (hi : c i = (Operation.stop id).program) :
    ∃ p, s₀.CanStand id .stopped (Function.update c i p) := by
  obtain ⟨r, -, hstopping⟩ := hs.transition .stop Lifecycle.keeps_id hi rfl
  have hdown := hstopping.provision (i := i) (Function.update_self _ _ _) (.ok ())
  obtain ⟨r', -, hstopped⟩ := hdown.transition .stopCompleted (i := i)
    Lifecycle.keeps_withoutSessions (Function.update_self _ _ _) rfl
  rw [Function.update_idem, Function.update_idem] at hstopped
  exact ⟨_, hstopped⟩

/-- A start or reboot may overtake the restart of a relay that runs: both boot it then. -/
theorem overtaken {k : ι} {op : Operation} (hs : s₀.CanStand id .running c)
    (hi : c i = (Operation.agentDisconnected id).program) (hop : op.MayBoot id)
    (hstart : op.IsStart) (hk : c k = op.program) (hik : i ≠ k) :
    ∃ h s, Run s₀ h s ∧ s.Boots i id ∧ s.Boots k id := by
  have hreleased := hs.fences hi
  obtain ⟨r, hr, hstarting⟩ := hreleased.starts (i := k) hop hstart
    ((Function.update_of_ne hik.symm _ _).trans hk)
  obtain ⟨r', hr', hboth⟩ := hstarting.transition .start (i := i)
    Lifecycle.keeps_id
    ((Function.update_of_ne hik _ _).trans (Function.update_self _ _ _)) rfl
  obtain ⟨h, s, run, -, -, hcalls⟩ := hboth
  refine ⟨h, s, run, s.boots_of_calls hr' ?_, s.boots_of_calls hr ?_⟩
  · rw [hcalls, Function.update_self]
  · rw [hcalls, Function.update_of_ne hik.symm, Function.update_self]

end

end System.CanStand

section
variable {ι : Type} [DecidableEq ι] {calls : ι → Operation} {g : Registry} {id : RelayId}

/-- Calls that have not begun stand at their programs. -/
theorem System.canStand_start (hg : g.Sound) {x : RelayState} (hx : g.IsIn id x) :
    (System.start g fun i => (calls i).program).CanStand id x fun i => (calls i).program :=
  ⟨[], _, .start, hg, hx, rfl⟩

/-- A restart that has a rival may boot the relay together with it. -/
theorem Rivals.overtake (h : Rivals calls g id) (hg : g.Sound)
    (hcalls : ∀ i, (calls i).MayBoot id) :
    ∃ i j, i ≠ j ∧ ∃ h s, Run (System.start g fun i => (calls i).program) h s ∧
      s.Boots i id ∧ s.Boots j id := by
  have hne : ∀ {a k}, calls a = .agentDisconnected id → (calls k).IsStart → a ≠ k := by
    rintro a k ha hk rfl
    rw [ha] at hk
    cases hk
  obtain ⟨⟨a, ha⟩, ⟨hrunning, k, hk⟩ | ⟨hstopped, k, k', hkk', hk, hk'⟩⟩ := h
  · exact ⟨a, k, hne ha hk, (System.canStand_start hg hrunning).overtaken
      (congrArg Operation.program ha) (hcalls k) hk rfl (hne ha hk)⟩
  · -- the one start boots the relay, and the other one overtakes the restart that follows
    obtain ⟨r, hr, hstarting⟩ := (System.canStand_start hg hstopped).starts (hcalls k') hk' rfl
    obtain ⟨p, hrunning⟩ := hstarting.boots hr (Function.update_self _ _ _)
    rw [Function.update_idem] at hrunning
    exact ⟨a, k, hne ha hk, hrunning.overtaken
      ((Function.update_of_ne (hne ha hk') _ _).trans (congrArg Operation.program ha)) (hcalls k)
      hk (Function.update_of_ne hkk' _ _) (hne ha hk)⟩

/-- A stop may come between two starts or reboots of a stopped relay: both boot it then. -/
theorem Run.boots_twice_of_stop (hg : g.Sound) (hx : g.IsIn id .stopped) {i j k : ι}
    (hi : (calls i).MayBoot id ∧ (calls i).IsStart) (hj : calls j = .stop id)
    (hk : (calls k).MayBoot id ∧ (calls k).IsStart) (hij : i ≠ j) (hik : i ≠ k) (hjk : j ≠ k) :
    ∃ h s, Run (System.start g fun i => (calls i).program) h s ∧ s.Boots i id ∧ s.Boots k id := by
  obtain ⟨r, hr, hstarting⟩ := (System.canStand_start hg hx).starts hi.1 hi.2 rfl
  obtain ⟨p, hstopped⟩ := hstarting.stops (i := j)
    ((Function.update_of_ne hij.symm _ _).trans (congrArg Operation.program hj))
  obtain ⟨r', hr', hboth⟩ := hstopped.starts (i := k) hk.1 hk.2
    ((Function.update_of_ne hjk.symm _ _).trans (Function.update_of_ne hik.symm _ _))
  obtain ⟨h, s, run, -, -, hcalls⟩ := hboth
  refine ⟨h, s, run, s.boots_of_calls hr ?_, s.boots_of_calls hr' ?_⟩
  · rw [hcalls, Function.update_of_ne hik, Function.update_of_ne hij, Function.update_self]
  · rw [hcalls, Function.update_self]

/-- **No relay is booted twice at once unless a restart has rivals.** However many calls start a
relay, reboot it and restart it after its agent was lost, in any order of steps and with any
outcomes of the provisioner, at most one of them has the provisioner boot it at any moment, if and
only if there is no restart among them, or no start or reboot may come in between its two
transactions that release and boot the relay. -/
theorem Run.boots_once_iff (hg : g.Sound) (hcalls : ∀ i, (calls i).MayBoot id) :
    (∀ h s, Run (System.start g fun i => (calls i).program) h s →
      ∀ i j, s.Boots i id → s.Boots j id → i = j) ↔ ¬ Rivals calls g id := by
  constructor
  · intro honce hrivals
    obtain ⟨i, j, hij, h, s, run, hi, hj⟩ := hrivals.overtake hg hcalls
    exact hij (honce h s run i j hi hj)
  · intro hnot h s run i j hi hj
    exact run.boots_unique hg hcalls hnot hi hj

end

/-- A relay that runs. -/
def Registry.running (id : RelayId) : Registry :=
  Registry.empty.withRow id { Relay.fresh 0 id "zone-a" none 0 with state := .running }

/-- A restart and a start of one relay. -/
def overtakingCalls (id : RelayId) : Fin 2 → Operation
  | 0 => .agentDisconnected id
  | 1 => .start id

/-- Both calls may boot the relay. -/
theorem mayBoot_overtakingCalls (id : RelayId) : ∀ i, (overtakingCalls id i).MayBoot id
  | 0 => rfl
  | 1 => rfl

/-- The start is a rival of the restart. -/
theorem rivals_overtakingCalls (id : RelayId) :
    Rivals (overtakingCalls id) (Registry.running id) id :=
  ⟨⟨0, rfl⟩, .inl ⟨⟨_, Registry.relay?_withRow_self _ _ _, rfl⟩, 1, trivial⟩⟩

/-- The registry is sound. -/
theorem Registry.sound_running (id : RelayId) : (Registry.running id).Sound :=
  Registry.sound_empty.withRow rfl

/-- These two calls may boot the relay together. -/
theorem Run.boots_once_iff_overtaking :
    ¬ ∀ h s, Run (System.start (.running "relay-1")
        fun i => (overtakingCalls "relay-1" i).program) h s →
      ∀ i j, s.Boots i "relay-1" → s.Boots j "relay-1" → i = j := by
  rw [Run.boots_once_iff (Registry.sound_running _) (mayBoot_overtakingCalls _), not_not]
  exact rivals_overtakingCalls _

/-- It is not so that a relay is never booted twice at once. -/
theorem Run.not_always_boots_once :
    ¬ ∀ (g : Registry) (id : RelayId) (calls : Fin 2 → Operation), g.Sound →
      (∀ i, (calls i).MayBoot id) →
      ∀ h s, Run (System.start g fun i => (calls i).program) h s →
        ∀ i j, s.Boots i id → s.Boots j id → i = j := by
  intro hclaim
  obtain ⟨i, j, hij, h, s, run, hi, hj⟩ :=
    (rivals_overtakingCalls "relay-1").overtake (Registry.sound_running _)
      (mayBoot_overtakingCalls _)
  exact hij (hclaim _ _ _ (Registry.sound_running _) (mayBoot_overtakingCalls _) h s run i j hi hj)

end RelayFleet
