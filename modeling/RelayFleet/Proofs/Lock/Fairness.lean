import Mathlib.Order.Bounds.Basic
import Mathlib.Tactic.FinCases
import RelayFleet.Proofs.Lock.Line

/-!
# The lock is exclusive, fair and bounded

How a client fares depends on nothing but the guards of those who came before it: it gets the lock
as soon as none of them has it, and gives up when its time is up before that (`Orderly`). So who
gives up delays nobody.
-/

namespace RelayFleet.Simulation

/-! ## How clients fare -/

/-- A client who fares so has the lock at a time. -/
def Fate.Alive : Fate → Nat → Prop
  | .served since till, t => since ≤ t ∧ t < till
  | .refused _, _ => False

section

variable {n : Nat} (clients : Fin n → Client) (fate : Fin n → Fate)

/-- The clients come at different times, and none gives the lock back just when another one's time
is up. -/
structure TimersApart : Prop where
  arrivals : Function.Injective fun i => (clients i).arrives
  deadlines : ∀ {i j since till}, i ≠ j → fate j = .served since till → till ≠ (clients i).deadline

/-- Someone who came before a client has the lock at a time. -/
def IsBlocked (i : Fin n) (t : Nat) : Prop :=
  ∃ j, (clients j).arrives < (clients i).arrives ∧ (fate j).Alive t

/-- Clients are served one after the other, in the order in which they come, each as soon as nobody
before it has the lock. -/
structure Orderly : Prop where
  /-- At no time do two have the lock. -/
  exclusive : ∀ {i j t}, (fate i).Alive t → (fate j).Alive t → i = j
  /-- Who comes first is served first. -/
  order : ∀ {i j since till since' till'}, fate i = .served since till →
    fate j = .served since' till' → (clients i).arrives < (clients j).arrives → till ≤ since'
  /-- A client gives up when its time is up, and does so if someone before it has the lock all the
  time till then, and only if. -/
  refused_iff : ∀ {i time}, fate i = .refused time ↔ time = (clients i).deadline ∧
    ∀ t, (clients i).arrives ≤ t → t ≤ (clients i).deadline → IsBlocked clients fate i t
  /-- A client gets the lock the first time that nobody before it has it, if its time is not up by
  then, and keeps it as long as it wants. -/
  served_iff : ∀ {i since till}, fate i = .served since till ↔
    IsLeast {t | (clients i).arrives ≤ t ∧ ¬ IsBlocked clients fate i t} since ∧
      since ≤ (clients i).deadline ∧ till = since + (clients i).hold
  /-- A free lock is had at once, however short the client would wait. -/
  free : ∀ {i}, ¬ IsBlocked clients fate i (clients i).arrives →
    fate i = .served (clients i).arrives ((clients i).arrives + (clients i).hold)

end

/-! ## When all clients are gone -/

section

variable {n : Nat} {clients : Fin n → Client} {fate : Fin n → Fate} {x : Arena n}
  {i j : Fin n} {since till since' till' time t : Nat}

variable (clients fate) in
/-- All clients are gone, each with its fate, and all is as every move leaves it. -/
structure Arena.Ended (x : Arena n) : Prop where
  gone : ∀ i, x.stands i = .gone (fate i)
  timely : x.Timely clients
  inTurn : x.InTurn clients
  justified : x.Justified clients

namespace Arena.Ended

/-- Who was served got the lock before its time was up and kept it as long as it wanted. -/
theorem of_served (h : x.Ended clients fate) (hfate : fate i = .served since till) :
    ((clients i).arrives ≤ since ∧ since ≤ (clients i).deadline) ∧
      till = since + (clients i).hold ∧ (x.stands i).since? = some since := by
  have hi := h.timely i
  rw [h.gone, hfate] at hi ⊢
  exact ⟨hi.1, hi.2.1, rfl⟩

/-- Who has had the lock was served. -/
theorem served_of_since (h : x.Ended clients fate) (hsince : (x.stands i).since? = some since) :
    fate i = .served since (since + (clients i).hold) := by
  have hi := h.timely i
  rw [h.gone] at hsince hi
  cases hfate : fate i with
  | served s till =>
    rw [hfate] at hsince hi
    cases hsince
    rw [hi.2.1]
  | refused =>
    rw [hfate] at hsince
    cases hsince

/-- What a client has of the lock is told by how it fared. -/
theorem has_iff (h : x.Ended clients fate) : x.Has clients i t ↔ (fate i).Alive t := by
  constructor
  · rintro ⟨since, hsince, ht⟩
    rw [h.served_of_since hsince]
    exact ht
  · intro halive
    cases hfate : fate i with
    | served since till =>
      rw [hfate] at halive
      obtain ⟨-, rfl, hsince⟩ := h.of_served hfate
      exact ⟨since, hsince, halive⟩
    | refused =>
      rw [hfate] at halive
      exact halive.elim

theorem blocked_iff (h : x.Ended clients fate) :
    x.Blocked clients i t ↔ IsBlocked clients fate i t :=
  exists_congr fun _ => and_congr_right fun _ => h.has_iff

/-- Who comes first is served first. -/
theorem order (h : x.Ended clients fate) (hi : fate i = .served since till)
    (hj : fate j = .served since' till') (hlt : (clients i).arrives < (clients j).arrives) :
    till ≤ since' := by
  obtain ⟨-, rfl, hsince⟩ := h.of_served hi
  exact h.inTurn.order hsince (h.of_served hj).2.2 hlt

/-- A client waits only while someone before it has the lock. -/
theorem waited (h : x.Ended clients fate) (harrives : (clients i).arrives ≤ t)
    (ht : t < (Stand.gone (fate i)).waitedTill x.shared.time) : IsBlocked clients fate i t :=
  h.blocked_iff.mp (h.justified.waited harrives (by rwa [h.gone]))

/-- A client is served the first time that nobody before it has the lock. -/
theorem isLeast (h : x.Ended clients fate) (hfate : fate i = .served since till) :
    IsLeast {t | (clients i).arrives ≤ t ∧ ¬ IsBlocked clients fate i t} since := by
  refine ⟨⟨(h.of_served hfate).1.1, ?_⟩, fun t ⟨harrives, hfree⟩ => ?_⟩
  · rintro ⟨j, hlt, halive⟩
    cases hj : fate j with
    | served since' till' =>
      rw [hj] at halive
      exact absurd halive.2 (Nat.not_lt.mpr (h.order hj hfate hlt))
    | refused time =>
      rw [hj] at halive
      exact halive
  · by_contra hlt
    exact hfree (h.waited harrives (by rw [hfate]; exact Nat.not_le.mp hlt))

/-- A client is refused when its time is up, someone before it having had the lock all the time. -/
theorem refused (h : x.Ended clients fate) (hapart : TimersApart clients fate)
    (hfate : fate i = .refused time) : time = (clients i).deadline ∧
      ∀ t, (clients i).arrives ≤ t → t ≤ (clients i).deadline → IsBlocked clients fate i t := by
  have hi := h.timely i
  rw [h.gone, hfate] at hi
  obtain ⟨rfl, -⟩ := hi
  refine ⟨rfl, fun t harrives ht => ?_⟩
  rcases ht.lt_or_eq with ht | rfl
  · exact h.waited harrives (by rw [hfate]; exact ht)
  have hend := h.justified.refused (i := i) (by rw [h.gone, hfate])
  refine h.blocked_iff.mp (hend.resolve_right ?_)
  -- a time with the lock that is over just then is that of another
  rintro ⟨j, since, hsince, htill⟩
  have hj := h.served_of_since hsince
  refine hapart.deadlines ?_ hj htill
  rintro rfl
  rw [hfate] at hj
  cases hj

/-- Two clients have the lock at different times. -/
theorem exclusive (h : x.Ended clients fate) (hapart : TimersApart clients fate)
    (hi : (fate i).Alive t) (hj : (fate j).Alive t) : i = j := by
  obtain ⟨since, hsince, hfrom, hbefore⟩ := h.has_iff.mpr hi
  obtain ⟨since', hsince', hfrom', hbefore'⟩ := h.has_iff.mpr hj
  by_contra hne
  rcases (hapart.arrivals.ne hne).lt_or_gt with hlt | hlt
  · exact absurd ((h.inTurn.order hsince hsince' hlt).trans hfrom') (Nat.not_le.mpr hbefore)
  · exact absurd ((h.inTurn.order hsince' hsince hlt).trans hfrom) (Nat.not_le.mpr hbefore')

/-- Clients whose timers are apart have fared in an orderly way. -/
theorem orderly (h : x.Ended clients fate) (hapart : TimersApart clients fate) :
    Orderly clients fate where
  exclusive := h.exclusive hapart
  order := h.order
  refused_iff {i time} := by
    refine ⟨h.refused hapart, fun ⟨htime, hblocked⟩ => ?_⟩
    cases hfate : fate i with
    | served since till =>
      obtain ⟨hfrom, huntil⟩ := (h.of_served hfate).1
      exact absurd (hblocked since hfrom huntil) (h.isLeast hfate).1.2
    | refused time' => rw [htime, (h.refused hapart hfate).1]
  served_iff {i since till} := by
    refine ⟨fun hfate => ⟨h.isLeast hfate, (h.of_served hfate).1.2, (h.of_served hfate).2.1⟩,
      fun ⟨hfirst, hdue, htill⟩ => ?_⟩
    cases hfate : fate i with
    | served since' till' =>
      obtain rfl := (h.isLeast hfate).unique hfirst
      rw [htill, (h.of_served hfate).2.1]
    | refused time =>
      exact absurd ((h.refused hapart hfate).2 since hfirst.1.1 hdue) hfirst.1.2
  free {i} hfree := by
    cases hfate : fate i with
    | served since till =>
      have hfirst := (h.isLeast hfate).2 ⟨le_rfl, hfree⟩
      obtain rfl := le_antisymm hfirst (h.of_served hfate).1.1
      rw [(h.of_served hfate).2.1]
    | refused time =>
      exact absurd ((h.refused hapart hfate).2 _ le_rfl (Nat.le_add_right ..)) hfree

end Arena.Ended

end

/-- Clients that want one lock come to an end, at no time do two of them have it, in the end nobody
has it, and they are served in an orderly way. -/
theorem contest_orderly {n : Nat} (clients : Fin n → Client) {turns : Nat}
    (hturns : 3 * n + 2 ≤ turns) :
    (∀ x, Arena.Reaches clients .start x → x.Exclusive) ∧
    ∃ fate s, (contest clients).run turns (.start ()) = (some (List.ofFn fate), s) ∧
      s.lock.isHeld = false ∧ (TimersApart clients fate → Orderly clients fate) := by
  refine ⟨fun x hx => (Arena.lined_of_reaches hx).exclusive, ?_⟩
  obtain ⟨fate, y, hy, hgone, hrun⟩ := Arena.exists_reaches clients hturns
  refine ⟨fate, y.shared, hrun, ?_, fun hapart => ?_⟩
  · rw [← Bool.not_eq_true, (Arena.lined_of_reaches hy).exclusive.isHeld_iff]
    rintro ⟨i, k, hk⟩
    rw [hgone] at hk
    cases hk
  · have hended : y.Ended clients fate := ⟨hgone, Arena.timely_of_reaches hy,
      Arena.inTurn_of_reaches hy, Arena.justified_of_reaches hapart.arrivals hy⟩
    exact hended.orderly hapart

/-- Five clients: one gets the lock at once, one gives up waiting, one waits long enough, one would
not wait at all, and one comes when the lock is free. -/
def fiveClients : Fin 5 → Client :=
  ![⟨0, .ofMillis 7, 100⟩, ⟨10, .ofMillis 20, 5⟩, ⟨20, .ofMillis 500, 40⟩, ⟨25, .ofMillis 0, 7⟩,
    ⟨200, .ofMillis 0, 3⟩]

/-- How the five clients fare. -/
def fiveFates : Fin 5 → Fate :=
  ![.served 0 100, .refused 30, .served 100 140, .refused 25, .served 200 203]

/-- Five clients, two of which wait in vain: the ones that are served follow each other. -/
theorem contest_orderly_fiveClients :
    3 * 5 + 2 ≤ 17 ∧
      ∃ s, (contest fiveClients).run 17 (.start ()) = (some (List.ofFn fiveFates), s) ∧
        s.lock.isHeld = false ∧ Orderly fiveClients fiveFates := by
  have hturns : 3 * 5 + 2 ≤ 17 := by decide
  obtain ⟨-, fate, s, hrun, hfree, horderly⟩ := contest_orderly fiveClients hturns
  have hfates : some (List.ofFn fiveFates) = some (List.ofFn fate) :=
    .trans (by decide +kernel) (congrArg Prod.fst hrun)
  obtain rfl := List.ofFn_injective (Option.some.inj hfates)
  refine ⟨hturns, s, hrun, hfree, horderly ⟨by decide, ?_⟩⟩
  intro i j since till hne hj
  fin_cases j <;> cases hj <;> revert i <;> decide

end RelayFleet.Simulation
