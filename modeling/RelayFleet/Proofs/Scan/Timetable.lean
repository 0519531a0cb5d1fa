import Mathlib.Order.Monotone.Basic
import RelayFleet.Proofs.Scan.Account
import RelayFleet.Scan.Loop

/-!
# When passes run

A scan loop runs on a clock that only its sleeping and its passes move. A pass may take any time,
depending on when it begins and on what it finds. Pass `k` begins when `ScanLoop.began` says: the
first pass after the initial delay, each further one an interval after the end of the one before.
The loop runs the passes that begin before it is to stop, each to its end, and no other
(`ScanLoop.loop_after`). Pass `k` begins at time `k` at the earliest, so the rounds of the loop are
always enough.
-/

namespace RelayFleet

/-! ## Time that goes forward -/

/-- The program never turns the clock back. -/
def GoesForward {W α : Type} (p : StateM (Nat × W) α) : Prop := ∀ s, s.1 ≤ (p.run s).2.1

/-- A program goes forward if whoever answers its questions does. -/
theorem GoesForward.interpret {A : Type} {R : A → Type} {W α : Type}
    {answer : (a : A) → StateM (Nat × W) (R a)} (h : ∀ a, GoesForward (answer a))
    (p : Program R α) : GoesForward (p.interpret answer) := by
  induction p with
  | pure x => exact fun s => Nat.le_refl s.1
  | ask a next ih => exact fun s => Nat.le_trans (h a s) (ih _ _)

/-- A pass goes forward if all its stages do. -/
theorem ScanHandler.goesForward_runPass {W σ π : Type} {h : ScanHandler (StateM (Nat × W)) σ π}
    (hstages : ∀ q, GoesForward (h.answer q)) : GoesForward h.runPass := by
  rw [h.runPass_eq_interpret]
  exact .interpret hstages h.asking.runPass

/-! ## The clock of a loop -/

/-- When a pass began and when it ended. -/
structure PassSpan where
  began : Nat
  ended : Nat
deriving DecidableEq

/-- A clock, the passes so far, and everything else. -/
structure Clocked (W : Type) where
  time : Nat
  world : W
  passes : List PassSpan

namespace Clocked

variable {W α : Type}

/-- The clock goes on to a time. -/
def waitUntil (c : Clocked W) (t : Nat) : Clocked W := { c with time := max c.time t }

/-- The clock goes on while a loop sleeps. -/
def timer : Timer (StateM (Clocked W)) where
  time := fun c => (c.time, c)
  sleepUntil t := fun c => ((), c.waitUntil t)

/-- Runs a pass to its end and puts down when it ran. -/
def timed (pass : StateM (Nat × W) α) : StateM (Clocked W) α := fun c =>
  let (a, time, world) := pass.run (c.time, c.world)
  (a, ⟨time, world, c.passes ++ [⟨c.time, time⟩]⟩)

end Clocked

/-! ## The timetable -/

/-- What a loop goes by. -/
structure ScanLoop (W α : Type) where
  /-- What a pass does at a time to what it finds; it says when it is through. -/
  pass : StateM (Nat × W) α
  initialDelay : Nat
  interval : Nat
  /-- What there is when the loop begins, at time zero. -/
  world : W

namespace ScanLoop

variable {W α : Type} (L : ScanLoop W α)

/-- Runs the loop until it is to stop. -/
def run (stop : Nat) : Clocked W :=
  ((Clocked.timer.run (Clocked.timed L.pass) L.initialDelay L.interval stop).run
    ⟨0, L.world, []⟩).2

/-- When pass `k` begins, and what it finds then. -/
def began : Nat → Nat × W
  | 0 => (L.initialDelay, L.world)
  | k + 1 =>
    let ended := (L.pass.run (began k)).2
    (ended.1 + L.interval, ended.2)

/-- When pass `k` has ended, and what it leaves. -/
def ended (k : Nat) : Nat × W := (L.pass.run (L.began k)).2

/-- When `n` passes have been run, and what they leave. -/
def reached : Nat → Nat × W
  | 0 => (0, L.world)
  | n + 1 => L.ended n

/-- When the first `n` passes run. -/
def spans (n : Nat) : List PassSpan :=
  (List.range n).map fun k => ⟨(L.began k).1, (L.ended k).1⟩

/-- The loop when `n` passes have been run. -/
def after (n : Nat) : Clocked W := ⟨(L.reached n).1, (L.reached n).2, L.spans n⟩

/-- How long the loop waits before pass `k`. -/
def delay : Nat → Nat
  | 0 => L.initialDelay
  | _ + 1 => L.interval

/-- A pass begins when the loop has waited, and finds what the passes before it left. -/
theorem began_eq (k : Nat) : L.began k = ((L.reached k).1 + L.delay k, (L.reached k).2) := by
  cases k with
  | zero => exact congrArg (·, L.world) (Nat.zero_add L.initialDelay).symm
  | succ k => rfl

theorem spans_succ (n : Nat) :
    L.spans (n + 1) = L.spans n ++ [⟨(L.began n).1, (L.ended n).1⟩] := by
  simp [spans, List.range_succ]

/-- The loop comes to the next pass in time and runs it. -/
theorem timed_after (k : Nat) :
    ((Clocked.timed L.pass).run ((L.after k).waitUntil (L.began k).1)).2 = L.after (k + 1) := by
  have hbegan : (L.after k).waitUntil (L.began k).1 =
      ⟨(L.began k).1, (L.began k).2, L.spans k⟩ := by
    rw [L.began_eq, Clocked.waitUntil, after, Nat.max_eq_right (Nat.le_add_right ..)]
  rw [hbegan, after, spans_succ]
  rfl

variable {L} {stop : Nat}

/-- The loop waits for the next pass and runs it, or it waits until it is to stop. -/
theorem loop_succ (rounds delay : Nat) (c : Clocked W) :
    (Clocked.timer.loop (Clocked.timed L.pass) L.interval stop (rounds + 1) delay).run c =
      if c.time + delay < stop then
        (Clocked.timer.loop (Clocked.timed L.pass) L.interval stop rounds L.interval).run
          ((Clocked.timed L.pass).run (c.waitUntil (c.time + delay))).2
      else ((), c.waitUntil stop) := by
  rw [Timer.loop]
  change StateT.run (if c.time + delay < stop then _ else _) c = _
  split
  · rfl
  · rfl

/-- Pass `k` begins at time `k` at the earliest. -/
theorem strictMono_began (hinterval : 0 < L.interval) (hpass : GoesForward L.pass) :
    StrictMono fun k => (L.began k).1 :=
  strictMono_nat_of_lt_succ fun k => Nat.lt_of_le_of_lt (hpass (L.began k))
    (Nat.lt_add_of_pos_right hinterval)

/-- The loop runs on to the first pass that would not begin before it is to stop. Each round begins
a pass later than the one before, so there are rounds enough. -/
theorem loop_after (hinterval : 0 < L.interval) (hpass : GoesForward L.pass) {rounds k : Nat}
    (hrounds : 0 < rounds) (henough : stop < rounds + (L.began k).1) :
    ∃ n, k ≤ n ∧ (∀ j, k ≤ j → (j < n ↔ (L.began j).1 < stop)) ∧
      (Clocked.timer.loop (Clocked.timed L.pass) L.interval stop rounds (L.delay k)).run
        (L.after k) = ((), (L.after n).waitUntil stop) := by
  have hmono := strictMono_began hinterval hpass
  induction rounds generalizing k with
  | zero => cases hrounds
  | succ rounds ih =>
    have hbegan : (L.after k).time + L.delay k = (L.began k).1 := by rw [L.began_eq, after]
    rw [loop_succ, hbegan]
    split
    · next hstop =>
      have hlater : (L.began k).1 < (L.began (k + 1)).1 := hmono k.lt_succ_self
      obtain ⟨n, hkn, hn, hrun⟩ := ih (k := k + 1) (by omega) (by omega)
      refine ⟨n, by omega, fun j hkj => ?_, by rw [timed_after]; exact hrun⟩
      rcases Nat.eq_or_lt_of_le hkj with rfl | hkj
      · exact iff_of_true hkn hstop
      · exact hn j hkj
    · next hstop =>
      refine ⟨k, le_rfl, fun j hkj => ?_, rfl⟩
      have hlater : (L.began k).1 ≤ (L.began j).1 := hmono.monotone hkj
      omega

/-- The passes are apart. -/
theorem pairwise_spans (hinterval : 0 < L.interval) (hpass : GoesForward L.pass) (n : Nat) :
    (L.spans n).Pairwise fun p q => p.ended < q.began := by
  have hmono := strictMono_began hinterval hpass
  refine List.pairwise_map.mpr (List.pairwise_lt_range.imp fun {j k} hjk => ?_)
  calc (L.ended j).1 < (L.began (j + 1)).1 := Nat.lt_add_of_pos_right hinterval
    _ ≤ (L.began k).1 := hmono.monotone hjk

end ScanLoop

namespace ScanHandler

/-- A scan loop runs its passes when `ScanLoop.began` says, those that begin before it is to stop
and no other, each to its end and one at a time, and it returns when it is to stop and the last of
them has ended. -/
theorem keepsTimetable {W σ π : Type} (h : ScanHandler (StateM (Nat × W)) σ π)
    (hstages : ∀ q, GoesForward (h.answer q)) (initialDelay : Nat) {interval : Nat}
    (hinterval : 0 < interval) (stop : Nat) (w : W) :
    let L : ScanLoop W PassReport := ⟨h.runPass, initialDelay, interval, w⟩
    ∃ n, (∀ k, k < n ↔ (L.began k).1 < stop) ∧
      (L.run stop).passes = L.spans n ∧
      (∀ k, (L.began k).1 ≤ (L.ended k).1) ∧
      (L.spans n).Pairwise (fun p q => p.ended < q.began) ∧
      (L.run stop).world = (L.reached n).2 ∧
      (L.run stop).time = max (L.reached n).1 stop := by
  intro L
  have hpass : GoesForward L.pass := goesForward_runPass hstages
  have henough : stop < stop + 1 + (L.began 0).1 := by omega
  obtain ⟨n, -, hn, hrun⟩ := L.loop_after hinterval hpass stop.succ_pos henough
  have hleft : L.run stop = (L.after n).waitUntil stop := congrArg Prod.snd hrun
  rw [hleft]
  exact ⟨n, fun k => hn k k.zero_le, rfl, fun k => hpass (L.began k),
    ScanLoop.pairwise_spans hinterval hpass n, rfl, rfl⟩

/-- A pool that takes longer to expand each time. Beside the time, the state is how often it was
expanded. -/
def slowPool : ScanHandler (StateM (Nat × Nat)) Unit Unit where
  name := "slow"
  poolName _ := "north"
  snapshot := pure (.ok ())
  admits _ := pure true
  pools _ := pure [()]
  isReady _ _ := pure true
  decide _ _ := pure .expand
  expand _ := fun (time, count) => (.ok .applied, time + 5 + count, count + 1)
  shrink _ := pure (.ok .skipped)
  finish _ := pure ()

/-- Time goes forward, also while the pool is expanded. -/
theorem goesForward_slowPool (q : ScanQuestion Unit Unit) : GoesForward (slowPool.answer q) := by
  intro s
  cases q with
  | expand => exact Nat.le_trans (Nat.le_add_right s.1 5) (Nat.le_add_right _ s.2)
  | _ => exact Nat.le_refl s.1

/-- A loop that is to stop in the middle of its second pass returns at the end of that. -/
theorem keepsTimetable_slowPool :
    (∀ q, GoesForward (slowPool.answer q)) ∧ 0 < 4 ∧
      let L : ScanLoop Nat PassReport := ⟨slowPool.runPass, 3, 4, 0⟩
      L.run 15 = ⟨18, 2, [⟨3, 8⟩, ⟨12, 18⟩]⟩ ∧
      ∃ n, (∀ k, k < n ↔ (L.began k).1 < 15) ∧
        (L.run 15).passes = L.spans n ∧
        (∀ k, (L.began k).1 ≤ (L.ended k).1) ∧
        (L.spans n).Pairwise (fun p q => p.ended < q.began) ∧
        (L.run 15).world = (L.reached n).2 ∧
        (L.run 15).time = max (L.reached n).1 15 :=
  ⟨goesForward_slowPool, by decide, rfl,
    slowPool.keepsTimetable goesForward_slowPool 3 (by decide) 15 0⟩

end ScanHandler

end RelayFleet
