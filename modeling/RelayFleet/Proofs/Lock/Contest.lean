import Mathlib.Algebra.Order.BigOperators.Group.Finset
import Mathlib.Data.Fin.VecNotation
import Mathlib.Data.List.FinRange
import Mathlib.Logic.Relation
import Mathlib.Tactic.SplitIfs
import RelayFleet.Simulation.Script

/-!
# Clients of one lock

A client comes at some time, asks for the lock, waits for it so long at most, and keeps it for some
time. Clients that run together take turns (`Client.turn`): in a turn a client goes on until it has
to wait.
-/

namespace RelayFleet.Simulation

/-- Someone who wants the lock once. -/
structure Client where
  /-- When it asks for the lock. -/
  arrives : Nat
  /-- How long it waits at most. -/
  timeout : Duration
  /-- How long it keeps the lock. -/
  hold : Nat

/-- How a client fares. -/
inductive Fate where
  /-- It has the lock from one time to another. -/
  | served (since till : Nat)
  /-- It gives up at a time. -/
  | refused (time : Nat)
deriving DecidableEq

/-- What a client does. -/
def Client.script (c : Client) : Script Unit (List Fate) (List Fate) := do
  Script.sleep c.arrives
  if ← Script.acquire c.timeout then
    let since := (← Script.shared).time
    Script.sleep c.hold
    Script.release
    return [.served since (← Script.shared).time]
  else return [.refused (← Script.shared).time]

/-- Clients that run together, in turns of their order. -/
def contest {n : Nat} (clients : Fin n → Client) : Script Unit (List Fate) (List Fate) := do
  return (← Script.together (List.ofFn fun i => (clients i).script)).flatten

/-! ## Where a client stands -/

/-- Where a client stands when it has to wait. -/
inductive Stand where
  | coming
  /-- It asked for the lock at a time and is in line with a ticket. -/
  | waiting (ticket : Ticket) (asked : Nat)
  /-- It has the lock since a time, with a ticket. -/
  | holding (ticket : Ticket) (since : Nat)
  | gone (fate : Fate)

namespace Client

variable (c : Client)

/-- What is left to do for a client who knows whether it has the lock. -/
def rest (had : Bool) : Job Unit (List Fate) :=
  if had then .get fun s => .get fun s' => .sleepUntil (s'.time + c.hold)
    (.release (.get fun s'' => .done [.served s.time s''.time]))
  else .get fun s => .done [.refused s.time]

/-- What is left to do for a client who stands here. -/
def job : Stand → Job Unit (List Fate)
  | .coming => .sleepUntil c.arrives
    (.get fun s => .acquire (s.time + c.timeout.millisUp) c.rest)
  | .waiting ticket asked => .await ticket (asked + c.timeout.millisUp) c.rest
  | .holding _ since => .sleepUntil (since + c.hold)
    (.release (.get fun s => .done [.served since s.time]))
  | .gone fate => .done [fate]

theorem script_eq : c.script .done =
    .get fun s => .sleepUntil (s.time + c.arrives)
      (.get fun s => .acquire (s.time + c.timeout.millisUp) c.rest) := by
  refine congrArg Job.get (funext fun s => congrArg _ (congrArg Job.get (funext fun s => ?_)))
  refine congrArg _ (funext fun had => ?_)
  cases had <;> rfl

/-- Where a client stands who has just got the lock with a ticket and goes on until it has to
wait. -/
def enjoy (ticket : Ticket) (s : Shared Unit) : Stand × Shared Unit :=
  if s.time < s.time + c.hold then (.holding ticket s.time, s)
  else (.gone (.served s.time s.time), { s with lock := s.lock.release })

/-- Where a client stands after a turn. -/
def turn : Stand → Shared Unit → Stand × Shared Unit
  | .coming, s =>
    if s.time < c.arrives then (.coming, s)
    else if s.lock.enter.2.holds s.lock.enter.1 then
      c.enjoy s.lock.enter.1 { s with lock := s.lock.enter.2 }
    else if s.time + c.timeout.millisUp ≤ s.time then
      (.gone (.refused s.time), { s with lock := s.lock.enter.2.leave s.lock.enter.1 })
    else (.waiting s.lock.enter.1 s.time, { s with lock := s.lock.enter.2 })
  | .waiting ticket asked, s =>
    if s.lock.holds ticket then c.enjoy ticket s
    else if asked + c.timeout.millisUp ≤ s.time then
      (.gone (.refused s.time), { s with lock := s.lock.leave ticket })
    else (.waiting ticket asked, s)
  | .holding ticket since, s =>
    if s.time < since + c.hold then (.holding ticket since, s)
    else (.gone (.served since s.time), { s with lock := s.lock.release })
  | .gone fate, s => (.gone fate, s)

theorem poll_rest (ticket : Ticket) (s : Shared Unit) :
    (c.rest true).poll s = (c.job (c.enjoy ticket s).1, (c.enjoy ticket s).2) := by
  simp only [rest, Job.poll, enjoy, ite_true]
  split <;> rfl

/-- A client that is polled takes a turn. -/
theorem poll_job (stand : Stand) (s : Shared Unit) :
    (c.job stand).poll s = (c.job (c.turn stand s).1, (c.turn stand s).2) := by
  cases stand with
  | coming =>
    simp only [job, Job.poll, turn]
    split
    · rfl
    · split
      · exact c.poll_rest _ _
      · split <;> rfl
  | waiting ticket asked =>
    simp only [job, Job.poll, turn]
    split
    · exact c.poll_rest ticket s
    · split <;> rfl
  | holding ticket since =>
    simp only [job, Job.poll, turn]
    split <;> rfl
  | gone fate => rfl

/-- The next time that a client waits for. -/
def due : Stand → Option Nat
  | .coming => some c.arrives
  | .waiting _ asked => some (asked + c.timeout.millisUp)
  | .holding _ since => some (since + c.hold)
  | .gone _ => none

theorem nextTime?_job (stand : Stand) : (c.job stand).nextTime? = c.due stand := by
  cases stand <;> simp [job, Job.nextTime?, due]

/-- How often a client has to wait yet at most. -/
def weight : Stand → Nat
  | .coming => 3
  | .waiting _ _ => 2
  | .holding _ _ => 1
  | .gone _ => 0

/-- A turn takes no time. -/
theorem time_turn (stand : Stand) (s : Shared Unit) : (c.turn stand s).2.time = s.time := by
  cases stand with
  | gone => rfl
  | _ =>
    simp only [turn, enjoy]
    split_ifs <;> rfl

/-- A client has to wait where it stands, or it goes on. -/
theorem turn_eq_or_lt (stand : Stand) (s : Shared Unit) :
    c.turn stand s = (stand, s) ∨ weight (c.turn stand s).1 < weight stand := by
  cases stand with
  | gone => exact .inl rfl
  | _ =>
    simp only [turn, enjoy]
    split_ifs <;> simp [weight]

/-- A client whose time has come goes on. -/
theorem turn_lt_of_due {stand : Stand} {s : Shared Unit} {t : Nat} (hdue : c.due stand = some t)
    (ht : t ≤ s.time) : weight (c.turn stand s).1 < weight stand := by
  cases stand with
  | coming =>
    cases hdue
    simp only [turn, enjoy, if_neg (Nat.not_lt.mpr ht)]
    split_ifs <;> simp [weight]
  | waiting ticket asked =>
    cases hdue
    simp only [turn, enjoy, if_pos ht]
    split_ifs <;> simp [weight]
  | holding ticket since =>
    cases hdue
    simp [turn, if_neg (Nat.not_lt.mpr ht), weight]
  | gone fate => cases hdue

/-- A client who has the lock by now goes on. -/
theorem turn_lt_of_holds {ticket : Ticket} {asked : Nat} {s : Shared Unit}
    (hholds : s.lock.holds ticket) :
    weight (c.turn (.waiting ticket asked) s).1 < weight (.waiting ticket asked) := by
  simp only [turn, enjoy, if_pos hholds]
  split_ifs <;> simp [weight]

end Client

/-! ## What is done next -/

namespace Job

variable {σ ρ : Type}

/-- Several jobs are polled one after the other. -/
theorem pollAll_cons (j : Job σ ρ) (jobs : List (Job σ ρ)) (s : Shared σ) :
    pollAll (j :: jobs) s =
      ((j.poll s).1 :: (pollAll jobs (j.poll s).2).1, (pollAll jobs (j.poll s).2).2) := by
  rw [pollAll]

/-- Jobs that are polled alike run alike. -/
theorem run_congr {j j' : Job σ ρ} {s : Shared σ} (h : j.poll s = j'.poll s) (m : Nat) :
    j.run (m + 1) s = j'.run (m + 1) s := by
  rw [run, run, h]

/-- Several jobs have no next time if none of them has. -/
theorem nextTimeOf?_eq_none {jobs : List (Job σ ρ)} (h : nextTimeOf? jobs = none) :
    ∀ j ∈ jobs, j.nextTime? = none := by
  induction jobs with
  | nil => exact List.forall_mem_nil _
  | cons j jobs ih =>
    rw [nextTimeOf?] at h
    cases hj : j.nextTime? <;> cases hjobs : nextTimeOf? jobs <;> rw [hj, hjobs] at h
    · exact List.forall_mem_cons.mpr ⟨hj, ih hjobs⟩
    all_goals cases h

/-- The next time of several jobs is that of one of them, and none of them has an earlier one. -/
theorem nextTimeOf?_eq_some {jobs : List (Job σ ρ)} {t : Nat} (h : nextTimeOf? jobs = some t) :
    (∃ j ∈ jobs, j.nextTime? = some t) ∧ ∀ j ∈ jobs, ∀ u, j.nextTime? = some u → t ≤ u := by
  induction jobs generalizing t with
  | nil => cases h
  | cons j jobs ih =>
    rw [nextTimeOf?] at h
    rw [List.forall_mem_cons]
    cases hjobs : nextTimeOf? jobs with
    | none =>
      rw [hjobs, Option.merge_none_right] at h
      refine ⟨⟨j, List.mem_cons_self, h⟩, fun u hu => ?_, fun j' hj' u hu => ?_⟩
      · exact (Option.some.inj (h.symm.trans hu)).le
      · exact absurd hu (by rw [nextTimeOf?_eq_none hjobs j' hj']; nofun)
    | some v =>
      obtain ⟨⟨j', hj', hv⟩, hall⟩ := ih hjobs
      cases hj : j.nextTime? with
      | none =>
        rw [hj, hjobs, Option.merge_none_left] at h
        cases h
        exact ⟨⟨j', List.mem_cons_of_mem j hj', hv⟩, nofun, hall⟩
      | some u =>
        rw [hj, hjobs] at h
        obtain rfl : min u v = t := Option.some.inj h
        refine ⟨?_, fun u' hu' => ?_, fun j' hj' u' hu' =>
          (min_le_right u v).trans (hall j' hj' u' hu')⟩
        · rcases min_choice u v with hmin | hmin <;> rw [hmin]
          · exact ⟨j, List.mem_cons_self, hj⟩
          · exact ⟨j', List.mem_cons_of_mem j hj', hv⟩
        · exact (min_le_left u v).trans (Option.some.inj hu').le

/-- Whether one of several jobs has the lock. -/
theorem oneHasLock_iff {l : Lock} {jobs : List (Job σ ρ)} :
    oneHasLock l jobs = true ↔ ∃ j ∈ jobs, j.hasLock l = true := by
  induction jobs with
  | nil => simp [oneHasLock]
  | cons j jobs ih => simp [oneHasLock, ih]

end Job

/-! ## All clients -/

/-- Where all clients stand, and what they share. -/
structure Arena (n : Nat) where
  stands : Fin n → Stand
  shared : Shared Unit

namespace Arena

variable {n : Nat} (clients : Fin n → Client)

/-- All are still to come. -/
def start : Arena n := ⟨fun _ => .coming, .start ()⟩

/-- One client takes a turn. -/
def turn (x : Arena n) (i : Fin n) : Arena n where
  stands := Function.update x.stands i ((clients i).turn (x.stands i) x.shared).1
  shared := ((clients i).turn (x.stands i) x.shared).2

/-- The jobs of some clients. -/
def jobs (x : Arena n) (is : List (Fin n)) : List (Job Unit (List Fate)) :=
  is.map fun i => (clients i).job (x.stands i)

/-- The clock goes on to a time. -/
def waitUntil (x : Arena n) (t : Nat) : Arena n :=
  { x with shared := { x.shared with time := max x.shared.time t } }

/-- How often clients have to wait yet at most. -/
def weight (x : Arena n) : Nat := ∑ i, Client.weight (x.stands i)

variable {clients} {x : Arena n}

theorem stands_turn_self (i : Fin n) :
    (x.turn clients i).stands i = ((clients i).turn (x.stands i) x.shared).1 :=
  Function.update_self ..

theorem stands_turn_of_ne {i j : Fin n} (h : j ≠ i) : (x.turn clients i).stands j = x.stands j :=
  Function.update_of_ne h ..

/-- A client stays where it stands in the turns of others. -/
theorem stands_foldl_turn {i : Fin n} {is : List (Fin n)} (hi : i ∉ is) :
    (is.foldl (turn clients) x).stands i = x.stands i := by
  induction is generalizing x with
  | nil => rfl
  | cons j is ih =>
    rw [List.foldl_cons, ih (List.not_mem_of_not_mem_cons hi),
      stands_turn_of_ne (List.ne_of_not_mem_cons hi)]

/-- Clients that are polled take their turns. -/
theorem pollAll_jobs {is : List (Fin n)} (his : is.Nodup) :
    Job.pollAll (x.jobs clients is) x.shared =
      ((is.foldl (turn clients) x).jobs clients is, (is.foldl (turn clients) x).shared) := by
  induction is generalizing x with
  | nil => rfl
  | cons i is ih =>
    obtain ⟨hi, his⟩ := List.nodup_cons.mp his
    have hothers : x.jobs clients is = (x.turn clients i).jobs clients is :=
      List.map_congr_left fun j hj => by rw [stands_turn_of_ne (ne_of_mem_of_not_mem hj hi)]
    have hrest : Job.pollAll ((x.turn clients i).jobs clients is)
        ((clients i).turn (x.stands i) x.shared).2 = _ := ih his
    rw [List.foldl_cons, jobs, List.map_cons, Job.pollAll_cons, Client.poll_job]
    change (_ :: (Job.pollAll (x.jobs clients is) _).1, (Job.pollAll (x.jobs clients is) _).2) = _
    rw [hothers, hrest, jobs, jobs, List.map_cons, stands_foldl_turn hi, stands_turn_self]

variable (clients x) in
/-- A turn leaves everything as it is, or there is less to wait for. -/
theorem turn_eq_or_lt (i : Fin n) :
    (x.turn clients i = x ∧ (clients i).turn (x.stands i) x.shared = (x.stands i, x.shared)) ∨
      (x.turn clients i).weight < x.weight := by
  rcases (clients i).turn_eq_or_lt (x.stands i) x.shared with h | h
  · refine .inl ⟨?_, h⟩
    rw [turn, h, Function.update_eq_self]
  · refine .inr (Finset.sum_lt_sum (fun j _ => ?_) ⟨i, Finset.mem_univ i, ?_⟩)
    · rcases eq_or_ne j i with rfl | hj
      · rw [stands_turn_self]
        exact h.le
      · rw [stands_turn_of_ne hj]
    · rw [stands_turn_self]
      exact h

/-- Turns leave everything as it is, or there is less to wait for. -/
theorem foldl_turn_eq_or_lt (is : List (Fin n)) :
    (is.foldl (turn clients) x = x ∧
      ∀ i ∈ is, (clients i).turn (x.stands i) x.shared = (x.stands i, x.shared)) ∨
      (is.foldl (turn clients) x).weight < x.weight := by
  induction is generalizing x with
  | nil => exact .inl ⟨rfl, List.forall_mem_nil _⟩
  | cons i is ih =>
    rw [List.foldl_cons]
    rcases turn_eq_or_lt clients x i with ⟨hx, hi⟩ | hlt
    · rw [hx]
      exact ih.imp_left fun ⟨his, hstays⟩ => ⟨his, List.forall_mem_cons.mpr ⟨hi, hstays⟩⟩
    · rcases ih (x := x.turn clients i) with ⟨his, -⟩ | his
      · exact .inr (by rwa [his])
      · exact .inr (his.trans hlt)

/-! ### What can happen -/

/-- A client stands elsewhere, and the lock has changed. -/
def put (x : Arena n) (i : Fin n) (stand : Stand) (lock : Lock) : Arena n where
  stands := Function.update x.stands i stand
  shared := { x.shared with lock := lock }

theorem stands_put_self (i : Fin n) (stand : Stand) (lock : Lock) :
    (x.put i stand lock).stands i = stand :=
  Function.update_self ..

theorem stands_put_of_ne {i j : Fin n} (h : j ≠ i) (stand : Stand) (lock : Lock) :
    (x.put i stand lock).stands j = x.stands j :=
  Function.update_of_ne h ..

/-- Only the last place of a client counts. -/
theorem put_put (i : Fin n) (stand stand' : Stand) (lock lock' : Lock) :
    (x.put i stand lock).put i stand' lock' = x.put i stand' lock' := by
  simp only [put, Function.update_idem]

variable (clients) in
/-- What can happen next. -/
inductive Move : Arena n → Arena n → Prop
  /-- A client comes and stands in line. -/
  | arrive {x : Arena n} {i : Fin n} (stand : x.stands i = .coming)
    (time : (clients i).arrives ≤ x.shared.time) :
    Move x (x.put i (.waiting x.shared.lock.enter.1 x.shared.time) x.shared.lock.enter.2)
  /-- The client in front goes on. -/
  | grant {x : Arena n} {i : Fin n} {ticket : Ticket} {asked : Nat}
    (stand : x.stands i = .waiting ticket asked) (holds : x.shared.lock.holds ticket) :
    Move x (x.put i (.holding ticket x.shared.time) x.shared.lock)
  /-- A client behind gives up. -/
  | refuse {x : Arena n} {i : Fin n} {ticket : Ticket} {asked : Nat}
    (stand : x.stands i = .waiting ticket asked) (holds : ¬ x.shared.lock.holds ticket)
    (time : asked + (clients i).timeout.millisUp ≤ x.shared.time) :
    Move x (x.put i (.gone (.refused x.shared.time)) (x.shared.lock.leave ticket))
  /-- The holder gives the lock back. -/
  | release {x : Arena n} {i : Fin n} {ticket : Ticket} {since : Nat}
    (stand : x.stands i = .holding ticket since) (time : since + (clients i).hold ≤ x.shared.time) :
    Move x (x.put i (.gone (.served since x.shared.time)) x.shared.lock.release)
  /-- Nobody has the lock without knowing it, and the clock goes on, but to no time past one that a
  client waits for. -/
  | wait {x : Arena n} {t : Nat}
    (idle : ∀ i ticket asked, x.stands i = .waiting ticket asked → ¬ x.shared.lock.holds ticket)
    (next : ∀ i u, (clients i).due (x.stands i) = some u → t ≤ u) : Move x (x.waitUntil t)

variable (clients) in
/-- What can happen in the end. -/
abbrev Reaches : Arena n → Arena n → Prop := Relation.ReflTransGen (Move clients)

/-- The client in front may go on until it has to wait. -/
theorem reaches_enjoy {i : Fin n} {ticket : Ticket} {asked : Nat}
    (hstand : x.stands i = .waiting ticket asked) (hholds : x.shared.lock.holds ticket) :
    Reaches clients x (x.put i ((clients i).enjoy ticket x.shared).1
      ((clients i).enjoy ticket x.shared).2.lock) := by
  have hgrant : Reaches clients x (x.put i (.holding ticket x.shared.time) x.shared.lock) :=
    .single (.grant hstand hholds)
  simp only [Client.enjoy]
  split
  · exact hgrant
  · next hhold =>
    rw [← put_put i (.holding ticket x.shared.time) _ x.shared.lock]
    exact hgrant.tail (.release (stands_put_self ..) (Nat.not_lt.mp hhold))

/-- A turn changes nothing but where the client stands and the lock. -/
theorem turn_eq_put (i : Fin n) : x.turn clients i =
    x.put i ((clients i).turn (x.stands i) x.shared).1
      ((clients i).turn (x.stands i) x.shared).2.lock := by
  have htime := (clients i).time_turn (x.stands i) x.shared
  rw [turn, put]
  congr
  generalize (clients i).turn (x.stands i) x.shared = r at htime
  obtain ⟨_, _, lock, _⟩ := r
  cases htime
  rfl

/-- A client that stays where it stands changes nothing. -/
theorem put_self {i : Fin n} {stand : Stand} (h : x.stands i = stand) :
    x.put i stand x.shared.lock = x := by
  rw [put, ← h, Function.update_eq_self]

/-- A client may take a turn. -/
theorem reaches_turn (i : Fin n) : Reaches clients x (x.turn clients i) := by
  rw [turn_eq_put]
  cases hstand : x.stands i with
  | coming =>
    simp only [Client.turn]
    split
    · rw [put_self hstand]
    · next htime =>
      have harrive : Reaches clients x
          (x.put i (.waiting x.shared.lock.enter.1 x.shared.time) x.shared.lock.enter.2) :=
        .single (.arrive hstand (Nat.not_lt.mp htime))
      split
      · next hholds =>
        rw [← put_put i (.waiting x.shared.lock.enter.1 x.shared.time) _ x.shared.lock.enter.2]
        exact harrive.trans (reaches_enjoy (stands_put_self ..) hholds)
      · next hholds =>
        split
        · next hdue =>
          rw [← put_put i (.waiting x.shared.lock.enter.1 x.shared.time) _ x.shared.lock.enter.2]
          exact harrive.tail (.refuse (stands_put_self ..) hholds hdue)
        · exact harrive
  | waiting ticket asked =>
    simp only [Client.turn]
    split
    · next hholds => exact reaches_enjoy hstand hholds
    · next hholds =>
      split
      · next hdue => exact .single (.refuse hstand hholds hdue)
      · rw [put_self hstand]
  | holding ticket since =>
    simp only [Client.turn]
    split
    · rw [put_self hstand]
    · next hhold => exact .single (.release hstand (Nat.not_lt.mp hhold))
  | gone fate => rw [Client.turn, put_self hstand]

theorem reaches_foldl_turn (is : List (Fin n)) : Reaches clients x (is.foldl (turn clients) x) := by
  induction is generalizing x with
  | nil => exact .refl
  | cons i is ih => exact (reaches_turn i).trans ih

variable (clients) in
/-- Some client can go on. -/
def Ripe (x : Arena n) : Prop :=
  ∃ i, Client.weight ((clients i).turn (x.stands i) x.shared).1 < Client.weight (x.stands i)

variable (clients) in
/-- All clients as one job. -/
def whole (x : Arena n) : Job Unit (List Fate) :=
  .join (x.jobs clients (List.finRange n)) fun fates => .done fates.flatten

variable (clients) in
/-- All clients have taken a turn. -/
def sweep (x : Arena n) : Arena n := (List.finRange n).foldl (turn clients) x

/-- All clients are gone, each with its fate. -/
theorem mapM_value?_of_gone {fate : Fin n → Fate} (h : ∀ i, x.stands i = .gone (fate i))
    (is : List (Fin n)) :
    (x.jobs clients is).mapM Job.value? = some (is.map fun i => [fate i]) := by
  induction is with
  | nil => rfl
  | cons i is ih =>
    rw [jobs] at ih ⊢
    rw [List.map_cons, List.mapM_cons, ih, h i]
    rfl

/-- Some client is not gone yet. -/
theorem mapM_value?_of_not_gone {i : Fin n} (h : ∀ fate, x.stands i ≠ .gone fate)
    {is : List (Fin n)} (hi : i ∈ is) : (x.jobs clients is).mapM Job.value? = none := by
  induction is with
  | nil => cases hi
  | cons j is ih =>
    rw [jobs] at ih ⊢
    rw [List.map_cons, List.mapM_cons]
    rcases List.mem_cons.mp hi with rfl | hi
    · cases hstand : x.stands i with
      | gone fate => exact absurd hstand (h fate)
      | _ => rfl
    · rw [ih hi]
      cases Job.value? ((clients j).job (x.stands j)) <;> rfl

/-- When all clients are polled, they take their turns, and are through if all are gone then. -/
theorem poll_whole : (x.whole clients).poll x.shared =
    match ((x.sweep clients).jobs clients (List.finRange n)).mapM Job.value? with
    | some fates => (.done fates.flatten, (x.sweep clients).shared)
    | none => ((x.sweep clients).whole clients, (x.sweep clients).shared) := by
  rw [whole, Job.poll, pollAll_jobs (List.nodup_finRange n), ← sweep]
  dsimp only
  split
  · next fates h => rw [h, Job.poll]
  · next h => rw [h, whole]

/-- Clients that are all gone after their turns have come to an end. -/
theorem run_of_gone {fate : Fin n → Fate} (h : ∀ i, (x.sweep clients).stands i = .gone (fate i))
    (m : Nat) : (x.whole clients).run (m + 1) x.shared =
      (some (List.ofFn fate), (x.sweep clients).shared) := by
  have hfates : ((List.finRange n).map fun i => [fate i]).flatten = List.ofFn fate := by
    rw [List.ofFn_eq_map, ← List.flatMap_def, ← List.map_eq_flatMap]
  rw [Job.run, poll_whole, mapM_value?_of_gone h, ← hfates]

/-- Clients that are not all gone after their turns go on, at once if one of them has the lock by
then. -/
theorem run_of_not_gone {i : Fin n} (h : ∀ fate, (x.sweep clients).stands i ≠ .gone fate)
    (m : Nat) : (x.whole clients).run (m + 1) x.shared =
      if ((x.sweep clients).whole clients).hasLock (x.sweep clients).shared.lock then
        ((x.sweep clients).whole clients).run m (x.sweep clients).shared
      else match ((x.sweep clients).whole clients).nextTime? with
        | some t => ((x.sweep clients).whole clients).run m
            ((x.sweep clients).waitUntil t).shared
        | none => (none, (x.sweep clients).shared) := by
  rw [Job.run, poll_whole, mapM_value?_of_not_gone h (List.mem_finRange i)]
  rfl

/-- If a client has the lock by now, one can go on. -/
theorem ripe_of_hasLock (h : (x.whole clients).hasLock x.shared.lock = true) : x.Ripe clients := by
  rw [whole, Job.hasLock, Job.oneHasLock_iff] at h
  obtain ⟨j, hj, hlock⟩ := h
  obtain ⟨i, -, rfl⟩ := List.mem_map.mp hj
  refine ⟨i, ?_⟩
  cases hstand : x.stands i with
  | waiting ticket asked =>
    rw [hstand] at hlock
    exact (clients i).turn_lt_of_holds hlock
  | _ =>
    rw [hstand] at hlock
    cases hlock

variable (clients) in
/-- A client that is not gone has something to wait for. -/
theorem exists_nextTime {i : Fin n} (h : ∀ fate, x.stands i ≠ .gone fate) :
    ∃ t, (x.whole clients).nextTime? = some t := by
  rw [← Option.isSome_iff_exists, Option.isSome_iff_ne_none, whole, Job.nextTime?]
  intro hnone
  have hi := Job.nextTimeOf?_eq_none hnone _ (List.mem_map_of_mem (List.mem_finRange i))
  rw [Client.nextTime?_job] at hi
  cases hstand : x.stands i with
  | gone fate => exact h fate hstand
  | _ =>
    rw [hstand] at hi
    cases hi

/-- At the next time that a client waits for, it can go on. -/
theorem ripe_of_nextTime {t : Nat} (h : (x.whole clients).nextTime? = some t) :
    (x.waitUntil t).Ripe clients := by
  rw [whole, Job.nextTime?] at h
  obtain ⟨⟨j, hj, ht⟩, -⟩ := Job.nextTimeOf?_eq_some h
  obtain ⟨i, -, rfl⟩ := List.mem_map.mp hj
  rw [Client.nextTime?_job] at ht
  exact ⟨i, (clients i).turn_lt_of_due ht (le_max_right ..)⟩

/-- If nobody has the lock without knowing it, the clock may go on to the next time that a client
waits for. -/
theorem move_wait {t : Nat} (hlock : ¬ (x.whole clients).hasLock x.shared.lock)
    (h : (x.whole clients).nextTime? = some t) : Move clients x (x.waitUntil t) := by
  refine .wait (fun i ticket asked hstand => ?_) fun i u hu => ?_
  · rw [whole, Job.hasLock, Job.oneHasLock_iff] at hlock
    intro hholds
    refine hlock ⟨_, List.mem_map_of_mem (List.mem_finRange i), ?_⟩
    rw [hstand]
    exact hholds
  · rw [whole, Job.nextTime?] at h
    refine (Job.nextTimeOf?_eq_some h).2 _ (List.mem_map_of_mem (List.mem_finRange i)) u ?_
    rw [Client.nextTime?_job, hu]

variable (clients) in
/-- Clients that have taken a turn are all gone, or one of them can go on, if not at once then at
the next time that one waits for. -/
theorem exists_next (x : Arena n) :
    (∃ fate : Fin n → Fate, (∀ i, (x.sweep clients).stands i = .gone (fate i)) ∧
      ∀ m, (x.whole clients).run (m + 1) x.shared =
        (some (List.ofFn fate), (x.sweep clients).shared)) ∨
    ∃ z, Reaches clients (x.sweep clients) z ∧ z.Ripe clients ∧
      z.weight = (x.sweep clients).weight ∧
      ∀ m, (x.whole clients).run (m + 1) x.shared = (z.whole clients).run m z.shared := by
  by_cases hgone : ∀ i, ∃ fate, (x.sweep clients).stands i = .gone fate
  · obtain ⟨fate, hfate⟩ := Classical.axiom_of_choice hgone
    exact .inl ⟨fate, hfate, run_of_gone hfate⟩
  right
  push Not at hgone
  obtain ⟨i, hi⟩ := hgone
  have hrun := run_of_not_gone hi
  generalize x.sweep clients = y at hi hrun ⊢
  by_cases hlock : (y.whole clients).hasLock y.shared.lock = true
  · simp only [if_pos hlock] at hrun
    exact ⟨y, .refl, ripe_of_hasLock hlock, rfl, hrun⟩
  · simp only [if_neg hlock] at hrun
    obtain ⟨t, ht⟩ := exists_nextTime clients hi
    simp only [ht] at hrun
    exact ⟨y.waitUntil t, .single (move_wait hlock ht), ripe_of_nextTime ht, rfl, hrun⟩

/-- Clients of whom one can go on come to an end, if they may take enough turns. -/
theorem exists_reaches_of_ripe {m : Nat} {x : Arena n} (hx : x.Ripe clients) (hm : x.weight < m) :
    ∃ (fate : Fin n → Fate) (y : Arena n), Reaches clients x y ∧
      (∀ i, y.stands i = .gone (fate i)) ∧
      (x.whole clients).run m x.shared = (some (List.ofFn fate), y.shared) := by
  induction m generalizing x with
  | zero => cases hm
  | succ m ih =>
    have hsweep : Reaches clients x (x.sweep clients) := reaches_foldl_turn _
    have hless : (x.sweep clients).weight < x.weight := by
      obtain ⟨i, hi⟩ := hx
      refine (foldl_turn_eq_or_lt (List.finRange n)).resolve_left fun ⟨_, hstays⟩ => ?_
      rw [hstays i (List.mem_finRange i)] at hi
      exact hi.false
    rcases exists_next clients x with ⟨fate, hgone, hrun⟩ | ⟨z, hz, hripe, hweight, hrun⟩
    · exact ⟨fate, _, hsweep, hgone, hrun m⟩
    · obtain ⟨fate, y, hy, hgone, hend⟩ := ih hripe (by omega)
      exact ⟨fate, y, (hsweep.trans hz).trans hy, hgone, (hrun m).trans hend⟩

/-- Clients that have just begun are all still to come. -/
theorem pollAll_scripts {s : Shared Unit} (hs : s.time = 0) (is : List (Fin n)) :
    Job.pollAll (is.map fun i => (clients i).script .done) s =
      Job.pollAll (is.map fun i => (clients i).job .coming) s := by
  induction is generalizing s with
  | nil => rfl
  | cons i is ih =>
    have hpoll : ((clients i).script .done).poll s = ((clients i).job .coming).poll s := by
      rw [Client.script_eq, Job.poll, hs, Nat.zero_add, Client.job]
    have htime : (((clients i).job .coming).poll s).2.time = 0 := by
      rw [Client.poll_job, Client.time_turn, hs]
    rw [List.map_cons, List.map_cons, Job.pollAll_cons, Job.pollAll_cons, hpoll, ih htime]

/-- Clients come to an end, if they may take enough turns. -/
theorem exists_reaches (clients : Fin n → Client) {turns : Nat} (hturns : 3 * n + 2 ≤ turns) :
    ∃ (fate : Fin n → Fate) (y : Arena n), Reaches clients .start y ∧
      (∀ i, y.stands i = .gone (fate i)) ∧
      (contest clients).run turns (.start ()) = (some (List.ofFn fate), y.shared) := by
  obtain ⟨m, rfl⟩ : ∃ m, turns = m + 1 := ⟨turns - 1, by omega⟩
  have hbegin : (contest clients).run (m + 1) (.start ()) =
      ((start : Arena n).whole clients).run (m + 1) (.start ()) := by
    have hscripts : Job.pollAll ((List.finRange n).map fun i => (clients i).script .done)
        (.start ()) = Job.pollAll ((start : Arena n).jobs clients (List.finRange n)) (.start ()) :=
      pollAll_scripts rfl (List.finRange n)
    refine Job.run_congr ?_ m
    change Job.poll (.join ((List.ofFn fun i => (clients i).script).map fun p => p .done)
      fun fates => .done fates.flatten) _ = _
    rw [List.ofFn_eq_map, List.map_map, whole, Job.poll, Job.poll, ← hscripts]
    rfl
  have hsweep : Reaches clients .start (start.sweep clients) := reaches_foldl_turn _
  have hweight : (start.sweep clients).weight ≤ 3 * n := by
    have hstart : (start : Arena n).weight = 3 * n := by
      simp [weight, start, Client.weight, Nat.mul_comm]
    rw [← hstart]
    exact (foldl_turn_eq_or_lt (List.finRange n)).elim (fun h => (congrArg weight h.1).le) le_of_lt
  rcases exists_next clients .start with ⟨fate, hgone, hrun⟩ | ⟨z, hz, hripe, hzw, hrun⟩
  · exact ⟨fate, _, hsweep, hgone, hbegin.trans (hrun m)⟩
  · obtain ⟨fate, y, hy, hgone, hend⟩ := exists_reaches_of_ripe (m := m) hripe (by omega)
    exact ⟨fate, y, (hsweep.trans hz).trans hy, hgone, hbegin.trans ((hrun m).trans hend)⟩

end Arena

end RelayFleet.Simulation
