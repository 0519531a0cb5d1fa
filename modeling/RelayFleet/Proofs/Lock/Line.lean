import RelayFleet.Proofs.Lock.Contest

/-!
# The line of a lock

Clients that want one lock stand in line for it. What every move keeps up comes in four layers: each
client is where its times put it (`Arena.Timely`), the line of the lock is made of the clients that
stand in it (`Arena.Lined`), they get the lock in their turn (`Arena.InTurn`), and they wait only
while someone before them has it (`Arena.Justified`).
-/

namespace RelayFleet

namespace Lock

variable {l : Lock} {t t' : Ticket}

theorem holds_iff : l.holds t ↔ l.line.head? = some t := by
  rw [holds, decide_eq_true_iff]

/-- Who has the lock stands in line. -/
theorem mem_of_holds (h : l.holds t) : t ∈ l.line :=
  List.mem_of_head? (holds_iff.mp h)

/-- Only one has the lock. -/
theorem holds_unique (h : l.holds t) (h' : l.holds t') : t = t' :=
  Option.some.inj ((holds_iff.mp h).symm.trans (holds_iff.mp h'))

/-- If anyone stands in line, one has the lock. -/
theorem exists_holds (h : t ∈ l.line) : ∃ u, l.holds u := by
  cases hline : l.line with
  | nil =>
    rw [hline] at h
    cases h
  | cons u rest => exact ⟨u, holds_iff.mpr (by rw [hline, List.head?_cons])⟩

/-- The holder gives the lock back by leaving the line. -/
theorem release_eq_leave (h : l.holds t) : l.release = l.leave t := by
  obtain ⟨rest, hrest⟩ := List.head?_eq_some_iff.mp (holds_iff.mp h)
  rw [release, leave, hrest, List.tail_cons, List.erase_cons_head]

/-- The holder keeps the lock when another leaves the line. -/
theorem holds_leave (h : l.holds t) (hne : t' ≠ t) : (l.leave t').holds t := by
  obtain ⟨rest, hrest⟩ := List.head?_eq_some_iff.mp (holds_iff.mp h)
  rw [holds_iff, leave, hrest, List.erase_cons_tail (by simpa using hne.symm), List.head?_cons]

/-- The holder keeps the lock when another stands in line. -/
theorem holds_enter (h : l.holds t) : l.enter.2.holds t := by
  obtain ⟨rest, hrest⟩ := List.head?_eq_some_iff.mp (holds_iff.mp h)
  rw [holds_iff, enter, hrest, List.cons_append, List.head?_cons]

end Lock

namespace Simulation

namespace Stand

/-- The ticket of a client who stands here. -/
def ticket? : Stand → Option Ticket
  | .waiting ticket _ | .holding ticket _ => some ticket
  | _ => none

/-- Since when a client who stands here has or had the lock. -/
def since? : Stand → Option Nat
  | .holding _ since | .gone (.served since _) => some since
  | _ => none

/-- Till when a client who stands here has waited by now. -/
def waitedTill (now : Nat) : Stand → Nat
  | .coming => 0
  | .waiting _ _ => now
  | .holding _ since | .gone (.served since _) => since
  | .gone (.refused time) => time

variable {stand : Stand}

/-- Who has a ticket waits or has the lock. -/
theorem of_ticket {ticket : Ticket} (h : stand.ticket? = some ticket) :
    (∃ asked, stand = .waiting ticket asked) ∨ ∃ since, stand = .holding ticket since := by
  cases stand with
  | waiting _ asked =>
    cases h
    exact .inl ⟨asked, rfl⟩
  | holding _ since =>
    cases h
    exact .inr ⟨since, rfl⟩
  | _ => cases h

/-- Who has had the lock has it or has given it back. -/
theorem of_since {since : Nat} (h : stand.since? = some since) :
    (∃ ticket, stand = .holding ticket since) ∨ ∃ till, stand = .gone (.served since till) := by
  rcases stand with _ | _ | ⟨ticket, _⟩ | ⟨_, till⟩ | _ <;> cases h
  · exact .inl ⟨ticket, rfl⟩
  · exact .inr ⟨till, rfl⟩

end Stand

namespace Client

/-- When a client gives up. -/
def deadline (c : Client) : Nat := c.arrives + c.timeout.millisUp

/-- What is true by now of a client who stands here. -/
def Timely (c : Client) (now : Nat) : Stand → Prop
  | .coming => now ≤ c.arrives
  | .waiting _ asked => asked = c.arrives ∧ asked ≤ now ∧ now ≤ c.deadline
  | .holding _ since =>
    (c.arrives ≤ since ∧ since ≤ c.deadline) ∧ since ≤ now ∧ now ≤ since + c.hold
  | .gone (.served since till) =>
    (c.arrives ≤ since ∧ since ≤ c.deadline) ∧ till = since + c.hold ∧ till ≤ now
  | .gone (.refused time) => time = c.deadline ∧ time ≤ now

/-- A client that has had the lock got it after it came, and not after now. -/
theorem Timely.of_since {c : Client} {now since : Nat} {stand : Stand} (h : c.Timely now stand)
    (hsince : stand.since? = some since) : c.arrives ≤ since ∧ since ≤ now := by
  obtain ⟨ticket, rfl⟩ | ⟨till, rfl⟩ := Stand.of_since hsince
  · exact ⟨h.1.1, h.2.1⟩
  · obtain ⟨⟨harrives, -⟩, rfl, htill⟩ := h
    exact ⟨harrives, (Nat.le_add_right ..).trans htill⟩

/-- A client that stands in line has come. -/
theorem Timely.of_ticket {c : Client} {now : Nat} {ticket : Ticket} {stand : Stand}
    (h : c.Timely now stand) (hticket : stand.ticket? = some ticket) : c.arrives ≤ now := by
  obtain ⟨asked, rfl⟩ | ⟨since, rfl⟩ := Stand.of_ticket hticket
  · obtain ⟨rfl, hasked, -⟩ := h
    exact hasked
  · exact h.1.1.trans h.2.1

end Client

namespace Arena

variable {n : Nat} {clients : Fin n → Client} {x y : Arena n}

/-- What is true of all places stays true of the others when a client stands elsewhere. -/
theorem forall_put {P : Fin n → Stand → Prop} {i : Fin n} {stand : Stand} (lock : Lock)
    (h : ∀ j, P j (x.stands j)) (hi : P i stand) :
    ∀ j, P j ((x.put i stand lock).stands j) :=
  (Function.forall_update_iff x.stands P).mpr ⟨hi, fun j _ => h j⟩

/-! ### Each in time -/

variable (clients) in
/-- Each client is where its times put it. -/
def Timely (x : Arena n) : Prop := ∀ i, (clients i).Timely x.shared.time (x.stands i)

theorem timely_start : (start : Arena n).Timely clients := fun _ => Nat.zero_le _

/-- The clock goes on, but to no time past one that a client waits for. -/
theorem Timely.wait {t : Nat} (h : x.Timely clients)
    (hnext : ∀ i u, (clients i).due (x.stands i) = some u → t ≤ u) :
    (x.waitUntil t).Timely clients := by
  intro i
  have hi := h i
  have hdue := hnext i
  change (clients i).Timely (max x.shared.time t) (x.stands i)
  revert hi hdue
  rcases x.stands i with _ | ⟨_, asked⟩ | ⟨_, s⟩ | ⟨s, till⟩ | time <;> intro hi hdue
  · exact max_le hi (hdue _ rfl)
  · obtain ⟨rfl, hasked, hnow⟩ := hi
    exact ⟨rfl, le_max_of_le_left hasked, max_le hnow (hdue _ rfl)⟩
  · exact ⟨hi.1, le_max_of_le_left hi.2.1, max_le hi.2.2 (hdue _ rfl)⟩
  · exact ⟨hi.1, hi.2.1, le_max_of_le_left hi.2.2⟩
  · exact ⟨hi.1, le_max_of_le_left hi.2⟩

theorem Timely.move (h : x.Timely clients) (hmove : Move clients x y) : y.Timely clients := by
  cases hmove with
  | @arrive i hstand htime =>
    have hi := h i
    rw [hstand] at hi
    obtain heq : x.shared.time = (clients i).arrives := le_antisymm hi htime
    exact forall_put _ h ⟨heq, le_rfl, heq.trans_le (Nat.le_add_right ..)⟩
  | @grant i _ asked hstand hholds =>
    have hi := h i
    rw [hstand] at hi
    obtain ⟨rfl, hasked, hnow⟩ := hi
    exact forall_put _ h ⟨⟨hasked, hnow⟩, le_rfl, Nat.le_add_right ..⟩
  | @refuse i _ asked hstand hholds htime =>
    have hi := h i
    rw [hstand] at hi
    obtain ⟨rfl, hasked, hnow⟩ := hi
    exact forall_put _ h ⟨le_antisymm hnow htime, le_rfl⟩
  | @release i _ since hstand htime =>
    have hi := h i
    rw [hstand] at hi
    exact forall_put _ h ⟨hi.1, le_antisymm hi.2.2 htime, le_rfl⟩
  | wait _ hnext => exact h.wait hnext

/-! ### The line -/

variable (clients) in
/-- The line is made of the clients that stand in it, in the order in which they came, and only the
one in front has the lock. -/
structure Lined (x : Arena n) : Prop where
  increasing : x.shared.lock.line.Pairwise (· < ·)
  drawn : ∀ k ∈ x.shared.lock.line, k < x.shared.lock.drawn
  mem_iff : ∀ k, k ∈ x.shared.lock.line ↔ ∃ i, (x.stands i).ticket? = some k
  unique : ∀ {i j k}, (x.stands i).ticket? = some k → (x.stands j).ticket? = some k → i = j
  rank : ∀ {i j k k'}, (x.stands i).ticket? = some k → (x.stands j).ticket? = some k' →
    (clients i).arrives < (clients j).arrives → k < k'
  holder : ∀ {i k since}, x.stands i = .holding k since → x.shared.lock.holds k

namespace Lined

theorem start : (start : Arena n).Lined clients where
  increasing := .nil
  drawn := List.forall_mem_nil _
  mem_iff _ := ⟨nofun, nofun⟩
  unique := nofun
  rank := nofun
  holder := nofun

/-- A client stands in line behind all who came before. -/
theorem arrive (h : x.Lined clients) (htimely : x.Timely clients) {i : Fin n}
    (hstand : x.stands i = .coming) :
    (x.put i (.waiting x.shared.lock.enter.1 x.shared.time) x.shared.lock.enter.2).Lined
      clients := by
  set y := x.put i (.waiting x.shared.lock.enter.1 x.shared.time) x.shared.lock.enter.2 with hy
  have hself : y.stands i = .waiting x.shared.lock.drawn x.shared.time := stands_put_self ..
  have hothers : ∀ {j}, j ≠ i → y.stands j = x.stands j := fun hj => stands_put_of_ne hj ..
  have hticket : ∀ {j k}, (y.stands j).ticket? = some k →
      (j = i ∧ k = x.shared.lock.drawn) ∨ (x.stands j).ticket? = some k := by
    intro j k hk
    rcases eq_or_ne j i with rfl | hj
    · rw [hself] at hk
      exact .inl ⟨rfl, (Option.some.inj hk).symm⟩
    · rw [hothers hj] at hk
      exact .inr hk
  have hticket' : ∀ {j k}, (x.stands j).ticket? = some k → (y.stands j).ticket? = some k := by
    intro j k hk
    rwa [hothers (by rintro rfl; rw [hstand] at hk; cases hk)]
  have hbelow : ∀ {j k}, (x.stands j).ticket? = some k → k < x.shared.lock.drawn :=
    fun hk => h.drawn _ ((h.mem_iff _).mpr ⟨_, hk⟩)
  have hline : ∀ k, k ∈ y.shared.lock.line ↔ k ∈ x.shared.lock.line ∨ k = x.shared.lock.drawn := by
    intro k
    change k ∈ x.shared.lock.line ++ [x.shared.lock.drawn] ↔ _
    rw [List.mem_append, List.mem_singleton]
  constructor
  case increasing =>
    refine List.pairwise_append.mpr
      ⟨h.increasing, List.pairwise_singleton .., fun k hk k' hk' => ?_⟩
    rw [List.mem_singleton.mp hk']
    exact h.drawn k hk
  case drawn =>
    intro k hk
    rcases (hline k).mp hk with hk | rfl
    · exact (h.drawn k hk).trans (Nat.lt_succ_self _)
    · exact Nat.lt_succ_self _
  case mem_iff =>
    intro k
    rw [hline, h.mem_iff]
    constructor
    · rintro (⟨j, hj⟩ | rfl)
      · exact ⟨j, hticket' hj⟩
      · exact ⟨i, by rw [hself]; rfl⟩
    · rintro ⟨j, hj⟩
      rcases hticket hj with ⟨-, rfl⟩ | hj
      · exact .inr rfl
      · exact .inl ⟨j, hj⟩
  case unique =>
    intro j j' k hj hj'
    rcases hticket hj with ⟨rfl, rfl⟩ | hold <;> rcases hticket hj' with ⟨rfl, hk⟩ | hold'
    · rfl
    · exact absurd (hbelow hold') (Nat.lt_irrefl _)
    · exact absurd (hk ▸ hbelow hold) (Nat.lt_irrefl _)
    · exact h.unique hold hold'
  case rank =>
    intro j j' k k' hj hj' hlt
    rcases hticket hj with ⟨rfl, rfl⟩ | hold <;> rcases hticket hj' with ⟨rfl, hk⟩ | hold'
    · exact absurd hlt (Nat.lt_irrefl _)
    · -- nobody in line comes after now
      have hnow := htimely j
      rw [hstand] at hnow
      exact absurd (((htimely j').of_ticket hold').trans hnow) (Nat.not_le.mpr hlt)
    · exact hk ▸ hbelow hold
    · exact h.rank hold hold' hlt
  case holder =>
    intro j k since hj
    rcases eq_or_ne j i with rfl | hne
    · rw [hself] at hj
      cases hj
    · rw [hothers hne] at hj
      exact Lock.holds_enter (h.holder hj)

/-- The client in front goes on. -/
theorem grant (h : x.Lined clients) {i : Fin n} {ticket : Ticket} {asked : Nat}
    (hstand : x.stands i = .waiting ticket asked) (hholds : x.shared.lock.holds ticket) :
    (x.put i (.holding ticket x.shared.time) x.shared.lock).Lined clients := by
  set y := x.put i (.holding ticket x.shared.time) x.shared.lock
  have hself : y.stands i = .holding ticket x.shared.time := stands_put_self ..
  have hothers : ∀ {j}, j ≠ i → y.stands j = x.stands j := fun hj => stands_put_of_ne hj ..
  have hticket : ∀ j, (y.stands j).ticket? = (x.stands j).ticket? := by
    intro j
    rcases eq_or_ne j i with rfl | hj
    · rw [hself, hstand]
      rfl
    · rw [hothers hj]
  constructor
  case increasing => exact h.increasing
  case drawn => exact h.drawn
  case mem_iff =>
    intro k
    simp only [hticket]
    exact h.mem_iff k
  case unique =>
    simp only [hticket]
    exact h.unique
  case rank =>
    simp only [hticket]
    exact h.rank
  case holder =>
    intro j k since hj
    rcases eq_or_ne j i with rfl | hne
    · rw [hself] at hj
      cases hj
      exact hholds
    · rw [hothers hne] at hj
      exact h.holder hj

/-- A client leaves the line, from any place in it. -/
theorem leave (h : x.Lined clients) {i : Fin n} {ticket : Ticket} {fate : Fate}
    (hstand : (x.stands i).ticket? = some ticket) :
    (x.put i (.gone fate) (x.shared.lock.leave ticket)).Lined clients := by
  set y := x.put i (.gone fate) (x.shared.lock.leave ticket)
  have hself : y.stands i = .gone fate := stands_put_self ..
  have hothers : ∀ {j}, j ≠ i → y.stands j = x.stands j := fun hj => stands_put_of_ne hj ..
  have hticket : ∀ {j k}, (y.stands j).ticket? = some k ↔
      k ≠ ticket ∧ (x.stands j).ticket? = some k := by
    intro j k
    rcases eq_or_ne j i with rfl | hj
    · rw [hself, hstand]
      refine ⟨nofun, fun ⟨hne, hk⟩ => absurd (Option.some.inj hk).symm hne⟩
    · rw [hothers hj]
      refine ⟨fun hk => ⟨?_, hk⟩, And.right⟩
      rintro rfl
      exact hj (h.unique hk hstand)
  have hnodup : x.shared.lock.line.Nodup := h.increasing.imp Nat.ne_of_lt
  have hline : ∀ {k}, k ∈ y.shared.lock.line ↔ k ≠ ticket ∧ k ∈ x.shared.lock.line :=
    hnodup.mem_erase_iff
  constructor
  case increasing => exact h.increasing.sublist List.erase_sublist
  case drawn => exact fun k hk => h.drawn k (hline.mp hk).2
  case mem_iff =>
    intro k
    simp only [hline, hticket, h.mem_iff, exists_and_left]
  case unique => exact fun hj hj' => h.unique (hticket.mp hj).2 (hticket.mp hj').2
  case rank => exact fun hj hj' => h.rank (hticket.mp hj).2 (hticket.mp hj').2
  case holder =>
    intro j k since hj
    have hk : (y.stands j).ticket? = some k := by rw [hj]; rfl
    have hne : j ≠ i := by
      rintro rfl
      rw [hself] at hj
      cases hj
    rw [hothers hne] at hj
    exact Lock.holds_leave (h.holder hj) (hticket.mp hk).1.symm

theorem move (h : x.Lined clients) (htimely : x.Timely clients) (hmove : Move clients x y) :
    y.Lined clients := by
  cases hmove with
  | arrive hstand => exact h.arrive htimely hstand
  | grant hstand hholds => exact h.grant hstand hholds
  | refuse hstand => exact h.leave (by rw [hstand]; rfl)
  | release hstand =>
    rw [Lock.release_eq_leave (h.holder hstand)]
    exact h.leave (by rw [hstand]; rfl)
  | wait => exact ⟨h.increasing, h.drawn, h.mem_iff, h.unique, h.rank, h.holder⟩

/-- The one in front has the lowest ticket. -/
theorem lt_of_holds (h : x.Lined clients) {k k' : Ticket} (hholds : x.shared.lock.holds k)
    (hk' : k' ∈ x.shared.lock.line) (hne : k' ≠ k) : k < k' := by
  obtain ⟨rest, hrest⟩ := List.head?_eq_some_iff.mp (Lock.holds_iff.mp hholds)
  have hincreasing := h.increasing
  rw [hrest] at hk' hincreasing
  exact List.rel_of_pairwise_cons hincreasing ((List.mem_cons.mp hk').resolve_left hne)

/-- Who stands in line and has not got the lock stands behind another who came no later and is in
front. -/
theorem exists_front (h : x.Lined clients) {i : Fin n} {k : Ticket}
    (hi : (x.stands i).ticket? = some k) (hk : ¬ x.shared.lock.holds k) :
    ∃ j k', (x.stands j).ticket? = some k' ∧ x.shared.lock.holds k' ∧ j ≠ i ∧
      (clients j).arrives ≤ (clients i).arrives := by
  have hmem := (h.mem_iff k).mpr ⟨i, hi⟩
  obtain ⟨k', hholds⟩ := Lock.exists_holds hmem
  obtain ⟨j, hj⟩ := (h.mem_iff k').mp (Lock.mem_of_holds hholds)
  have hlt : k' < k := h.lt_of_holds hholds hmem (by rintro rfl; exact hk hholds)
  refine ⟨j, k', hj, hholds, ?_, Nat.not_lt.mp fun harrives => ?_⟩
  · rintro rfl
    rw [hi] at hj
    exact hk (Option.some.inj hj ▸ hholds)
  · exact absurd (h.rank hi hj harrives) hlt.asymm

end Lined

/-! ### Each in its turn -/

/-- Since when the clients have the lock stays as it is if it does for one that moves. -/
theorem since?_put {i : Fin n} {stand : Stand} (lock : Lock)
    (h : stand.since? = (x.stands i).since?) (j : Fin n) :
    ((x.put i stand lock).stands j).since? = (x.stands j).since? :=
  forall_put (P := fun j stand => stand.since? = (x.stands j).since?) lock (fun _ => rfl) h j

/-- If a client moves to where it does not wait, those who wait are as before. -/
theorem waiting_of_put {i j : Fin n} {stand : Stand} {lock : Lock} {k : Ticket} {asked : Nat}
    (hstand : ∀ k asked, stand ≠ .waiting k asked)
    (h : (x.put i stand lock).stands j = .waiting k asked) :
    j ≠ i ∧ x.stands j = .waiting k asked := by
  rcases eq_or_ne j i with rfl | hj
  · rw [stands_put_self] at h
    exact absurd h (hstand k asked)
  · exact ⟨hj, by rwa [stands_put_of_ne hj] at h⟩

variable (clients) in
/-- Who waits has come after those who have had the lock, and who came first has given the lock back
before the other gets it. -/
structure InTurn (x : Arena n) : Prop where
  ahead : ∀ {i j k asked since}, x.stands i = .waiting k asked →
    (x.stands j).since? = some since → (clients j).arrives ≤ (clients i).arrives
  order : ∀ {i j since since'}, (x.stands i).since? = some since →
    (x.stands j).since? = some since' → (clients i).arrives < (clients j).arrives →
    since + (clients i).hold ≤ since'

namespace InTurn

theorem start : (start : Arena n).InTurn clients := ⟨nofun, nofun⟩

/-- It matters only who has had the lock and who waits. -/
theorem of_since (h : x.InTurn clients) (hsince : ∀ i, (y.stands i).since? = (x.stands i).since?)
    (hwaiting : ∀ {i k asked}, y.stands i = .waiting k asked → x.stands i = .waiting k asked ∨
      ∀ {j since}, (x.stands j).since? = some since → (clients j).arrives ≤ (clients i).arrives) :
    y.InTurn clients where
  ahead hi hj := (hwaiting hi).elim (fun hi => h.ahead hi (hsince _ ▸ hj))
    fun hahead => hahead (hsince _ ▸ hj)
  order hi hj := h.order (hsince _ ▸ hi) (hsince _ ▸ hj)

/-- The client in front gets the lock when all that came before are through. -/
theorem grant (h : x.InTurn clients) (htimely : x.Timely clients) (hlined : x.Lined clients)
    {i : Fin n} {k : Ticket} {asked : Nat} (hstand : x.stands i = .waiting k asked)
    (hholds : x.shared.lock.holds k) :
    (x.put i (.holding k x.shared.time) x.shared.lock).InTurn clients := by
  set y := x.put i (.holding k x.shared.time) x.shared.lock
  have hself : (y.stands i).since? = some x.shared.time := by rw [stands_put_self]; rfl
  have hothers : ∀ {j}, j ≠ i → y.stands j = x.stands j := fun hj => stands_put_of_ne hj ..
  have hi : (x.stands i).ticket? = some k := by rw [hstand]; rfl
  constructor
  case ahead =>
    intro j j' k' asked' since hj hj'
    obtain ⟨-, hwaits⟩ := waiting_of_put (by nofun) hj
    rcases eq_or_ne j' i with rfl | hne'
    · by_contra hlt
      have hk' : (x.stands j).ticket? = some k' := by rw [hwaits]; rfl
      have hrank := hlined.rank hk' hi (Nat.not_le.mp hlt)
      refine absurd (hlined.lt_of_holds hholds ((hlined.mem_iff k').mpr ⟨j, hk'⟩) ?_) hrank.asymm
      exact hrank.ne
    · exact h.ahead hwaits (hothers hne' ▸ hj')
  case order =>
    intro j j' since since' hj hj' hlt
    have hne' : j' ≠ j := by
      rintro rfl
      exact hlt.false
    rcases eq_or_ne j i with rfl | hne
    · exact absurd (h.ahead hstand (hothers hne' ▸ hj')) (Nat.not_le.mpr hlt)
    rw [hothers hne] at hj
    rcases eq_or_ne j' i with rfl | hne''
    · obtain rfl : x.shared.time = since' := Option.some.inj (hself.symm.trans hj')
      have hjtimely := htimely j
      obtain ⟨k', hstand'⟩ | ⟨till, hstand'⟩ := Stand.of_since hj
      · -- the lock has one holder
        have hk' : (x.stands j).ticket? = some k' := by rw [hstand']; rfl
        obtain rfl := Lock.holds_unique (hlined.holder hstand') hholds
        exact absurd (hlined.unique hk' hi) hne
      · rw [hstand'] at hjtimely
        obtain ⟨-, rfl, htill⟩ := hjtimely
        exact htill
    · exact h.order hj (hothers hne'' ▸ hj') hlt

theorem move (h : x.InTurn clients) (htimely : x.Timely clients) (hlined : x.Lined clients)
    (hmove : Move clients x y) : y.InTurn clients := by
  cases hmove with
  | @arrive i hstand htime =>
    refine h.of_since (since?_put _ (by rw [hstand]; rfl)) fun {j k asked} hj => ?_
    rcases eq_or_ne j i with rfl | hne
    · have hi := htimely j
      rw [hstand] at hi
      exact .inr fun hsince =>
        ((htimely _).of_since hsince).1.trans (((htimely _).of_since hsince).2.trans hi)
    · exact .inl (by rwa [stands_put_of_ne hne] at hj)
  | grant hstand hholds => exact h.grant htimely hlined hstand hholds
  | refuse hstand =>
    exact h.of_since (since?_put _ (by rw [hstand]; rfl)) fun hj =>
      .inl (waiting_of_put (by nofun) hj).2
  | release hstand =>
    exact h.of_since (since?_put _ (by rw [hstand]; rfl)) fun hj =>
      .inl (waiting_of_put (by nofun) hj).2
  | wait => exact ⟨h.ahead, h.order⟩

end InTurn

/-! ### Waiting with reason -/

variable (clients) in
/-- A client has or had the lock at a time. -/
def Has (x : Arena n) (i : Fin n) (t : Nat) : Prop :=
  ∃ since, (x.stands i).since? = some since ∧ since ≤ t ∧ t < since + (clients i).hold

variable (clients) in
/-- Someone who came before has the lock at a time. -/
def Blocked (x : Arena n) (i : Fin n) (t : Nat) : Prop :=
  ∃ j, (clients j).arrives < (clients i).arrives ∧ x.Has clients j t

variable (clients) in
/-- A time with the lock is over at a time. -/
def Freed (x : Arena n) (t : Nat) : Prop :=
  ∃ j since, (x.stands j).since? = some since ∧ since + (clients j).hold = t

/-- Who has had the lock has had it for ever. -/
theorem since?_move (hmove : Move clients x y) {i : Fin n} {since : Nat}
    (h : (x.stands i).since? = some since) : (y.stands i).since? = some since := by
  cases hmove with
  | wait => exact h
  | release hstand =>
    rw [since?_put _ (by rw [hstand]; rfl)]
    exact h
  | arrive hstand | grant hstand | refuse hstand =>
    rw [stands_put_of_ne]
    · exact h
    · rintro rfl
      rw [hstand] at h
      cases h

theorem Blocked.move {i : Fin n} {t : Nat} (h : x.Blocked clients i t)
    (hmove : Move clients x y) : y.Blocked clients i t :=
  have ⟨j, hlt, since, hsince, ht⟩ := h
  ⟨j, hlt, since, since?_move hmove hsince, ht⟩

theorem Freed.move {t : Nat} (h : x.Freed clients t) (hmove : Move clients x y) :
    y.Freed clients t :=
  have ⟨j, since, hsince, ht⟩ := h
  ⟨j, since, since?_move hmove hsince, ht⟩

variable (clients) in
/-- Clients wait only while someone who came before has the lock, and one who is in front and does
not know it has just come there. -/
structure Justified (x : Arena n) : Prop where
  waited : ∀ {i t}, (clients i).arrives ≤ t → t < (x.stands i).waitedTill x.shared.time →
    x.Blocked clients i t
  refused : ∀ {i t}, x.stands i = .gone (.refused t) → x.Blocked clients i t ∨ x.Freed clients t
  ready : ∀ {i k asked}, x.stands i = .waiting k asked → x.shared.lock.holds k →
    (clients i).arrives = x.shared.time ∨ x.Freed clients x.shared.time

namespace Justified

theorem start : (start : Arena n).Justified clients := ⟨nofun, nofun, nofun⟩

/-- Who stands behind has someone before it who has the lock, or whose time is up just now. -/
theorem blocked_or_freed (h : x.Justified clients) (htimely : x.Timely clients)
    (hlined : x.Lined clients) (harrivals : Function.Injective fun i => (clients i).arrives)
    {i : Fin n} {k : Ticket} (hi : (x.stands i).ticket? = some k)
    (hk : ¬ x.shared.lock.holds k) :
    x.Blocked clients i x.shared.time ∨ x.Freed clients x.shared.time := by
  obtain ⟨j, k', hj, hholds, hne, hle⟩ := hlined.exists_front hi hk
  have hlt : (clients j).arrives < (clients i).arrives := hle.lt_of_ne (harrivals.ne hne)
  have hjtimely := htimely j
  obtain ⟨asked, hstand⟩ | ⟨since, hstand⟩ := Stand.of_ticket hj
  · refine (h.ready hstand hholds).elim (fun hnow => ?_) .inr
    exact absurd ((htimely i).of_ticket hi) (Nat.not_le.mpr (hnow ▸ hlt))
  · rw [hstand] at hjtimely
    obtain ⟨-, hsince, hnow⟩ := hjtimely
    have hhas : (x.stands j).since? = some since := by rw [hstand]; rfl
    rcases hnow.lt_or_eq with hnow | hnow
    · exact .inl ⟨j, hlt, since, hhas, hsince, hnow⟩
    · exact .inr ⟨j, since, hhas, hnow.symm⟩

/-- While the clock goes on, the one in front keeps the others waiting. -/
theorem wait (h : x.Justified clients) (htimely : x.Timely clients) (hlined : x.Lined clients)
    (harrivals : Function.Injective fun i => (clients i).arrives) {t : Nat}
    (hidle : ∀ i k asked, x.stands i = .waiting k asked → ¬ x.shared.lock.holds k)
    (hnext : ∀ i u, (clients i).due (x.stands i) = some u → t ≤ u) :
    (x.waitUntil t).Justified clients := by
  constructor
  case waited =>
    intro i u harrives hu
    change u < (x.stands i).waitedTill (max x.shared.time t) at hu
    by_cases hbefore : u < (x.stands i).waitedTill x.shared.time
    · exact h.waited harrives hbefore
    cases hstand : x.stands i with
    | waiting k asked =>
      rw [hstand] at hu hbefore
      have hi : (x.stands i).ticket? = some k := by rw [hstand]; rfl
      have hnow : x.shared.time ≤ u := Nat.not_lt.mp hbefore
      have hut : u < t := (lt_max_iff.mp hu).resolve_left (Nat.not_lt.mpr hnow)
      obtain ⟨j, k', hj, hholds, hne, hle⟩ := hlined.exists_front hi (hidle i k asked hstand)
      refine ⟨j, hle.lt_of_ne (harrivals.ne hne), ?_⟩
      have hjtimely := htimely j
      obtain ⟨asked', hstand'⟩ | ⟨since, hstand'⟩ := Stand.of_ticket hj
      · exact absurd hholds (hidle j k' asked' hstand')
      · rw [hstand'] at hjtimely
        have hlast : t ≤ since + (clients j).hold := hnext j _ (by rw [hstand']; rfl)
        exact ⟨since, congrArg Stand.since? hstand', hjtimely.2.1.trans hnow, hut.trans_le hlast⟩
    | gone fate =>
      rw [hstand] at hu hbefore
      cases fate <;> exact absurd hu hbefore
    | _ =>
      rw [hstand] at hu hbefore
      exact absurd hu hbefore
  case refused => exact h.refused
  case ready => exact fun hi hholds => absurd hholds (hidle _ _ _ hi)

/-- What is to be shown of a client that moves. -/
theorem put (h : x.Justified clients) {i : Fin n} {stand : Stand} {lock : Lock}
    (hmove : Move clients x (x.put i stand lock))
    (hwaited : ∀ t, (clients i).arrives ≤ t → t < stand.waitedTill x.shared.time →
      x.Blocked clients i t)
    (hrefused : ∀ t, stand = .gone (.refused t) → x.Blocked clients i t ∨ x.Freed clients t)
    (hready : ∀ {j k asked}, (x.put i stand lock).stands j = .waiting k asked → lock.holds k →
      (clients j).arrives = x.shared.time ∨ (x.put i stand lock).Freed clients x.shared.time) :
    (x.put i stand lock).Justified clients := by
  constructor
  case waited =>
    intro j t harrives ht
    rcases eq_or_ne j i with rfl | hne
    · rw [stands_put_self] at ht
      exact (hwaited t harrives ht).move hmove
    · rw [stands_put_of_ne hne] at ht
      exact (h.waited harrives ht).move hmove
  case refused =>
    intro j t hj
    suffices hx : x.Blocked clients j t ∨ x.Freed clients t from
      hx.imp (Blocked.move · hmove) (Freed.move · hmove)
    rcases eq_or_ne j i with rfl | hne
    · rw [stands_put_self] at hj
      exact hrefused t hj
    · rw [stands_put_of_ne hne] at hj
      exact h.refused hj
  case ready => exact hready

theorem move (h : x.Justified clients) (htimely : x.Timely clients) (hlined : x.Lined clients)
    (harrivals : Function.Injective fun i => (clients i).arrives) (hmove : Move clients x y) :
    y.Justified clients := by
  have hmove' := hmove
  cases hmove with
  | @arrive i hstand htime =>
    have hi := htimely i
    rw [hstand] at hi
    refine h.put hmove' (fun t harrives ht => ?_) (by nofun) fun {j k asked} hj hholds => ?_
    · exact absurd (ht.trans_le hi) (Nat.not_lt.mpr harrives)
    rcases eq_or_ne j i with rfl | hne
    · exact .inl (le_antisymm htime hi)
    rw [stands_put_of_ne hne] at hj
    have hmem : k ∈ x.shared.lock.line := (hlined.mem_iff k).mpr ⟨j, by rw [hj]; rfl⟩
    obtain ⟨k', hfront⟩ := Lock.exists_holds hmem
    obtain rfl := Lock.holds_unique (Lock.holds_enter hfront) hholds
    exact (h.ready hj hfront).imp_right (Freed.move · hmove')
  | @grant i k asked hstand hholds =>
    refine h.put hmove' (fun t harrives ht => ?_) (by nofun) fun {j k' asked'} hj hholds' => ?_
    · exact h.waited harrives (by rw [hstand]; exact ht)
    obtain ⟨hne, hj⟩ := waiting_of_put (by nofun) hj
    obtain rfl := Lock.holds_unique hholds hholds'
    exact absurd (hlined.unique (by rw [hj]; rfl) (by rw [hstand]; rfl)) hne
  | @refuse i k asked hstand hholds htime =>
    have hi : (x.stands i).ticket? = some k := by rw [hstand]; rfl
    refine h.put hmove' (fun t harrives ht => ?_) (fun t ht => ?_)
      fun {j k' asked'} hj hholds' => ?_
    · exact h.waited harrives (by rw [hstand]; exact ht)
    · cases ht
      exact h.blocked_or_freed htimely hlined harrivals hi hholds
    obtain ⟨hne, hj⟩ := waiting_of_put (by nofun) hj
    obtain ⟨k'', hfront⟩ := Lock.exists_holds ((hlined.mem_iff k).mpr ⟨i, hi⟩)
    have hkeeps : (x.shared.lock.leave k).holds k'' :=
      Lock.holds_leave hfront (by rintro rfl; exact hholds hfront)
    obtain rfl := Lock.holds_unique hkeeps hholds'
    exact (h.ready hj hfront).imp_right (Freed.move · hmove')
  | @release i k since hstand htime =>
    have hi := htimely i
    rw [hstand] at hi
    refine h.put hmove' (fun t harrives ht => ?_) (by nofun) fun _ _ => .inr ?_
    · exact h.waited harrives (by rw [hstand]; exact ht)
    · exact ⟨i, since, by rw [stands_put_self]; rfl, le_antisymm htime hi.2.2⟩
  | wait hidle hnext => exact h.wait htimely hlined harrivals hidle hnext

end Justified

/-! ### Whatever happens -/

theorem timely_of_reaches (h : Reaches clients .start x) : x.Timely clients := by
  induction h with
  | refl => exact timely_start
  | tail _ hmove ih => exact ih.move hmove

theorem lined_of_reaches (h : Reaches clients .start x) : x.Lined clients := by
  induction h with
  | refl => exact .start
  | tail h hmove ih => exact ih.move (timely_of_reaches h) hmove

theorem inTurn_of_reaches (h : Reaches clients .start x) : x.InTurn clients := by
  induction h with
  | refl => exact .start
  | tail h hmove ih => exact ih.move (timely_of_reaches h) (lined_of_reaches h) hmove

theorem justified_of_reaches (harrivals : Function.Injective fun i => (clients i).arrives)
    (h : Reaches clients .start x) : x.Justified clients := by
  induction h with
  | refl => exact .start
  | tail h hmove ih => exact ih.move (timely_of_reaches h) (lined_of_reaches h) harrivals hmove

/-- At most one client has the lock, and the lock is held as long as anyone stands in line. -/
structure Exclusive (x : Arena n) : Prop where
  one : ∀ {i j k k' since since'}, x.stands i = .holding k since →
    x.stands j = .holding k' since' → i = j
  isHeld_iff : x.shared.lock.isHeld ↔ ∃ i k, (x.stands i).ticket? = some k

theorem Lined.exclusive (h : x.Lined clients) : x.Exclusive where
  one hi hj := by
    obtain rfl := Lock.holds_unique (h.holder hi) (h.holder hj)
    exact h.unique (by rw [hi]; rfl) (by rw [hj]; rfl)
  isHeld_iff := by
    rw [exists_comm]
    simp only [Lock.isHeld, Bool.not_eq_true', List.isEmpty_eq_false_iff_exists_mem, h.mem_iff]

end Arena

end Simulation

end RelayFleet
