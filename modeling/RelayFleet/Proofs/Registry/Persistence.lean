import RelayFleet.Proofs.Interleaving.Calls
import RelayFleet.Proofs.Registry.Keyed
import RelayFleet.Proofs.Registry.Zones

/-!
# What is stored is read back

A row, a binding and the mode are kept as text that decodes to what was stored, and only actions
that write their key change this text. So whatever happens in between, a relay is read back as it
was stored (`Registry.getRelay_after`), and every row comes from the action that wrote it last
(`Action.rowOrigin`). Listings go through all rows: where the other rows stand
under the ids of their relays as well, and no action gives a stored relay another id, a listing has
the relay once if it satisfies the condition of the listing (`Registry.Sound.lists`). The keys of a
table ascend as characters do, which is the order of their bytes (`Text.bytes_lt`).
-/

namespace RelayFleet

/-! ## The order of bytes -/

namespace Text

/-- The bytes of a text. -/
def bytes (s : String) : List UInt8 := s.toByteArray.data.toList

/-- The bytes of a text are those of its characters. -/
theorem bytes_eq_flatMap (s : String) : bytes s = s.toList.flatMap String.utf8EncodeChar := by
  rw [bytes, ← String.utf8Encode_toList, List.utf8Encode, List.data_toByteArray]

/-- What begins with the bytes of a smaller character comes first. -/
theorem utf8EncodeChar_append_lt {c d : Char} (h : c < d) (x y : List UInt8) :
    String.utf8EncodeChar c ++ x < String.utf8EncodeChar d ++ y := by
  have hlt : c.val.toNat < d.val.toNat := h
  have hd : d.val.toNat < 0x110000 := by
    have hvalid := d.valid
    simp only [UInt32.isValidChar, Nat.isValidChar] at hvalid
    omega
  simp only [String.utf8EncodeChar]
  generalize c.val.toNat = m at *
  generalize d.val.toNat = n at *
  have hdiv : ∀ k : Nat, k / 4096 = k / 64 / 64 ∧ k / 262144 = k / 64 / 64 / 64 := by omega
  simp only [hdiv]
  -- the first byte tells how many there are, and the bytes are digits to the base of 64
  split_ifs <;>
    simp only [List.cons_append, List.nil_append, List.cons_lt_cons_iff, UInt8.lt_iff_toNat_lt,
      ← UInt8.toNat_inj, UInt8.toNat_ofNat'] <;>
    omega

/-- Texts are in the order of their bytes. -/
theorem bytes_lt {s t : String} (h : s < t) : bytes s < bytes t := by
  have hchars : ∀ {cs ds : List Char}, cs < ds →
      cs.flatMap String.utf8EncodeChar < ds.flatMap String.utf8EncodeChar := by
    intro cs ds hlt
    induction hlt with
    | @nil d ds =>
      rw [List.flatMap_nil, List.flatMap_cons]
      cases hd : String.utf8EncodeChar d with
      | nil => simp at hd
      | cons b bs => exact List.nil_lt_cons ..
    | rel hlt =>
      rw [List.flatMap_cons, List.flatMap_cons]
      exact utf8EncodeChar_append_lt hlt _ _
    | cons _ ih =>
      rw [List.flatMap_cons, List.flatMap_cons]
      exact List.append_left_lt ih
  rw [bytes_eq_flatMap, bytes_eq_flatMap]
  exact hchars h

/-- The order of their bytes is no other one. -/
theorem bytes_lt_iff {s t : String} : bytes s < bytes t ↔ s < t := by
  refine ⟨fun h => ?_, bytes_lt⟩
  by_contra hnot
  rcases Decidable.em (s = t) with rfl | hne
  · exact List.lt_irrefl _ h
  · have hlt : t < s := Decidable.byContradiction fun hnot' =>
      hne (String.le_antisymm (String.not_lt.mp hnot') (String.not_lt.mp hnot))
    exact List.lt_irrefl _ (List.lt_trans h (bytes_lt hlt))

end Text

/-! ## Who writes what -/

/-- The relay is the same one, in the same zone and at the same address. -/
structure Relay.SamePlace (r r' : Relay) : Prop where
  id_eq : r'.id = r.id
  zoneId_eq : r'.zoneId = r.zoneId
  publicAddress_eq : r'.publicAddress = r.publicAddress

namespace Action

variable {a : Action} {id : RelayId} {b : Binding} {g : Registry} {time : Millis}

/-- Writes or removes the row under a key. -/
def WritesRelay (id : RelayId) : Action → Prop
  | .transact (.putRelay r) => r.id = id
  | .transact (.updateRelay k _) | .transact (.deleteRelay k) => k = id
  | _ => False

/-- Writes or removes the binding `b` of a workload. A release does so if it is one of the relay of
the binding. -/
def WritesBinding (w : WorkloadId) (b : Binding) : Action → Prop
  | .transact (.putBinding b') => b'.workloadId = w
  | .transact (.deleteBinding w') => w' = w
  | .transact (.releaseBindings id workloads) => b.relayId = some id ∧ w ∈ workloads
  | _ => False

/-- Writes the mode. -/
def WritesMode : Action → Prop
  | .transact (.putMode _) => True
  | _ => False

/-- Gives no stored relay another id. -/
def RenamesNone : Action → Prop
  | .transact (.updateRelay _ change) => ∀ r, (change r).id = r.id
  | _ => True

end Action

namespace Registry

variable {g : Registry} {r : Relay} {b : Binding} {id k : RelayId} {time : Millis}

/-- An update leaves the rows under the other keys. -/
theorem get?_updateRelay (g : Registry) (time : Millis) (change : Relay → Relay) (h : k ≠ id) :
    (g.updateRelay time k change).2.relays.get? id = g.relays.get? id := by
  unfold updateRelay
  cases g.requireRelay k with
  | error e => rfl
  | ok before => exact (g.relays.get?_insert k id _).trans (if_neg (Ne.symm h))

/-- A release of one workload leaves a binding that is another one or to another relay. -/
theorem get?_releaseBinding {released released' : UInt32 × Table String} {text : String}
    {w w' : WorkloadId} (hb : decodeRow Binding.decoder text = .ok b)
    (hkept : ¬ (b.relayId = some id ∧ w = w')) (hrow : released.2.get? w = some text)
    (h : releaseBinding id released w' = .ok released') : released'.2.get? w = some text := by
  unfold releaseBinding at h
  split at h
  · cases h
    exact hrow
  · next text' htext' =>
    cases hdec : decodeRow Binding.decoder text' with
    | error e =>
      rw [hdec] at h
      cases h
    | ok b' =>
      rw [hdec] at h
      cases h
      split
      · next hid =>
        refine (released.2.get?_erase w' w).trans ((if_neg ?_).trans hrow)
        -- the binding of this very workload decodes to `b`, which is to another relay
        intro heq
        rw [← heq, hrow] at htext'
        cases htext'
        rw [hb] at hdec
        cases hdec
        exact hkept ⟨hid, heq⟩
      · exact hrow

/-- A release leaves a binding that it does not list or that is to another relay. -/
theorem get?_releaseBindings {text : String} {w : WorkloadId} {workloads : List WorkloadId}
    (hb : decodeRow Binding.decoder text = .ok b)
    (hkept : ¬ (b.relayId = some id ∧ w ∈ workloads)) (hrow : g.bindings.get? w = some text) :
    (g.releaseBindings id workloads).2.bindings.get? w = some text := by
  have hfold : ∀ (ws : List WorkloadId) (released : UInt32 × Table String),
      (∀ w' ∈ ws, w' ∈ workloads) → released.2.get? w = some text →
      ∀ released', ws.foldlM (releaseBinding id) released = .ok released' →
        released'.2.get? w = some text := by
    intro ws
    induction ws with
    | nil =>
      intro released _ hreleased released' h
      cases h
      exact hreleased
    | cons w' ws ih =>
      intro released hws hreleased released' h
      rw [List.foldlM_cons] at h
      cases hnext : releaseBinding id released w' with
      | error e =>
        rw [hnext] at h
        cases h
      | ok next =>
        rw [hnext] at h
        refine ih next (fun k hk => hws k (List.mem_cons_of_mem _ hk)) ?_ released' h
        refine get?_releaseBinding hb ?_ hreleased hnext
        rintro ⟨hid, rfl⟩
        exact hkept ⟨hid, hws _ List.mem_cons_self⟩
  unfold releaseBindings
  split
  · exact hrow
  · next heq => exact hfold workloads _ (fun _ hw => hw) hrow _ heq

end Registry

namespace Action

variable {a : Action} {id : RelayId} {b : Binding} {g : Registry} {time : Millis}

/-- An action that does not write under a key leaves the text there. -/
theorem get?_registryAfter (h : ¬ a.WritesRelay id) :
    (a.registryAfter time g).relays.get? id = g.relays.get? id := by
  cases a with
  | transact t =>
    cases t with
    | putRelay r => exact (g.relays.get?_insert r.id id _).trans (if_neg (Ne.symm h))
    | updateRelay k change => exact g.get?_updateRelay time change h
    | deleteRelay k => exact (g.relays.get?_erase k id).trans (if_neg (Ne.symm h))
    | releaseBindings =>
      simp only [registryAfter, Transaction.run, Registry.releaseBindings]
      split <;> rfl
    | _ => rfl
  | _ => rfl

/-- An action that does not write under a key leaves the relay there. -/
theorem relay?_registryAfter (h : ¬ a.WritesRelay id) :
    (a.registryAfter time g).relay? id = g.relay? id := by
  rw [Registry.relay?, get?_registryAfter h, Registry.relay?]

/-- An action that does not write a binding leaves its text. -/
theorem bindings_registryAfter {text : String} {w : WorkloadId}
    (hb : decodeRow Binding.decoder text = .ok b) (h : ¬ a.WritesBinding w b)
    (hrow : g.bindings.get? w = some text) :
    (a.registryAfter time g).bindings.get? w = some text := by
  cases a with
  | transact t =>
    cases t with
    | putBinding b' =>
      exact (g.bindings.get?_insert b'.workloadId _ _).trans ((if_neg (Ne.symm h)).trans hrow)
    | deleteBinding w' => exact (g.bindings.get?_erase w' w).trans ((if_neg (Ne.symm h)).trans hrow)
    | releaseBindings => exact Registry.get?_releaseBindings hb h hrow
    | updateRelay k change =>
      simp only [registryAfter, Transaction.run, Registry.updateRelay]
      split <;> exact hrow
    | _ => exact hrow
  | _ => exact hrow

/-- An action that does not write the mode leaves its text. -/
theorem mode_registryAfter (h : ¬ a.WritesMode) : (a.registryAfter time g).mode = g.mode := by
  cases a with
  | transact t =>
    cases t with
    | putMode => exact absurd trivial h
    | updateRelay k change =>
      simp only [registryAfter, Transaction.run, Registry.updateRelay]
      split <;> rfl
    | releaseBindings =>
      simp only [registryAfter, Transaction.run, Registry.releaseBindings]
      split <;> rfl
    | _ => rfl
  | _ => rfl

/-- Where the row comes from that stands under a key after an action. -/
inductive RowOrigin (g : Registry) (a : Action) (time : Millis) (id : RelayId) (r' : Relay) : Prop
  | rests (row : g.relay? id = some r')
  | changes {r : Relay} {change : Relay → Relay} (row : g.relay? id = some r)
    (action : a = .transact (.updateRelay id change))
    (eq : r' = { change r with updatedAt := time })
  | stores (action : a = .transact (.putRelay r')) (id_eq : r'.id = id)

/-- Every row has been there, was changed or is stored by the action. -/
theorem rowOrigin {r' : Relay}
    (hr' : (a.registryAfter time g).relay? id = some r') : RowOrigin g a time id r' := by
  by_cases hwrites : a.WritesRelay id
  · cases a with
    | transact t =>
      cases t with
      | putRelay r =>
        subst hwrites
        have hrow : (g.withRow r.id r).relay? r.id = some r' := hr'
        rw [Registry.relay?_withRow_self] at hrow
        cases hrow
        exact .stores rfl rfl
      | updateRelay k change =>
        subst hwrites
        rw [registryAfter, Transaction.run] at hr'
        cases hr : g.relay? k with
        | none =>
          obtain ⟨e, -, hfails⟩ := Registry.updateRelay_none hr time change
          rw [hfails, hr] at hr'
          cases hr'
        | some r =>
          rw [Registry.updateRelay_some hr, Registry.relay?_withRow_self] at hr'
          cases hr'
          exact .changes hr rfl rfl
      | deleteRelay k =>
        subst hwrites
        have hrow : (g.withoutRow k).relay? k = some r' := hr'
        rw [Registry.relay?_withoutRow, if_pos rfl] at hrow
        cases hrow
      | _ => cases hwrites
    | _ => cases hwrites
  · exact .rests ((relay?_registryAfter hwrites).symm.trans hr')

/-- An action that gives no stored relay another id leaves a registry sound. -/
theorem RenamesNone.sound (ha : a.RenamesNone) (hg : g.Sound) (time : Millis) :
    (a.registryAfter time g).Sound := by
  cases a with
  | transact t =>
    cases t with
    | putRelay r => exact hg.withRow rfl
    | updateRelay k change =>
      rw [registryAfter, Transaction.run]
      cases hr : g.relay? k with
      | none => rwa [hg.updateRelay_none hr]
      | some r =>
        rw [hg.updateRelay_some hr]
        exact hg.withRow ((ha r).trans (hg.id_eq hr))
    | deleteRelay k => exact hg.withoutRow
    | releaseBindings =>
      refine hg.congr ?_
      simp only [registryAfter, Transaction.run, Registry.releaseBindings]
      split <;> rfl
    | _ => exact hg.congr rfl
  | _ => exact hg

/-- An action that gives no stored relay another id leaves the relays under their ids. -/
theorem RenamesNone.keyed (ha : a.RenamesNone) (hg : g.Keyed) (time : Millis) :
    (a.registryAfter time g).Keyed := by
  intro id r' hr'
  cases a.rowOrigin hr' with
  | rests row => exact hg id r' row
  | stores _ hid => exact hid
  | @changes r change row action eq =>
    subst action eq
    exact (ha r).trans (hg id r row)

/-- An operation leaves a relay where it is if its further changes do. -/
theorem samePlace_moved {choose : Relay → RelayOp} {onMove : RelayState → Relay → Relay}
    (hmove : ∀ s r, Relay.SamePlace r (onMove s r)) (r : Relay) :
    r.SamePlace (Lifecycle.moved choose onMove r) := by
  unfold Lifecycle.moved
  split
  · next s _ =>
    have hsame := hmove r.state { r with state := s }
    exact ⟨hsame.id_eq, hsame.zoneId_eq, hsame.publicAddress_eq⟩
  · exact ⟨rfl, rfl, rfl⟩

/-- Nothing that operations do to a stored relay makes another one of it. -/
theorem IsRegular.samePlace {k : RelayId} {change : Relay → Relay}
    (ha : (Action.transact (.updateRelay k change)).IsRegular) (r : Relay) :
    r.SamePlace (change r) := by
  cases ha with
  | serves h =>
    cases h with
    | upkeep h =>
      cases h with
      | applies | halts | leaves | arrives =>
        refine samePlace_moved (fun _ _ => ?_) r
        exact ⟨rfl, rfl, rfl⟩
      | restores => exact ⟨rfl, rfl, rfl⟩
  | booking h =>
    cases h
    exact ⟨rfl, rfl, rfl⟩
  | reports => exact ⟨rfl, rfl, rfl⟩

/-- Nothing that operations do gives a stored relay another id. -/
theorem IsRegular.renamesNone (ha : a.IsRegular) : a.RenamesNone := by
  cases a with
  | transact t =>
    cases t with
    | updateRelay => exact fun r => (ha.samePlace r).id_eq
    | _ => trivial
  | _ => trivial

/-- Operations leave a registry sound. -/
theorem IsRegular.sound (ha : a.IsRegular) (hg : g.Sound) (time : Millis) :
    (a.registryAfter time g).Sound :=
  ha.renamesNone.sound hg time

end Action

/-- A run of operations leaves a registry sound. -/
theorem Run.sound {ι : Type} [DecidableEq ι] {calls : ι → Operation} {g : Registry}
    {h : List (Moment ι Outcome)} {s : System ι Outcome}
    (run : Run (System.start g fun i => (calls i).program) h s) (hg : g.Sound) :
    s.registry.Sound := by
  induction run with
  | start => exact hg
  | step run hs ih =>
    rw [hs.registry_eq]
    exact ((run.step hs).regular _ (List.mem_append_right _ List.mem_cons_self)).sound ih _

/-- A run of operations leaves the relays under their ids. -/
theorem Run.keyed {ι : Type} [DecidableEq ι] {calls : ι → Operation} {g : Registry}
    {h : List (Moment ι Outcome)} {s : System ι Outcome}
    (run : Run (System.start g fun i => (calls i).program) h s) (hg : g.Keyed) :
    s.registry.Keyed := by
  induction run with
  | start => exact hg
  | step run hs ih =>
    rw [hs.registry_eq]
    have regular := (run.step hs).regular _ (List.mem_append_right _ List.mem_cons_self)
    exact regular.renamesNone.keyed ih _

/-! ## One action after another -/

namespace Registry

variable {g : Registry} {r : Relay} {b : Binding} {id : RelayId} {as : List (Millis × Action)}

/-- The registry after actions, each at its time. -/
def after (g : Registry) (as : List (Millis × Action)) : Registry :=
  as.foldl (fun g a => a.2.registryAfter a.1 g) g

/-- What every action keeps, all of them keep. -/
theorem after_induction {P : Registry → Prop} (hg : P g)
    (h : ∀ a ∈ as, ∀ g, P g → P (a.2.registryAfter a.1 g)) : P (g.after as) := by
  induction as generalizing g with
  | nil => exact hg
  | cons a as ih =>
    exact ih (h a List.mem_cons_self g hg) fun a' ha' => h a' (List.mem_cons_of_mem _ ha')

/-- A row that was stored is read back whatever is done under other keys. -/
theorem getRelay_after (h : ∀ a ∈ as, ¬ a.2.WritesRelay r.id) :
    ((g.putRelay r).after as).getRelay r.id = .ok (some r) := by
  have hrow : ((g.putRelay r).after as).relays.get? r.id = some r.encode.render := by
    refine after_induction (P := fun g => g.relays.get? r.id = some r.encode.render) ?_ ?_
    · exact (g.relays.get?_insert r.id r.id _).trans (if_pos rfl)
    · exact fun a ha g hg => (Action.get?_registryAfter (h a ha)).trans hg
  rw [getRelay, hrow]
  simp [decodeRow_encode]

/-- A binding that was stored is read back whatever is done to others. -/
theorem getBinding_after (h : ∀ a ∈ as, ¬ a.2.WritesBinding b.workloadId b) :
    ((g.putBinding b).after as).getBinding b.workloadId = .ok (some b) := by
  have hrow : ((g.putBinding b).after as).bindings.get? b.workloadId = some b.encode.render := by
    refine after_induction
      (P := fun g => g.bindings.get? b.workloadId = some b.encode.render) ?_ ?_
    · exact (g.bindings.get?_insert b.workloadId b.workloadId _).trans (if_pos rfl)
    · exact fun a ha g hg => Action.bindings_registryAfter b.decodeRow_encode (h a ha) hg
  rw [getBinding, hrow]
  simp [Binding.decodeRow_encode]

/-- A mode that was stored is read back as long as no other one is. -/
theorem getMode_after {m : ModeRecord} (h : ∀ a ∈ as, ¬ a.2.WritesMode) :
    ((g.putMode m).after as).getMode = .ok m := by
  have hrow : ((g.putMode m).after as).mode = some m.encode.render :=
    after_induction (P := fun g => g.mode = some m.encode.render) rfl
      fun a ha g hg => (Action.mode_registryAfter (h a ha)).trans hg
  rw [getMode, hrow]
  exact m.decodeRow_encode

/-- Every row but the one under this key decodes and stands under the id of its relay. -/
def SoundBeside (g : Registry) (id : RelayId) : Prop :=
  ∀ k text, k ≠ id → g.relays.get? k = some text →
    ∃ r, decodeRow Relay.decoder text = .ok r ∧ r.id = k

/-- A row that is stored makes a registry sound whose other rows are. -/
theorem SoundBeside.putRelay (h : g.SoundBeside r.id) : (g.putRelay r).Sound := by
  intro k text hk
  have hrow := (g.relays.get?_insert r.id k _).symm.trans hk
  split at hrow
  · next heq =>
    cases hrow
    exact ⟨r, decodeRow_encode r, heq.symm⟩
  · next hne => exact h k text hne hrow

/-- Actions that give no stored relay another id leave a registry sound. -/
theorem Sound.after (hg : g.Sound) (h : ∀ a ∈ as, a.2.RenamesNone) : (g.after as).Sound :=
  after_induction hg fun a ha _ hg => (h a ha).sound hg a.1

/-- Every listing has the relay once if it satisfies the condition of the listing, and not at all if
it does not, among relays in the ascending order of the bytes of their ids. -/
def Lists (g : Registry) (r : Relay) : Prop :=
  ∀ keep, ∃ relays, g.listRelays keep = .ok relays ∧
    relays.count r = (if keep r then 1 else 0) ∧
    (relays.Pairwise fun a b => Text.bytes a.id < Text.bytes b.id) ∧ (relays.map (·.id)).Nodup

/-- In a sound registry every relay is listed. -/
theorem Sound.lists (hg : g.Sound) (hr : g.relay? r.id = some r) : g.Lists r := by
  intro keep
  refine ⟨_, hg.listRelays keep, ?_, ?_, ?_⟩
  · have hnodup : g.rows.Nodup := hg.pairwise_rows.imp fun hlt heq => by
      rw [heq] at hlt
      exact String.lt_irrefl _ hlt
    split
    · next hkeep =>
      rw [List.count_filter hkeep]
      exact List.count_eq_one_of_mem hnodup (hg.mem_rows.mpr hr)
    · next hkeep => exact List.count_eq_zero.mpr fun hmem => hkeep (List.mem_filter.mp hmem).2
  · exact (hg.pairwise_rows.filter keep).imp Text.bytes_lt
  · refine List.pairwise_map.mpr ((hg.pairwise_rows.filter keep).imp fun hlt heq => ?_)
    rw [heq] at hlt
    exact String.lt_irrefl _ hlt

end Registry

/-! ## All that is read back -/

/-- Values are read back from the texts that are made of them. -/
structure TextsReadBack : Prop where
  relay (r : Relay) : decodeRow Relay.decoder r.encode.render = .ok r
  binding (b : Binding) : decodeRow Binding.decoder b.encode.render = .ok b
  mode (m : ModeRecord) : decodeRow ModeRecord.decoder m.encode.render = .ok m
  report (report : StatusReport) (version : report.version = 1) :
    StatusReport.parse report.encode.render = .ok report
  /-- A report may leave out everything but its connections. -/
  connections (cs : List Connection) :
    StatusReport.parse
      (Json.Value.object [("activeConnections", .array (cs.map Connection.encode))]).render =
      .ok ⟨1, cs, []⟩
  /-- A connection may leave out everything but its workload. -/
  connection (w : WorkloadId) :
    Connection.decoder (.object [("tag", .string w)]) = .ok ⟨w, none, none, none⟩

/-- **What is stored is read back.** Relays, bindings, modes and reports are decoded to themselves,
and a report that leaves something out to one without it. A relay, binding or mode that was stored
is read back after any actions, at any times, that do not write it. If the other rows decode and
stand under the ids of their relays, and no update gives a relay another id, then every listing has
the relay exactly once or not at all, as its condition says, and has its relays in the order of the
bytes of their ids and none twice. No operation of the fleet makes an update that gives a relay
another id. -/
theorem Registry.readsBack (g : Registry) (as : List (Millis × Action)) :
    TextsReadBack ∧
      (∀ r : Relay, (∀ a ∈ as, ¬ a.2.WritesRelay r.id) →
        ((g.putRelay r).after as).getRelay r.id = .ok (some r) ∧
          (g.SoundBeside r.id → (∀ a ∈ as, a.2.RenamesNone) →
            ((g.putRelay r).after as).Lists r)) ∧
      (∀ b : Binding, (∀ a ∈ as, ¬ a.2.WritesBinding b.workloadId b) →
        ((g.putBinding b).after as).getBinding b.workloadId = .ok (some b)) ∧
      (∀ m : ModeRecord, (∀ a ∈ as, ¬ a.2.WritesMode) →
        ((g.putMode m).after as).getMode = .ok m) ∧
      ∀ op : Operation, Asks Action.RenamesNone op.program fun _ => True := by
  refine ⟨⟨decodeRow_encode, Binding.decodeRow_encode, ModeRecord.decodeRow_encode,
    fun _ => StatusReport.parse_encode, StatusReport.parse_connections,
    fun w => Connection.decoder_encode ⟨w, none, none, none⟩⟩, ?_, fun _ => getBinding_after,
    fun _ => getMode_after,
    fun op => op.regular.mono (fun _ ha => ha.renamesNone) fun _ _ => trivial⟩
  intro r hwrites
  have hread := getRelay_after (g := g) hwrites
  refine ⟨hread, fun hothers hids => ?_⟩
  have hsound := hothers.putRelay.after hids
  rw [hsound.getRelay] at hread
  exact hsound.lists (Except.ok.inj hread)

/-- A relay whose id and report must be escaped, stored beside another one. -/
def quotedRelay : Relay :=
  { Relay.fresh 5 "relay-\"\\\u0007é" "zone" none 5900 with
    statusPayload := some "\x7b\"a\":\n1\x7d" }

/-- Another relay is started and a third one comes and goes while the relay is stored. -/
theorem Registry.readsBack_quoted :
    let other := Relay.fresh 1 "relay-000001" "zone" none 5900
    let third := Relay.fresh 2 "relay-000002" "zone" none 5900
    let g := Registry.empty.putRelay other
    let as : List (Millis × Action) := [
      (6, .transact (.putRelay third)),
      (7, .transact (.updateRelay other.id fun r => { r with state := .running })),
      (8, .transact (.deleteRelay third.id))]
    (∀ a ∈ as, ¬ a.2.WritesRelay quotedRelay.id) ∧ g.SoundBeside quotedRelay.id ∧
      (∀ a ∈ as, a.2.RenamesNone) ∧
      ((g.putRelay quotedRelay).after as).getRelay quotedRelay.id = .ok (some quotedRelay) ∧
      ((g.putRelay quotedRelay).after as).Lists quotedRelay := by
  intro other third g as
  have hwrites : ∀ a ∈ as, ¬ a.2.WritesRelay quotedRelay.id := by
    simp [as, Action.WritesRelay, quotedRelay, Relay.fresh, other, third]
  have hothers : g.SoundBeside quotedRelay.id := fun k text _ =>
    (sound_empty.withRow (r := other) rfl : g.Sound) k text
  have hids : ∀ a ∈ as, a.2.RenamesNone := by
    simp [as, Action.RenamesNone]
  obtain ⟨hread, hlists⟩ := (Registry.readsBack g as).2.1 quotedRelay hwrites
  exact ⟨hwrites, hothers, hids, hread, hlists hothers hids⟩

end RelayFleet
