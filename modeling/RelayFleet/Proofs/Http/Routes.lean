import Mathlib.Data.List.TakeWhile
import RelayFleet.Proofs.Http.Call

/-!
# What the interface documents

Which requests ask for which call is said here once more, as the interface documents it and without
the table in which requests are looked up: by the method, by the text of the path with the names of
zones and relays in it, and by the body (`Api.AsksFor`). The lookup finds a call for a request
exactly if this is the call that the request asks for (`Api.callOf_eq_ok_iff`).
-/

namespace RelayFleet

namespace Http

/-! ## Paths -/

/-- The target is a path of these segments, each with a slash before it, and whatever is asked of it
stands behind. -/
structure HasPath (target : String) (segments : List String) : Prop where
  plain : ∀ s ∈ segments, ∀ c ∈ s.toList, c ≠ '/' ∧ c ≠ '?' ∧ c ≠ '#'
  text : ∃ query, (∀ c ∈ query.head?, c = '?' ∨ c = '#') ∧
    target.toList = segments.flatMap (fun s => '/' :: s.toList) ++ query

/-- Parts with separators between them, and one before the first. -/
theorem flatMap_cons_eq_intercalate {α : Type} {a : α} {parts : List (List α)} (h : parts ≠ []) :
    parts.flatMap (a :: ·) = a :: [a].intercalate parts := by
  induction parts with
  | nil => exact absurd rfl h
  | cons part parts ih =>
    cases parts with
    | nil => simp
    | cons part' parts => simp [ih (List.cons_ne_nil _ _)]

/-- The parts between separators hold none of them. -/
theorem not_mem_of_mem_splitOn {α : Type} [DecidableEq α] {a : α} {xs part : List α}
    (h : part ∈ xs.splitOn a) : a ∉ part := by
  induction xs generalizing part with
  | nil =>
    obtain rfl := List.mem_singleton.mp h
    exact List.not_mem_nil
  | cons x xs ih =>
    rw [List.splitOn_cons_eq_if_modifyHead] at h
    split at h
    · rcases List.mem_cons.mp h with rfl | h
      · exact List.not_mem_nil
      · exact ih h
    · next hx =>
      cases hparts : xs.splitOn a with
      | nil => exact absurd hparts (List.splitOn_ne_nil a xs)
      | cons first parts =>
        rw [hparts] at h ih
        rcases List.mem_cons.mp h with rfl | h
        · have hne : a ≠ x := fun heq => hx (beq_iff_eq.mpr heq.symm)
          simpa [hne] using ih List.mem_cons_self
        · exact ih (List.mem_cons_of_mem _ h)

/-- What is made of segments falls into them. -/
theorem segments_flatMap {segs : List String} (hsegs : segs ≠ [])
    (hplain : ∀ s ∈ segs, '/' ∉ s.toList) :
    segments (segs.flatMap fun s => '/' :: s.toList) = segs := by
  have hparts : ∀ part ∈ segs.map String.toList, '/' ∉ part := by
    intro part hpart
    obtain ⟨s, hs, rfl⟩ := List.mem_map.mp hpart
    exact hplain s hs
  have hne : segs.map String.toList ≠ [] := by simpa using hsegs
  have hpath : (segs.flatMap fun s => '/' :: s.toList) =
      '/' :: ['/'].intercalate (segs.map String.toList) := by
    rw [← flatMap_cons_eq_intercalate hne, List.flatMap_map]
  rw [hpath, segments, List.splitOn_intercalate '/' hparts hne, List.map_map]
  simp [Function.comp_def]

/-- A path is made of the segments that it falls into. -/
theorem eq_flatMap_segments {path : List Char} (h : segments path ≠ []) :
    path = (segments path).flatMap (fun s => '/' :: s.toList) ∧
      ∀ s ∈ segments path, '/' ∉ s.toList := by
  unfold segments at h ⊢
  split at h
  · next rest =>
    have hrest : ['/'].intercalate (rest.splitOn '/') = rest := List.intercalate_splitOn '/'
    have hne : rest.splitOn '/' ≠ [] := List.splitOn_ne_nil '/' rest
    constructor
    · simpa [List.flatMap_map, hrest] using (flatMap_cons_eq_intercalate (a := '/') hne).symm
    · intro s hs
      obtain ⟨part, hpart, rfl⟩ := List.mem_map.mp hs
      rw [String.toList_ofList]
      exact not_mem_of_mem_splitOn hpart
  · exact absurd rfl h

/-- A path falls into these segments exactly if it is made of them. -/
theorem segments_pathOf_iff {target : String} {segs : List String} (hsegs : segs ≠ []) :
    segments (pathOf target.toList) = segs ↔ HasPath target segs := by
  constructor
  · rintro rfl
    obtain ⟨hpath, hslash⟩ := eq_flatMap_segments hsegs
    refine ⟨fun s hs c hc => ⟨fun heq => hslash s hs (heq ▸ hc), ?_⟩,
      target.toList.dropWhile fun c => c != '?' && c != '#', ?_, ?_⟩
    · have hmem : c ∈ pathOf target.toList := by
        rw [hpath]
        exact List.mem_flatMap.mpr ⟨s, hs, List.mem_cons_of_mem _ hc⟩
      simpa using List.mem_takeWhile_imp hmem
    · intro c hc
      have hstop := List.head?_dropWhile_not (fun c => c != '?' && c != '#') target.toList
      rw [Option.mem_def.mp hc] at hstop
      simpa [Classical.or_iff_not_imp_left] using hstop
    · rw [← hpath]
      exact List.takeWhile_append_dropWhile.symm
  · rintro ⟨hplain, query, hquery, htext⟩
    have hpath : pathOf target.toList = segs.flatMap fun s => '/' :: s.toList := by
      rw [htext, pathOf, List.takeWhile_append_of_pos]
      · cases query with
        | nil => simp
        | cons c query =>
          have := hquery c rfl
          rw [List.takeWhile_cons_of_neg (by rcases this with rfl | rfl <;> decide),
            List.append_nil]
      · intro c hc
        obtain ⟨s, hs, hc⟩ := List.mem_flatMap.mp hc
        rcases List.mem_cons.mp hc with rfl | hc
        · decide
        · simpa using (hplain s hs c hc).2
    rw [hpath]
    exact segments_flatMap hsegs fun s hs hmem => (hplain s hs _ hmem).1 rfl

/-! ## Requests -/

/-- Bytes are the text that they are read as. -/
theorem fromUTF8?_eq_some_iff {bytes : ByteArray} {text : String} :
    String.fromUTF8? bytes = some text ↔ bytes = text.toUTF8 := by
  unfold String.fromUTF8?
  split
  · rw [Option.some.injEq, ← String.toByteArray_inj]
    exact Iff.rfl
  · next hvalid =>
    refine iff_of_false nofun ?_
    rintro rfl
    exact hvalid text.isValidUTF8

namespace Request

variable {r : Request} {method : String} {segs : List String}

/-- The method and the path of a request are these; `HEAD` stands for `GET` without the body of the
response. -/
structure Addresses (r : Request) (method : String) (segs : List String) : Prop where
  method : r.method = method ∨ r.method = "HEAD" ∧ method = "GET"
  path : HasPath r.target segs

/-- The path has the name between these segments, percent-encoded; a name at the end of a path is
not empty. -/
structure Names (r : Request) (method : String) (before : List String) (name : String)
    (behind : List String) : Prop where
  addresses : ∃ segment, r.Addresses method (before ++ segment :: behind) ∧
    decodeSegment segment = some name ∧ (behind = [] → segment ≠ "")

/-- The body is said to be JSON, is not too long and decodes. -/
structure HasJson {α : Type} (r : Request) (d : Json.Decoder α) (a : α) : Prop where
  mediaType : ∃ t, r.contentType = some t ∧ isJson t
  length : r.body.size ≤ bodyLimit
  decodes : d.runBytes r.body = .ok a

/-- The body is this text, and is not too long. -/
structure HasText (r : Request) (text : String) : Prop where
  length : r.body.size ≤ bodyLimit
  text : r.body = text.toUTF8

/-- What a body is decoded to. -/
theorem decodeJson_eq_ok_iff {α : Type} {d : Json.Decoder α} {a : α} :
    r.decodeJson d = .ok a ↔ r.HasJson d a := by
  have hiff : r.HasJson d a ↔
      r.contentType.any isJson ∧ r.body.size ≤ bodyLimit ∧ d.runBytes r.body = .ok a := by
    rw [Option.any_eq_true]
    exact ⟨fun h => ⟨h.mediaType, h.length, h.decodes⟩, fun ⟨ht, hl, hd⟩ => ⟨ht, hl, hd⟩⟩
  rw [hiff, decodeJson, bytes]
  by_cases htype : r.contentType.any isJson
  · by_cases hlength : r.body.size ≤ bodyLimit
    · simp only [htype, hlength, Bool.not_true, Bool.false_eq_true, if_true, if_false, true_and]
      change (d.runBytes r.body).mapError _ = _ ↔ _
      cases d.runBytes r.body <;> simp [Except.mapError]
    · simp only [htype, hlength, Bool.not_true, Bool.false_eq_true, if_false, false_and, and_false]
      exact iff_of_false nofun id
  · simp [htype]

/-- What the text of a body is. -/
theorem text_eq_ok_iff {text : String} : r.text = .ok text ↔ r.HasText text := by
  have hiff : r.HasText text ↔ r.body.size ≤ bodyLimit ∧ r.body = text.toUTF8 :=
    ⟨fun h => ⟨h.length, h.text⟩, fun h => ⟨h.1, h.2⟩⟩
  rw [hiff, ← fromUTF8?_eq_some_iff, Request.text, bytes]
  by_cases hlength : r.body.size ≤ bodyLimit
  · cases hutf : String.fromUTF8? r.body with
    | none => simp [hlength, hutf, bind, Except.bind, throw, throwThe, MonadExceptOf.throw]
    | some text' => simp [hlength, hutf, bind, Except.bind, pure, Except.pure]
  · simp [hlength, bind, Except.bind]

end Request

end Http

namespace Api

open Http

/-! ## Calls -/

/-- The documented interface: which call a request asks for. -/
inductive AsksFor (r : Request) : Call → Prop
  | assign {zone : ZoneId} {w : Workload}
    (path : r.Names "POST" ["api", "v1", "zones"] zone ["assign"])
    (body : r.HasJson Workload.decoder w) : AsksFor r (.assign zone w)
  | list {zone : ZoneId} (path : r.Names "GET" ["api", "v1", "zones"] zone ["relays"]) :
    AsksFor r (.list zone)
  | start {id : RelayId} (path : r.Names "POST" ["api", "v1", "relays"] id ["start"]) :
    AsksFor r (.start id)
  | stop {id : RelayId} (path : r.Names "POST" ["api", "v1", "relays"] id ["stop"]) :
    AsksFor r (.stop id)
  | reboot {id : RelayId} (path : r.Names "POST" ["api", "v1", "relays"] id ["reboot"]) :
    AsksFor r (.reboot id)
  | destroy {id : RelayId} (path : r.Names "DELETE" ["api", "v1", "relays"] id []) :
    AsksFor r (.destroy id)
  | report {id : RelayId} {text : String}
    (path : r.Names "POST" ["api", "v1", "relays"] id ["status"]) (body : r.HasText text) :
    AsksFor r (.report id text)
  | agentDisconnected {id : RelayId}
    (path : r.Names "POST" ["api", "v1", "relays"] id ["disconnect"]) :
    AsksFor r (.agentDisconnected id)
  | migrationStarted {id : RelayId}
    (path : r.Names "POST" ["api", "v1", "relays"] id ["migration", "start"]) :
    AsksFor r (.migrationStarted id)
  | migrationCompleted {id : RelayId}
    (path : r.Names "POST" ["api", "v1", "relays"] id ["migration", "complete"]) :
    AsksFor r (.migrationCompleted id)
  | getMode (path : r.Addresses "GET" ["api", "v1", "management"]) : AsksFor r .getMode
  | setMode {m : Mode} (path : r.Addresses "PUT" ["api", "v1", "management"])
    (body : r.HasJson modeRequest m) : AsksFor r (.setMode m)
  | resumeMode (path : r.Addresses "POST" ["api", "v1", "management", "resume"]) :
    AsksFor r .resumeMode
  | metrics (path : r.Addresses "GET" ["metrics"]) : AsksFor r .metrics

variable {r : Request} {c : Call} {method : String} {segs : List String} {route : Route}

/-- Where a request leads is found in the table by the path and the method. -/
theorem destination_eq_route_iff : destination r.method r.target = .route route ↔
    ∃ segs, HasPath r.target segs ∧
      (methods segs).lookup (if r.method = "HEAD" then "GET" else r.method) = some route := by
  have hne : ∀ {segs m}, (methods segs).lookup m = some route → segs ≠ [] := by
    rintro _ m h rfl
    cases h
  constructor
  · intro h
    rw [destination] at h
    split at h
    · cases h
    · split at h
      · next hlookup =>
        cases h
        exact ⟨_, (segments_pathOf_iff (hne hlookup)).mp rfl, hlookup⟩
      · cases h
  · rintro ⟨segs, hpath, hlookup⟩
    rw [destination, (segments_pathOf_iff (hne hlookup)).mpr hpath]
    split
    · next hnone =>
      rw [hnone] at hlookup
      cases hlookup
    · rw [hlookup]

/-- A call is found for a request at the route where it leads. -/
theorem callOf_eq_ok_iff_callAt : callOf r = .ok c ↔
    ∃ route, destination r.method r.target = .route route ∧ callAt r route = .ok c := by
  rw [callOf]
  cases destination r.method r.target with
  | nowhere | wrongMethod => simp
  | route route => cases hcall : callAt r route <;> simp [hcall, Except.mapError]

/-- The method under which a request is looked up. -/
theorem method_iff (hmethod : method ≠ "HEAD") :
    (if r.method = "HEAD" then "GET" else r.method) = method ↔
      r.method = method ∨ r.method = "HEAD" ∧ method = "GET" := by
  split
  · next h => simp [h, Ne.symm hmethod, eq_comm]
  · next h => simp [h]

/-- The name of a segment. -/
theorem nameOf_eq_ok_iff {segment name : String} :
    nameOf segment = .ok name ↔ decodeSegment segment = some name := by
  rw [nameOf]
  cases decodeSegment segment <;> simp

/-- What a request asks for is found for it. -/
theorem AsksFor.callOf_eq (h : AsksFor r c) : callOf r = .ok c := by
  have hroute {method : String} {segs : List String} {route : Route}
      (haddr : r.Addresses method segs) (hmethod : method ≠ "HEAD")
      (hlookup : (methods segs).lookup method = some route) (hcall : callAt r route = .ok c) :
      callOf r = .ok c :=
    callOf_eq_ok_iff_callAt.mpr ⟨route, destination_eq_route_iff.mpr
      ⟨segs, haddr.path, (method_iff hmethod).mpr haddr.method ▸ hlookup⟩, hcall⟩
  cases h with
  | assign path body =>
    obtain ⟨segment, haddr, hname, -⟩ := path
    refine hroute haddr (by decide) rfl ?_
    rw [callAt, nameOf_eq_ok_iff.mpr hname, Request.decodeJson_eq_ok_iff.mpr body]
    rfl
  | report path body =>
    obtain ⟨segment, haddr, hname, -⟩ := path
    refine hroute haddr (by decide) rfl ?_
    rw [callAt, nameOf_eq_ok_iff.mpr hname, Request.text_eq_ok_iff.mpr body]
    rfl
  | destroy path =>
    obtain ⟨segment, haddr, hname, hne⟩ := path
    have hlookup : (methods ["api", "v1", "relays", segment]).lookup "DELETE" =
        some (.destroy segment) := by
      simp [methods, hne rfl]
    refine hroute haddr (by decide) hlookup ?_
    rw [callAt, nameOf_eq_ok_iff.mpr hname]
    rfl
  | setMode path body =>
    refine hroute path (by decide) rfl ?_
    rw [callAt, Request.decodeJson_eq_ok_iff.mpr body]
    rfl
  | getMode path | resumeMode path | metrics path => exact hroute path (by decide) rfl rfl
  | list path | start path | stop path | reboot path | agentDisconnected path
  | migrationStarted path | migrationCompleted path =>
    obtain ⟨segment, haddr, hname, -⟩ := path
    refine hroute haddr (by decide) rfl ?_
    rw [callAt, nameOf_eq_ok_iff.mpr hname]
    rfl

/-- A program of names goes on with the name of a segment. -/
theorem bind_nameOf_eq_ok_iff {segment : String} {f : String → Except Rejection Call} :
    nameOf segment >>= f = .ok c ↔ ∃ name, decodeSegment segment = some name ∧ f name = .ok c := by
  rw [nameOf]
  cases decodeSegment segment with
  | none => simp [bind, Except.bind]
  | some name => exact ⟨fun h => ⟨name, rfl, h⟩, by rintro ⟨_, ⟨⟩, h⟩; exact h⟩

/-- What is made of something that may be turned away. -/
theorem map_eq_ok_iff {α : Type} {x : Except Rejection α} {f : α → Call} :
    f <$> x = .ok c ↔ ∃ a, x = .ok a ∧ f a = c := by
  cases x <;> simp

/-- What is made of the name of a segment. -/
theorem map_nameOf_eq_ok_iff {segment : String} {f : String → Call} :
    f <$> nameOf segment = .ok c ↔ ∃ name, decodeSegment segment = some name ∧ f name = c := by
  simp only [map_eq_ok_iff, nameOf_eq_ok_iff]

/-- A call that is found for a request at a route is the one that it asks for. -/
theorem asksFor_of_callAt (path : HasPath r.target segs)
    (hlookup : (methods segs).lookup (if r.method = "HEAD" then "GET" else r.method) = some route)
    (hcall : callAt r route = .ok c) : AsksFor r c := by
  generalize hm : (if r.method = "HEAD" then "GET" else r.method) = m at hlookup
  have haddresses {method : String} (hmethod : method ≠ "HEAD") (h : m = method) :
      r.Addresses method segs :=
    ⟨(method_iff hmethod).mp (hm.trans h), path⟩
  have hentry {method : String} {route' : Route} (hmethod : method ≠ "HEAD")
      (h : [(method, route')].lookup m = some route) :
      route' = route ∧ r.Addresses method segs := by
    rw [List.lookup_cons, List.lookup_nil] at h
    split at h
    · next heq =>
      cases h
      exact ⟨rfl, haddresses hmethod (beq_iff_eq.mp heq)⟩
    · cases h
  unfold methods at hlookup
  split at hlookup
  case h_1 segment =>
    obtain ⟨rfl, haddr⟩ := hentry (by decide) hlookup
    obtain ⟨zone, hzone, hcall⟩ := bind_nameOf_eq_ok_iff.mp hcall
    obtain ⟨w, hw, rfl⟩ := map_eq_ok_iff.mp hcall
    exact .assign ⟨segment, haddr, hzone, nofun⟩ (Request.decodeJson_eq_ok_iff.mp hw)
  case h_7 segment =>
    obtain ⟨rfl, haddr⟩ := hentry (by decide) hlookup
    obtain ⟨id, hid, hcall⟩ := bind_nameOf_eq_ok_iff.mp hcall
    obtain ⟨text, htext, rfl⟩ := map_eq_ok_iff.mp hcall
    exact .report ⟨segment, haddr, hid, nofun⟩ (Request.text_eq_ok_iff.mp htext)
  case h_3 segment =>
    split at hlookup
    · cases hlookup
    · next hne =>
      obtain ⟨rfl, haddr⟩ := hentry (by decide) hlookup
      obtain ⟨id, hid, rfl⟩ := map_nameOf_eq_ok_iff.mp hcall
      exact .destroy ⟨segment, haddr, hid, fun _ => by simpa using hne⟩
  case h_2 segment | h_4 segment | h_5 segment | h_6 segment | h_8 segment | h_9 segment
  | h_10 segment =>
    obtain ⟨rfl, haddr⟩ := hentry (by decide) hlookup
    obtain ⟨name, hname, rfl⟩ := map_nameOf_eq_ok_iff.mp hcall
    constructor
    exact ⟨segment, haddr, hname, nofun⟩
  case h_11 =>
    rw [List.lookup_cons] at hlookup
    split at hlookup
    · next hget =>
      cases hlookup
      cases hcall
      exact .getMode (haddresses (by decide) (beq_iff_eq.mp hget))
    · obtain ⟨rfl, haddr⟩ := hentry (by decide) hlookup
      obtain ⟨mode, hmode, rfl⟩ := map_eq_ok_iff.mp hcall
      exact .setMode haddr (Request.decodeJson_eq_ok_iff.mp hmode)
  case h_12 | h_13 =>
    obtain ⟨rfl, haddr⟩ := hentry (by decide) hlookup
    cases hcall
    constructor
    exact haddr
  case h_14 => cases hlookup

/-- **The calls are the documented ones.** -/
theorem callOf_eq_ok_iff : callOf r = .ok c ↔ AsksFor r c := by
  refine ⟨fun h => ?_, AsksFor.callOf_eq⟩
  obtain ⟨route, hroute, hcall⟩ := callOf_eq_ok_iff_callAt.mp h
  obtain ⟨segs, path, hlookup⟩ := destination_eq_route_iff.mp hroute
  exact asksFor_of_callAt path hlookup hcall

end Api

end RelayFleet
