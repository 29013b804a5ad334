import CodeAudit.Service.Routes

/-!
# What a request reaches

The parts of the service are stated in terms of bodies and identifiers; requests come with a method
and a path. Here the two are tied together, and it is shown which requests can change a service at
all.

**Results.**
* `Route.mem_fixed_of_ofPath?`, `Route.ofPath?_of_mem`: a fixed route has its one path and no other.
* `Route.ofPath?_entry`: the path of an entry leads to that entry.
* `handle_analyze`, `handle_clear`, `handle_compare`, `handle_entry`, `handle_summary`: what is
  reached.
* `handle_snd_eq_self`: every request but a POST to `/analyze` and a DELETE at `/history` leaves the
  service as it is.
-/
namespace CodeAudit

/-- What a response says, apart from its headers. -/
def Response.content (a : Response) : Nat × Text := (a.status, a.body)

@[simp] theorem Response.content_under (a : Response) (headers : List (Text × Text)) :
    (a.under headers).content = a.content := rfl

@[simp] theorem Response.content_after (a : Response) (level : Log.Level) (message : Text) :
    (a.after level message).content = a.content := rfl

/-- That a request comes with a method and a path. -/
def Request.Asks (r : Request) (method path : Text) : Prop := r.method = method ∧ r.path = path

instance (r : Request) (method path : Text) : Decidable (r.Asks method path) :=
  inferInstanceAs (Decidable (_ ∧ _))

theorem Request.Asks.not_asks {r : Request} {method method' path path' : Text}
    (h : r.Asks method path) (hne : method ≠ method') : ¬ r.Asks method' path' :=
  fun h' => hne (h.1.symm.trans h'.1)

namespace Route

theorem ofPath?_of_mem {path : Text} {route : Route} (h : (path, route) ∈ fixed) :
    ofPath? path = some route := by
  have hall : ∀ p ∈ fixed, ofPath? p.1 = some p.2 := by decide
  exact hall _ h

/-- A route that is neither a page nor an entry is only reached by its own path. -/
theorem mem_fixed_of_ofPath? {path : Text} {route : Route} (h : ofPath? path = some route)
    (hpages : route ≠ .pages) (hentry : ∀ id, route ≠ .entry id) : (path, route) ∈ fixed := by
  unfold ofPath? at h
  split at h
  · rename_i found hfound
    obtain rfl := Option.some.inj h
    obtain ⟨before, after, hsplit, -⟩ := List.lookup_eq_some_iff.1 hfound
    rw [hsplit]
    exact List.mem_append_right _ List.mem_cons_self
  · split at h
    · exact absurd (Option.some.inj h).symm hpages
    · split at h
      · rename_i id _
        split at h
        · cases h
        · exact absurd (Option.some.inj h).symm (hentry id)
      · cases h

theorem eq_of_ofPath?_analyze {path : Text} (h : ofPath? path = some .analyze) :
    path = "/analyze" := by
  have hmem := mem_fixed_of_ofPath? h (by decide) (fun _ => nofun)
  simpa [fixed] using hmem

theorem eq_of_ofPath?_history {path : Text} (h : ofPath? path = some .history) :
    path = "/history" := by
  have hmem := mem_fixed_of_ofPath? h (by decide) (fun _ => nofun)
  simpa [fixed] using hmem

/-- The path of an entry leads to it. -/
theorem ofPath?_entry {id : Text} (hne : id ≠ []) (hslash : 47 ∉ id) :
    ofPath? (utf8 "/history/" ++ id) = some (.entry id) := by
  have hcut := Text.cutPrefix?_append (utf8 "/history/") id
  have hnone : fixed.lookup (utf8 "/history/" ++ id) = none := by
    rw [List.lookup_eq_none_iff]
    intro p hp
    have hall : ∀ p ∈ fixed, Text.cutPrefix? (utf8 "/history/") p.1 = none := by decide
    rw [bne_iff_ne]
    intro heq
    rw [heq, hall p hp] at hcut
    cases hcut
  have hpages : Text.startsWith (utf8 "/history/" ++ id) (utf8 "/swagger/") = false := rfl
  have hsegment : (id.isEmpty || id.any (· == 47)) = false := by
    rw [Bool.or_eq_false_iff]
    exact ⟨by simpa using hne, by simpa using fun b hb (heq : b = 47) => hslash (heq ▸ hb)⟩
  unfold ofPath?
  simp only [hnone, hpages, hcut, hsegment, Bool.false_eq_true, if_false]

end Route

namespace Service

section
variable (s : Service) (now : Instant) {r : Request}

/-- A request that a route accepts is served there. -/
theorem handle_eq_serve {s : Service} {now : Instant} {method path : Text} {route : Route}
    {answer : Option Response} {next : Service}
    (h : r.Asks method path) (hroute : Route.ofPath? path = some route)
    (hknown : method ∈ knownMethods)
    (haccepted : method ∈ route.accepted) (hserve : s.serve now r route = (answer, next)) :
    (s.handle now r).1.map Response.content = answer.map Response.content ∧
      (s.handle now r).2 = next := by
  obtain ⟨rfl, rfl⟩ := h
  have hrouted : s.route now r = (answer, next) := by
    unfold Service.route
    simp only [List.contains_iff_mem.2 hknown, Bool.not_true, Bool.false_eq_true, if_false, hroute,
      List.contains_iff_mem.2 haccepted, if_true, hserve]
  unfold handle
  rw [hrouted]
  exact ⟨by simp [Function.comp_def], rfl⟩

/-- A POST to `/analyze` analyzes its body. -/
theorem handle_analyze (h : r.Asks "POST" "/analyze") :
    (s.handle now r).1.map Response.content = some (s.analyze now r.body).1.content ∧
      (s.handle now r).2 = (s.analyze now r.body).2 := by
  have hserve : s.serve now r .analyze =
      (some (s.analyze now r.body).1, (s.analyze now r.body).2) := by
    rw [serve, h.1]
    rfl
  exact handle_eq_serve h (Route.ofPath?_of_mem (by decide)) (by decide) (by decide) hserve

/-- A DELETE at `/history` forgets the analyses. -/
theorem handle_clear (h : r.Asks "DELETE" "/history") : (s.handle now r).2 = s.clearHistory.2 := by
  have hserve : s.serve now r .history = (some s.clearHistory.1, s.clearHistory.2) := by
    rw [serve, h.1]
    rfl
  exact (handle_eq_serve h (Route.ofPath?_of_mem (by decide)) (by decide) (by decide) hserve).2

/-- A POST to `/compare` compares what its body describes. -/
theorem handle_compare (h : r.Asks "POST" "/compare") :
    (s.handle now r).1.map Response.content = (s.compare r.body).map Response.content := by
  have hserve : s.serve now r .compare = (s.compare r.body, s) := by
    rw [serve, h.1]
    rfl
  exact (handle_eq_serve h (Route.ofPath?_of_mem (by decide)) (by decide) (by decide) hserve).1

/-- A GET at `/summary` sums up what is remembered. -/
theorem handle_summary (h : r.Asks "GET" "/summary") :
    (s.handle now r).1.map Response.content = some s.summarize.content := by
  have hserve : s.serve now r .summary = (some s.summarize, s) := by
    rw [serve, h.1]
    rfl
  exact (handle_eq_serve h (Route.ofPath?_of_mem (by decide)) (by decide) (by decide) hserve).1

/-- A GET behind `/history/` looks for an entry. -/
theorem handle_entry {id : Text} (h : r.Asks "GET" (utf8 "/history/" ++ id)) (hne : id ≠ [])
    (hslash : 47 ∉ id) :
    (s.handle now r).1.map Response.content = some (s.getEntry id).content := by
  have hserve : s.serve now r (.entry id) = (some (s.getEntry id), s) := by
    rw [serve, h.1]
    rfl
  exact (handle_eq_serve h (Route.ofPath?_entry hne hslash) (by decide) List.mem_cons_self hserve).1

/-- Every other request leaves the service as it is. -/
theorem handle_snd_eq_self (hanalyze : ¬ r.Asks "POST" "/analyze")
    (hclear : ¬ r.Asks "DELETE" "/history") :
    (s.handle now r).2 = s := by
  change (s.route now r).2 = s
  unfold Service.route
  split
  · rfl
  · split
    · rfl
    · rename_i route hroute
      split
      · rename_i haccepted
        rw [List.contains_iff_mem] at haccepted
        unfold serve
        split
        · rfl
        · rename_i hoptions
          rw [beq_iff_eq] at hoptions
          cases route with
          | analyze =>
            -- the only method left is the one of a submission
            have hmethod : r.method = utf8 "POST" := by
              simpa [Route.accepted, Route.methods, Route.hasPreflight, hoptions] using haccepted
            exact absurd ⟨hmethod, Route.eq_of_ofPath?_analyze hroute⟩ hanalyze
          | history =>
            have hmethod : r.method ≠ utf8 "DELETE" := fun heq =>
              hclear ⟨heq, Route.eq_of_ofPath?_history hroute⟩
            simp only [beq_eq_false_iff_ne.2 hmethod, Bool.false_eq_true, if_false]
          | _ => rfl
      · rfl

end
end Service
end CodeAudit
