/-
What the HTTP surface tells and does without the key.

A request that does not show the key gets an answer that is made of the request and the
tree alone, and leaves everything as it was (`Api.respond_of_keyless`): the pages of
the authority refuse it before they look whether there is an authority, and no other
page asks for one.  So two surfaces with the same tree and the same key cannot be
told apart (`Api.keyless_alike`), also not by many requests (`Api.keyless_run`).
-/
import FleetMesh.Http.Api
import FleetMesh.Proofs.Push.Session

namespace FleetMesh
namespace Http

/-- The first key that a request shows is not the one to show.  Nobody can show an empty
one. -/
def Request.Keyless (key : Option String) (r : Request) : Prop :=
  ∀ k, key = some k → k ≠ "" → r.header? "x-api-key" ≠ some k

/-- Decoding the names of a page does not make it another page. -/
theorem Route.isGuarded_decoded {route page : Route} (h : route.decoded? = some page) :
    page.isGuarded = route.isGuarded := by
  cases route with
  | snapshot | health | status | uuids | remotes | groups | clients =>
    obtain rfl := Option.some.inj h
    rfl
  | remote a | remoteStatus a | probes a | group a | allow a | revoke a =>
    obtain ⟨name, _, rfl⟩ := Option.map_eq_some_iff.mp h
    rfl
  | probe a b | probeStatus a b =>
    obtain ⟨name, _, h⟩ := Option.bind_eq_some_iff.mp h
    obtain ⟨reading, _, h⟩ := Option.bind_eq_some_iff.mp h
    obtain rfl := Option.some.inj h
    rfl

namespace Api

variable {api a b : Api} {r : Request}

theorem admits_of_keyless (h : r.Keyless api.key) : api.admits r = false := by
  rw [admits]
  cases hkey : api.key with
  | none => rfl
  | some key =>
    cases hshown : r.header? "x-api-key" with
    | none => rfl
    | some shown =>
      refine Bool.eq_false_iff.mpr (fun hadmits => ?_)
      simp only [Bool.and_eq_true, decide_eq_true_eq, beq_iff_eq] at hadmits
      obtain ⟨⟨hne, _⟩, rfl⟩ := hadmits
      exact h shown hkey hne hshown

/-- What a request without the key is answered, from the tree alone. -/
def openResponse (root : Node) (r : Request) : Response :=
  match Route.ofPath? r.path with
  | none => .notFound
  | some route =>
    if route.isGuarded then .unauthorized
    else if !route.answers r.method then .methodNotAllowed
    else
      let response := (route.decoded?.map (view root r.query)).getD .badRequest
      if r.method = "HEAD" then response.withoutBody else response

/-- A page that is open reads the tree and no more. -/
theorem visit_open {route : Route} (h : route.isGuarded = false) (query : String) :
    api.visit route query =
      (api, (route.decoded?.map (view api.mesh.root query)).getD .badRequest) := by
  cases hpage : route.decoded? with
  | none => simp only [visit, hpage, Option.map_none, Option.getD_none]
  | some page =>
    have hopen : page.isGuarded = false := (Route.isGuarded_decoded hpage).trans h
    simp only [visit, hpage, hopen, Bool.false_eq_true, if_false, Option.map_some,
      Option.getD_some]

theorem respond_of_keyless (h : r.Keyless api.key) :
    api.respond r = (api, openResponse api.mesh.root r) := by
  unfold respond openResponse
  cases hroute : Route.ofPath? r.path with
  | none => rfl
  | some route =>
    cases hguarded : route.isGuarded with
    | true =>
      simp only [hguarded, admits_of_keyless h, Bool.not_false, Bool.and_self, if_true]
    | false =>
      cases hanswers : route.answers r.method with
      | false =>
        simp only [hguarded, hanswers, Bool.false_and, Bool.not_false, Bool.false_eq_true,
          if_false, if_true]
      | true =>
        simp only [hguarded, hanswers, visit_open hguarded, Bool.false_and, Bool.not_true,
          Bool.false_eq_true, if_false]

/-- Without the key two surfaces with one tree and one key answer alike, whatever their
authorities are, and stay as they were. -/
theorem keyless_alike (hroot : a.mesh.root = b.mesh.root) (hkey : a.key = b.key)
    (h : r.Keyless a.key) :
    (a.respond r).2 = (b.respond r).2 ∧ (a.respond r).1 = a ∧ (b.respond r).1 = b := by
  have ha := respond_of_keyless h
  have hb : b.respond r = (b, openResponse b.mesh.root r) := respond_of_keyless (hkey ▸ h)
  rw [ha, hb, hroot]
  exact ⟨rfl, rfl, rfl⟩

/-- A surface whose authority has a machine waiting, and one without an authority. -/
def keptSurface : Api :=
  ⟨Push.waitingServer.mesh, some Push.waitingServer.authority, true, some "secret"⟩

def bareSurface : Api := ⟨Push.waitingServer.mesh, none, false, some "secret"⟩

/-- An attempt to allow that machine, with a wrong key before the right one. -/
def forgedRequest : Request :=
  ⟨"POST", "/authority/allow/u", [("X-Api-Key", "guess"), ("x-api-key", "secret")]⟩

theorem forgedRequest_alike :
    keptSurface.mesh.root = bareSurface.mesh.root ∧ keptSurface.key = bareSurface.key ∧
      forgedRequest.Keyless keptSurface.key ∧
      (keptSurface.respond forgedRequest).2.status = 401 ∧
      (keptSurface.respond forgedRequest).2 = (bareSurface.respond forgedRequest).2 ∧
      (keptSurface.respond forgedRequest).1 = keptSurface ∧
      (bareSurface.respond forgedRequest).1 = bareSurface := by
  have hkeyless : forgedRequest.Keyless keptSurface.key := by
    intro k hk _ hshown
    obtain rfl := Option.some.inj hk
    exact absurd hshown (by decide +kernel)
  exact ⟨rfl, rfl, hkeyless, by decide +kernel, keyless_alike rfl rfl hkeyless⟩

/-- Answers requests one after another. -/
def respondAll (api : Api) : List Request → Api × List Response
  | [] => (api, [])
  | r :: rest =>
    let next := (api.respond r).1.respondAll rest
    (next.1, (api.respond r).2 :: next.2)

theorem keyless_run {requests : List Request} (h : ∀ r ∈ requests, r.Keyless api.key) :
    api.respondAll requests = (api, requests.map (openResponse api.mesh.root)) := by
  induction requests with
  | nil => rfl
  | cons r rest ih =>
    obtain ⟨hr, hrest⟩ := List.forall_mem_cons.mp h
    simp only [respondAll, respond_of_keyless hr, ih hrest, List.map_cons]

end Api
end Http
end FleetMesh
