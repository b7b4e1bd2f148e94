/-
What a machine that pushes says on a connection.

`conversation` is what was sent on the latest connection of a course, each call with
the answer that was taken for it, the first one that came after it.  Every connection
is the latest one for some time, so what holds of the latest one of every course holds
of all connections.

`Orderly` is the protocol: the calls are numbered from one, they follow one of three
scripts, and a call is only made after the answer that the one before asked for.
`Stands` says how far the script is in each phase, and one step goes from one to
the next (`Stands.move`).  `Course.keeps_protocol` adds what the files have to do with it:
when the certificate and the signature are asked for, and what changes them.
-/
import FleetMesh.Proofs.Push.Client.Course

namespace FleetMesh
namespace Push
namespace Client

/-- What became of a call. -/
inductive Outcome
  | awaited
  /-- No answer came. -/
  | missed
  | answered (r : Response)

/-- A call that was sent, and what became of it. -/
structure Exchange where
  request : Request
  outcome : Outcome

namespace Exchange

/-- What becomes of the latest call, if it is awaited. -/
def settled (xs : List Exchange) (outcome : Outcome) : List Exchange :=
  match xs.getLast? with
  | some ⟨request, .awaited⟩ => xs.dropLast ++ [⟨request, outcome⟩]
  | _ => xs

def heard (xs : List Exchange) : Signal → List Exchange
  | .answered r => settled xs (.answered r)
  | .lost => settled xs .missed
  | _ => xs

/-- A new connection begins a new conversation. -/
def done (xs : List Exchange) : Act → List Exchange
  | .connect => []
  | .send request => xs ++ [⟨request, .awaited⟩]
  | _ => xs

end Exchange

/-- The calls on the latest connection. -/
def conversation : List Occasion → List Exchange
  | [] => []
  | o :: past => o.acts.foldl Exchange.done (Exchange.heard (conversation past) o.signal)

/-! ## The protocol -/

/-- What a client may have to say on one connection. -/
inductive Script : List Call → Prop
  | certificate : Script [.getCertificate]
  | admission (who : Greeting) {asks : List Call} (h : ∀ call ∈ asks, ∃ g, call = .getSignature g) :
    Script (.register who :: asks)
  | session (who : Greeting) {updates leaving : List Call}
    (h : ∀ call ∈ updates, ∃ what, call = .update what)
    (last : leaving = [] ∨ ∃ who, leaving = [.goodbye who]) :
    Script (.hello who :: (updates ++ leaving))

/-- The answer after which a client goes on. -/
inductive Expected : Call → Except Failure Reply → Prop
  | registered (who : Greeting) : Expected (.register who) (.ok .ack)
  | waiting (who : Greeting) : Expected (.getSignature who) (.error .waiting)
  | greeted (who : Greeting) (token : String) : Expected (.hello who) (.ok (.token token))
  | taken (what : Delivery) : Expected (.update what) (.ok .ack)

/-- A call has its own answer, and it is the expected one. -/
def Exchange.Met (x : Exchange) : Prop :=
  ∃ r, x.outcome = .answered r ∧ r.id = x.request.id ∧ Expected x.request.call r.result

/-- A conversation began with a hello that was answered with a token. -/
def Opened (xs : List Exchange) (token : String) : Prop :=
  ∃ who rest, xs = ⟨⟨1, .hello who⟩, .answered ⟨1, .ok (.token token)⟩⟩ :: rest

/-- The token that a call shows. -/
def token? : Call → Option String
  | .update what => some what.token
  | .goodbye who => some who.token
  | _ => none

/-- A conversation keeps to the protocol. -/
structure Orderly (xs : List Exchange) : Prop where
  numbered : xs.map (fun x => x.request.id) = List.range' 1 xs.length
  scripted : ∃ script, Script script ∧ xs.map (fun x => x.request.call) <+: script
  met : ∀ x ∈ xs.dropLast, x.Met
  tokens : ∀ x ∈ xs, ∀ token, token? x.request.call = some token → Opened xs token

variable {c d : Client} {w : Setting} {signal : Signal} {acts : List Act} {past : List Occasion}
  {xs : List Exchange} {r : Response} {request : Request} {call : Call} {token : String}
  {phase : Phase}

theorem settled_open (xs : List Exchange) (request : Request) (outcome : Outcome) :
    Exchange.settled (xs ++ [⟨request, .awaited⟩]) outcome = xs ++ [⟨request, outcome⟩] := by
  simp only [Exchange.settled, List.getLast?_append, List.getLast?_singleton, Option.some_or,
    List.dropLast_concat]

theorem settled_closed {x : Exchange} (h : x.outcome ≠ .awaited) (xs : List Exchange)
    (outcome : Outcome) : Exchange.settled (xs ++ [x]) outcome = xs ++ [x] := by
  obtain ⟨request, answer⟩ := x
  cases answer with
  | awaited => exact absurd rfl h
  | _ => simp only [Exchange.settled, List.getLast?_append, List.getLast?_singleton, Option.some_or]

theorem settled_of_met (h : ∀ x ∈ xs, x.Met) (outcome : Outcome) :
    Exchange.settled xs outcome = xs := by
  rcases List.eq_nil_or_concat xs with rfl | ⟨ys, x, rfl⟩
  · rfl
  · rw [List.concat_eq_append] at h ⊢
    obtain ⟨r, hr, _⟩ := h x (List.mem_append_right _ List.mem_cons_self)
    exact settled_closed (by rw [hr]; exact Outcome.noConfusion) ys outcome

theorem heard_of_met (h : ∀ x ∈ xs, x.Met) (signal : Signal) : Exchange.heard xs signal = xs := by
  cases signal with
  | answered r => exact settled_of_met h _
  | lost => exact settled_of_met h _
  | _ => rfl

namespace Orderly

theorem nil : Orderly [] where
  numbered := rfl
  scripted := ⟨_, .certificate, List.nil_prefix⟩
  met := fun _ h => absurd h List.not_mem_nil
  tokens := fun _ h => absurd h List.not_mem_nil

/-- The next call, after calls that have their answers. -/
theorem send (h : Orderly xs) (hmet : ∀ x ∈ xs, x.Met)
    (hscript : ∃ script, Script script ∧ xs.map (fun x => x.request.call) ++ [call] <+: script)
    (htoken : ∀ token, token? call = some token → Opened xs token) :
    Orderly (xs ++ [⟨⟨xs.length + 1, call⟩, .awaited⟩]) where
  numbered := by
    rw [List.map_append, h.numbered, List.map_singleton, List.length_append, List.length_singleton,
      List.range'_concat, Nat.one_mul, Nat.add_comm 1]
  scripted := by
    rw [List.map_append]
    exact hscript
  met := by
    rw [List.dropLast_concat]
    exact hmet
  tokens := by
    intro x hx token ht
    obtain ⟨who, rest, rfl⟩ : Opened xs token := by
      rcases List.mem_append.mp hx with hx | hx
      · exact h.tokens x hx token ht
      · obtain rfl := List.mem_singleton.mp hx
        exact htoken token ht
    exact ⟨who, _, List.cons_append⟩

/-- A first call that begins a script. -/
theorem first {calls : List Call} (h : Script (call :: calls)) (htoken : token? call = none) :
    Orderly [⟨⟨1, call⟩, .awaited⟩] :=
  nil.send (fun _ hx => absurd hx List.not_mem_nil) ⟨_, h, by simp⟩
    (fun token ht => by rw [htoken] at ht; cases ht)

theorem registering (who : Greeting) : Orderly [⟨⟨1, .register who⟩, .awaited⟩] :=
  first (.admission who (fun _ h => absurd h List.not_mem_nil)) rfl

theorem greeting (who : Greeting) : Orderly [⟨⟨1, .hello who⟩, .awaited⟩] :=
  first (.session who (fun _ h => absurd h List.not_mem_nil) (Or.inl rfl)) rfl

/-- What becomes of a call changes nothing else. -/
theorem settled (h : Orderly xs) (outcome : Outcome) : Orderly (Exchange.settled xs outcome) := by
  rcases List.eq_nil_or_concat xs with rfl | ⟨ys, ⟨request, before⟩, rfl⟩
  · exact h
  · rw [List.concat_eq_append] at h ⊢
    cases before with
    | missed | answered =>
      rw [settled_closed Outcome.noConfusion]
      exact h
    | awaited =>
      rw [settled_open]
      refine ⟨?_, ?_, ?_, ?_⟩
      · simpa using h.numbered
      · simpa using h.scripted
      · simpa using h.met
      · intro x hx token ht
        obtain ⟨who, rest, hhead⟩ : Opened (ys ++ [⟨request, .awaited⟩]) token := by
          rcases List.mem_append.mp hx with hx | hx
          · exact h.tokens x (List.mem_append_left _ hx) token ht
          · obtain rfl := List.mem_singleton.mp hx
            exact h.tokens _ (List.mem_append_right _ List.mem_cons_self) token ht
        cases ys with
        | nil => cases hhead
        | cons y ys =>
          obtain ⟨rfl, _⟩ := List.cons.inj hhead
          exact ⟨who, _, rfl⟩

theorem heard (h : Orderly xs) (signal : Signal) : Orderly (Exchange.heard xs signal) := by
  cases signal with
  | answered r => exact h.settled _
  | lost => exact h.settled _
  | _ => exact h

end Orderly

/-! ## Scripts that are under way -/

/-- The client registered, and has been told to wait so far. -/
inductive Admitting : List Exchange → Prop
  | registered (who : Greeting) : Admitting [⟨⟨1, .register who⟩, .answered ⟨1, .ok .ack⟩⟩]
  | waits {xs : List Exchange} (h : Admitting xs) (who : Greeting) :
    Admitting
      (xs ++ [⟨⟨xs.length + 1, .getSignature who⟩, .answered ⟨xs.length + 1, .error .waiting⟩⟩])

/-- The client has a session, and its snapshots were taken so far. -/
inductive Reporting (token : String) : List Exchange → Prop
  | greeted (who : Greeting) :
    Reporting token [⟨⟨1, .hello who⟩, .answered ⟨1, .ok (.token token)⟩⟩]
  | taken {xs : List Exchange} (h : Reporting token xs) {what : Delivery}
    (shown : what.token = token) :
    Reporting token
      (xs ++ [⟨⟨xs.length + 1, .update what⟩, .answered ⟨xs.length + 1, .ok .ack⟩⟩])

namespace Admitting

theorem met (h : Admitting xs) : ∀ x ∈ xs, x.Met := by
  induction h with
  | registered who => exact List.forall_mem_singleton.mpr ⟨_, rfl, rfl, .registered who⟩
  | waits _ who ih =>
    exact List.forall_mem_append.mpr
      ⟨ih, List.forall_mem_singleton.mpr ⟨_, rfl, rfl, .waiting who⟩⟩

theorem calls (h : Admitting xs) : ∃ who asks, (∀ call ∈ asks, ∃ g, call = .getSignature g) ∧
    xs.map (fun x => x.request.call) = .register who :: asks := by
  induction h with
  | registered who => exact ⟨who, [], fun _ h => absurd h List.not_mem_nil, rfl⟩
  | waits _ next ih =>
    obtain ⟨who, asks, hasks, hcalls⟩ := ih
    refine ⟨who, asks ++ [.getSignature next], ?_, by rw [List.map_append, hcalls]; rfl⟩
    exact List.forall_mem_append.mpr ⟨hasks, List.forall_mem_singleton.mpr ⟨next, rfl⟩⟩

theorem ask (h : Admitting xs) (ho : Orderly xs) (who : Greeting) :
    Orderly (xs ++ [⟨⟨xs.length + 1, .getSignature who⟩, .awaited⟩]) := by
  obtain ⟨first, asks, hasks, hcalls⟩ := h.calls
  have hall : ∀ call ∈ asks ++ [.getSignature who], ∃ g, call = .getSignature g :=
    List.forall_mem_append.mpr ⟨hasks, List.forall_mem_singleton.mpr ⟨who, rfl⟩⟩
  refine ho.send h.met ⟨_, .admission first hall, ?_⟩ (fun _ ht => by cases ht)
  rw [hcalls]
  exact List.prefix_rfl

theorem orderly (h : Admitting xs) : Orderly xs := by
  induction h with
  | registered who => exact (Orderly.registering who).settled _
  | @waits xs h who ih =>
    rw [← settled_open]
    exact (h.ask ih who).settled _

end Admitting

namespace Reporting

theorem met (h : Reporting token xs) : ∀ x ∈ xs, x.Met := by
  induction h with
  | greeted who => exact List.forall_mem_singleton.mpr ⟨_, rfl, rfl, .greeted who token⟩
  | taken _ _ ih =>
    exact List.forall_mem_append.mpr ⟨ih, List.forall_mem_singleton.mpr ⟨_, rfl, rfl, .taken _⟩⟩

theorem opened (h : Reporting token xs) : Opened xs token := by
  induction h with
  | greeted who => exact ⟨who, [], rfl⟩
  | taken _ _ ih =>
    obtain ⟨who, rest, rfl⟩ := ih
    exact ⟨who, _, List.cons_append⟩

theorem calls (h : Reporting token xs) : ∃ who updates,
    (∀ call ∈ updates, ∃ what, call = .update what) ∧
      xs.map (fun x => x.request.call) = .hello who :: updates := by
  induction h with
  | greeted who => exact ⟨who, [], fun _ h => absurd h List.not_mem_nil, rfl⟩
  | @taken _ _ what _ ih =>
    obtain ⟨who, updates, hupdates, hcalls⟩ := ih
    refine ⟨who, updates ++ [.update what], ?_, by rw [List.map_append, hcalls]; rfl⟩
    exact List.forall_mem_append.mpr ⟨hupdates, List.forall_mem_singleton.mpr ⟨what, rfl⟩⟩

theorem update (h : Reporting token xs) (ho : Orderly xs) {what : Delivery}
    (hw : what.token = token) : Orderly (xs ++ [⟨⟨xs.length + 1, .update what⟩, .awaited⟩]) := by
  obtain ⟨who, updates, hupdates, hcalls⟩ := h.calls
  have hall : ∀ call ∈ updates ++ [.update what], ∃ what, call = .update what :=
    List.forall_mem_append.mpr ⟨hupdates, List.forall_mem_singleton.mpr ⟨what, rfl⟩⟩
  refine ho.send h.met ⟨_, .session who hall (Or.inl rfl), ?_⟩ (fun t ht => ?_)
  · rw [hcalls, List.append_nil]
    exact List.prefix_rfl
  · obtain rfl := hw.symm.trans (Option.some.inj ht)
    exact h.opened

theorem leave (h : Reporting token xs) (ho : Orderly xs) {who : Credentials}
    (hw : who.token = token) : Orderly (xs ++ [⟨⟨xs.length + 1, .goodbye who⟩, .awaited⟩]) := by
  obtain ⟨first, updates, hupdates, hcalls⟩ := h.calls
  refine ho.send h.met ⟨_, .session first hupdates (Or.inr ⟨who, rfl⟩), ?_⟩ (fun t ht => ?_)
  · rw [hcalls]
    exact List.prefix_rfl
  · obtain rfl := hw.symm.trans (Option.some.inj ht)
    exact h.opened

theorem orderly (h : Reporting token xs) : Orderly xs := by
  induction h with
  | greeted who => exact (Orderly.greeting who).settled _
  | @taken xs h what hw ih =>
    rw [← settled_open]
    exact (h.update ih hw).settled _

end Reporting

/-! ## How far the script is -/

theorem response_eq {n : Nat} {result : Except Failure Reply} (id : r.id = c.sent)
    (sent : c.sent = n) (is : r.result = result) : r = ⟨n, result⟩ := by
  obtain ⟨_, _⟩ := r
  obtain rfl := id.trans sent
  obtain rfl := is
  rfl

/-- The calls on a connection, in a phase. -/
def Stands (c : Client) (xs : List Exchange) : Prop :=
  match c.phase with
  | .opening | .securing _ => c.sent = 0 ∧ xs = []
  | .fetching => c.sent = 1 ∧ xs = [⟨⟨1, .getCertificate⟩, .awaited⟩]
  | .registering => c.sent = 1 ∧ ∃ who, xs = [⟨⟨1, .register who⟩, .awaited⟩]
  | .asking => ∃ ys who, Admitting ys ∧ c.sent = ys.length + 1 ∧
      xs = ys ++ [⟨⟨ys.length + 1, .getSignature who⟩, .awaited⟩]
  | .pausing => c.sent = xs.length ∧ Admitting xs
  | .greeting => c.sent = 1 ∧ ∃ who, xs = [⟨⟨1, .hello who⟩, .awaited⟩]
  | .idle token => c.sent = xs.length ∧ Reporting token xs
  | .updating token => ∃ ys what, Reporting token ys ∧ what.token = token ∧
      c.sent = ys.length + 1 ∧ xs = ys ++ [⟨⟨ys.length + 1, .update what⟩, .awaited⟩]
  | .leaving | .resting | .stopped => Orderly xs

namespace Stands

theorem of_phase (h : c.Stands xs) (hphase : c.phase = phase) :
    Stands { c with phase := phase } xs := by
  subst hphase
  exact h

theorem orderly (h : c.Stands xs) : Orderly xs := by
  cases hphase : c.phase with
  | opening | securing _ =>
    obtain ⟨_, rfl⟩ := h.of_phase hphase
    exact .nil
  | fetching =>
    obtain ⟨_, rfl⟩ := h.of_phase hphase
    exact .first .certificate rfl
  | registering =>
    obtain ⟨_, who, rfl⟩ := h.of_phase hphase
    exact .registering who
  | asking =>
    obtain ⟨ys, who, hys, _, rfl⟩ := h.of_phase hphase
    exact hys.ask hys.orderly who
  | pausing => exact (h.of_phase hphase).2.orderly
  | greeting =>
    obtain ⟨_, who, rfl⟩ := h.of_phase hphase
    exact .greeting who
  | idle token => exact (h.of_phase hphase).2.orderly
  | updating token =>
    obtain ⟨ys, what, hys, hw, _, rfl⟩ := h.of_phase hphase
    exact hys.update hys.orderly hw
  | leaving | resting | stopped => exact (h.of_phase hphase :)

theorem fresh (h : c.Stands xs) (ht : c.Trusts) : c.sent = 0 ∧ xs = [] := by
  rcases ht with ⟨hphase, _⟩ | hphase
  · exact (h.of_phase hphase :)
  · exact (h.of_phase hphase :)

/-- An answer that opens the session, or takes a snapshot in it. -/
theorem continues (h : c.Stands xs) (hc : c.Continues r token) :
    c.sent = (Exchange.heard xs (.answered r)).length ∧
      Reporting token (Exchange.heard xs (.answered r)) := by
  obtain ⟨hid, ⟨hphase, hresult⟩ | ⟨hphase, hresult⟩⟩ := hc
  · obtain ⟨hsent, who, rfl⟩ := h.of_phase hphase
    obtain rfl := response_eq hid hsent hresult
    exact ⟨hsent, .greeted who⟩
  · obtain ⟨ys, what, hys, hw, hsent, rfl⟩ := h.of_phase hphase
    obtain rfl := response_eq hid hsent hresult
    rw [Exchange.heard, settled_open]
    exact ⟨by rw [List.length_append, List.length_singleton]; exact hsent, hys.taken hw⟩

/-- Where nothing is awaited, no call is left open that the script goes on from. -/
theorem unheard (h : c.Stands xs) (hs : Settles signal → c.awaits = false) :
    c.Stands (Exchange.heard xs signal) := by
  have ho := h.orderly.heard signal
  cases hphase : c.phase with
  | opening | securing _ =>
    obtain ⟨hsent, rfl⟩ := h.of_phase hphase
    rw [heard_of_met (fun _ hx => absurd hx List.not_mem_nil)]
    exact h
  | pausing =>
    rw [heard_of_met (h.of_phase hphase).2.met]
    exact h
  | idle token =>
    rw [heard_of_met (h.of_phase hphase).2.met]
    exact h
  | leaving | resting | stopped =>
    -- No call comes after these, so what becomes of the latest one is left open.
    rw [Stands, hphase]
    exact ho
  | fetching | registering | asking | greeting | updating =>
    cases signal with
    | answered | lost => simp [awaits, hphase, Settles] at hs
    | _ => exact h

/-- A call goes out where the script goes on with it. -/
theorem prompt (h : c.Stands xs) (hp : Prompt c w signal phase call) :
    Stands { c with phase := phase, sent := c.sent + 1 }
      (Exchange.heard xs signal ++ [⟨⟨c.sent + 1, call⟩, .awaited⟩]) := by
  cases hp with
  | fetch hphase =>
    obtain ⟨hsent, rfl⟩ := h.of_phase hphase
    rw [show c.sent = 0 from hsent]
    exact ⟨rfl, rfl⟩
  | register ht _ =>
    obtain ⟨hsent, rfl⟩ := h.fresh ht
    rw [hsent]
    exact ⟨rfl, _, rfl⟩
  | hello ht _ =>
    obtain ⟨hsent, rfl⟩ := h.fresh ht
    rw [hsent]
    exact ⟨rfl, _, rfl⟩
  | ask hphase hid hresult =>
    obtain ⟨hsent, who, rfl⟩ := h.of_phase hphase
    obtain rfl := response_eq hid hsent hresult
    rw [show c.sent = 1 from hsent]
    exact ⟨_, _, .registered who, rfl, rfl⟩
  | askAgain hphase =>
    obtain ⟨hsent, hys⟩ := h.of_phase hphase
    rw [show c.sent = xs.length from hsent]
    exact ⟨_, _, hys, rfl, rfl⟩
  | update hphase hwritten =>
    obtain ⟨hsent, hys⟩ := h.of_phase hphase
    obtain ⟨_, _, rfl⟩ := Option.map_eq_some_iff.mp hwritten
    rw [show c.sent = xs.length from hsent]
    exact ⟨_, _, hys, rfl, rfl, rfl⟩
  | leave hphase _ =>
    obtain ⟨hsent, hys⟩ := h.of_phase hphase
    rw [show c.sent = xs.length from hsent]
    exact hys.leave hys.orderly rfl

/-- What one step does to the calls on the connection. -/
theorem move (h : c.Stands xs) (hm : Move c w signal d acts) :
    d.Stands (acts.foldl Exchange.done (Exchange.heard xs signal)) := by
  have ho : Orderly (Exchange.heard xs signal) := h.orderly.heard signal
  cases hm with
  | still _ hs => exact (h.unheard hs :)
  | secure hphase _ hconnected _ =>
    subst hconnected
    exact (h.of_phase hphase :)
  | call _ hp => exact (h.prompt hp :)
  | pause hphase hanswered hid hresult =>
    subst hanswered
    obtain ⟨ys, who, hys, hsent, rfl⟩ := h.of_phase hphase
    obtain rfl := response_eq hid hsent hresult
    change Stands _ (Exchange.settled _ _)
    rw [settled_open]
    exact ⟨by rw [List.length_append, List.length_singleton]; exact hsent, hys.waits who⟩
  | idle hanswered hc =>
    subst hanswered
    exact h.continues hc
  | reconnect _ => exact ⟨rfl, rfl⟩
  | retry _ _ => exact ⟨rfl, rfl⟩
  | giveUp _ => exact ho
  | finish _ => exact ho
  | bootAndFinish _ => exact ho

end Stands

theorem Course.stands (h : Course past c) : c.Stands (conversation past) := by
  induction h with
  | start => exact ⟨rfl, rfl⟩
  | step h w signal ih => exact ih.move (step_move _ w signal)
  | altered h hrests certificate signature ih =>
    rw [Stands, hrests]
    exact ih.of_phase hrests

/-! ## Files -/

/-- What one step has to do with the files. -/
structure Careful (c : Client) (xs : List Exchange) (w : Setting) (signal : Signal) : Prop where
  fetches : ∀ n, .send ⟨n, .getCertificate⟩ ∈ (c.step w signal).2 →
    c.secured = true ∧ Blank c.certificate
  admission : ∀ n who, .send ⟨n, .register who⟩ ∈ (c.step w signal).2 ∨
    .send ⟨n, .getSignature who⟩ ∈ (c.step w signal).2 → Blank c.signature
  certificate : (c.step w signal).1.certificate ≠ c.certificate →
    xs = [⟨⟨1, .getCertificate⟩, .awaited⟩] ∧
      ∃ pem pin, signal = .answered ⟨1, .ok (.certificate pem)⟩ ∧
        Tls.Pin.ofPem (some (Text.bytesOf pem)) = .ok pin ∧
        (c.step w signal).1.certificate = some (Text.bytesOf pem)
  signature : (c.step w signal).1.signature ≠ c.signature →
    (∃ ys who bytes, xs = ys ++ [⟨⟨ys.length + 1, .getSignature who⟩, .awaited⟩] ∧
      signal = .answered ⟨ys.length + 1, .ok (.signature bytes)⟩ ∧
      (c.step w signal).1.signature = some bytes) ∨
    (∃ who, xs = [⟨⟨1, .hello who⟩, .awaited⟩] ∧
      signal = .answered ⟨1, .error .notAllowed⟩ ∧ (c.step w signal).1.signature = none)

theorem careful (hk : c.Kept) (hs : c.Stands xs) (w : Setting) (signal : Signal) :
    Careful c xs w signal where
  fetches := by
    intro n hsend
    obtain ⟨phase, hp⟩ := (step_move c w signal).prompt hsend
    have hkept := hk.prompt hp
    cases hp
    exact hkept
  admission := by
    rintro n who (hsend | hsend)
    · obtain ⟨phase, hp⟩ := (step_move c w signal).prompt hsend
      have hkept := hk.prompt hp
      cases hp
      exact hkept.2
    · obtain ⟨phase, hp⟩ := (step_move c w signal).prompt hsend
      have hkept := hk.prompt hp
      cases hp with
      | ask | askAgain => exact hkept.2
  certificate := by
    intro hne
    obtain ⟨hsame, _⟩ | ⟨b, e, hb, hc, _⟩ := (step_move c w signal).files
    · exact absurd hsame hne
    rw [hc] at hne ⊢
    cases hb with
    | certificate hphase hid hresult hloads =>
      obtain ⟨hsent, rfl⟩ := hs.of_phase hphase
      obtain rfl := response_eq hid hsent hresult
      exact ⟨rfl, _, _, rfl, hloads, rfl⟩
    | dropped | signature => exact absurd rfl hne
  signature := by
    intro hne
    obtain ⟨_, hsame⟩ | ⟨b, e, hb, _, hc⟩ := (step_move c w signal).files
    · exact absurd hsame hne
    rw [hc] at hne ⊢
    cases hb with
    | certificate => exact absurd rfl hne
    | dropped hphase hid hresult =>
      obtain ⟨hsent, who, rfl⟩ := hs.of_phase hphase
      obtain rfl := response_eq hid hsent hresult
      refine Or.inr ⟨who, rfl, rfl, ?_⟩
      dsimp only at hne ⊢
      split at hne
      · exact if_pos ‹_›
      · exact absurd rfl hne
    | signature hphase hid hresult =>
      obtain ⟨ys, who, _, hsent, rfl⟩ := hs.of_phase hphase
      obtain rfl := response_eq hid hsent hresult
      exact Or.inl ⟨ys, who, _, rfl, rfl, rfl⟩

/-- Whatever the other side answers, and whenever the client is cancelled, it keeps to
the protocol on every connection, asks for the certificate and for a signature only where
there is none, and changes its files only for the answers that say so. -/
theorem Course.keeps_protocol (h : Course past c) :
    Orderly (conversation past) ∧ ∀ w signal, Careful c (conversation past) w signal :=
  ⟨h.stands.orderly, careful h.kept h.stands⟩

/-- An admission that has to wait, and then a session that is cancelled. -/
def lateAdmission : List (Setting × Signal) :=
  [.connected, .answered ⟨1, .ok .ack⟩, .answered ⟨2, .error .waiting⟩, .elapsed,
    .answered ⟨3, .ok (.signature [1])⟩, .connected, .answered ⟨1, .ok (.token "t")⟩,
    .cancelled, .noticed].map (openSetting, ·)

theorem lateAdmission_keeps_protocol :
    (conversation ((start "" false none none).1.recorded [] lateAdmission)).map
        (fun x => (x.request.id, token? x.request.call)) = [(1, none), (2, some "t")] ∧
      Orderly (conversation ((start "" false none none).1.recorded [] lateAdmission)) ∧
      ∀ w signal, Careful ((start "" false none none).1.run lateAdmission).1
        (conversation ((start "" false none none).1.recorded [] lateAdmission)) w signal := by
  obtain ⟨horderly, hcareful⟩ :=
    ((Course.start "" false none none).run lateAdmission).keeps_protocol
  exact ⟨by decide +kernel, horderly, hcareful⟩

end Client
end Push
end FleetMesh
