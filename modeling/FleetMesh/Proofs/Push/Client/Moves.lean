/-
What one signal does to a machine that pushes.

`Prompt` says where each call comes from, `Boot` what each of the three ways to start
over at once does to the files, and `Move` lists everything a step can do.
`Client.step_move` is the only place where the machine itself is opened; what is
proved of its runs is proved from the moves.
-/
import FleetMesh.Push.Client

namespace FleetMesh
namespace Push

/-- Why a connection is given up for another one at once. -/
inductive Bootstrap
  /-- The certificate was fetched and is kept. -/
  | certificateStored
  /-- The signature was refused, and its file is gone unless it cannot be removed. -/
  | signatureDropped (removed : Bool)
  /-- The signature was given and is kept. -/
  | signatureStored (bytes : List UInt8)
  deriving DecidableEq, Repr

namespace Client

/-- The connection is there, and it is a pinned one if the client is to secure it. -/
def Trusts (c : Client) : Prop :=
  c.phase = .opening ∧ c.secured = false ∨ c.phase = .securing true

/-- The signal says what became of an awaited answer. -/
def Settles : Signal → Prop
  | .answered _ | .lost => True
  | _ => False

/-- An answer opens a session or takes a snapshot in it. -/
def Continues (c : Client) (r : Response) (token : String) : Prop :=
  r.id = c.sent ∧
    (c.phase = .greeting ∧ r.result = .ok (.token token) ∨
      c.phase = .updating token ∧ r.result = .ok .ack)

/-- A signal makes the client send a call, and then it is in a phase. -/
inductive Prompt (c : Client) (w : Setting) : Signal → Phase → Call → Prop
  | fetch (h : c.phase = .securing false) : Prompt c w .connected .fetching .getCertificate
  | register (h : c.Trusts) (none : contents? w.signatureFile c.signature = some none) :
    Prompt c w .connected .registering (.register (greeting w.root []))
  | hello {signature : List UInt8} (h : c.Trusts)
    (some : contents? w.signatureFile c.signature = some (some signature)) :
    Prompt c w .connected .greeting (.hello (greeting w.root signature))
  | ask {r : Response} (h : c.phase = .registering) (id : r.id = c.sent)
    (result : r.result = .ok .ack) :
    Prompt c w (.answered r) .asking (.getSignature (greeting w.root []))
  | askAgain (h : c.phase = .pausing) :
    Prompt c w .elapsed .asking (.getSignature (greeting w.root []))
  | update {token : String} {what : Delivery} (h : c.phase = .idle token)
    (written : delivery? w.root token = some what) :
    Prompt c w .elapsed (.updating token) (.update what)
  | leave {token : String} (h : c.phase = .idle token) (cancelled : c.cancelled = true) :
    Prompt c w .noticed .leaving (.goodbye ⟨w.root.uuid, token⟩)

/-- A signal ends a step of the way to a session, which leaves a client with other
files. -/
inductive Boot (c : Client) (w : Setting) : Signal → Bootstrap → Client → Prop
  | certificate {r : Response} {pem : String} {pin : Tls.Pin} (h : c.phase = .fetching)
    (id : r.id = c.sent) (result : r.result = .ok (.certificate pem))
    (loads : Tls.Pin.ofPem (some (Text.bytesOf pem)) = .ok pin) :
    Boot c w (.answered r) .certificateStored { c with certificate := some (Text.bytesOf pem) }
  | dropped {r : Response} (h : c.phase = .greeting) (id : r.id = c.sent)
    (result : r.result = .error .notAllowed) :
    Boot c w (.answered r) (.signatureDropped w.signatureFile.remove)
      { c with signature := if w.signatureFile.remove then none else c.signature }
  | signature {r : Response} {bytes : List UInt8} (h : c.phase = .asking) (id : r.id = c.sent)
    (result : r.result = .ok (.signature bytes)) :
    Boot c w (.answered r) (.signatureStored bytes) { c with signature := some bytes }

/-- Everything that a signal can do.  The flag of cancellation is left open where
nothing depends on it. -/
inductive Move (c : Client) (w : Setting) (signal : Signal) : Client → List Act → Prop
  | still (cancelled : Bool) (unheard : Settles signal → c.awaits = false) :
    Move c w signal { c with cancelled := cancelled } []
  | secure {text : Option (List UInt8)} {name : Tls.ServerName} {pin : Tls.Pin}
    (h : c.phase = .opening) (secured : c.secured = true) (connected : signal = .connected)
    (file : contents? w.certificateFile c.certificate = some text) :
    Move c w signal { c with phase := .securing text.isSome } [.secure name pin]
  | call {phase : Phase} {call : Call} (cancelled : Bool) (h : Prompt c w signal phase call) :
    Move c w signal { c with phase := phase, sent := c.sent + 1, cancelled := cancelled }
      [.send ⟨c.sent + 1, call⟩]
  | pause {r : Response} (h : c.phase = .asking) (answered : signal = .answered r)
    (id : r.id = c.sent) (result : r.result = .error .waiting) :
    Move c w signal { c with phase := .pausing } [.wait]
  | idle {r : Response} {token : String} (answered : signal = .answered r)
    (h : c.Continues r token) : Move c w signal { c with phase := .idle token } []
  | reconnect {b : Bootstrap} {d : Client} (h : Boot c w signal b d) :
    Move c w signal { d with phase := .opening, sent := 0 } [.disconnect, .connect]
  | retry (h : c.phase = .resting) (elapsed : signal = .elapsed) :
    Move c w signal { c with phase := .opening, sent := 0 } [.disconnect, .connect]
  | giveUp (cancelled : Bool) :
    Move c w signal { c with phase := .resting, cancelled := cancelled } [.disconnect, .wait]
  | finish (cancelled : Bool) :
    Move c w signal { c with phase := .stopped, cancelled := cancelled } [.disconnect, .stop]
  | bootAndFinish {b : Bootstrap} {d : Client} (h : Boot c w signal b d) :
    Move c w signal { d with phase := .stopped } [.disconnect, .stop]

variable {c d : Client} {w : Setting} {signal : Signal} {phase : Phase} {call : Call}
  {b : Bootstrap} {r : Response} {token : String}

/-- The move that a step's outcome is. -/
def Moves (c : Client) (w : Setting) (signal : Signal) (outcome : Client × List Act) : Prop :=
  Move c w signal outcome.1 outcome.2

/-! ## Turns of the way -/

theorem moves_giveUp (cancelled : Bool) :
    Moves c w signal { c with cancelled := cancelled }.giveUp := by
  rw [giveUp]
  split
  · exact .finish cancelled
  · exact .giveUp cancelled

theorem moves_call (h : Prompt c w signal phase call) (cancelled : Bool) :
    Moves c w signal ({ c with cancelled := cancelled }.call phase call) := by
  simp only [Client.call]
  split
  · exact moves_giveUp cancelled
  · exact .call cancelled h

theorem moves_reconnect (h : Boot c w signal b d) : Moves c w signal d.reconnect := by
  rw [reconnect]
  split
  · exact .bootAndFinish h
  · exact .reconnect h

theorem moves_converse (h : c.Trusts) : Moves c w .connected (c.converse w) := by
  rw [converse]
  cases hfile : contents? w.signatureFile c.signature with
  | none => exact moves_giveUp c.cancelled
  | some signature =>
    cases signature with
    | none => exact moves_call (.register h hfile) c.cancelled
    | some signature => exact moves_call (.hello h hfile) c.cancelled

theorem moves_handshake (h : c.phase = .opening) (hs : c.secured = true) :
    Moves c w .connected (c.handshake w) := by
  rw [handshake]
  cases hfile : contents? w.certificateFile c.certificate with
  | none => exact moves_giveUp c.cancelled
  | some text =>
    dsimp only
    split
    · exact .secure h hs rfl hfile
    · exact moves_giveUp c.cancelled

/-! ## Steps -/

theorem moves_onAnswer (hid : r.id = c.sent) :
    Moves c w (.answered r) (c.onAnswer w r.result) := by
  unfold onAnswer
  split
  case h_1 hphase hresult =>
    rw [storeCertificate]
    split
    · exact moves_giveUp c.cancelled
    · rename_i pin hpin
      split
      · exact moves_reconnect (.certificate hphase hid hresult hpin)
      · exact moves_giveUp c.cancelled
  case h_2 hphase hresult => exact moves_call (.ask hphase hid hresult) c.cancelled
  case h_3 hphase hresult =>
    rw [storeSignature]
    split
    · exact moves_reconnect (.signature hphase hid hresult)
    · exact moves_giveUp c.cancelled
  case h_4 hphase hresult => exact .pause hphase rfl hid hresult
  case h_5 hphase hresult => exact .idle rfl ⟨hid, Or.inl ⟨hphase, hresult⟩⟩
  case h_6 hphase hresult => exact moves_reconnect (.dropped hphase hid hresult)
  case h_7 hphase hresult => exact .idle rfl ⟨hid, Or.inr ⟨hphase, hresult⟩⟩
  case h_8 => exact .finish c.cancelled
  case h_9 => exact moves_giveUp c.cancelled

theorem moves_onCancel : Moves c w .cancelled c.onCancel := by
  unfold onCancel
  dsimp only
  split
  · exact .finish true
  · exact .still true False.elim

theorem moves_onNotice : Moves c w .noticed (c.onNotice w) := by
  rw [onNotice]
  split
  · rename_i hcancelled
    split
    · exact .finish c.cancelled
    · rename_i token hphase
      exact moves_call (.leave hphase hcancelled) c.cancelled
    · exact .still c.cancelled False.elim
  · exact .still c.cancelled False.elim

/-- Every step is one of the moves. -/
theorem step_move (c : Client) (w : Setting) (signal : Signal) :
    Move c w signal (c.step w signal).1 (c.step w signal).2 := by
  have hstill (h : Settles signal → c.awaits = false) : Moves c w signal (c, []) :=
    .still c.cancelled h
  change Moves c w signal (c.step w signal)
  cases signal with
  | cancelled => exact moves_onCancel
  | noticed => exact moves_onNotice
  | connected =>
    rw [step]
    split
    · rename_i hphase
      cases hs : c.secured with
      | true => exact moves_handshake hphase hs
      | false => exact moves_converse (Or.inl ⟨hphase, hs⟩)
    · rename_i pinned hphase
      cases pinned with
      | true => exact moves_converse (Or.inr hphase)
      | false => exact moves_call (.fetch hphase) c.cancelled
    · exact hstill False.elim
  | failed =>
    rw [step]
    split
    · exact moves_giveUp c.cancelled
    · exact moves_giveUp c.cancelled
    · exact hstill False.elim
  | answered r =>
    rw [step]
    cases hawaits : c.awaits with
    | false => exact hstill (fun _ => hawaits)
    | true =>
      split
      · contradiction
      · split
        · rename_i hid
          exact moves_onAnswer hid
        · split
          · exact .finish c.cancelled
          · exact moves_giveUp c.cancelled
  | lost =>
    rw [step]
    cases hawaits : c.awaits with
    | false => exact hstill (fun _ => hawaits)
    | true =>
      split
      · contradiction
      · split
        · exact .finish c.cancelled
        · exact moves_giveUp c.cancelled
  | elapsed =>
    rw [step]
    split
    · rename_i hphase
      exact moves_call (.askAgain hphase) c.cancelled
    · rename_i token hphase
      split
      · rename_i what hwritten
        exact moves_call (.update hphase hwritten) c.cancelled
      · exact moves_giveUp c.cancelled
    · rename_i hphase
      rw [reconnect]
      split
      · exact .finish c.cancelled
      · exact .retry hphase rfl
    · exact hstill False.elim

/-! ## What a move sends and stores -/

theorem Move.prompt {acts : List Act} {request : Request} (h : Move c w signal d acts)
    (hsend : .send request ∈ acts) : ∃ phase, Prompt c w signal phase request.call := by
  cases h with
  | call _ hp =>
    obtain rfl := Act.send.inj (List.mem_singleton.mp hsend)
    exact ⟨_, hp⟩
  | _ => simp at hsend

theorem Move.files {acts : List Act} (h : Move c w signal d acts) :
    d.certificate = c.certificate ∧ d.signature = c.signature ∨
      ∃ b e, Boot c w signal b e ∧ d.certificate = e.certificate ∧ d.signature = e.signature := by
  cases h with
  | reconnect hb => exact Or.inr ⟨_, _, hb, rfl, rfl⟩
  | bootAndFinish hb => exact Or.inr ⟨_, _, hb, rfl, rfl⟩
  | _ => exact Or.inl ⟨rfl, rfl⟩

end Client
end Push
end FleetMesh
