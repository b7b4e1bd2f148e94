/-
Runs of the side that takes snapshots.

A run starts from the file of allowed machines and goes on with calls, decisions
about machines, changes of the tree by other writers, and changes of the file, in
any order.  Its history is the list of its moments, the latest first, and each
moment keeps the server as it was before.

`Live` says in terms of the history alone that a token opens a session: a hello
was answered with it, and nothing since ended the session.
-/
import FleetMesh.Push.Server

namespace FleetMesh
namespace Push

/-- What may happen to a server. -/
inductive Input
  /-- A call, answered as if it came at `now`, at a time of the wall clock. -/
  | call (c : Call) (clock now : Int)
  | allow (uuid : String)
  | revoke (uuid : String)
  /-- A change of the tree by another writer. -/
  | change (c : Change)
  /-- The file of allowed machines is changed from outside, or its disk is. -/
  | disk (ledger : Ledger)

/-- What a caller is told.  Only calls are answered. -/
abbrev Answer := Option (Except Failure Reply)

def Server.step (s : Server) : Input → Server × Answer
  | .call c clock now => ((s.handleAt c clock now).1, some (s.handleAt c clock now).2)
  | .allow uuid => ((s.allow uuid).1, none)
  | .revoke uuid => ((s.revoke uuid).1, none)
  | .change c => ({ s with mesh := s.mesh.run c }, none)
  | .disk ledger => ({ s with authority := { s.authority with ledger := ledger } }, none)

/-- One step of a run: the server before it, what happened, and the answer. -/
structure Moment where
  before : Server
  input : Input
  answer : Answer

def Server.moment (s : Server) (input : Input) : Moment := ⟨s, input, (s.step input).2⟩

/-- The histories of a server that starts anew, with the server they lead to. -/
inductive Run : List Moment → Server → Prop
  | start {signer : Signer} {certificate : String} {limit : Nat} {mint : Nat → String}
    {minted : Nat} {ledger : Ledger} {a : Authority} {wording : Json.Wording}
    (h : Authority.start signer certificate limit mint minted ledger = .ok a) (mesh : Mesh)
    (autoAccept attached : Bool) : Run [] ⟨a, mesh, autoAccept, attached⟩
  | step {past : List Moment} {s : Server} (h : Run past s) (input : Input) :
    Run (s.moment input :: past) (s.step input).1

/-- The server that a history starts from. -/
def origin : List Moment → Server → Server
  | [], s => s
  | m :: past, _ => origin past m.before

/-- A history that goes on with some inputs, the first of them first. -/
def continued (past : List Moment) (s : Server) : List Input → List Moment × Server
  | [] => (past, s)
  | input :: rest => continued (s.moment input :: past) (s.step input).1 rest

theorem Run.continued {past : List Moment} {s : Server} (h : Run past s) (inputs : List Input) :
    Run (continued past s inputs).1 (continued past s inputs).2 := by
  induction inputs generalizing past s with
  | nil => exact h
  | cons input rest ih => exact ih (h.step input)

/-! ## Sessions in a history -/

namespace Moment

/-- A hello of a machine that is allowed and shows its signature, answered with a
token at a time of the wall clock. -/
def Greets (m : Moment) (uuid token : String) (opened : Int) : Prop :=
  ∃ who now, m.input = .call (.hello who) opened now ∧ who.uuid = uuid ∧
    m.before.authority.isAllowed uuid = true ∧
    m.before.authority.signer.verify uuid who.signature = true ∧
    m.answer = some (.ok (.token token))

/-- What ends the session of a machine that a token was given for. -/
inductive Ends (m : Moment) (uuid token : String) (opened : Int) : Prop
  /-- A new hello, which replaces the session. -/
  | replaced {other : String} {clock : Int} (h : m.Greets uuid other clock)
  | closed {clock now : Int} (h : m.input = .call (.goodbye ⟨uuid, token⟩) clock now)
    (answer : m.answer = some (.ok .ack))
  /-- The machine is forgotten, also when that cannot be written down. -/
  | revoked (h : m.input = .revoke uuid)
  /-- An update that comes too long after the hello and after the last snapshot. -/
  | expired {node : String} {clock now : Int}
    (h : m.input = .call (.update ⟨uuid, token, node⟩) clock now)
    (valid : (Call.update ⟨uuid, token, node⟩).validate = .ok ())
    (old : sessionLifetime <
      Clock.sub now (max opened ((m.before.mesh.root.lastUpdate? uuid).getD opened)))

end Moment

/-- Whether a token was given to a machine at the time `opened`, and its session
has not ended since. -/
def Live (past : List Moment) (uuid token : String) (opened : Int) : Prop :=
  ∃ since hello older, past = since ++ hello :: older ∧ hello.Greets uuid token opened ∧
    ∀ m ∈ since, ¬ m.Ends uuid token opened

theorem not_live_nil (uuid token : String) (opened : Int) : ¬ Live [] uuid token opened := by
  intro h
  obtain ⟨since, hello, older, h, _⟩ := h
  exact List.append_ne_nil_of_right_ne_nil since (List.cons_ne_nil hello older) h.symm

theorem live_cons {m : Moment} {past : List Moment} {uuid token : String} {opened : Int} :
    Live (m :: past) uuid token opened ↔
      m.Greets uuid token opened ∨
        Live past uuid token opened ∧ ¬ m.Ends uuid token opened := by
  constructor
  · intro h
    obtain ⟨since, hello, older, h, hhello, hsince⟩ := h
    cases since with
    | nil =>
      obtain ⟨rfl, rfl⟩ := List.cons.inj h
      exact Or.inl hhello
    | cons head since =>
      obtain ⟨rfl, rfl⟩ := List.cons.inj h
      exact Or.inr ⟨⟨since, hello, older, rfl, hhello,
        fun m hm => hsince m (List.mem_cons_of_mem _ hm)⟩, hsince m List.mem_cons_self⟩
  · intro h
    rcases h with h | ⟨⟨since, hello, older, rfl, hhello, hsince⟩, h⟩
    · exact ⟨[], m, past, rfl, h, fun _ hm => absurd hm List.not_mem_nil⟩
    · refine ⟨m :: since, hello, older, rfl, hhello, fun k hk => ?_⟩
      rcases List.mem_cons.mp hk with rfl | hk
      · exact h
      · exact hsince k hk

end Push
end FleetMesh
