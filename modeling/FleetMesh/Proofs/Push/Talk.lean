/-
A connection does the requests that it is sent, one by one.

`Requested` says which they are without the reader: the stream is cut into frames as
long as it begins with a whole frame that holds a request, and each request has the
time at which its last byte came.  The first frame that is cut short, is too long or
holds no request ends the list.  How the stream was cut into reads does not occur in
it but for the times.

`Talk.requests_handled` ties the connection to `Server.handleAll`, the calls done one
after another, and what is written to the frames of their answers (`framed`), which a
reader of the bytes finds again one by one.  An answer that does not fit a frame shuts
the connection, but its call is done; `Server.attend` says so, and is what the
connection does in any case.
-/
import FleetMesh.Proofs.Push.Frame
import FleetMesh.Proofs.Push.Session
import FleetMesh.Proofs.Push.Text

namespace FleetMesh
namespace Push

/-! ## Requests in a stream -/

/-- The bytes of some reads, each with the time of its read. -/
def dated (reads : List (Int × List UInt8)) : List (Int × UInt8) :=
  reads.flatMap (fun read => read.2.map (Prod.mk read.1))

/-- A stream begins with a whole frame that holds a request, and its last byte comes
at `now`. -/
def Heads (now : Int) (request : Request) (rest stream : List (Int × UInt8)) : Prop :=
  ∃ init last payload, stream = init ++ (now, last) :: rest ∧
    init.map Prod.snd ++ [last] = Frame.encode payload ∧
    payload.length ≤ Frame.maxLength ∧ Request.ofFrame payload = .ok request

/-- The requests of the longest part of a stream that is made of whole frames which hold
requests. -/
inductive Requested : List (Int × UInt8) → List (Int × Request) → Prop
  | done {stream : List (Int × UInt8)} (h : ∀ now request rest, ¬ Heads now request rest stream) :
    Requested stream []
  | next {stream rest : List (Int × UInt8)} {now : Int} {request : Request}
    {calls : List (Int × Request)} (h : Heads now request rest stream)
    (more : Requested rest calls) : Requested stream ((now, request) :: calls)

variable {stream rest more : List (Int × UInt8)} {calls others : List (Int × Request)}
  {now later : Int} {request other : Request}

theorem Heads.length_lt (h : Heads now request rest stream) : rest.length < stream.length := by
  obtain ⟨init, last, payload, rfl, _⟩ := h
  rw [List.length_append, List.length_cons]
  omega

theorem Heads.unique (h : Heads now request rest stream) (h' : Heads later other more stream) :
    (now, request) = (later, other) ∧ rest = more := by
  obtain ⟨init, last, payload, rfl, hframe, hsize, hread⟩ := h
  obtain ⟨init', last', payload', hstream, hframe', hsize', hread'⟩ := h'
  have hbytes : Frame.encode payload ++ rest.map Prod.snd =
      Frame.encode payload' ++ more.map Prod.snd := by
    rw [← hframe, ← hframe']
    simpa using congrArg (List.map Prod.snd) hstream
  obtain ⟨rfl, hrest⟩ := Frame.encode_append_inj hsize hsize' hbytes
  have hinit : init.length = init'.length := by
    simpa using congrArg List.length (hframe.trans hframe'.symm)
  obtain ⟨_, htail⟩ := List.append_inj hstream hinit
  obtain ⟨hlast, rfl⟩ := List.cons.inj htail
  obtain rfl := (Prod.mk.inj hlast).1
  obtain rfl := Except.ok.inj (hread.symm.trans hread')
  exact ⟨rfl, rfl⟩

/-- A frame that holds no request is no beginning. -/
theorem not_heads_of_frame {payload bytes : List UInt8} {e : Json.DecodeError}
    (hbytes : stream.map Prod.snd = Frame.encode payload ++ bytes)
    (hsize : payload.length ≤ Frame.maxLength) (hread : Request.ofFrame payload = .error e)
    (now : Int) (request : Request) (rest : List (Int × UInt8)) :
    ¬ Heads now request rest stream := by
  rintro ⟨init, last, payload', rfl, hframe, hsize', hread'⟩
  rw [List.map_append, List.map_cons, List.append_cons, hframe] at hbytes
  obtain ⟨rfl, _⟩ := Frame.encode_append_inj hsize' hsize hbytes
  cases hread.symm.trans hread'

theorem Requested.unique (h : Requested stream calls) (h' : Requested stream others) :
    others = calls := by
  induction h generalizing others with
  | done hnone =>
    cases h' with
    | done => rfl
    | next hhead _ => exact absurd hhead (hnone _ _ _)
  | next hhead _ ih =>
    cases h' with
    | done hnone => exact absurd hhead (hnone _ _ _)
    | next hhead' hmore =>
      obtain ⟨hcall, rfl⟩ := hhead.unique hhead'
      rw [hcall, ih hmore]

theorem exists_requested (stream : List (Int × UInt8)) : ∃ calls, Requested stream calls := by
  by_cases h : ∃ now request rest, Heads now request rest stream
  · obtain ⟨now, request, rest, hhead⟩ := h
    have := hhead.length_lt
    obtain ⟨calls, hcalls⟩ := exists_requested rest
    exact ⟨_, .next hhead hcalls⟩
  · exact ⟨[], .done (fun now request rest hhead => h ⟨now, request, rest, hhead⟩)⟩
termination_by stream.length

/-! ## Calls one by one -/

namespace Server

/-- Handles the calls of some requests, each at its time and with the server that the
one before left, and numbers the answers as the requests are. -/
def handleAll (s : Server) : List (Int × Request) → Server × List Response
  | [] => (s, [])
  | (now, r) :: calls =>
    let rest := (s.handle r.call now).1.handleAll calls
    (rest.1, ⟨r.id, (s.handle r.call now).2⟩ :: rest.2)

/-- The same up to the first answer that does not fit a frame.  That call is done too,
and what its answer would be is lost. -/
def attend (s : Server) : List (Int × Request) → Server × List Response
  | [] => (s, [])
  | (now, r) :: calls =>
    let done := s.answer r now
    if done.2.fits then ((done.1.attend calls).1, done.2 :: (done.1.attend calls).2)
    else (done.1, [])

theorem attend_of_fits {s : Server} (h : ∀ answer ∈ (s.handleAll calls).2, answer.fits = true) :
    s.attend calls = s.handleAll calls := by
  induction calls generalizing s with
  | nil => rfl
  | cons call calls ih =>
    obtain ⟨now, r⟩ := call
    obtain ⟨hfirst, hrest⟩ := List.forall_mem_cons.mp h
    have hfits : (s.answer r now).2.fits = true := hfirst
    have hcalls : (s.answer r now).1.attend calls = (s.handle r.call now).1.handleAll calls :=
      ih hrest
    rw [attend, if_pos hfits, hcalls]
    rfl

theorem id_handleAll (s : Server) (calls : List (Int × Request)) :
    (s.handleAll calls).2.map Response.id = calls.map (fun call => call.2.id) := by
  induction calls generalizing s with
  | nil => rfl
  | cons call calls ih => exact congrArg (List.cons call.2.id) (ih _)

end Server

/-! ## The connection -/

namespace Talk

variable {t : Talk} {s : Server} {answers : List Response} {output : List UInt8}

/-- Takes bytes, each at its time. -/
def hear (t : Talk) (stream : List (Int × UInt8)) : Talk :=
  stream.foldl (fun t b => t.byte b.1 b.2) t

theorem hear_append (t : Talk) (stream rest : List (Int × UInt8)) :
    t.hear (stream ++ rest) = (t.hear stream).hear rest := List.foldl_append

/-- Reads one after another are one stream. -/
theorem receive_eq_hear (t : Talk) (reads : List (Int × List UInt8)) :
    reads.foldl (fun t read => t.receive read.1 read.2) t = t.hear (dated reads) := by
  induction reads generalizing t with
  | nil => rfl
  | cons read reads ih =>
    have hread : t.receive read.1 read.2 = t.hear (read.2.map (Prod.mk read.1)) := by
      rw [receive, hear, List.foldl_map]
    rw [List.foldl_cons, ih, hread, ← hear_append]
    rfl

/-- Bytes that complete no frame do nothing. -/
theorem hear_silent (h : (t.inbox.feed (stream.map Prod.snd)).2 = []) :
    t.hear stream = { t with inbox := (t.inbox.feed (stream.map Prod.snd)).1 } := by
  induction stream generalizing t with
  | nil => rfl
  | cons b stream ih =>
    obtain ⟨hframe, hrest⟩ := List.append_eq_nil_iff.mp h
    have hbyte : t.byte b.1 b.2 = { t with inbox := (t.inbox.take b.2).1 } := by
      cases htaken : (t.inbox.take b.2).2 with
      | none => simp only [byte, htaken]
      | some frame =>
        rw [htaken] at hframe
        cases hframe
    rw [hear, List.foldl_cons, hbyte]
    exact ih hrest

theorem hear_shut (h : t.inbox = .shut) (stream : List (Int × UInt8)) : t.hear stream = t := by
  have hfeed : t.inbox.feed (stream.map Prod.snd) = (t.inbox, []) := by
    rw [h, Inbox.feed_shut]
  rw [hear_silent (congrArg Prod.snd hfeed), hfeed]

/-- A whole frame is accepted when its last byte comes. -/
theorem hear_frame {init : List (Int × UInt8)} {last : UInt8} {payload : List UInt8}
    (hframe : init.map Prod.snd ++ [last] = Frame.encode payload)
    (hsize : payload.length ≤ Frame.maxLength) :
    hear ⟨s, .empty, answers, output⟩ (init ++ (now, last) :: rest) =
      (accept now ⟨s, .empty, answers, output⟩ payload).hear rest := by
  obtain ⟨hnone, htake⟩ := Inbox.take_encode hsize hframe
  have hinit : hear ⟨s, .empty, answers, output⟩ init =
      ⟨s, (Inbox.empty.feed (init.map Prod.snd)).1, answers, output⟩ := hear_silent hnone
  rw [hear_append, hinit, hear, List.foldl_cons, byte, htake]
  rfl

/-- A stream that does not begin with a request does nothing. -/
theorem hear_unheaded (h : ∀ now request rest, ¬ Heads now request rest stream) (s : Server)
    (answers : List Response) (output : List UInt8) :
    ∃ inbox, hear ⟨s, .empty, answers, output⟩ stream = ⟨s, inbox, answers, output⟩ := by
  rcases Inbox.silent_or_framed (stream.map Prod.snd) with hnone | ⟨payload, bytes, hbytes, hsize⟩
  · exact ⟨_, hear_silent hnone⟩
  · obtain ⟨frame, rest, rfl, hframe, _⟩ := List.map_eq_append_iff.mp hbytes
    obtain ⟨init, ⟨now, last⟩, rfl⟩ : ∃ init last, frame = init ++ [last] := by
      refine ⟨_, _, (List.dropLast_concat_getLast (fun hnil => ?_)).symm⟩
      rw [hnil, Frame.encode, Frame.header_eq] at hframe
      cases hframe
    rw [List.map_append, List.map_singleton] at hframe
    rw [List.append_assoc, List.singleton_append] at h ⊢
    rw [hear_frame hframe hsize]
    cases hread : Request.ofFrame payload with
    | ok request => exact absurd ⟨init, last, payload, rfl, hframe, hsize, hread⟩ (h _ _ _)
    | error e =>
      rw [accept, hread, hear_shut rfl]
      exact ⟨.shut, rfl⟩

/-- The bytes of some answers: a frame for each. -/
def framed (answers : List Response) : List UInt8 :=
  answers.flatMap (fun r => Frame.encode (Text.bytesOf r.render))

theorem framed_append (answers more : List Response) :
    framed (answers ++ more) = framed answers ++ framed more := List.flatMap_append

/-- A reader of the frames finds the texts of the answers. -/
theorem feed_framed (h : ∀ r ∈ answers, r.fits = true) :
    Inbox.empty.feed (framed answers) =
      (Inbox.empty, answers.map (fun r => Text.bytesOf r.render)) := by
  have hsizes : ∀ payload ∈ answers.map (fun r => Text.bytesOf r.render),
      payload.length ≤ Frame.maxLength := by
    intro payload hpayload
    obtain ⟨r, hr, rfl⟩ := List.mem_map.mp hpayload
    obtain ⟨bytes, hbytes⟩ := Option.isSome_iff_exists.mp (h r hr)
    exact (Frame.encode?_eq_some hbytes).1
  have hfeed := Inbox.feed_frames hsizes
  rw [List.flatMap_map] at hfeed
  exact hfeed

/-- What a connection does: its requests, up to an answer that does not fit. -/
theorem hear_requested (h : Requested stream calls) (s : Server) (answers : List Response)
    (output : List UInt8) :
    ∃ inbox, hear ⟨s, .empty, answers, output⟩ stream =
      ⟨(s.attend calls).1, inbox, answers ++ (s.attend calls).2,
        output ++ framed (s.attend calls).2⟩ := by
  induction h generalizing s answers output with
  | done hnone =>
    obtain ⟨inbox, hhear⟩ := hear_unheaded hnone s answers output
    refine ⟨inbox, hhear.trans ?_⟩
    simp [Server.attend, framed]
  | @next stream rest now request calls hhead _ ih =>
    obtain ⟨init, last, payload, rfl, hframe, hsize, hread⟩ := hhead
    rw [hear_frame hframe hsize, accept, hread]
    dsimp only
    cases hbytes : (s.answer request now).2.frame? with
    | some bytes =>
      obtain ⟨_, rfl⟩ := Frame.encode?_eq_some hbytes
      have hfits : (s.answer request now).2.fits = true := by rw [Response.fits, hbytes]; rfl
      obtain ⟨inbox, hhear⟩ := ih (s.answer request now).1
        (answers ++ [(s.answer request now).2]) (output ++ framed [(s.answer request now).2])
      simp only [Server.attend, hfits, if_true]
      refine ⟨inbox, Eq.trans ?_ (hhear.trans ?_)⟩
      · simp [framed]
      · rw [List.append_assoc, List.append_assoc, ← framed_append, List.singleton_append]
    | none =>
      have hfits : (s.answer request now).2.fits = false := by rw [Response.fits, hbytes]; rfl
      simp only [Server.attend, hfits]
      rw [hear_shut rfl]
      exact ⟨.shut, by simp [framed]⟩

/-- The numbers of requests that came in frames have 64 bits. -/
theorem id_le_of_requested (h : Requested stream calls) :
    ∀ call ∈ calls, call.2.id ≤ 0xffffffffffffffff := by
  induction h with
  | done _ => exact fun _ hcall => absurd hcall List.not_mem_nil
  | next hhead _ ih =>
    obtain ⟨_, _, _, _, _, _, hread⟩ := hhead
    exact List.forall_mem_cons.mpr ⟨Request.id_le hread, ih⟩

/-- What was done on a connection: the calls of its requests, one by one, and nothing else.
What was written are frames, one for each answer in their order, which a reader of the
bytes finds and reads as the answers. -/
structure Handled (s : Server) (calls : List (Int × Request)) (t : Talk) : Prop where
  server : t.server = (s.handleAll calls).1
  answers : t.answers = (s.handleAll calls).2
  count : t.answers.length = calls.length
  numbers : t.answers.map Response.id = calls.map (fun call => call.2.id)
  output : t.output = framed t.answers
  frames : Inbox.empty.feed t.output =
    (Inbox.empty, t.answers.map (fun r => Text.bytesOf r.render))
  legible : ∀ r ∈ t.answers, (∀ f, r.result = .error f → f.Sized) →
    Json.decodeBytes Response.codec.read (Text.bytesOf r.render) = .ok r

/-- However a stream is cut into reads, a connection does the requests that the stream
begins with and writes the answer of each, if the answers fit. -/
theorem requests_handled (s : Server) (reads : List (Int × List UInt8)) :
    ∃ calls, Requested (dated reads) calls ∧
      (∀ others, Requested (dated reads) others → others = calls) ∧
      ((∀ answer ∈ (s.handleAll calls).2, answer.fits = true) →
        Handled s calls (reads.foldl (fun t read => t.receive read.1 read.2) (start s))) := by
  obtain ⟨calls, hcalls⟩ := exists_requested (dated reads)
  refine ⟨calls, hcalls, fun others => hcalls.unique, fun hfits => ?_⟩
  obtain ⟨inbox, hhear⟩ := hear_requested hcalls s [] []
  rw [Server.attend_of_fits hfits, List.nil_append, List.nil_append] at hhear
  have hnumbers := s.id_handleAll calls
  have hcount := congrArg List.length hnumbers
  rw [List.length_map, List.length_map] at hcount
  rw [receive_eq_hear, start, hhear]
  refine ⟨rfl, rfl, hcount, hnumbers, rfl, feed_framed hfits, fun r hr hsized => ?_⟩
  have hid : r.id ≤ 0xffffffffffffffff := by
    have hmem : r.id ∈ calls.map (fun call => call.2.id) := hnumbers ▸ List.mem_map_of_mem hr
    obtain ⟨call, hcall, hcallId⟩ := List.mem_map.mp hmem
    exact hcallId ▸ id_le_of_requested hcalls call hcall
  exact ((Response.keeps hid hsized).decode_written (Response.exact hid hsized)).2

/-- A request for the certificate, and a registration. -/
def certificateFrame : List UInt8 :=
  Frame.encode ("\x7b\"id\":1,\"call\":\x7b\"method\":\"GetServerCertificate\"\x7d\x7d".toList.map
    (fun c => UInt8.ofNat c.toNat))

def registerFrame : List UInt8 :=
  Frame.encode (("\x7b\"id\":2,\"call\":\x7b\"method\":\"Register\",\"params\":" ++
    "\x7b\"hostname\":\"host\",\"uuid\":\"u\"\x7d\x7d\x7d").toList.map
      (fun c => UInt8.ofNat c.toNat))

/-- Both, cut within the first length and within the second content, then a frame that
is no request and the registration once more. -/
def brokenReads : List (Int × List UInt8) :=
  [(1000, certificateFrame.take 3), (1001, certificateFrame.drop 3 ++ registerFrame.take 60),
    (1002, registerFrame.drop 60 ++ Frame.encode [0x7b] ++ registerFrame)]

theorem brokenReads_requested : Requested (dated brokenReads)
    [(1001, ⟨1, .getCertificate⟩), (1002, ⟨2, .register ⟨"host", "u", []⟩⟩)] := by
  have hfirst : Heads 1001 ⟨1, .getCertificate⟩ ((dated brokenReads).drop 53)
      (dated brokenReads) :=
    ⟨(dated brokenReads).take 52, 0x7d, certificateFrame.drop 4, by decide +kernel,
      by decide +kernel, by decide +kernel, by decide +kernel⟩
  have hsecond : Heads 1002 ⟨2, .register ⟨"host", "u", []⟩⟩ ((dated brokenReads).drop 134)
      ((dated brokenReads).drop 53) :=
    ⟨((dated brokenReads).drop 53).take 80, 0x7d, registerFrame.drop 4, by decide +kernel,
      by decide +kernel, by decide +kernel, by decide +kernel⟩
  have hbroken : ((dated brokenReads).drop 134).map Prod.snd =
      Frame.encode [0x7b] ++ registerFrame := by
    decide +kernel
  exact .next hfirst (.next hsecond (.done (not_heads_of_frame hbroken (by decide) rfl)))

theorem brokenReads_handled :
    Requested (dated brokenReads)
        [(1001, ⟨1, .getCertificate⟩), (1002, ⟨2, .register ⟨"host", "u", []⟩⟩)] ∧
      (brokenReads.foldl (fun t read => t.receive read.1 read.2) (start emptyServer)).answers =
        [⟨1, .ok (.certificate "")⟩, ⟨2, .ok .ack⟩] ∧
      (brokenReads.foldl (fun t read => t.receive read.1 read.2) (start emptyServer)).output =
        Frame.encode (Text.bytesOf
            "\x7b\"id\":1,\"result\":\x7b\"Ok\":\x7b\"Certificate\":\"\"\x7d\x7d\x7d") ++
          Frame.encode (Text.bytesOf "\x7b\"id\":2,\"result\":\x7b\"Ok\":\"Ack\"\x7d\x7d") ∧
      Handled emptyServer
        [(1001, ⟨1, .getCertificate⟩), (1002, ⟨2, .register ⟨"host", "u", []⟩⟩)]
        (brokenReads.foldl (fun t read => t.receive read.1 read.2) (start emptyServer)) := by
  obtain ⟨calls, _, hunique, hhandled⟩ := requests_handled emptyServer brokenReads
  obtain rfl := hunique _ brokenReads_requested
  have hanswers : (emptyServer.handleAll
      [(1001, ⟨1, .getCertificate⟩), (1002, ⟨2, .register ⟨"host", "u", []⟩⟩)]).2 =
        [⟨1, .ok (.certificate "")⟩, ⟨2, .ok .ack⟩] := rfl
  have hfits : ∀ answer ∈ (emptyServer.handleAll
      [(1001, ⟨1, .getCertificate⟩), (1002, ⟨2, .register ⟨"host", "u", []⟩⟩)]).2,
        answer.fits = true := by
    rw [hanswers]
    decide +kernel
  have hdone := hhandled hfits
  have hanswered := hdone.answers.trans hanswers
  refine ⟨brokenReads_requested, hanswered, ?_, hdone⟩
  rw [hdone.output, hanswered]
  decide +kernel

end Talk
end Push
end FleetMesh
