import Nemo.Http.HttpServer
import Nemo.Http.ResponseRoundTrip

/-!
# A client and a server

A client that sends a request only when it has the response to the one before, and the loop of the server. The network
may cut and join what is in flight as it likes, as long as the head of a message stays in one piece.

* `conversation_holds`: no call of a receiving function fails, and the client has for every request the response that
  the server makes of it
* `conversation_answers`: a response that the client waits for arrives
-/

namespace Nemo.Http

open Infra Automaton Net
open Nemo.Stream (Schedule)

/-! ## A printed request arrives -/

section

variable {env : Env} {r : HttpRequest}

/-- A request that can be sent: the grammar takes it, its head fits into the buffer, and an `int` counts it. -/
structure HttpRequest.Sendable (env : Env) (r : HttpRequest) : Prop where
  printable : r.Printable env.uriRelaxed
  method : r.method ≠ .msearch ∧ r.method ≠ .invalidMethod
  path : HasAuthority env.uriRelaxed r.path
  fits : r.HeadFits env
  counted : r.toString.length ≤ intMax

/-- The request as the server sees it, with the headers that `dump` prints. -/
def HttpRequest.seen (r : HttpRequest) : HttpRequest :=
  { r with headers := HeaderMap.setHeaders .empty r.printedFields }

theorem toInt32_pos {n : Nat} (hpos : 0 < n) (hle : n ≤ intMax) : 0 < toInt32 n := by
  have hmax : intMax = 2 ^ 31 - 1 := rfl
  have hint : toInt32 n = n := Int.bmod_eq_of_le (by omega) (by omega)
  rw [hint]
  exact Int.natCast_pos.mpr hpos

theorem length_body_le (r : HttpRequest) : r.body.length ≤ r.toString.length := by
  rw [toString_eq, List.length_append]
  exact Nat.le_add_left _ _

theorem isRequest_toString (hcasts : CastsDecimals env) (h : r.Sendable env) :
    IsRequest env r.toString r.seen := by
  obtain ⟨hr, hm, hauthority, -, hcounted⟩ := h
  obtain ⟨hstop, hpos, haccepted, hhead⟩ := scan_head hr hm hauthority (toString_eq r)
  have hmax : intMax < 2 ^ 63 := by decide
  have hsize : r.body.length < 2 ^ 63 := Nat.lt_of_le_of_lt (Nat.le_trans (length_body_le r) hcounted) hmax
  refine ⟨Nat.lt_of_le_of_lt hcounted hmax, hstop, haccepted, ?_, ?_⟩
  · rw [hhead, bodyLen_head hcasts hr hsize, headEnd, hpos, Int.toNat_natCast, ← List.length_append, ← toString_eq]
  · have hdrop : r.toString.drop r.headText.length = r.body := by rw [toString_eq, List.drop_left]
    rw [hhead, headEnd, hpos, hdrop, withBody_head hcasts hr hsize]
    rfl

/-- What the first read leaves of a piece is a piece of its own. -/
theorem read_split (env : Env) (s : Bytes) (rest : Stream) :
    Net.read env.buffSize (s :: rest) = Net.read env.buffSize (s.take env.buffSize :: (behind env s ++ rest)) := by
  have hle := env.buffSize_le
  have hmin : min env.buffSize intMax = env.buffSize := by omega
  simp only [Net.read, behind, hmin, List.take_take, Nat.min_self, List.length_take]
  rw [if_pos (Nat.min_le_left _ _)]
  split <;> rfl

theorem flatten_split (env : Env) (s : Bytes) (rest : Stream) :
    (s.take env.buffSize :: (behind env s ++ rest)).flatten = (s :: rest).flatten := by
  rw [List.flatten_cons, List.flatten_append, behind_flatten, ← List.append_assoc, List.take_append_drop,
    List.flatten_cons]

theorem solid_split (env : Env) {s : Bytes} {rest : Stream} (h : Solid (s :: rest)) :
    Solid (behind env s ++ rest) := by
  intro s' hs'
  rcases List.mem_append.mp hs' with hs' | hs'
  · exact behind_solid env s s' hs'
  · exact h s' (List.mem_cons_of_mem _ hs')

theorem recvRequest_split (env : Env) (s : Bytes) (rest : Stream) :
    recvRequest env (s :: rest) = recvRequest env (s.take env.buffSize :: (behind env s ++ rest)) := by
  have hhead : ∀ fuel, recvHead env (fuel + 1) (.new env) [] (s :: rest) =
      recvHead env (fuel + 1) (.new env) [] (s.take env.buffSize :: (behind env s ++ rest)) := by
    intro fuel
    rw [recvHead, recvHead, List.length_nil, Nat.sub_zero, read_split]
  unfold recvRequest
  rw [flatten_split, hhead]

theorem recvResponse_split (env : Env) (s : Bytes) (rest : Stream) :
    Client.recvResponse env (s :: rest) =
      Client.recvResponse env (s.take env.buffSize :: (behind env s ++ rest)) := by
  have hhead : ∀ fuel, Client.recvHead env (fuel + 1) {} [] (s :: rest) =
      Client.recvHead env (fuel + 1) {} [] (s.take env.buffSize :: (behind env s ++ rest)) := by
    intro fuel
    rw [Client.recvHead, Client.recvHead, List.length_nil, Nat.sub_zero, read_split]
  unfold Client.recvResponse
  rw [flatten_split, hhead]

/-- The bytes behind the first read are those of its piece, and the pieces that follow. -/
theorem skip_behind {env : Env} {s : Bytes} {n : Nat} (hn : s.length ≤ n) (rest : Stream) :
    skip (n - (s.take env.buffSize).length) (behind env s ++ rest) = skip (n - s.length) rest := by
  unfold behind
  split
  · next hle => rw [List.take_of_length_le hle, List.nil_append]
  · next hlt =>
    rw [List.singleton_append, skip, List.length_take, List.length_drop, if_pos (by omega)]
    congr 1
    omega

/-- **A request is received** when its head is in the first piece, which has nothing of what follows. -/
theorem recvRequest_printed (hcasts : CastsDecimals env) (h : r.Sendable env) {s : Bytes} {rest : Stream} {more : Bytes}
    (hsolid : Solid (s :: rest)) (hflat : (s :: rest).flatten = r.toString ++ more)
    (hhead : r.headText.length ≤ s.length) (hown : s.length ≤ r.toString.length) :
    recvRequest env (s :: rest) = .message r.seen (skip (r.toString.length - s.length) rest) := by
  have hrequest := isRequest_toString hcasts h
  have hend : headEnd env.uriRelaxed r.toString = r.headText.length :=
    (scan_head h.printable h.method h.path (toString_eq r)).2.1
  have hfits : r.headText.length ≤ env.buffSize := (take_toString h.fits).1
  have hprefix : s.take env.buffSize <+: r.toString := by
    have hs : s <+: r.toString ++ more := ⟨rest.flatten, by rw [← hflat, List.flatten_cons]⟩
    exact (List.take_prefix _ s).trans (List.prefix_of_prefix_length_le hs (List.prefix_append _ _) hown)
  have hfirst : r.headText.length ≤ (s.take env.buffSize).length := by
    rw [List.length_take]
    exact Nat.le_min.mpr ⟨hfits, hhead⟩
  have htext := List.prefix_iff_eq_append.mp hprefix
  have hsuits : Suits env r.toString [] (s.take env.buffSize) := by
    have hall := @suits_of_head env (s.take env.buffSize) (r.toString.drop (s.take env.buffSize).length)
    rw [htext] at hall
    refine hall hrequest.stop (List.length_take_le _ _) (hend ▸ hfirst) fun hne => ?_
    refine toInt32_pos (List.length_pos_iff.mpr hne) ?_
    rw [List.length_drop]
    exact Nat.le_trans (Nat.sub_le _ _) h.counted
  have hne : s.take env.buffSize ≠ [] := by
    have hpos := hsuits.before
    rw [hend] at hpos
    exact List.length_pos_iff.mp (Nat.lt_of_lt_of_le hpos hfirst)
  have hrecv := recvRequest_of_suits hrequest hsuits (List.forall_mem_cons.mpr ⟨hne, solid_split env hsolid⟩)
    ((flatten_split env s rest).trans hflat)
  rw [List.nil_append, List.nil_append, List.flatten_singleton, skip_behind hown] at hrecv
  rw [recvRequest_split, hrecv]

end

/-! ## A printed response arrives -/

section

open Client

variable {env : Env} {r : HttpResponse}

/-- A response that can be sent. -/
structure HttpResponse.Sendable (env : Env) (r : HttpResponse) : Prop where
  printable : r.Printable
  fits : r.HeadFits env
  counted : r.toString.length ≤ intMax

/-- **A response is received** when its head is in the first piece, which has nothing of what follows. -/
theorem recvResponse_printed (hcasts : CastsDecimals env) (h : r.Sendable env) {s : Bytes} {rest : Stream}
    {more : Bytes} (hsolid : Solid (s :: rest)) (hflat : (s :: rest).flatten = r.toString ++ more)
    (hhead : (headText r).length ≤ s.length) (hown : s.length ≤ r.toString.length) :
    recvResponse env (s :: rest) = .message r.received (skip (r.toString.length - s.length) rest) := by
  obtain ⟨hr, hheadFits, hcounted⟩ := h
  have hfits : (headText r).length ≤ env.buffSize := (Client.take_toString hr hheadFits).1
  have hprefix : s.take env.buffSize <+: r.toString := by
    have hs : s <+: r.toString ++ more := ⟨rest.flatten, by rw [← hflat, List.flatten_cons]⟩
    exact (List.take_prefix _ s).trans (List.prefix_of_prefix_length_le hs (List.prefix_append _ _) hown)
  have hfirst : (headText r).length ≤ (s.take env.buffSize).length := by
    rw [List.length_take]
    exact Nat.le_min.mpr ⟨hfits, hhead⟩
  have hfirstFits : (s.take env.buffSize).length ≤ env.buffSize := List.length_take_le _ _
  have hbehind := @skip_behind env s _ hown rest
  have hflat' := (flatten_split env s rest).trans hflat
  have hrest := solid_split env hsolid
  rw [recvResponse_split]
  generalize s.take env.buffSize = first at *
  generalize behind env s ++ rest = rest' at *
  -- the first read has the head, and what is held of the body
  rw [Client.toString_eq hr] at hprefix hflat'
  obtain ⟨held, rfl⟩ := List.prefix_of_prefix_length_le (List.prefix_append _ _) hprefix hfirst
  obtain ⟨m, hchunked, hrun⟩ := run_headText hr (Eq.refl (headText r ++ held))
  obtain ⟨p, hrecvHead, hp, hresponse⟩ := recvHead_firstRead hfirstFits hchunked hrun rest'
    ((headText r ++ held) :: rest').flatten.length
  rw [List.drop_left] at hrecvHead
  have hmax : intMax < 2 ^ 63 := by decide
  have hlength : r.toString.length = (headText r).length + r.body.length := by
    rw [Client.toString_eq hr, List.length_append]
  have hbodyLen := bodyLen_headOf hcasts hr (show r.body.length < 2 ^ 63 by omega)
  rw [← hresponse] at hbodyLen
  rw [List.flatten_cons, List.append_assoc, List.append_assoc] at hflat'
  have hbody : held ++ rest'.flatten = r.body ++ more := List.append_cancel_left hflat'
  have hskip : skip (r.body.length - held.length) rest' = skip (r.toString.length - s.length) rest := by
    rw [← hbehind, List.length_append, hlength, Nat.add_sub_add_left]
  unfold recvResponse
  rw [hrecvHead]
  dsimp only
  rw [hp, if_neg Bool.false_ne_true, HttpResponseParser.getContentLength, hbodyLen, hresponse, ← hskip]
  by_cases hempty : r.body = []
  · have hnone : ¬ (r.body.length : Int) > 0 := by
      rw [hempty]
      decide
    rw [if_neg hnone, ← setBody_headOf r, hempty, List.length_nil, Nat.zero_sub, skip_zero hrest]
    rfl
  · have hpos : (r.body.length : Int) > 0 := Int.natCast_pos.mpr (List.length_pos_iff.mpr hempty)
    have hrecvBody := @recvBody_solid r.body.length held rest' hrest
      (by rw [hbody, List.length_append]; exact Nat.le_add_right _ _)
      (fun hlt => toInt32_pos (Nat.sub_pos_of_lt hlt) (by omega))
    rw [hbody, List.take_left] at hrecvBody
    rw [if_pos hpos, hrecvBody]
    exact congrArg (Received.message · _) (setBody_headOf r)

end

/-! ## The system -/

structure Conversation where
  /-- the requests that the client has sent -/
  sent : List HttpRequest := []
  /-- the responses that it has received -/
  received : List HttpResponse := []
  toServer : Stream := []
  toClient : Stream := []
  /-- the loop of the server goes on -/
  running : Bool := true
  /-- a receiving function has failed -/
  failed : Bool := false

namespace Conversation

inductive Act
  | sendRequest (request : HttpRequest)
  /-- one round of `handleClient` -/
  | serve
  | recvResponse
  /-- what is in flight to the server is now in these pieces -/
  | arriveToServer (pieces : Stream)
  | arriveToClient (pieces : Stream)

section

variable (server : HttpServer) (env clientEnv : Env) (sends : Nat → Schedule) (c : Conversation)

/-- A client waits for the response before it sends the next request. -/
def sendRequest (request : HttpRequest) : Option Conversation :=
  if c.received.length = c.sent.length then
    some { c with sent := c.sent ++ [request], toServer := c.toServer ++ [request.toString] }
  else none

def serve : Option Conversation :=
  if c.running && !c.toServer.isEmpty then
    let (_, session, ending) := server.handleClient env 1 { stream := c.toServer, sends := sends }
    some { c with
      toServer := session.stream
      toClient := if session.sent.isEmpty then c.toClient else c.toClient ++ [session.sent]
      running := decide (ending = .unfinished)
      failed := c.failed || decide (ending = .recvFails ∨ ending = .throws) }
  else none

def recvResponse : Option Conversation :=
  if c.received.length < c.sent.length && !c.toClient.isEmpty then
    match Client.recvResponse clientEnv c.toClient with
    | .message response rest => some { c with received := c.received ++ [response], toClient := rest }
    | .null | .fault => some { c with failed := true }
  else none

def step : Act → Option Conversation
  | .sendRequest request => c.sendRequest request
  | .serve => serve server env sends c
  | .recvResponse => recvResponse clientEnv c
  | .arriveToServer pieces =>
    if pieces.flatten = c.toServer.flatten ∧ Solid pieces then some { c with toServer := pieces } else none
  | .arriveToClient pieces =>
    if pieces.flatten = c.toClient.flatten ∧ Solid pieces then some { c with toClient := pieces } else none

end

/-- The conversation on a connection. -/
def conversation (server : HttpServer) (env clientEnv : Env) (sends : Nat → Schedule) : Lts Conversation Act where
  init := {}
  step := step server env clientEnv sends

variable (server : HttpServer) (answer : HttpRequest → HttpResponse → HttpResponse) (env clientEnv : Env)

/-- The response that the server sends to a request. -/
def answerTo (request : HttpRequest) : HttpResponse := (server.exchange answer request.seen).response

/-- The first piece has this many bytes. -/
def Heads (n : Nat) (pieces : Stream) : Prop := ∀ s ∈ pieces.head?, n ≤ s.length

/--
A request is sent on a connection that is kept, it and its response can be sent, and no head is cut while it is in
flight.
-/
def Proper (c : Conversation) : Act → Prop
  | .sendRequest request =>
    c.running = true ∧ request.Sendable env ∧ (answerTo server answer request).Sendable clientEnv
  | .arriveToServer pieces => ∀ request ∈ c.sent.getLast?, Heads request.headText.length pieces
  | .arriveToClient pieces =>
    ∀ request ∈ c.sent.getLast?, Heads (Client.headText (answerTo server answer request)).length pieces
  | .serve | .recvResponse => True

/-! ## The invariant -/

/-- A message is in flight. -/
structure Flies (text : Bytes) (head : Nat) (stream : Stream) : Prop where
  solid : Solid stream
  flatten : stream.flatten = text
  heads : Heads head stream

/-- The client waits for a response to its last request or for nothing. -/
inductive Phase (c : Conversation) : Prop
  | idle (hreceived : c.received = c.sent.map fun request => (answerTo server answer request).received)
      (htoServer : c.toServer = []) (htoClient : c.toClient = [])
  | asked (requests : List HttpRequest) (request : HttpRequest) (hsent : c.sent = requests ++ [request])
      (hreceived : c.received = requests.map fun request => (answerTo server answer request).received)
      (hrunning : c.running = true) (hrequest : request.Sendable env)
      (hresponse : (answerTo server answer request).Sendable clientEnv)
      (htoServer : Flies request.toString request.headText.length c.toServer) (htoClient : c.toClient = [])
  | answered (requests : List HttpRequest) (request : HttpRequest) (hsent : c.sent = requests ++ [request])
      (hreceived : c.received = requests.map fun request => (answerTo server answer request).received)
      (hresponse : (answerTo server answer request).Sendable clientEnv) (htoServer : c.toServer = [])
      (htoClient : Flies (answerTo server answer request).toString
        (Client.headText (answerTo server answer request)).length c.toClient)

theorem eq_nil_of_flatten {stream : Stream} (h : Solid stream) (hflat : stream.flatten = []) : stream = [] := by
  have hlength := length_le_flatten h
  rw [hflat] at hlength
  exact List.length_eq_zero_iff.mp (Nat.le_zero.mp hlength)

/-- A message that is in flight alone leaves nothing behind. -/
theorem Flies.split {text : Bytes} {head : Nat} {stream : Stream} (h : Flies text head stream) (hne : text ≠ []) :
    ∃ s rest, stream = s :: rest ∧ head ≤ s.length ∧ s.length ≤ text.length ∧
      skip (text.length - s.length) rest = [] := by
  obtain ⟨hsolid, hflat, hheads⟩ := h
  cases stream with
  | nil => exact absurd hflat.symm hne
  | cons s rest =>
    have hlength := congrArg List.length hflat
    rw [List.flatten_cons, List.length_append] at hlength
    refine ⟨s, rest, rfl, hheads s rfl, by omega, ?_⟩
    refine eq_nil_of_flatten (skip_solid _ fun s' hs' => hsolid s' (List.mem_cons_of_mem _ hs')) ?_
    rw [flatten_skip, List.drop_of_length_le (by omega)]

theorem Flies.single {text : Bytes} {head : Nat} (hne : text ≠ []) (hhead : head ≤ text.length) :
    Flies text head [text] where
  solid := fun _ hs => List.mem_singleton.mp hs ▸ hne
  flatten := List.flatten_singleton
  heads := fun _ hs => Option.some.inj hs ▸ hhead

theorem request_ne_nil (r : HttpRequest) : r.toString ≠ [] := by
  rw [toString_eq, headText_append]
  exact List.append_ne_nil_of_right_ne_nil _ (List.cons_ne_nil _ _)

theorem response_ne_nil (r : HttpResponse) : r.toString ≠ [] := by
  rw [HttpResponse.toString, HttpResponse.dump]
  refine List.append_ne_nil_of_right_ne_nil _ ?_
  split
  · exact List.cons_ne_nil _ _
  · exact List.append_ne_nil_of_left_ne_nil (List.append_ne_nil_of_right_ne_nil _ (List.cons_ne_nil _ _)) _

theorem length_headText_le {r : HttpResponse} (hr : r.Printable) :
    (Client.headText r).length ≤ r.toString.length := by
  rw [Client.toString_eq hr, List.length_append]
  exact Nat.le_add_right _ _

/-! ## The steps -/

section

variable {server : HttpServer} {answer : HttpRequest → HttpResponse → HttpResponse} {env clientEnv : Env}
  {sends : Nat → Schedule} {c c' : Conversation}

/-- **The server's step**: the request has gone, and the response is in flight. -/
theorem serve_asked (hanswers : server.dispatcher.Answers answer) (hcasts : CastsDecimals env)
    (hdelivers : Delivers sends) {request : HttpRequest} (hrunning : c.running = true)
    (hrequest : request.Sendable env) (hresponse : (answerTo server answer request).Sendable clientEnv)
    (htoServer : Flies request.toString request.headText.length c.toServer) (htoClient : c.toClient = []) :
    serve server env sends c = some { c with
      toServer := []
      toClient := [(answerTo server answer request).toString]
      running := server.keeps request } := by
  obtain ⟨s, rest, heq, hhead, hown, hskip⟩ := htoServer.split (request_ne_nil request)
  have hsolid := heq ▸ htoServer.solid
  have hflat : (s :: rest).flatten = request.toString ++ [] := by
    rw [List.append_nil, ← heq, htoServer.flatten]
  have hrecv := recvRequest_printed hcasts hrequest hsolid hflat hhead hown
  rw [hskip, ← heq] at hrecv
  have hmax : intMax < 2 ^ 63 := by decide
  have hsize : ∀ msg ∈ [(answerTo server answer request).toString], msg.length < 2 ^ 63 := fun msg hmsg => by
    rw [List.mem_singleton.mp hmsg]
    exact Nat.lt_of_le_of_lt hresponse.counted hmax
  have hround := @HttpServer.handleClient_message server answer env { stream := c.toServer, sends := sends }
    request.seen [] rfl hrecv hanswers 0
  have hsent : delivered sends [(server.exchange answer request.seen).response.toString] =
      (answerTo server answer request).toString := by
    rw [← List.flatten_singleton (l := (answerTo server answer request).toString)]
    exact delivered_eq hdelivers hsize
  rw [HttpServer.sendResponse_eq rfl] at hround
  dsimp only at hround
  rw [hsent, List.nil_append] at hround
  have hne : (answerTo server answer request).toString.isEmpty = false :=
    List.isEmpty_eq_false_iff.mpr (response_ne_nil _)
  have htest : (c.running && !c.toServer.isEmpty) = true := by rw [hrunning, heq]; rfl
  have hkeeps : server.keeps request.seen = server.keeps request := rfl
  rw [serve, if_pos htest, hround, hkeeps]
  cases server.keeps request with
  | false => simp [hne, htoClient]
  | true => simp [hne, htoClient, HttpServer.handleClient]

/-- **The client's step**: the response has gone. -/
theorem recvResponse_answered (hcasts : CastsDecimals clientEnv) {requests : List HttpRequest} {request : HttpRequest}
    (hsent : c.sent = requests ++ [request]) (hreceived : c.received.length = requests.length)
    (hresponse : (answerTo server answer request).Sendable clientEnv)
    (htoClient : Flies (answerTo server answer request).toString
      (Client.headText (answerTo server answer request)).length c.toClient) :
    recvResponse clientEnv c = some { c with
      received := c.received ++ [(answerTo server answer request).received]
      toClient := [] } := by
  obtain ⟨s, rest, heq, hhead, hown, hskip⟩ := htoClient.split (response_ne_nil _)
  have hflat : (s :: rest).flatten = (answerTo server answer request).toString ++ [] := by
    rw [List.append_nil, ← heq, htoClient.flatten]
  have hrecv := recvResponse_printed hcasts hresponse (heq ▸ htoClient.solid) hflat hhead hown
  rw [hskip, ← heq] at hrecv
  have htest : (decide (c.received.length < c.sent.length) && !c.toClient.isEmpty) = true := by
    rw [heq, hsent, hreceived, List.length_append, List.length_singleton,
      decide_eq_true (Nat.lt_succ_self requests.length)]
    rfl
  rw [recvResponse, if_pos htest, hrecv]

/-- What is in flight may be cut and joined. -/
theorem Flies.arrive {text : Bytes} {head : Nat} {stream pieces : Stream} (h : Flies text head stream)
    (hpieces : pieces.flatten = stream.flatten ∧ Solid pieces) (hheads : Heads head pieces) :
    Flies text head pieces := ⟨hpieces.2, hpieces.1.trans h.flatten, hheads⟩

/-- Every message is received, and the client is in a phase. -/
structure Holds (server : HttpServer) (answer : HttpRequest → HttpResponse → HttpResponse) (env clientEnv : Env)
    (c : Conversation) : Prop where
  failed : c.failed = false
  phase : Phase server answer env clientEnv c

theorem Holds.sendRequest (h : Holds server answer env clientEnv c) {request : HttpRequest}
    (hproper : Proper server answer env clientEnv c (.sendRequest request))
    (hstep : c.sendRequest request = some c') : Holds server answer env clientEnv c' := by
  obtain ⟨hrunning, hrequest, hresponse⟩ := hproper
  unfold Conversation.sendRequest at hstep
  split at hstep
  · next hidle =>
    cases hstep
    refine ⟨h.failed, ?_⟩
    cases h.phase with
    | idle hreceived htoServer htoClient =>
      refine .asked c.sent request rfl hreceived hrunning hrequest hresponse ?_ htoClient
      dsimp only
      rw [htoServer, List.nil_append]
      refine Flies.single (request_ne_nil request) ?_
      rw [toString_eq, List.length_append]
      exact Nat.le_add_right _ _
    | asked requests request' hsent hreceived _ _ _ _ _ =>
      rw [hsent, hreceived, List.length_map, List.length_append, List.length_singleton] at hidle
      exact absurd hidle (Nat.ne_of_lt (Nat.lt_succ_self _))
    | answered requests request' hsent hreceived _ _ _ =>
      rw [hsent, hreceived, List.length_map, List.length_append, List.length_singleton] at hidle
      exact absurd hidle (Nat.ne_of_lt (Nat.lt_succ_self _))
  · cases hstep

theorem Holds.serve (h : Holds server answer env clientEnv c) (hanswers : server.dispatcher.Answers answer)
    (hcasts : CastsDecimals env) (hdelivers : Delivers sends)
    (hstep : Conversation.serve server env sends c = some c') : Holds server answer env clientEnv c' := by
  cases h.phase with
  | asked requests request hsent hreceived hrunning hrequest hresponse htoServer htoClient =>
    rw [serve_asked hanswers hcasts hdelivers hrunning hrequest hresponse htoServer htoClient] at hstep
    cases hstep
    refine ⟨h.failed, .answered requests request hsent hreceived hresponse rfl ?_⟩
    exact Flies.single (response_ne_nil _) (length_headText_le hresponse.printable)
  | idle _ htoServer _ =>
    rw [Conversation.serve, htoServer, List.isEmpty_nil, Bool.not_true, Bool.and_false] at hstep
    cases hstep
  | answered _ _ _ _ _ htoServer _ =>
    rw [Conversation.serve, htoServer, List.isEmpty_nil, Bool.not_true, Bool.and_false] at hstep
    cases hstep

theorem Holds.recvResponse (h : Holds server answer env clientEnv c) (hcasts : CastsDecimals clientEnv)
    (hstep : Conversation.recvResponse clientEnv c = some c') : Holds server answer env clientEnv c' := by
  cases h.phase with
  | answered requests request hsent hreceived hresponse htoServer htoClient =>
    rw [recvResponse_answered hcasts hsent (by rw [hreceived, List.length_map]) hresponse htoClient] at hstep
    cases hstep
    refine ⟨h.failed, .idle ?_ htoServer rfl⟩
    dsimp only
    rw [hreceived, hsent, List.map_append]
    rfl
  | idle _ _ htoClient =>
    rw [Conversation.recvResponse, htoClient, List.isEmpty_nil, Bool.not_true, Bool.and_false] at hstep
    cases hstep
  | asked _ _ _ _ _ _ _ _ htoClient =>
    rw [Conversation.recvResponse, htoClient, List.isEmpty_nil, Bool.not_true, Bool.and_false] at hstep
    cases hstep

theorem Holds.arriveToServer (h : Holds server answer env clientEnv c) {pieces : Stream}
    (hpieces : pieces.flatten = c.toServer.flatten ∧ Solid pieces)
    (hproper : Proper server answer env clientEnv c (.arriveToServer pieces)) :
    Holds server answer env clientEnv { c with toServer := pieces } := by
  refine ⟨h.failed, ?_⟩
  cases h.phase with
  | idle hreceived htoServer htoClient =>
    exact .idle hreceived (eq_nil_of_flatten hpieces.2 (by rw [hpieces.1, htoServer]; rfl)) htoClient
  | asked requests request hsent hreceived hrunning hrequest hresponse htoServer htoClient =>
    refine .asked requests request hsent hreceived hrunning hrequest hresponse (htoServer.arrive hpieces ?_) htoClient
    exact hproper request (by rw [hsent, List.getLast?_concat]; rfl)
  | answered requests request hsent hreceived hresponse htoServer htoClient =>
    exact .answered requests request hsent hreceived hresponse
      (eq_nil_of_flatten hpieces.2 (by rw [hpieces.1, htoServer]; rfl)) htoClient

theorem Holds.arriveToClient (h : Holds server answer env clientEnv c) {pieces : Stream}
    (hpieces : pieces.flatten = c.toClient.flatten ∧ Solid pieces)
    (hproper : Proper server answer env clientEnv c (.arriveToClient pieces)) :
    Holds server answer env clientEnv { c with toClient := pieces } := by
  refine ⟨h.failed, ?_⟩
  cases h.phase with
  | idle hreceived htoServer htoClient =>
    exact .idle hreceived htoServer (eq_nil_of_flatten hpieces.2 (by rw [hpieces.1, htoClient]; rfl))
  | asked requests request hsent hreceived hrunning hrequest hresponse htoServer htoClient =>
    exact .asked requests request hsent hreceived hrunning hrequest hresponse htoServer
      (eq_nil_of_flatten hpieces.2 (by rw [hpieces.1, htoClient]; rfl))
  | answered requests request hsent hreceived hresponse htoServer htoClient =>
    refine .answered requests request hsent hreceived hresponse htoServer (htoClient.arrive hpieces ?_)
    exact hproper request (by rw [hsent, List.getLast?_concat]; rfl)

theorem holds_of_reachable (hanswers : server.dispatcher.Answers answer) (hcasts : CastsDecimals env)
    (hcastsClient : CastsDecimals clientEnv) (hdelivers : Delivers sends)
    (h : (conversation server env clientEnv sends).ReachableBy (Proper server answer env clientEnv) c) :
    Holds server answer env clientEnv c := by
  refine h.invariant ⟨rfl, .idle rfl rfl rfl⟩ ?_
  intro c act c' hc hproper hstep
  cases act with
  | sendRequest request => exact hc.sendRequest hproper hstep
  | serve => exact hc.serve hanswers hcasts hdelivers hstep
  | recvResponse => exact hc.recvResponse hcastsClient hstep
  | arriveToServer pieces =>
    simp only [conversation, step] at hstep
    split at hstep
    · next hpieces =>
      cases hstep
      exact hc.arriveToServer hpieces hproper
    · cases hstep
  | arriveToClient pieces =>
    simp only [conversation, step] at hstep
    split at hstep
    · next hpieces =>
      cases hstep
      exact hc.arriveToClient hpieces hproper
    · cases hstep

/--
**Request by request**: no call of a receiving function fails, and the responses that the client has are those that the
server makes of its requests, in their order, but for one that it may wait for.
-/
theorem conversation_holds (hanswers : server.dispatcher.Answers answer) (hcasts : CastsDecimals env)
    (hcastsClient : CastsDecimals clientEnv) (hdelivers : Delivers sends)
    (h : (conversation server env clientEnv sends).ReachableBy (Proper server answer env clientEnv) c) :
    c.failed = false ∧
      c.received = (c.sent.take c.received.length).map (fun request => (answerTo server answer request).received) ∧
      c.sent.length ≤ c.received.length + 1 := by
  obtain ⟨hfailed, hphase⟩ := holds_of_reachable hanswers hcasts hcastsClient hdelivers h
  refine ⟨hfailed, ?_⟩
  cases hphase with
  | idle hreceived =>
    rw [hreceived, List.length_map, List.take_length]
    exact ⟨rfl, Nat.le_succ _⟩
  | asked requests request hsent hreceived =>
    rw [hreceived, hsent, List.length_map, List.take_left, List.length_append]
    exact ⟨rfl, Nat.le_refl _⟩
  | answered requests request hsent hreceived =>
    rw [hreceived, hsent, List.length_map, List.take_left, List.length_append]
    exact ⟨rfl, Nat.le_refl _⟩

/-- **A response that the client waits for arrives**, with a round of the server or without one. -/
theorem conversation_answers (hanswers : server.dispatcher.Answers answer) (hcasts : CastsDecimals env)
    (hcastsClient : CastsDecimals clientEnv) (hdelivers : Delivers sends)
    (h : (conversation server env clientEnv sends).ReachableBy (Proper server answer env clientEnv) c)
    (hwaits : c.received.length < c.sent.length) :
    ∃ acts ∈ [[.recvResponse], [.serve, .recvResponse]], ∃ c',
      (conversation server env clientEnv sends).run c acts = some c' ∧ c'.sent = c.sent ∧
        c'.received = c.sent.map fun request => (answerTo server answer request).received := by
  obtain ⟨hfailed, hphase⟩ := holds_of_reachable hanswers hcasts hcastsClient hdelivers h
  have hlast : ∀ {requests : List HttpRequest} {request : HttpRequest},
      (requests.map fun request => (answerTo server answer request).received) ++
        [(answerTo server answer request).received] =
          (requests ++ [request]).map fun request => (answerTo server answer request).received := by
    intro requests request
    rw [List.map_append]
    rfl
  cases hphase with
  | idle hreceived =>
    rw [hreceived, List.length_map] at hwaits
    exact absurd hwaits (Nat.lt_irrefl _)
  | answered requests request hsent hreceived hresponse htoServer htoClient =>
    have hrecv := recvResponse_answered hcastsClient hsent (by rw [hreceived, List.length_map]) hresponse htoClient
    have hstep : (conversation server env clientEnv sends).step c .recvResponse = some _ := hrecv
    refine ⟨[.recvResponse], List.mem_cons_self, { c with
      received := c.received ++ [(answerTo server answer request).received]
      toClient := [] }, ?_, rfl, ?_⟩
    · rw [Lts.run_cons, hstep]
      rfl
    · rw [hreceived, hsent]
      exact hlast
  | asked requests request hsent hreceived hrunning hrequest hresponse htoServer htoClient =>
    have hserve := serve_asked hanswers hcasts hdelivers hrunning hrequest hresponse htoServer htoClient
    have hflies : Flies (answerTo server answer request).toString
        (Client.headText (answerTo server answer request)).length [(answerTo server answer request).toString] :=
      Flies.single (response_ne_nil _) (length_headText_le hresponse.printable)
    have hrecv := @recvResponse_answered server answer clientEnv { c with
        toServer := []
        toClient := [(answerTo server answer request).toString]
        running := server.keeps request }
      hcastsClient requests request hsent (by rw [hreceived, List.length_map]) hresponse hflies
    have hstep : (conversation server env clientEnv sends).step c .serve = some _ := hserve
    have hstep' : (conversation server env clientEnv sends).step _ .recvResponse = some _ := hrecv
    refine ⟨[.serve, .recvResponse], List.mem_cons_of_mem _ List.mem_cons_self, { c with
      toServer := []
      received := c.received ++ [(answerTo server answer request).received]
      toClient := []
      running := server.keeps request }, ?_, rfl, ?_⟩
    · rw [Lts.run_cons, hstep, Option.bind_some, Lts.run_cons, hstep']
      rfl
    · rw [hreceived, hsent]
      exact hlast

theorem eq_of_mem_getLast? {requests : List HttpRequest} {request request' : HttpRequest}
    (h : request' ∈ (requests ++ [request]).getLast?) : request' = request := by
  rw [List.getLast?_concat] at h
  exact (Option.some.inj h).symm

/-- A request is sent when nothing is in flight to the server, and its pieces arrive with the head uncut. -/
theorem reachable_asked
    (h : (conversation server env clientEnv sends).ReachableBy (Proper server answer env clientEnv) c)
    (hidle : c.received.length = c.sent.length) (htoServer : c.toServer = []) (hrunning : c.running = true)
    {request : HttpRequest} (hrequest : request.Sendable env)
    (hresponse : (answerTo server answer request).Sendable clientEnv) {pieces : Stream}
    (hpieces : Flies request.toString request.headText.length pieces) :
    (conversation server env clientEnv sends).ReachableBy (Proper server answer env clientEnv)
      { c with sent := c.sent ++ [request], toServer := pieces } := by
  have hsend : (conversation server env clientEnv sends).step c (.sendRequest request) =
      some { c with sent := c.sent ++ [request], toServer := [request.toString] } := by
    show c.sendRequest request = _
    rw [sendRequest, if_pos hidle, htoServer, List.nil_append]
  have hproper : Proper server answer env clientEnv c (.sendRequest request) := ⟨hrunning, hrequest, hresponse⟩
  have harrive : (conversation server env clientEnv sends).step
      { c with sent := c.sent ++ [request], toServer := [request.toString] } (.arriveToServer pieces) =
      some { c with sent := c.sent ++ [request], toServer := pieces } := by
    refine if_pos ⟨?_, hpieces.solid⟩
    rw [hpieces.flatten, List.flatten_singleton]
  have huncut : Proper server answer env clientEnv
      { c with sent := c.sent ++ [request], toServer := [request.toString] } (.arriveToServer pieces) :=
    fun _ hr => eq_of_mem_getLast? hr ▸ hpieces.heads
  exact (h.step hproper hsend).step huncut harrive

/-- The server serves the request that has arrived, and the pieces of the response arrive with the head uncut. -/
theorem reachable_answered (hanswers : server.dispatcher.Answers answer) (hcasts : CastsDecimals env)
    (hcastsClient : CastsDecimals clientEnv) (hdelivers : Delivers sends)
    (h : (conversation server env clientEnv sends).ReachableBy (Proper server answer env clientEnv) c)
    {requests : List HttpRequest} {request : HttpRequest} (hsent : c.sent = requests ++ [request])
    (hwaits : c.received.length = requests.length) (hrunning : c.running = true) (hrequest : request.Sendable env)
    (hresponse : (answerTo server answer request).Sendable clientEnv)
    (htoServer : Flies request.toString request.headText.length c.toServer) (htoClient : c.toClient = [])
    {pieces : Stream}
    (hpieces : Flies (answerTo server answer request).toString
      (Client.headText (answerTo server answer request)).length pieces) :
    (conversation server env clientEnv sends).ReachableBy (Proper server answer env clientEnv)
      { c with
        toServer := []
        received := c.received ++ [(answerTo server answer request).received]
        toClient := []
        running := server.keeps request } := by
  have hserve : (conversation server env clientEnv sends).step c .serve = some _ :=
    serve_asked hanswers hcasts hdelivers hrunning hrequest hresponse htoServer htoClient
  have hserved := h.step (show Proper server answer env clientEnv c .serve from trivial) hserve
  have harrive : (conversation server env clientEnv sends).step
      { c with
        toServer := []
        toClient := [(answerTo server answer request).toString]
        running := server.keeps request } (.arriveToClient pieces) =
      some { c with toServer := [], toClient := pieces, running := server.keeps request } := by
    refine if_pos ⟨?_, hpieces.solid⟩
    rw [hpieces.flatten, List.flatten_singleton]
  have huncut : Proper server answer env clientEnv
      { c with
        toServer := []
        toClient := [(answerTo server answer request).toString]
        running := server.keeps request } (.arriveToClient pieces) := by
    intro request' hr
    dsimp only at hr
    rw [hsent] at hr
    exact eq_of_mem_getLast? hr ▸ hpieces.heads
  have hanswered := hserved.step huncut harrive
  have hrecv := @recvResponse_answered server answer clientEnv
    { c with toServer := [], toClient := pieces, running := server.keeps request }
    hcastsClient requests request hsent hwaits hresponse hpieces
  exact hanswered.step (show Proper server answer env clientEnv _ .recvResponse from trivial) hrecv

/-- A whole round from a state in which nothing is in flight. -/
theorem reachable_round (hanswers : server.dispatcher.Answers answer) (hcasts : CastsDecimals env)
    (hcastsClient : CastsDecimals clientEnv) (hdelivers : Delivers sends)
    (h : (conversation server env clientEnv sends).ReachableBy (Proper server answer env clientEnv) c)
    (hidle : c.received.length = c.sent.length) (htoServer : c.toServer = []) (htoClient : c.toClient = [])
    (hrunning : c.running = true) {request : HttpRequest} (hrequest : request.Sendable env)
    (hresponse : (answerTo server answer request).Sendable clientEnv) {pieces pieces' : Stream}
    (hpieces : Flies request.toString request.headText.length pieces)
    (hpieces' : Flies (answerTo server answer request).toString
      (Client.headText (answerTo server answer request)).length pieces') :
    (conversation server env clientEnv sends).ReachableBy (Proper server answer env clientEnv)
      { c with
        sent := c.sent ++ [request]
        received := c.received ++ [(answerTo server answer request).received]
        running := server.keeps request } := by
  have hasked := reachable_asked h hidle htoServer hrunning hrequest hresponse hpieces
  have hanswered := reachable_answered hanswers hcasts hcastsClient hdelivers hasked rfl hidle hrunning hrequest
    hresponse hpieces htoClient hpieces'
  rw [htoServer, htoClient]
  exact hanswered

end

/-! ## A request with a body -/

theorem sendable_sentPost : sentPost.Sendable plainEnv where
  printable := printable_sentPost
  method := ⟨by decide, by decide⟩
  path := fun rest h => absurd (List.cons.inj (List.cons.inj h).2).1 (by decide)
  fits := by unfold HttpRequest.HeadFits; decide +kernel
  counted := by decide +kernel

/-- The headers of a response of `bareServer`. -/
def notFoundHeaders : HeaderMap :=
  (notFound { headers := HeaderMap.setHeader .empty (ascii "Server") (ascii "nemo") }).headers

theorem length_notFound (close : Bool) :
    (notFound { close, headers := HeaderMap.setHeader .empty (ascii "Server") (ascii "nemo") }).toString.length ≤
      plainEnv.buffSize := by
  cases close <;> decide +kernel

theorem sendable_notFound (close : Bool) :
    (notFound { close, headers := HeaderMap.setHeader .empty (ascii "Server") (ascii "nemo") }).Sendable
      plainEnv where
  printable :=
    { webSocket := rfl
      cookies := rfl
      reason := List.forall_mem_nil _
      name := by
        show ∀ header ∈ notFoundHeaders.entries, header.1 ≠ [] ∧ ∀ b ∈ header.1, tokenChar.contains false b = true
        decide +kernel
      reserved := by
        show ∀ header ∈ notFoundHeaders.entries, ∀ name ∈ HttpResponse.reservedNames, strcasecmp header.1 name ≠ .eq
        decide +kernel
      value := by
        show ∀ header ∈ notFoundHeaders.entries, (∀ b ∈ header.2, HttpResponse.NotLineEnd b) ∧
          ∀ b, header.2.head? = some b → isspace b = false
        decide +kernel }
  fits := Nat.le_trans (Nat.sub_le _ _) (length_notFound close)
  counted := Nat.le_trans (length_notFound close) plainEnv.buffSize_le

/-- The responses of `bareServer` to requests of the version 1.1 can be sent. -/
theorem sendable_answerTo {r : HttpRequest} (h : r.version = .http11) :
    (answerTo HttpServer.bareServer (fun _ => notFound) r).Sendable plainEnv := by
  have hnew : HttpServer.bareServer.newResponse r.seen =
      { close := r.close || false, headers := HeaderMap.setHeader .empty (ascii "Server") (ascii "nemo") } := by
    unfold HttpServer.newResponse HttpRequest.seen
    rw [h]
    rfl
  rw [answerTo, HttpServer.exchange, hnew]
  exact sendable_notFound _

/-- The first of two posts has its response, and the client waits for the second one. -/
def askingAgain : Conversation where
  sent := [sentPost, sentPost]
  received := [(answerTo HttpServer.bareServer (fun _ => notFound) sentPost).received]
  toServer := [sentPost.toString]

/-- A first round, in which the body of the post arrives behind its head, and a second request. -/
theorem reachable_askingAgain :
    (conversation HttpServer.bareServer plainEnv plainEnv fun _ => Stream.greedy).ReachableBy
      (Proper HttpServer.bareServer (fun _ => notFound) plainEnv plainEnv) askingAgain := by
  have hresponse : (answerTo HttpServer.bareServer (fun _ => notFound) sentPost).Sendable plainEnv :=
    sendable_answerTo rfl
  have hflies : Flies sentPost.toString sentPost.headText.length [sentPost.headText, sentPost.body] :=
    ⟨by decide +kernel, by rw [toString_eq]; rfl, fun _ hs => Option.some.inj hs ▸ Nat.le_refl _⟩
  have hround := reachable_round HttpServer.answers_bareServer castsDecimals_plainEnv castsDecimals_plainEnv
    (fun _ j _ hn => Stream.greedy_pos j hn) .init rfl rfl rfl rfl sendable_sentPost hresponse hflies
    (Flies.single (response_ne_nil _) (length_headText_le hresponse.printable))
  exact .step (a := .sendRequest sentPost) hround ⟨rfl, sendable_sentPost, hresponse⟩ rfl

theorem conversation_askingAgain : askingAgain.failed = false ∧
    askingAgain.received = (askingAgain.sent.take askingAgain.received.length).map
      (fun request => (answerTo HttpServer.bareServer (fun _ => notFound) request).received) ∧
    askingAgain.sent.length ≤ askingAgain.received.length + 1 :=
  conversation_holds HttpServer.answers_bareServer castsDecimals_plainEnv castsDecimals_plainEnv
    (fun _ j _ hn => Stream.greedy_pos j hn) reachable_askingAgain

theorem conversation_answers_askingAgain : ∃ acts ∈ [[Act.recvResponse], [.serve, .recvResponse]], ∃ c',
    (conversation HttpServer.bareServer plainEnv plainEnv fun _ => Stream.greedy).run askingAgain acts = some c' ∧
      c'.sent = askingAgain.sent ∧
      c'.received =
        askingAgain.sent.map fun request => (answerTo HttpServer.bareServer (fun _ => notFound) request).received :=
  conversation_answers HttpServer.answers_bareServer castsDecimals_plainEnv castsDecimals_plainEnv
    (fun _ j _ hn => Stream.greedy_pos j hn) reachable_askingAgain (Nat.lt_succ_self 1)

end Conversation

end Nemo.Http
