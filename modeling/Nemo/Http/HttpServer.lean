import Nemo.Common.Stream
import Nemo.Http.KeepAlive
import Nemo.Http.ResponseDump
import Nemo.Http.Servlet

/-!
# `HttpServer::handleClient`

The loop of a connection: a request is received, the dispatcher fills a response, the response is sent. It ends when
a request is not received, and behind a response after which the connection is not kept.

* `handleClient_served`: the exchanges of the loop, for servlets that leave the session and the request alone
* `handleClient_suited`: on a connection that suits the requests, they are the requests that were sent
-/

namespace Nemo.Http

open Infra Net
open Nemo.Stream (Schedule Transfer total writeFixSize)

/-! ## Sessions -/

/-- The server's end of a connection. `sends` are the results of `send`, for every message that is still to be sent. -/
structure HttpSession where
  stream : Stream
  sends : Nat → Schedule
  sent : Bytes := []
  isConnect : Bool := true

namespace HttpSession

/-- `recvRequest`. A socket that is closed is not read. -/
def recvRequest (env : Env) (session : HttpSession) : Received HttpRequest :=
  if session.isConnect then Http.recvRequest env session.stream else .null

/-- `sendResponse`, without its result, which `handleClient` does not look at. -/
def sendResponse (session : HttpSession) (response : HttpResponse) : HttpSession :=
  if session.isConnect then
    let msg := response.toString
    { session with
      sent := session.sent ++ msg.take (total (writeFixSize (session.sends 0) msg.length).1)
      sends := fun k => session.sends (k + 1) }
  else session

def close (session : HttpSession) : HttpSession := { session with isConnect := false }

end HttpSession

/-! ## Servlets -/

/-- What `handle` makes of the request, the response and the session. -/
abbrev Handle := HttpRequest → HttpResponse → HttpSession → HttpRequest × HttpResponse × HttpSession

/-- `content_` of the `NotFoundServlet` -/
def notFoundPage : Bytes :=
  ascii "<html><head><title>404 Not Found</title></head><body><center><h1>404 Not Found</h1></center></body></html>"

/-- The response of the `NotFoundServlet`. -/
def notFound (response : HttpResponse) : HttpResponse :=
  { response with
    status := 404
    headers := (response.headers.setHeader (ascii "Server") (ascii "nemo/1.0.0")).setHeader
      (ascii "Content-Type") (ascii "text/html")
    body := notFoundPage }

def NotFoundServlet : HttpServlet Handle where
  name := ascii "NotFoundServlet"
  handle request response session := (request, notFound response, session)

/-- `ServletDispatcher::handle`. A path may have no servlet when the default has been taken away. -/
def ServletDispatcher.handle (d : ServletDispatcher Handle) : Handle := fun request response session =>
  match d.getMatchedServlet request.path with
  | some servlet => servlet.handle request response session
  | none => (request, response, session)

/-! ## The loop -/

structure HttpServer where
  name : Bytes
  keepalive : Bool
  dispatcher : ServletDispatcher Handle

/-- A request as it was received, and the response as it was sent. -/
structure Exchange where
  request : HttpRequest
  response : HttpResponse

/-- How the loop ends. -/
inductive Ending
  /-- no request has been received -/
  | recvFails
  /-- an exception has left `recvRequest` -/
  | throws
  /-- the connection is not kept behind a response -/
  | notKept
  /-- the fuel is used up -/
  | unfinished
  deriving DecidableEq, Repr

namespace HttpServer

variable (server : HttpServer)

/-- The response that the dispatcher is given. -/
def newResponse (request : HttpRequest) : HttpResponse where
  version := request.version
  close := request.close || !server.keepalive
  headers := HeaderMap.setHeader .empty (ascii "Server") server.name

/-- `handleClient`: the exchanges, the session, and how the loop ends. Every round takes a byte at least. -/
def handleClient (env : Env) : Nat → HttpSession → List Exchange × HttpSession × Ending
  | 0, session => ([], session, .unfinished)
  | fuel + 1, session =>
    match session.recvRequest env with
    | .null => ([], session.close, .recvFails)
    | .fault => ([], session, .throws)
    | .message request stream =>
      let (request', response, session) :=
        server.dispatcher.handle request (server.newResponse request) { session with stream := stream }
      let session := session.sendResponse response
      if !server.keepalive || request'.close || !session.isConnect then
        ([⟨request, response⟩], session, .notKept)
      else
        let (exchanges, session, ending) := handleClient env fuel session
        (⟨request, response⟩ :: exchanges, session, ending)

end HttpServer

/-! ## Requests take bytes -/

theorem length_read (n : Nat) (stream : Stream) :
    (Net.read n stream).1.length + (Net.read n stream).2.flatten.length = stream.flatten.length := by
  cases stream with
  | nil => rfl
  | cons s rest =>
    rw [Net.read]
    generalize min n intMax = k
    dsimp only
    by_cases hle : s.length ≤ k
    · rw [if_pos hle, List.take_of_length_le hle, List.flatten_cons, List.length_append]
    · rw [if_neg hle, List.flatten_cons, List.flatten_cons, List.length_append, List.length_append, List.length_take,
        List.length_drop]
      omega

theorem length_readLoop_le (fuel n : Nat) (stream : Stream) :
    (readLoop fuel n stream).2.flatten.length ≤ stream.flatten.length := by
  induction fuel generalizing n stream with
  | zero => cases n <;> exact Nat.le_refl _
  | succ fuel ih =>
    cases n with
    | zero => exact Nat.le_refl _
    | succ n =>
      have hread := length_read (n + 1) stream
      rw [readLoop]
      generalize Net.read (n + 1) stream = r at hread
      dsimp only
      split
      · exact Nat.le_of_add_left_le (Nat.le_of_eq hread)
      · exact Nat.le_trans (ih _ _) (Nat.le_of_add_left_le (Nat.le_of_eq hread))

theorem length_readFixSize_le (n : Nat) (stream : Stream) :
    (readFixSize n stream).2.flatten.length ≤ stream.flatten.length := by
  have hloop := length_readLoop_le n n stream
  rw [readFixSize]
  generalize readLoop n n stream = r at hloop
  obtain ⟨bytes, stream'⟩ := r
  exact hloop

theorem length_recvBody_le {bodyLen : Int} {held body : Bytes} {stream rest : Stream}
    (h : recvBody bodyLen held stream = some (body, rest)) :
    rest.flatten.length ≤ stream.flatten.length := by
  unfold recvBody at h
  extract_lets len left at h
  split at h
  · have hle := length_readFixSize_le left.toNat stream
    generalize readFixSize left.toNat stream = r at h hle
    obtain ⟨bytes, stream'⟩ := r
    obtain ⟨bytes, -, heq⟩ := Option.map_eq_some_iff.mp h
    obtain rfl := (Prod.mk.inj heq).2
    exact hle
  · cases h
    exact Nat.le_refl _

theorem length_recvHead_lt {env : Env} {fuel : Nat} {p : HttpRequestParser} {held : Bytes}
    {stream rest : Stream} {head : HttpRequestParser × Bytes}
    (h : recvHead env fuel p held stream = .message head rest) :
    rest.flatten.length < stream.flatten.length := by
  induction fuel generalizing p held stream with
  | zero => cases h
  | succ fuel ih =>
    have hread := length_read (env.buffSize - held.length) stream
    rw [recvHead] at h
    generalize Net.read (env.buffSize - held.length) stream = r at h hread
    dsimp only at h
    split at h
    · cases h
    · next hne =>
      have hpos : 0 < r.1.length := List.length_pos_iff.mpr (fun hnil => hne (by rw [hnil]; rfl))
      have hlt : r.2.flatten.length < stream.flatten.length := by omega
      split at h
      · cases h
      · split at h
        · cases h
        · split at h
          · cases h
          · split at h
            · cases h
              exact hlt
            · exact Nat.lt_trans (ih h) hlt

/-- **A request that is received has taken a byte.** -/
theorem length_recvRequest_lt {env : Env} {stream rest : Stream} {request : HttpRequest}
    (h : recvRequest env stream = .message request rest) :
    rest.flatten.length < stream.flatten.length := by
  cases hhead : recvHead env (stream.flatten.length + 1) (.new env) [] stream with
  | null =>
    rw [recvRequest, hhead] at h
    cases h
  | fault =>
    rw [recvRequest, hhead] at h
    cases h
  | message x stream' =>
    obtain ⟨p, held⟩ := x
    have hlt := length_recvHead_lt hhead
    by_cases hpos : bodyLen env p.request > 0
    · cases hbody : recvBody (bodyLen env p.request) held stream' with
      | none =>
        rw [recvRequest_none hhead rfl hpos hbody] at h
        cases h
      | some x =>
        obtain ⟨body, stream''⟩ := x
        rw [recvRequest_body hhead rfl hpos hbody] at h
        cases h
        exact Nat.lt_of_le_of_lt (length_recvBody_le hbody) hlt
    · rw [recvRequest_head hhead hpos] at h
      cases h
      exact hlt

/-! ## The exchanges -/

/-- The servlets answer a request, and leave the request and the session alone. -/
def ServletDispatcher.Answers (d : ServletDispatcher Handle) (answer : HttpRequest → HttpResponse → HttpResponse) :
    Prop :=
  ∀ request response session, d.handle request response session = (request, answer request response, session)

/-- What is sent of the messages. -/
def delivered : (Nat → Schedule) → List Bytes → Bytes
  | _, [] => []
  | sends, msg :: msgs =>
    msg.take (total (writeFixSize (sends 0) msg.length).1) ++ delivered (fun k => sends (k + 1)) msgs

def Exchange.text (e : Exchange) : Bytes := e.response.toString

namespace HttpServer

variable (server : HttpServer) (answer : HttpRequest → HttpResponse → HttpResponse)

/-- The connection is kept behind the response to a request. -/
def keeps (request : HttpRequest) : Bool := server.keepalive && !request.close

/-- The exchange that a request begins. -/
def exchange (request : HttpRequest) : Exchange :=
  ⟨request, answer request (server.newResponse request)⟩

/--
What a loop has done: its requests are those that successive calls of `recvRequest` return, each is answered once, and
only the last of them may be one behind which the connection is not kept.
-/
structure Served (env : Env) (session : HttpSession) (exchanges : List Exchange) (session' : HttpSession)
    (ending : Ending) : Prop where
  received : recvRequests env exchanges.length session.stream =
    some (exchanges.map Exchange.request, session'.stream)
  answered : exchanges = (exchanges.map Exchange.request).map (server.exchange answer)
  kept : ∀ e ∈ exchanges.dropLast, server.keeps e.request = true
  sent : session'.sent = session.sent ++ delivered session.sends (exchanges.map Exchange.text)
  ends : (ending = .notKept ∧ ∃ e, exchanges.getLast? = some e ∧ server.keeps e.request = false) ∨
    (∀ e ∈ exchanges, server.keeps e.request = true) ∧
      (ending = .recvFails ∧ recvRequest env session'.stream = .null ∧ session'.isConnect = false ∨
        ending = .throws ∧ recvRequest env session'.stream = .fault)

variable {server answer} {env : Env}

theorem Served.null {session : HttpSession} (h : recvRequest env session.stream = .null) :
    server.Served answer env session [] session.close .recvFails where
  received := rfl
  answered := rfl
  kept := List.forall_mem_nil _
  sent := (List.append_nil _).symm
  ends := .inr ⟨List.forall_mem_nil _, .inl ⟨rfl, h, rfl⟩⟩

theorem Served.fault {session : HttpSession} (h : recvRequest env session.stream = .fault) :
    server.Served answer env session [] session .throws where
  received := rfl
  answered := rfl
  kept := List.forall_mem_nil _
  sent := (List.append_nil _).symm
  ends := .inr ⟨List.forall_mem_nil _, .inr ⟨rfl, h⟩⟩

/-- The session behind the response to a request. -/
theorem sendResponse_eq {session : HttpSession} (hconnect : session.isConnect = true) (stream : Stream)
    (response : HttpResponse) : HttpSession.sendResponse { session with stream := stream } response =
      { stream := stream
        sends := fun k => session.sends (k + 1)
        sent := session.sent ++ delivered session.sends [response.toString]
        isConnect := true } := by
  rw [HttpSession.sendResponse, if_pos hconnect, delivered, delivered, List.append_nil, hconnect]

section

variable {session session' : HttpSession} {request : HttpRequest} {stream : Stream} {exchanges : List Exchange}
  {ending : Ending} (hconnect : session.isConnect = true)
  (hrecv : recvRequest env session.stream = .message request stream)
include hconnect hrecv

/-- **One round** that receives a request. -/
theorem handleClient_message (h : server.dispatcher.Answers answer) (fuel : Nat) :
    server.handleClient env (fuel + 1) session =
      let session :=
        HttpSession.sendResponse { session with stream := stream } (server.exchange answer request).response
      if server.keeps request then
        (server.exchange answer request :: (server.handleClient env fuel session).1,
          (server.handleClient env fuel session).2)
      else ([server.exchange answer request], session, .notKept) := by
  have hsent : (HttpSession.sendResponse { session with stream := stream }
      (answer request (server.newResponse request))).isConnect = true := by rw [sendResponse_eq hconnect]
  rw [handleClient, HttpSession.recvRequest, if_pos hconnect, hrecv]
  dsimp only
  rw [h]
  dsimp only [exchange]
  rw [hsent, Bool.not_true, Bool.or_false, keeps]
  cases server.keepalive with
  | false => rfl
  | true => cases request.close <;> rfl

theorem Served.last (hkeeps : server.keeps request = false) :
    server.Served answer env session [server.exchange answer request]
      (HttpSession.sendResponse { session with stream := stream } (server.exchange answer request).response)
      .notKept where
  received := by
    rw [sendResponse_eq hconnect, List.length_singleton, recvRequests, hrecv]
    rfl
  answered := rfl
  kept := List.forall_mem_nil _
  sent := by
    rw [sendResponse_eq hconnect]
    rfl
  ends := .inl ⟨rfl, _, rfl, hkeeps⟩

theorem Served.cons (hkeeps : server.keeps request = true)
    (hrest : server.Served answer env
      (HttpSession.sendResponse { session with stream := stream } (server.exchange answer request).response)
      exchanges session' ending) :
    server.Served answer env session (server.exchange answer request :: exchanges) session' ending := by
  rw [sendResponse_eq hconnect] at hrest
  obtain ⟨hreceived, hanswered, hkept, hsent, hends⟩ := hrest
  refine ⟨?_, ?_, ?_, ?_, ?_⟩
  · rw [List.length_cons, recvRequests, hrecv]
    dsimp only at hreceived ⊢
    rw [hreceived]
    rfl
  · rw [List.map_cons, List.map_cons, ← hanswered]
    rfl
  · intro e he
    cases exchanges with
    | nil => cases he
    | cons e' exchanges =>
      rw [List.dropLast_cons_cons] at he
      rcases List.mem_cons.mp he with rfl | he
      · exact hkeeps
      · exact hkept e he
  · rw [hsent, List.map_cons, delivered, delivered, delivered, List.append_nil, List.append_assoc]
    rfl
  · rcases hends with ⟨hending, e, hlast, he⟩ | ⟨hall, hends⟩
    · exact .inl ⟨hending, e, by rw [List.getLast?_cons, hlast]; rfl, he⟩
    · refine .inr ⟨fun e he => ?_, hends⟩
      rcases List.mem_cons.mp he with rfl | he
      · exact hkeeps
      · exact hall e he

end

variable (env) in
/-- By induction on the fuel, of which every request takes at least one byte. -/
theorem Served.of_lt (h : server.dispatcher.Answers answer) {fuel : Nat} {session : HttpSession}
    (hfuel : session.stream.flatten.length < fuel) (hconnect : session.isConnect = true) :
    server.Served answer env session (server.handleClient env fuel session).1
      (server.handleClient env fuel session).2.1 (server.handleClient env fuel session).2.2 := by
  induction fuel generalizing session with
  | zero => exact absurd hfuel (Nat.not_lt_zero _)
  | succ fuel ih =>
    cases hrecv : recvRequest env session.stream with
    | null =>
      rw [handleClient, HttpSession.recvRequest, if_pos hconnect, hrecv]
      exact Served.null hrecv
    | fault =>
      rw [handleClient, HttpSession.recvRequest, if_pos hconnect, hrecv]
      exact Served.fault hrecv
    | message request stream =>
      have hlt := length_recvRequest_lt hrecv
      rw [handleClient_message hconnect hrecv h]
      dsimp only
      cases hkeeps : server.keeps request with
      | false => exact Served.last hconnect hrecv hkeeps
      | true =>
        refine Served.cons hconnect hrecv hkeeps (ih ?_ ?_) <;> rw [sendResponse_eq hconnect]
        exact Nat.lt_of_lt_of_le hlt (Nat.le_of_lt_succ hfuel)

/--
**What `handleClient` does**, on every connection and for all results of `send`: it ends, and has served the requests
that successive calls of `recvRequest` return up to the first one behind which the connection is not kept.
-/
theorem handleClient_served (h : server.dispatcher.Answers answer) {fuel : Nat} {session : HttpSession}
    (hfuel : session.stream.flatten.length < fuel) (hconnect : session.isConnect = true) :
    server.Served answer env session (server.handleClient env fuel session).1
      (server.handleClient env fuel session).2.1 (server.handleClient env fuel session).2.2 :=
  Served.of_lt env h hfuel hconnect

/-- A server with no servlets of its own. -/
def bareServer : HttpServer where
  name := ascii "nemo"
  keepalive := true
  dispatcher := { defaultServlet := some NotFoundServlet }

theorem answers_bareServer : bareServer.dispatcher.Answers fun _ => notFound := fun _ _ _ => rfl

/-- A session that takes all that is sent. -/
def openSession (stream : Stream) : HttpSession where
  stream := stream
  sends _ := Stream.greedy

theorem handleClient_inThreeReads :
    bareServer.Served (fun _ => notFound) plainEnv (openSession inThreeReads)
      (bareServer.handleClient plainEnv 70 (openSession inThreeReads)).1
      (bareServer.handleClient plainEnv 70 (openSession inThreeReads)).2.1
      (bareServer.handleClient plainEnv 70 (openSession inThreeReads)).2.2 :=
  handleClient_served answers_bareServer (by decide) rfl

/-! ## A connection that suits its requests -/

/-- The requests that are served of those that are sent. -/
def served (server : HttpServer) : List HttpRequest → List HttpRequest
  | [] => []
  | request :: requests => if server.keeps request then request :: served server requests else [request]

end HttpServer

/-- No result of `send` is a failure. -/
def Delivers (sends : Nat → Schedule) : Prop := ∀ k j n, 0 < n → 0 < (sends k).result j n

/-- A message is sent whole, and its length is returned. -/
theorem writeFixSize_all {schedule : Schedule} {n : Nat} (h : ∀ j n, 0 < n → 0 < schedule.result j n)
    (hlt : n < 2 ^ 63) : total (writeFixSize schedule n).1 = n ∧ (writeFixSize schedule n).2 = toInt32 n := by
  have hran := Stream.ran_loop schedule 0 n (Nat.zero_le n) (Int.sub_zero _).symm
  rw [Stream.moved] at hran
  rw [writeFixSize, Stream.fixSize, Stream.toInt64_of_lt hlt]
  generalize Stream.loop schedule 0 0 n = called at hran
  obtain ⟨transfers, result⟩ := called
  rcases hran.ends with ⟨-, -, -, -, -, -, -, j, -, hlt, hstop⟩ | ⟨-, rfl, htotal, -⟩
  · exact absurd hstop (Int.not_le.mpr (h j _ (Nat.sub_pos_of_lt hlt)))
  · rw [Stream.moved, Nat.zero_add] at htotal
    refine ⟨htotal, ?_⟩
    dsimp only
    rw [Option.getD_none]

/-- All of the messages is sent. -/
theorem delivered_eq {sends : Nat → Schedule} (h : Delivers sends) {msgs : List Bytes}
    (hmsgs : ∀ msg ∈ msgs, msg.length < 2 ^ 63) : delivered sends msgs = msgs.flatten := by
  induction msgs generalizing sends with
  | nil => rfl
  | cons msg msgs ih =>
    rw [delivered, (writeFixSize_all (h 0) (hmsgs msg List.mem_cons_self)).1, List.take_length,
      ih (fun k => h (k + 1)) (fun msg' hmsg' => hmsgs msg' (List.mem_cons_of_mem _ hmsg')), List.flatten_cons]

namespace HttpServer

variable {server : HttpServer} {answer : HttpRequest → HttpResponse → HttpResponse} {env : Env}

theorem mem_of_mem_served {requests : List HttpRequest} {request : HttpRequest}
    (h : request ∈ server.served requests) : request ∈ requests := by
  induction requests with
  | nil => exact h
  | cons request' requests ih =>
    rw [served] at h
    split at h
    · exact List.mem_cons.mpr ((List.mem_cons.mp h).imp_right ih)
    · exact List.mem_cons.mpr (.inl (List.mem_singleton.mp h))

theorem handleClient_exchanges (h : server.dispatcher.Answers answer) {sent : List (Bytes × HttpRequest)}
    {fuel : Nat} {session : HttpSession} (hfuel : session.stream.flatten.length < fuel)
    (hconnect : session.isConnect = true) (hsolid : Solid session.stream)
    (hsent : ∀ x ∈ sent, IsRequest env x.1 x.2)
    (hflat : session.stream.flatten = (sent.map Prod.fst).flatten)
    (hsuited : Suited env (sent.map Prod.fst) session.stream) :
    (server.handleClient env fuel session).1 = (server.served (sent.map Prod.snd)).map (server.exchange answer) := by
  induction sent generalizing fuel session with
  | nil =>
    have hempty : session.stream = [] := by
      have hlength := length_le_flatten hsolid
      rw [hflat] at hlength
      exact List.length_eq_zero_iff.mp (Nat.le_zero.mp hlength)
    cases fuel with
    | zero => rfl
    | succ fuel =>
      rw [handleClient, HttpSession.recvRequest, if_pos hconnect, hempty]
      rfl
  | cons x sent ih =>
    obtain ⟨xs, s, rest, hstream, hsuits, hnext⟩ := hsuited
    rw [hstream] at hflat hsolid
    rw [List.map_cons, List.flatten_cons] at hflat
    have hrecv := recvRequest_of_suits (hsent x List.mem_cons_self) hsuits hsolid hflat
    rw [← hstream] at hrecv
    have hlt := length_recvRequest_lt hrecv
    have hrest : Solid rest := fun s' hs' => hsolid s' (by simp [hs'])
    have hlist : xs ++ s :: rest = xs ++ [s] ++ rest := by simp
    -- behind the request the next one begins
    have hbehind : (skip (x.1.length - (xs ++ [s]).flatten.length) rest).flatten = (sent.map Prod.fst).flatten := by
      have hdrop := congrArg (List.drop x.1.length) hflat
      rwa [List.drop_left, hlist, List.flatten_append, List.drop_append, List.drop_of_length_le hsuits.own,
        List.nil_append, ← flatten_skip] at hdrop
    cases fuel with
    | zero => exact absurd hfuel (Nat.not_lt_zero _)
    | succ fuel =>
      rw [handleClient_message hconnect hrecv h, List.map_cons, served]
      dsimp only
      cases server.keeps x.2 with
      | false => rfl
      | true =>
        have hrun := @ih fuel (HttpSession.sendResponse { session with
            stream := skip (x.1.length - (xs ++ [s]).flatten.length) rest } (server.exchange answer x.2).response)
          (by rw [sendResponse_eq hconnect]; exact Nat.lt_of_lt_of_le hlt (Nat.le_of_lt_succ hfuel))
          (by rw [sendResponse_eq hconnect]) (by rw [sendResponse_eq hconnect]; exact skip_solid _ hrest)
          (fun y hy => hsent y (List.mem_cons_of_mem _ hy)) (by rw [sendResponse_eq hconnect]; exact hbehind)
          (by rw [sendResponse_eq hconnect]; exact hnext)
        rw [if_pos rfl, if_pos rfl, List.map_cons, hrun]

/--
**Every request is answered**: on a connection that suits the requests that are sent, and that takes what is sent, the
server sends the response to each of them, in their order, up to the first one behind which it does not keep the
connection.
-/
theorem handleClient_suited (h : server.dispatcher.Answers answer) {sent : List (Bytes × HttpRequest)}
    {session : HttpSession} (hconnect : session.isConnect = true) (hsolid : Solid session.stream)
    (hsent : ∀ x ∈ sent, IsRequest env x.1 x.2)
    (hflat : session.stream.flatten = (sent.map Prod.fst).flatten)
    (hsuited : Suited env (sent.map Prod.fst) session.stream) (hdelivers : Delivers session.sends)
    (hsize : ∀ x ∈ sent, (server.exchange answer x.2).text.length < 2 ^ 63) :
    (server.handleClient env (session.stream.flatten.length + 1) session).2.1.sent = session.sent ++
      (server.served (sent.map Prod.snd)).flatMap fun request => (server.exchange answer request).text := by
  have hserved := Served.of_lt env h (Nat.lt_succ_self session.stream.flatten.length) hconnect
  have hexchanges := handleClient_exchanges h (Nat.lt_succ_self session.stream.flatten.length) hconnect hsolid hsent
    hflat hsuited
  rw [hserved.sent, hexchanges, List.map_map, delivered_eq hdelivers, List.flatMap_def]
  · rfl
  · intro msg hmsg
    obtain ⟨request, hrequest, rfl⟩ := List.mem_map.mp hmsg
    obtain ⟨x, hx, rfl⟩ := List.mem_map.mp (mem_of_mem_served hrequest)
    exact hsize x hx

/-- A request behind which the connection is kept, and one behind which it is closed. -/
def keptThenClosed : List Bytes :=
  [ascii "GET /a HTTP/1.1\r\nconnection: keep-alive\r\n\r\n", ascii "GET /b HTTP/1.1\r\n\r\n"]

def keptThenClosedSent : List (Bytes × HttpRequest) :=
  keptThenClosed.map fun text => (text, requestOf plainEnv text)

theorem isRequest_keptThenClosed {text : Bytes} (h : text ∈ keptThenClosed) :
    IsRequest plainEnv text (requestOf plainEnv text) := by
  simp only [keptThenClosed, List.mem_cons, List.not_mem_nil, or_false] at h
  rcases h with rfl | rfl
  all_goals exact ⟨by decide +kernel, by decide +kernel, by decide +kernel, by decide +kernel, rfl⟩

theorem isRequest_keptThenClosedSent : ∀ x ∈ keptThenClosedSent, IsRequest plainEnv x.1 x.2 := by
  intro x hx
  obtain ⟨text, htext, rfl⟩ := List.mem_map.mp hx
  have h := isRequest_keptThenClosed htext
  generalize requestOf plainEnv text = request at h ⊢
  exact h

theorem handleClient_keptThenClosed :
    (bareServer.handleClient plainEnv (keptThenClosed.flatten.length + 1) (openSession keptThenClosed)).2.1.sent =
      [] ++ (bareServer.served (keptThenClosedSent.map Prod.snd)).flatMap fun request =>
        (bareServer.exchange (fun _ => notFound) request).text := by
  have hfst : keptThenClosedSent.map Prod.fst = keptThenClosed := by
    simp [keptThenClosedSent, Function.comp_def]
  have hkept : Suits plainEnv (ascii "GET /a HTTP/1.1\r\nconnection: keep-alive\r\n\r\n" ++ []) []
      (ascii "GET /a HTTP/1.1\r\nconnection: keep-alive\r\n\r\n") :=
    suits_of_head (by decide +kernel) (by decide +kernel) (by decide +kernel) (by decide)
  have hclosed : Suits plainEnv (ascii "GET /b HTTP/1.1\r\n\r\n" ++ []) [] (ascii "GET /b HTTP/1.1\r\n\r\n") :=
    suits_of_head (by decide +kernel) (by decide) (by decide +kernel) (by decide)
  have hsolid : Solid (openSession keptThenClosed).stream := by decide
  have hdelivers : Delivers (openSession keptThenClosed).sends := fun k j n hn => Stream.greedy_pos j hn
  refine handleClient_suited answers_bareServer rfl hsolid isRequest_keptThenClosedSent ?_ ?_ hdelivers ?_
  · rw [hfst]
    rfl
  · rw [hfst]
    exact ⟨[], _, _, rfl, hkept, [], _, _, rfl, hclosed, trivial⟩
  · decide +kernel

end HttpServer

end Nemo.Http
