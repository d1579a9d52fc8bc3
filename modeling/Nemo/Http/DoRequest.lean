import Nemo.Http.Conversation
import Nemo.Net.Uri

/-!
# `HttpConnection::DoRequest` and `HttpConnectionPool::doRequest`

Both make a request of the parts that the caller gives, send it and receive the response. The loops over the headers
differ in their comparisons: that of the pool compares as many bytes as the name has, so a beginning of `connection`
is the connection header for it, and it compares as many bytes of the value. The pool leaves the host out, and only
the pool returns the response.

* `doRequest_ok` — what the caller of the pool has, and what a servlet sees
* `DoRequest_ok` — the same without a pool
-/

namespace Nemo.Http

open Infra Automaton Net
open Nemo.Stream (Schedule Transfer total writeFixSize)

/-! ## Making the request -/

/-- The comparisons of the loop over the headers. -/
structure HeaderTests where
  isConnection : Bytes → Bool
  /-- of the name and the value -/
  keepsAlive : Bytes → Bytes → Bool
  isHost : Bytes → Bool

/-- One round of the loop: the request, and `hasHost`. -/
def addHeader (tests : HeaderTests) : HttpRequest × Bool → Bytes × Bytes → HttpRequest × Bool
  | (request, hasHost), (name, value) =>
    if tests.isConnection name then
      (if tests.keepsAlive name value then { request with close := false } else request, hasHost)
    else
      ({ request with headers := request.headers.setHeader name value },
        if !hasHost && tests.isHost name then !value.isEmpty else hasHost)

def HttpConnection.headerTests : HeaderTests where
  isConnection name := strcasecmp name (ascii "connection") == .eq
  keepsAlive _ value := strcasecmp value (ascii "keep-alive") == .eq
  isHost name := strcasecmp name (ascii "host") == .eq

/-- The request that `DoRequest` makes of its arguments. -/
def HttpConnection.makeRequest (method : HttpMethod) (uri : Uri) (headers : List (Bytes × Bytes)) (body : Bytes) :
    HttpRequest :=
  let request : HttpRequest := { method, path := uri.getPath, query := uri.query, fragment := uri.fragment }
  let (request, hasHost) := headers.foldl (addHeader headerTests) (request, false)
  let request :=
    if hasHost then request else { request with headers := request.headers.setHeader (ascii "Host") uri.host }
  { request with body }

namespace HttpConnectionPool

def headerTests : HeaderTests where
  isConnection name := strncasecmp name (ascii "connection") name.length == .eq
  keepsAlive name value := strncasecmp value (ascii "keep-alive") name.length == .eq
  isHost name := strncasecmp name (ascii "host") name.length == .eq

/-- The request that `doRequest` makes of its arguments. The host would be added to a request that is `nullptr`. -/
def makeRequest (method : HttpMethod) (uriStr : Bytes) (headers : List (Bytes × Bytes)) (body : Bytes) :
    HttpRequest :=
  { (headers.foldl (addHeader headerTests) ({ method, path := uriStr, close := true }, false)).1 with body }

end HttpConnectionPool

/-! ## Sending it -/

/-- `HttpResult::ErrorCode`, as far as an exchange on a connection sets it. -/
inductive ErrorCode
  | ok | sendCloseByPeer | sendSocketError | timeout
  deriving DecidableEq, Repr

structure HttpResult where
  errorCode : ErrorCode
  response : Option HttpResponse
  errorMessage : Bytes

/-- What the messages of a result name. -/
structure Peer where
  address : Bytes
  errno : Nat
  errstr : Bytes
  timeoutMillionSeconds : Nat

/-- `sendRequest`: its result, and what is sent. -/
def sendRequest (schedule : Schedule) (request : HttpRequest) : Int × Bytes :=
  let data := request.toString
  let written := writeFixSize schedule data.length
  (written.2, data.take (total written.1))

/--
The exchange on a connection, for a result `ok` of the response and the code for a response that is not received. Gives
what is sent, and the result unless an exception leaves `recvResponse`.
-/
def exchange (noResponse : ErrorCode) (ok : HttpResponse → Option HttpResponse) (env : Env) (peer : Peer)
    (schedule : Schedule) (incoming : Stream) (request : HttpRequest) : Bytes × Option HttpResult :=
  let (ret, sent) := sendRequest schedule request
  (sent,
    if ret = 0 then
      some ⟨.sendCloseByPeer, none, ascii "send request closed by peer: " ++ peer.address⟩
    else if ret < 0 then
      some ⟨.sendSocketError, none,
        ascii "send request socket error errno=" ++ toDecimal peer.errno ++ ascii " errstr=" ++ peer.errstr⟩
    else
      match Client.recvResponse env incoming with
      | .message response _ => some ⟨.ok, ok response, ascii "ok"⟩
      | .null =>
        some ⟨noResponse, none,
          ascii "recv response timeout: " ++ peer.address ++ ascii " timeout_ms:" ++
            toDecimal peer.timeoutMillionSeconds⟩
      | .fault => none)

/-- `HttpConnection::DoRequest`, on a socket that is connected. The response is dropped. -/
def HttpConnection.DoRequest : Env → Peer → Schedule → Stream → HttpRequest → Bytes × Option HttpResult :=
  exchange .sendSocketError fun _ => none

/-- `HttpConnectionPool::doRequest`, on a connection of the pool. -/
def HttpConnectionPool.doRequest : Env → Peer → Schedule → Stream → HttpRequest → Bytes × Option HttpResult :=
  exchange .timeout some

/-! ## What the loop makes of the headers -/

theorem addHeaders_eq (tests : HeaderTests) (headers : List (Bytes × Bytes)) (request : HttpRequest) (hasHost : Bool) :
    (headers.foldl (addHeader tests) (request, hasHost)).1 = { request with
      close := request.close && !headers.any fun header =>
        tests.isConnection header.1 && tests.keepsAlive header.1 header.2
      headers := request.headers.setHeaders (headers.filter fun header => !tests.isConnection header.1) } := by
  induction headers generalizing request hasHost with
  | nil => simp [HeaderMap.setHeaders]
  | cons header headers ih =>
    obtain ⟨name, value⟩ := header
    rw [List.foldl_cons, addHeader]
    cases hconnection : tests.isConnection name with
    | true =>
      rw [if_pos rfl, ih]
      cases hkeeps : tests.keepsAlive name value <;> simp [hconnection, hkeeps]
    | false =>
      rw [if_neg Bool.false_ne_true, ih]
      simp [hconnection, HeaderMap.setHeaders]

/-- A caller's host is taken if it is not empty. -/
theorem hasHost_eq (tests : HeaderTests) (headers : List (Bytes × Bytes)) (request : HttpRequest) (hasHost : Bool) :
    (headers.foldl (addHeader tests) (request, hasHost)).2 = (hasHost || headers.any fun header =>
      !tests.isConnection header.1 && tests.isHost header.1 && !header.2.isEmpty) := by
  induction headers generalizing request hasHost with
  | nil => simp
  | cons header headers ih =>
    obtain ⟨name, value⟩ := header
    rw [List.foldl_cons, addHeader]
    cases hconnection : tests.isConnection name with
    | true =>
      rw [if_pos rfl, ih]
      simp [hconnection]
    | false =>
      rw [if_neg Bool.false_ne_true, ih]
      cases hasHost <;> cases hhost : tests.isHost name <;> simp [hconnection, hhost]

/-! ## The requests -/

variable {method : HttpMethod} {uri : Uri} {headers : List (Bytes × Bytes)} {body : Bytes}

/-- The request with these members, and with the headers that the fields make. -/
def requestOfParts (method : HttpMethod) (uri : Uri) (body : Bytes) (close : Bool) (fields : List (Bytes × Bytes)) :
    HttpRequest where
  method := method
  close := close
  path := uri.getPath
  query := uri.query
  fragment := uri.fragment
  body := body
  headers := HeaderMap.setHeaders .empty fields

/-- Nothing of the headers keeps the connection. -/
def closes (tests : HeaderTests) (headers : List (Bytes × Bytes)) : Bool :=
  !headers.any fun header => tests.isConnection header.1 && tests.keepsAlive header.1 header.2

/-- The headers of the caller that go into the request. -/
def taken (tests : HeaderTests) (headers : List (Bytes × Bytes)) : List (Bytes × Bytes) :=
  headers.filter fun header => !tests.isConnection header.1

/-- The host of the URI, if the caller gives none. -/
def hostField (tests : HeaderTests) (uri : Uri) (headers : List (Bytes × Bytes)) : List (Bytes × Bytes) :=
  if (taken tests headers).any fun header => tests.isHost header.1 && !header.2.isEmpty then []
  else [(ascii "Host", uri.host)]

theorem HttpConnection.makeRequest_eq : HttpConnection.makeRequest method uri headers body =
    requestOfParts method uri body (closes headerTests headers)
      (taken headerTests headers ++ hostField headerTests uri headers) := by
  have hhost : (taken headerTests headers).any (fun header => headerTests.isHost header.1 && !header.2.isEmpty) =
      headers.any fun header =>
        !headerTests.isConnection header.1 && headerTests.isHost header.1 && !header.2.isEmpty := by
    simp only [taken, List.any_filter, Bool.and_assoc]
  unfold HttpConnection.makeRequest
  dsimp only
  rw [addHeaders_eq, hasHost_eq, Bool.false_or, ← hhost, hostField]
  unfold requestOfParts HeaderMap.setHeaders
  split
  · rw [List.append_nil, Bool.true_and]
    rfl
  · rw [List.foldl_append, Bool.true_and]
    rfl

/-- A path with query and fragment behind it is printed like the three. -/
theorem HttpConnectionPool.makeRequest_toString :
    (HttpConnectionPool.makeRequest method uri.target headers body).toString =
      (requestOfParts method uri body (closes headerTests headers) (taken headerTests headers)).toString := by
  unfold HttpConnectionPool.makeRequest requestOfParts HttpRequest.toString HttpRequest.dump
  rw [addHeaders_eq, Bool.true_and]
  simp only [Uri.target, HttpRequest.connection, closes, taken, List.append_assoc, List.isEmpty_nil, if_true,
    List.nil_append]
  rfl

/-! ## What a servlet sees -/

/-- The request has the parts, and for every other name than the two of `dump` this entry. -/
structure Carries (method : HttpMethod) (uri : Uri) (body : Bytes) (close : Bool)
    (entry : Bytes → Option (Bytes × Bytes)) (request : HttpRequest) : Prop where
  method : request.method = method
  path : request.path = uri.getPath
  query : request.query = uri.query
  fragment : request.fragment = uri.fragment
  body : request.body = body
  close : request.close = close
  header : ∀ name, SortedMap.same caseInsensitiveLess (ascii "connection") name = false →
    SortedMap.same caseInsensitiveLess (ascii "content-length") name = false →
    request.headers.entry name = entry name

/-- A header whose name is a beginning of `connection`, in any case, is not printed. -/
def printedEntry (fields : List (Bytes × Bytes)) (name : Bytes) : Option (Bytes × Bytes) :=
  (headerOf name fields).filter fun header => !HttpRequest.isConnection header.1

theorem seen_carries {u : Bool} {close : Bool} {fields : List (Bytes × Bytes)}
    (h : (requestOfParts method uri body close fields).Printable u) :
    Carries method uri body close (printedEntry fields) (requestOfParts method uri body close fields).seen where
  method := rfl
  path := rfl
  query := rfl
  fragment := rfl
  body := rfl
  close := rfl
  header := fun name hconnection hlength => by
    have hentry : (requestOfParts method uri body close fields).headers.entry name = headerOf name fields :=
      entry_setHeaders name fields
    rw [HttpRequest.seen, entry_setHeaders, headerOf_printedFields h, hconnection, hlength, hentry, Bool.and_false]
    rfl

/-- None of the headers that the pool takes is left out by `dump`. -/
theorem printedEntry_taken (name : Bytes) : printedEntry (taken HttpConnectionPool.headerTests headers) name =
    headerOf name (taken HttpConnectionPool.headerTests headers) := by
  have hall : ∀ header ∈ taken HttpConnectionPool.headerTests headers, HttpRequest.isConnection header.1 = false := by
    intro header hheader
    exact Bool.not_eq_true' _ ▸ (List.mem_filter.mp hheader).2
  generalize taken HttpConnectionPool.headerTests headers = fields at hall
  unfold printedEntry
  cases h : headerOf name fields with
  | none => rfl
  | some header =>
    obtain ⟨first, hfirst, hlast⟩ := Option.bind_eq_some_iff.mp h
    obtain ⟨last, -, rfl⟩ := Option.map_eq_some_iff.mp hlast
    refine Option.filter_some_pos ?_
    rw [hall first (List.mem_of_mem_filter (List.mem_of_mem_head? hfirst))]
    rfl

/-! ## The exchange -/

section

variable {server : HttpServer} {answer : HttpRequest → HttpResponse → HttpResponse} {env clientEnv : Env}
  {sends : Nat → Schedule}

open Conversation (answerTo Flies)

/-- A server whose client has sent one request answers it. -/
theorem handleClient_single (hanswers : server.dispatcher.Answers answer) (hcasts : CastsDecimals env)
    (hdelivers : Delivers sends) {r : HttpRequest} (hr : r.Sendable env)
    (hresponse : (answerTo server answer r).Sendable clientEnv) {stream : Stream}
    (hstream : Flies r.toString r.headText.length stream) :
    let served := server.handleClient env (r.toString.length + 1) { stream := stream, sends := sends }
    served.1 = [server.exchange answer r.seen] ∧ served.2.1.sent = (answerTo server answer r).toString := by
  obtain ⟨s, rest, rfl, hhead, hown, hskip⟩ := hstream.split (Conversation.request_ne_nil r)
  have hflat : (s :: rest).flatten = r.toString ++ [] := by rw [List.append_nil, hstream.flatten]
  have hrecv := recvRequest_printed hcasts hr hstream.solid hflat hhead hown
  rw [hskip] at hrecv
  have hmax : intMax < 2 ^ 63 := by decide
  have hsize : ∀ msg ∈ [(answerTo server answer r).toString], msg.length < 2 ^ 63 := fun msg hmsg => by
    rw [List.mem_singleton.mp hmsg]
    exact Nat.lt_of_le_of_lt hresponse.counted hmax
  have hround := @HttpServer.handleClient_message server answer env { stream := s :: rest, sends := sends }
    r.seen [] rfl hrecv hanswers r.toString.length
  have hsent : delivered sends [(server.exchange answer r.seen).response.toString] =
      (answerTo server answer r).toString := (delivered_eq hdelivers hsize).trans List.flatten_singleton
  rw [HttpServer.sendResponse_eq rfl] at hround
  dsimp only at hround
  rw [hsent, List.nil_append] at hround
  dsimp only
  rw [hround]
  cases server.keeps r.seen with
  | false => exact ⟨rfl, rfl⟩
  | true =>
    -- the next round finds the connection closed
    obtain ⟨fuel, hfuel⟩ := Nat.exists_eq_succ_of_ne_zero
      (Nat.ne_of_gt (List.length_pos_iff.mpr (Conversation.request_ne_nil r)))
    rw [hfuel]
    exact ⟨rfl, rfl⟩

theorem sendRequest_eq {schedule : Schedule} (h : ∀ j n, 0 < n → 0 < schedule.result j n) {request : HttpRequest}
    (hcounted : request.toString.length ≤ intMax) :
    sendRequest schedule request = ((request.toString.length : Int), request.toString) := by
  have hmax : intMax = 2 ^ 31 - 1 := rfl
  have hint : toInt32 request.toString.length = request.toString.length := Int.bmod_eq_of_le (by omega) (by omega)
  obtain ⟨htotal, hrt⟩ := writeFixSize_all h (show request.toString.length < 2 ^ 63 by omega)
  rw [sendRequest, htotal, hrt, hint, List.take_length]

/--
**An exchange** of a client whose text is that of `r` with a server: the server sees `r`, and the client has its
response.
-/
theorem exchange_ok (hanswers : server.dispatcher.Answers answer) (hcasts : CastsDecimals env)
    (hcastsClient : CastsDecimals clientEnv) (hdelivers : Delivers sends) {schedule : Schedule}
    (hschedule : ∀ j n, 0 < n → 0 < schedule.result j n) {r request : HttpRequest} (hr : r.Sendable env)
    (hresponse : (answerTo server answer r).Sendable clientEnv) (htext : request.toString = r.toString)
    {noResponse : ErrorCode} {ok : HttpResponse → Option HttpResponse} {peer : Peer} {arriving incoming : Stream}
    (harriving : Flies (exchange noResponse ok clientEnv peer schedule incoming request).1 r.headText.length arriving)
    (hincoming : Flies
      (server.handleClient env (r.toString.length + 1) { stream := arriving, sends := sends }).2.1.sent
      (Client.headText (answerTo server answer r)).length incoming) :
    (server.handleClient env (r.toString.length + 1) { stream := arriving, sends := sends }).1 =
        [server.exchange answer r.seen] ∧
      (exchange noResponse ok clientEnv peer schedule incoming request).2 =
        some ⟨.ok, ok (answerTo server answer r).received, ascii "ok"⟩ := by
  have hcounted : request.toString.length ≤ intMax := by
    rw [htext]
    exact hr.counted
  have hsend := sendRequest_eq hschedule hcounted
  rw [exchange, hsend] at harriving ⊢
  dsimp only at harriving ⊢
  rw [htext] at harriving ⊢
  obtain ⟨hserved, hsent⟩ := handleClient_single hanswers hcasts hdelivers hr hresponse harriving
  rw [hsent] at hincoming
  refine ⟨hserved, ?_⟩
  obtain ⟨s, rest, rfl, hhead, hown, -⟩ := hincoming.split (Conversation.response_ne_nil _)
  have hflat : (s :: rest).flatten = (answerTo server answer r).toString ++ [] := by
    rw [List.append_nil, hincoming.flatten]
  have hpos : (0 : Int) < r.toString.length :=
    Int.natCast_pos.mpr (List.length_pos_iff.mpr (Conversation.request_ne_nil r))
  rw [if_neg (Int.ne_of_gt hpos), if_neg (Int.not_lt.mpr (Int.le_of_lt hpos)),
    recvResponse_printed hcastsClient hresponse hincoming.solid hflat hhead hown]

/--
**A request through the pool**: the caller has the response that a servlet makes of a request with the method, the
path, the query, the fragment and the body that the caller gave, and with the caller's headers but for those whose name
is a beginning of `connection`.
-/
theorem doRequest_ok (hanswers : server.dispatcher.Answers answer) (hcasts : CastsDecimals env)
    (hcastsClient : CastsDecimals clientEnv) (hdelivers : Delivers sends) {schedule : Schedule}
    (hschedule : ∀ j n, 0 < n → 0 < schedule.result j n) (method : HttpMethod) (uri : Uri)
    (headers : List (Bytes × Bytes)) (body : Bytes) {r : HttpRequest}
    (hparts : r = requestOfParts method uri body (closes HttpConnectionPool.headerTests headers)
      (taken HttpConnectionPool.headerTests headers))
    (hr : r.Sendable env) (hresponse : (answerTo server answer r).Sendable clientEnv) {peer : Peer}
    {arriving incoming : Stream}
    (harriving : Flies (HttpConnectionPool.doRequest clientEnv peer schedule incoming
      (HttpConnectionPool.makeRequest method uri.target headers body)).1 r.headText.length arriving)
    (hincoming : Flies
      (server.handleClient env (r.toString.length + 1) { stream := arriving, sends := sends }).2.1.sent
      (Client.headText (answerTo server answer r)).length incoming) :
    ∃ request, Carries method uri body (closes HttpConnectionPool.headerTests headers)
        (fun name => headerOf name (taken HttpConnectionPool.headerTests headers)) request ∧
      (server.handleClient env (r.toString.length + 1) { stream := arriving, sends := sends }).1 =
        [server.exchange answer request] ∧
      (HttpConnectionPool.doRequest clientEnv peer schedule incoming
        (HttpConnectionPool.makeRequest method uri.target headers body)).2 =
        some ⟨.ok, some (server.exchange answer request).response.received, ascii "ok"⟩ := by
  have htext : (HttpConnectionPool.makeRequest method uri.target headers body).toString = r.toString := by
    rw [hparts, HttpConnectionPool.makeRequest_toString]
  rw [HttpConnectionPool.doRequest] at harriving ⊢
  obtain ⟨hserved, hresult⟩ := exchange_ok hanswers hcasts hcastsClient hdelivers hschedule hr hresponse htext
    harriving hincoming
  refine ⟨r.seen, ?_, hserved, hresult⟩
  subst hparts
  have hcarries := seen_carries hr.printable
  rw [funext printedEntry_taken] at hcarries
  exact hcarries

/--
**A request without a pool**: a servlet sees the caller's headers, with the host of the URI if they have none, but for
`connection` and for those whose name is a beginning of it, which `dump` leaves out. The caller does not have the
response.
-/
theorem DoRequest_ok (hanswers : server.dispatcher.Answers answer) (hcasts : CastsDecimals env)
    (hcastsClient : CastsDecimals clientEnv) (hdelivers : Delivers sends) {schedule : Schedule}
    (hschedule : ∀ j n, 0 < n → 0 < schedule.result j n) (method : HttpMethod) (uri : Uri)
    (headers : List (Bytes × Bytes)) (body : Bytes)
    (hr : (HttpConnection.makeRequest method uri headers body).Sendable env)
    (hresponse : (answerTo server answer (HttpConnection.makeRequest method uri headers body)).Sendable clientEnv)
    {peer : Peer} {arriving incoming : Stream}
    (harriving : Flies (HttpConnection.DoRequest clientEnv peer schedule incoming
      (HttpConnection.makeRequest method uri headers body)).1
      (HttpConnection.makeRequest method uri headers body).headText.length arriving)
    (hincoming : Flies
      (server.handleClient env ((HttpConnection.makeRequest method uri headers body).toString.length + 1)
        { stream := arriving, sends := sends }).2.1.sent
      (Client.headText (answerTo server answer (HttpConnection.makeRequest method uri headers body))).length incoming) :
    ∃ request, Carries method uri body (closes HttpConnection.headerTests headers)
        (printedEntry (taken HttpConnection.headerTests headers ++ hostField HttpConnection.headerTests uri headers))
        request ∧
      (server.handleClient env ((HttpConnection.makeRequest method uri headers body).toString.length + 1)
        { stream := arriving, sends := sends }).1 = [server.exchange answer request] ∧
      (HttpConnection.DoRequest clientEnv peer schedule incoming
        (HttpConnection.makeRequest method uri headers body)).2 = some ⟨.ok, none, ascii "ok"⟩ := by
  rw [HttpConnection.DoRequest] at harriving ⊢
  obtain ⟨hserved, hresult⟩ := exchange_ok hanswers hcasts hcastsClient hdelivers hschedule hr hresponse rfl
    harriving hincoming
  refine ⟨(HttpConnection.makeRequest method uri headers body).seen, ?_, hserved, hresult⟩
  have hprintable := hr.printable
  rw [HttpConnection.makeRequest_eq] at hprintable ⊢
  exact seen_carries hprintable

end

/-! ## A post -/

open Conversation (answerTo Flies)

def postUri : Uri where
  scheme := ascii "http"
  host := ascii "h"
  path := ascii "/a/b"
  query := ascii "c=d"

/-- A header, and one that is a beginning of `connection`. -/
def postHeaders : List (Bytes × Bytes) := [(ascii "Con", ascii "x"), (ascii "X-Id", ascii "7")]

/-- What the pool sends. -/
def pooledPost : HttpRequest :=
  requestOfParts .post postUri (ascii "hi") (closes HttpConnectionPool.headerTests postHeaders)
    (taken HttpConnectionPool.headerTests postHeaders)

/-- What is sent without a pool. -/
def singlePost : HttpRequest := HttpConnection.makeRequest .post postUri postHeaders (ascii "hi")

theorem sendable_post {r : HttpRequest} (h : r = pooledPost ∨ r = singlePost) : r.Sendable plainEnv := by
  have hpath : r.path = 47 :: ascii "a/b" ∧ r.query = ascii "c=d" ∧ r.fragment = [] := by
    rcases h with rfl | rfl <;> decide
  refine ⟨⟨⟨ascii "a/b", hpath.1, .of_all (by decide +kernel)⟩, ?_, ?_, ?_, ?_, ?_⟩, ?_, ?_, ?_, ?_⟩
  · rw [hpath.2.1]
    exact .of_all (by decide +kernel)
  · rw [hpath.2.2]
    exact .nil
  · rcases h with rfl | rfl <;> decide +kernel
  · rcases h with rfl | rfl <;> decide +kernel
  · rcases h with rfl | rfl <;> decide +kernel
  · rcases h with rfl | rfl <;> decide
  · intro rest hrest
    rw [hpath.1] at hrest
    exact absurd (List.cons.inj (List.cons.inj hrest).2).1 (by decide)
  · rcases h with rfl | rfl <;> (unfold HttpRequest.HeadFits; decide +kernel)
  · rcases h with rfl | rfl <;> decide +kernel

/-- Both messages arrive in one piece. -/
theorem flies_post {r request : HttpRequest} (h : r = pooledPost ∨ r = singlePost)
    (htext : request.toString = r.toString) (noResponse : ErrorCode) (ok : HttpResponse → Option HttpResponse)
    (peer : Peer) (incoming : Stream) :
    Flies (exchange noResponse ok plainEnv peer Stream.greedy incoming request).1 r.headText.length [r.toString] ∧
      Flies (HttpServer.bareServer.handleClient plainEnv (r.toString.length + 1)
          { stream := [r.toString], sends := fun _ => Stream.greedy }).2.1.sent
        (Client.headText (answerTo HttpServer.bareServer (fun _ => notFound) r)).length
        [(answerTo HttpServer.bareServer (fun _ => notFound) r).toString] := by
  have hgreedy : ∀ j n, 0 < n → 0 < Stream.greedy.result j n := fun j _ hn => Stream.greedy_pos j hn
  have hr := sendable_post h
  have hresponse : (answerTo HttpServer.bareServer (fun _ => notFound) r).Sendable plainEnv :=
    Conversation.sendable_answerTo (by rcases h with rfl | rfl <;> rfl)
  have hflies : Flies r.toString r.headText.length [r.toString] := by
    refine Flies.single (Conversation.request_ne_nil r) ?_
    rw [toString_eq, List.length_append]
    exact Nat.le_add_right _ _
  constructor
  · have hcounted : request.toString.length ≤ intMax := by
      rw [htext]
      exact hr.counted
    rw [exchange, sendRequest_eq hgreedy hcounted, htext]
    exact hflies
  · rw [(handleClient_single HttpServer.answers_bareServer castsDecimals_plainEnv (fun _ => hgreedy) hr hresponse
      hflies).2]
    exact Flies.single (Conversation.response_ne_nil _) (Conversation.length_headText_le hresponse.printable)

/-- A peer that no message names. -/
def quietPeer : Peer := ⟨ascii "127.0.0.1:80", 0, ascii "Success", 1000⟩

theorem doRequest_post : ∃ request,
    Carries .post postUri (ascii "hi") (closes HttpConnectionPool.headerTests postHeaders)
        (fun name => headerOf name (taken HttpConnectionPool.headerTests postHeaders)) request ∧
      (HttpServer.bareServer.handleClient plainEnv (pooledPost.toString.length + 1)
        { stream := [pooledPost.toString], sends := fun _ => Stream.greedy }).1 =
        [HttpServer.bareServer.exchange (fun _ => notFound) request] ∧
      (HttpConnectionPool.doRequest plainEnv quietPeer Stream.greedy
        [(answerTo HttpServer.bareServer (fun _ => notFound) pooledPost).toString]
        (HttpConnectionPool.makeRequest .post postUri.target postHeaders (ascii "hi"))).2 =
        some ⟨.ok, some (HttpServer.bareServer.exchange (fun _ => notFound) request).response.received,
          ascii "ok"⟩ := by
  obtain ⟨harriving, hincoming⟩ := flies_post (.inl rfl) HttpConnectionPool.makeRequest_toString .timeout some
    quietPeer [(answerTo HttpServer.bareServer (fun _ => notFound) pooledPost).toString]
  exact doRequest_ok HttpServer.answers_bareServer castsDecimals_plainEnv castsDecimals_plainEnv
    (fun _ j _ hn => Stream.greedy_pos j hn) (fun j _ hn => Stream.greedy_pos j hn) .post postUri postHeaders
    (ascii "hi") (Eq.refl pooledPost) (sendable_post (.inl rfl)) (Conversation.sendable_answerTo rfl) harriving
    hincoming

theorem singlePost_eq : singlePost = HttpConnection.makeRequest .post postUri postHeaders (ascii "hi") := rfl

theorem DoRequest_post : ∃ request,
    Carries .post postUri (ascii "hi") (closes HttpConnection.headerTests postHeaders)
        (printedEntry (taken HttpConnection.headerTests postHeaders ++
          hostField HttpConnection.headerTests postUri postHeaders)) request ∧
      (HttpServer.bareServer.handleClient plainEnv (singlePost.toString.length + 1)
        { stream := [singlePost.toString], sends := fun _ => Stream.greedy }).1 =
        [HttpServer.bareServer.exchange (fun _ => notFound) request] ∧
      (HttpConnection.DoRequest plainEnv quietPeer Stream.greedy
        [(answerTo HttpServer.bareServer (fun _ => notFound) singlePost).toString] singlePost).2 =
        some ⟨.ok, none, ascii "ok"⟩ := by
  have hsendable := sendable_post (.inr (Eq.refl singlePost))
  have hresponse := Conversation.sendable_answerTo (Eq.refl singlePost.version)
  obtain ⟨harriving, hincoming⟩ := flies_post (.inr rfl) rfl .sendSocketError (fun _ => none) quietPeer
    [(answerTo HttpServer.bareServer (fun _ => notFound) singlePost).toString]
  rw [singlePost_eq] at hsendable hresponse harriving hincoming ⊢
  exact DoRequest_ok HttpServer.answers_bareServer castsDecimals_plainEnv castsDecimals_plainEnv
    (fun _ j _ hn => Stream.greedy_pos j hn) (fun j _ hn => Stream.greedy_pos j hn) .post postUri postHeaders
    (ascii "hi") hsendable hresponse harriving hincoming

end Nemo.Http
