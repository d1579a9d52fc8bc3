import Nemo.Http.Session
import Nemo.Infra.Callbacks

/-!
# What the callbacks make of a request

Every callback writes one member of the request, or none. So a member of the final request is what
the last callback for it has written (`fillAll_last`), and the header map is the header lines set
one after the other (`fillAll_headers`).
-/

namespace Nemo.Http

open Infra

/-! ## The members that a callback writes -/

/-- What a callback writes into `method_`. -/
def methodOf : Report Element → Option HttpMethod
  | .element .requestMethod text length => (stringArg text length).map string2HttpMethod
  | _ => none

/-- What a callback writes into `version_`. -/
def versionWritten : Report Element → Option HttpVersion
  | .element .httpVersion text length => versionOf text length
  | _ => none

/-- What a callback for the element `e` writes, when it writes its text. -/
def textOf (e : Element) : Report Element → Option Bytes
  | .element e' text length => if e' = e then stringArg text length else none
  | _ => none

/-- The header that a callback sets. -/
def fieldOf : Report Element → Option (Bytes × Bytes)
  | .field name flen value vlen =>
    if flen = 0 then none
    else (stringArg name flen).bind fun key => (stringArg value vlen).map fun val => (key, val)
  | _ => none

/-- A callback that neither throws nor sets an error. -/
def accepts : Report Element → Bool
  | .element .requestMethod text length =>
    match stringArg text length with
    | some s => string2HttpMethod s != .invalidMethod
    | none => false
  | .element .httpVersion text length => (versionOf text length).isSome
  | .element .requestUri _ _ | .element .headerDone _ _ => true
  | .element _ text length => (stringArg text length).isSome
  | .field name flen value vlen =>
    flen == 0 || ((stringArg name flen).isSome && (stringArg value vlen).isSome)

/-- The request after a callback that is accepted. -/
def fill (r : Report Element) (request : HttpRequest) : HttpRequest where
  method := (methodOf r).getD request.method
  version := (versionWritten r).getD request.version
  close := request.close
  path := (textOf .requestPath r).getD request.path
  query := (textOf .queryString r).getD request.query
  fragment := (textOf .fragment r).getD request.fragment
  body := request.body
  headers := request.headers.setHeaders (fieldOf r).toList

/-- **What one callback does**: it throws, sets an error, or writes its member. -/
theorem onReport_ok {r : Report Element} {request : HttpRequest} {error : HttpParserError} :
    (accepts r = true → onReport r (request, error) = some (fill r request, error)) ∧
    (accepts r = false → ∀ f, onReport r (request, error) = some f → f.2 ≠ .ok) := by
  cases r with
  | field name flen value vlen =>
    simp only [accepts, onReport, onRequestHttpField, fill, methodOf, versionWritten, textOf, fieldOf]
    by_cases h0 : flen = 0
    · simp [h0, HeaderMap.setHeaders]
    · cases hname : stringArg name flen with
      | none => simp [h0]
      | some key =>
        cases hvalue : stringArg value vlen with
        | none => simp [h0]
        | some val => simp [h0, HeaderMap.setHeaders]
  | element e text length =>
    cases e with
    | requestMethod =>
      cases hs : stringArg text length with
      | none => simp [accepts, onReport, hs]
      | some s =>
        simp only [accepts, onReport, hs, fill, methodOf, versionWritten, textOf, fieldOf]
        cases hm : string2HttpMethod s <;> simp [onRequestMethod, hm, HeaderMap.setHeaders]
    | httpVersion =>
      simp only [accepts, onReport, fill, methodOf, versionWritten, textOf, fieldOf]
      cases hv : versionOf text length <;> simp [onRequestVersion, hv, HeaderMap.setHeaders]
    | requestUri | headerDone =>
      simp [accepts, onReport, fill, methodOf, versionWritten, textOf, fieldOf,
        HeaderMap.setHeaders]
    | fragment | requestPath | queryString =>
      simp only [accepts, onReport, fill, methodOf, versionWritten, textOf, fieldOf]
      cases hs : stringArg text length <;> simp [HeaderMap.setHeaders]

theorem callbacks : Callbacks HttpParserError.ok onReport accepts fill where
  accepted _ _ _ h := onReport_ok.1 h
  refused _ _ x' h hx := onReport_ok.2 h x' hx

/-! ## All callbacks -/

/-- The request after callbacks that are all accepted. -/
def fillAll (rs : List (Report Element)) (request : HttpRequest) : HttpRequest :=
  rs.foldl (fun q r => fill r q) request

/-- A member of the final request is what the last callback for it has written. -/
theorem fillAll_last {γ : Type} {π : HttpRequest → γ} {u : Report Element → Option γ}
    (hfill : ∀ r q, π (fill r q) = (u r).getD (π q)) (rs : List (Report Element))
    (request : HttpRequest) :
    π (fillAll rs request) = (rs.filterMap u).getLast?.getD (π request) := foldl_last hfill rs request

theorem fillAll_headers (rs : List (Report Element)) (request : HttpRequest) :
    (fillAll rs request).headers = request.headers.setHeaders (rs.filterMap fieldOf) :=
  foldl_adds (π := HttpRequest.headers) (u := fieldOf) (fun _ _ => rfl) rs request

theorem fillAll_close (rs : List (Report Element)) (request : HttpRequest) :
    (fillAll rs request).close = request.close ∧ (fillAll rs request).body = request.body :=
  ⟨foldl_keeps (fun r q => show (fill r q).close = q.close from rfl) rs request,
    foldl_keeps (fun r q => show (fill r q).body = q.body from rfl) rs request⟩

/-- Two lists of callbacks that write the same make the same request. -/
theorem fillAll_congr {rs rs' : List (Report Element)} (request : HttpRequest)
    (hmethod : rs.filterMap methodOf = rs'.filterMap methodOf)
    (hversion : rs.filterMap versionWritten = rs'.filterMap versionWritten)
    (htext : ∀ e ∈ [Element.requestPath, .queryString, .fragment],
      rs.filterMap (textOf e) = rs'.filterMap (textOf e))
    (hheaders : request.headers.setHeaders (rs.filterMap fieldOf)
      = request.headers.setHeaders (rs'.filterMap fieldOf)) :
    fillAll rs request = fillAll rs' request := by
  have h1 := fillAll_last (π := HttpRequest.method) (u := methodOf) (fun _ _ => rfl)
  have h2 := fillAll_last (π := HttpRequest.version) (u := versionWritten) (fun _ _ => rfl)
  have h3 := fillAll_last (π := HttpRequest.path) (u := textOf .requestPath) (fun _ _ => rfl)
  have h4 := fillAll_last (π := HttpRequest.query) (u := textOf .queryString) (fun _ _ => rfl)
  have h5 := fillAll_last (π := HttpRequest.fragment) (u := textOf .fragment) (fun _ _ => rfl)
  simp only [List.mem_cons, List.not_mem_nil, or_false, forall_eq_or_imp, forall_eq] at htext
  obtain ⟨hpath, hquery, hfragment⟩ := htext
  have hfields : ∀ q q' : HttpRequest, q.method = q'.method → q.version = q'.version →
      q.close = q'.close → q.path = q'.path → q.query = q'.query → q.fragment = q'.fragment →
      q.body = q'.body → q.headers = q'.headers → q = q' := by
    rintro ⟨⟩ ⟨⟩ rfl rfl rfl rfl rfl rfl rfl rfl
    rfl
  apply hfields
  · rw [h1, h1, hmethod]
  · rw [h2, h2, hversion]
  · rw [(fillAll_close rs request).1, (fillAll_close rs' request).1]
  · rw [h3, h3, hpath]
  · rw [h4, h4, hquery]
  · rw [h5, h5, hfragment]
  · rw [(fillAll_close rs request).2, (fillAll_close rs' request).2]
  · rw [fillAll_headers, fillAll_headers, hheaders]

end Nemo.Http
