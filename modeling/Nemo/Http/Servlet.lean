import Mathlib.Data.List.Nodup
import Mathlib.Data.Option.Basic
import Nemo.Http.Table
import Nemo.Infra.Glob
import Nemo.Infra.Lts

/-!
# The servlet dispatcher

`src/net/http/servlet.cc`. The exact servlets are in a map, where `emplace` leaves a servlet that is
there already; the glob servlets are in a vector, which is searched for a servlet by its name, whether
a pattern is added or deleted or a path is looked up.

`Routes` is the table that the comments of `servlet.h` describe: exact paths first, then the patterns in
the order of their registration, then the default servlet. `matched_eq` says where the dispatcher
is this table.
-/

namespace Nemo.Http

open Function (update)
open Infra

variable {S : Type}

/-! ## Servlets -/

/-- A `HttpServlet`, with what its `handle` does. -/
structure HttpServlet (S : Type) where
  name : Bytes
  handle : S
  deriving DecidableEq

def FunctionServlet (cb : S) : HttpServlet S := { name := ascii "FunctionServlet", handle := cb }

/-- An `IServletCreator`. -/
structure IServletCreator (S : Type) where
  get : HttpServlet S
  getName : Bytes

def HoldServletCreator (servlet : HttpServlet S) : IServletCreator S :=
  { get := servlet, getName := servlet.name }

/-- `ServletCreator<T>`, for a class with the name `typeName` whose objects are like `servlet`. -/
def ServletCreator (typeName : Bytes) (servlet : HttpServlet S) : IServletCreator S :=
  { get := servlet, getName := typeName }

/-- `ServletDispatcher`. -/
structure ServletDispatcher (S : Type) where
  servlets : Bytes → Option (IServletCreator S) := fun _ => none
  globServlets : List (Bytes × IServletCreator S) := []
  defaultServlet : Option (HttpServlet S)

namespace ServletDispatcher

variable (d : ServletDispatcher S)

/-- `servlets_.emplace`. -/
def emplace (uri : Bytes) (creator : IServletCreator S) : ServletDispatcher S :=
  match d.servlets uri with
  | some _ => d
  | none => { d with servlets := update d.servlets uri (some creator) }

/-- The test of `getGlobServletIter`. -/
def named (uri : Bytes) (servletPair : Bytes × IServletCreator S) : Bool :=
  uri == servletPair.2.getName

/-- `iter->second = creator` at the first pair that the test finds, `emplace_back` if there is none. -/
def replaceGlob (uri : Bytes) (creator : IServletCreator S) :
    List (Bytes × IServletCreator S) → List (Bytes × IServletCreator S)
  | [] => [(uri, creator)]
  | e :: es => if named uri e then (e.1, creator) :: es else e :: replaceGlob uri creator es

def addServlet (uri : Bytes) (servlet : HttpServlet S) : ServletDispatcher S :=
  d.emplace uri (HoldServletCreator servlet)

def addServletFunction (uri : Bytes) (cb : S) : ServletDispatcher S :=
  d.emplace uri (HoldServletCreator (FunctionServlet cb))

def addServletCreator (uri : Bytes) (creator : IServletCreator S) : ServletDispatcher S :=
  d.emplace uri creator

def addGlobServletCreator (uri : Bytes) (creator : IServletCreator S) : ServletDispatcher S :=
  { d with globServlets := replaceGlob uri creator d.globServlets }

def addGlobServlet (uri : Bytes) (servlet : HttpServlet S) : ServletDispatcher S :=
  d.addGlobServletCreator uri (HoldServletCreator servlet)

def addGlobServletFunction (uri : Bytes) (cb : S) : ServletDispatcher S :=
  d.addGlobServlet uri (FunctionServlet cb)

def delServlet (uri : Bytes) : ServletDispatcher S := { d with servlets := update d.servlets uri none }

def delGlobServlet (uri : Bytes) : ServletDispatcher S :=
  { d with globServlets := d.globServlets.eraseP (named uri) }

def setDefault (servlet : Option (HttpServlet S)) : ServletDispatcher S :=
  { d with defaultServlet := servlet }

def getServlet (uri : Bytes) : Option (HttpServlet S) := (d.servlets uri).map IServletCreator.get

def getGlobServlet (uri : Bytes) : Option (HttpServlet S) :=
  (d.globServlets.find? (named uri)).map fun e => e.2.get

def getMatchedServlet (uri : Bytes) : Option (HttpServlet S) :=
  match d.getServlet uri with
  | some servlet => some servlet
  | none =>
    match d.getGlobServlet uri with
    | some servlet => some servlet
    | none => d.defaultServlet

end ServletDispatcher

/-! ## The table of routes -/

/-- The routes: a creator for each exact path, the patterns in order with a creator for each. -/
structure Routes (S : Type) where
  exact : Bytes → Option (IServletCreator S) := fun _ => none
  patterns : List Bytes := []
  glob : Bytes → Option (IServletCreator S) := fun _ => none
  default : Option (HttpServlet S)

namespace Routes

variable (r : Routes S)

def add (uri : Bytes) (creator : IServletCreator S) : Routes S :=
  { r with exact := update r.exact uri (some creator) }

/-- A pattern that is there keeps its place. -/
def addGlob (pattern : Bytes) (creator : IServletCreator S) : Routes S :=
  { r with
    patterns := if pattern ∈ r.patterns then r.patterns else r.patterns ++ [pattern]
    glob := update r.glob pattern (some creator) }

def del (uri : Bytes) : Routes S := { r with exact := update r.exact uri none }

def delGlob (pattern : Bytes) : Routes S :=
  { r with patterns := r.patterns.erase pattern, glob := update r.glob pattern none }

def setDefault (servlet : Option (HttpServlet S)) : Routes S := { r with default := servlet }

/-- The first pattern that matches a path. -/
def firstPattern (uri : Bytes) : Option Bytes :=
  r.patterns.find? fun pattern => Glob.accepts 42 pattern uri

/-- The servlet of a path. -/
def matched (uri : Bytes) : Option (HttpServlet S) :=
  (((r.exact uri).or ((r.firstPattern uri).bind r.glob)).map IServletCreator.get).or r.default

end Routes

/-! ## Editing both -/

/-- The calls that edit a dispatcher. -/
inductive Edit (S : Type)
  | addServlet (uri : Bytes) (servlet : HttpServlet S)
  | addServletFunction (uri : Bytes) (cb : S)
  | addServletCreator (uri : Bytes) (creator : IServletCreator S)
  | addGlobServlet (uri : Bytes) (servlet : HttpServlet S)
  | addGlobServletFunction (uri : Bytes) (cb : S)
  | addGlobServletCreator (uri : Bytes) (creator : IServletCreator S)
  | delServlet (uri : Bytes)
  | delGlobServlet (uri : Bytes)
  | setDefault (servlet : Option (HttpServlet S))

def ServletDispatcher.edit (d : ServletDispatcher S) : Edit S → ServletDispatcher S
  | .addServlet uri servlet => d.addServlet uri servlet
  | .addServletFunction uri cb => d.addServletFunction uri cb
  | .addServletCreator uri creator => d.addServletCreator uri creator
  | .addGlobServlet uri servlet => d.addGlobServlet uri servlet
  | .addGlobServletFunction uri cb => d.addGlobServletFunction uri cb
  | .addGlobServletCreator uri creator => d.addGlobServletCreator uri creator
  | .delServlet uri => d.delServlet uri
  | .delGlobServlet uri => d.delGlobServlet uri
  | .setDefault servlet => d.setDefault servlet

def Routes.edit (r : Routes S) : Edit S → Routes S
  | .addServlet uri servlet => r.add uri (HoldServletCreator servlet)
  | .addServletFunction uri cb => r.add uri (HoldServletCreator (FunctionServlet cb))
  | .addServletCreator uri creator => r.add uri creator
  | .addGlobServlet uri servlet => r.addGlob uri (HoldServletCreator servlet)
  | .addGlobServletFunction uri cb => r.addGlob uri (HoldServletCreator (FunctionServlet cb))
  | .addGlobServletCreator uri creator => r.addGlob uri creator
  | .delServlet uri => r.del uri
  | .delGlobServlet uri => r.delGlob uri
  | .setDefault servlet => r.setDefault servlet

/-- A dispatcher, and the table it should be. -/
structure Routed (S : Type) where
  dispatcher : ServletDispatcher S
  routes : Routes S

/-- The edits one after the other, starting with the `NotFoundServlet` as the default. -/
def edits (notFound : HttpServlet S) : Lts (Routed S) (Edit S) where
  init := ⟨{ defaultServlet := some notFound }, { default := some notFound }⟩
  step s e := some ⟨s.dispatcher.edit e, s.routes.edit e⟩

/-- A pattern that the dispatcher finds where it should: it has no wildcard, and its servlet has its name. -/
def Plain (pattern : Bytes) (creator : IServletCreator S) : Prop :=
  42 ∉ pattern ∧ creator.getName = pattern

/-- An exact path that is added is not there, and a pattern that is added is plain. -/
def EditsPlainly (s : Routed S) : Edit S → Prop
  | .addServlet uri _ | .addServletFunction uri _ | .addServletCreator uri _ => s.routes.exact uri = none
  | .addGlobServlet uri servlet => Plain uri (HoldServletCreator servlet)
  | .addGlobServletFunction uri cb => Plain uri (HoldServletCreator (FunctionServlet cb))
  | .addGlobServletCreator uri creator => Plain uri creator
  | .delServlet _ | .delGlobServlet _ | .setDefault _ => True

/-! ## Refinement -/

/-- The dispatcher stores the routes, whose patterns are all plain. -/
structure Stores (s : Routed S) : Prop where
  exact : s.dispatcher.servlets = s.routes.exact
  patterns : s.dispatcher.globServlets.map Prod.fst = s.routes.patterns
  nodup : s.routes.patterns.Nodup
  glob : ∀ e ∈ s.dispatcher.globServlets, s.routes.glob e.1 = some e.2
  plain : ∀ e ∈ s.dispatcher.globServlets, Plain e.1 e.2
  default : s.dispatcher.defaultServlet = s.routes.default

theorem stores_init (notFound : HttpServlet S) : Stores (edits notFound).init :=
  ⟨rfl, rfl, .nil, nofun, nofun, rfl⟩

/-! ## Plain patterns in the vector -/

section Globs

variable {es : List (Bytes × IServletCreator S)}

/-- The name of the servlet stands for the pattern. -/
theorem Plain.named_eq {e : Bytes × IServletCreator S} (h : Plain e.1 e.2) (uri : Bytes) :
    ServletDispatcher.named uri e = (e.1 == uri) := by
  rw [ServletDispatcher.named, h.2, Bool.eq_iff_iff, beq_iff_eq, beq_iff_eq, eq_comm]

/-- The search by name finds the pair of the first pattern that matches. -/
theorem find?_named (hes : ∀ e ∈ es, Plain e.1 e.2) (uri : Bytes) :
    (es.map Prod.fst).find? (fun pattern => Glob.accepts 42 pattern uri)
      = (es.find? (ServletDispatcher.named uri)).map Prod.fst := by
  induction es with
  | nil => rfl
  | cons e es ih =>
    obtain ⟨he, hrest⟩ := List.forall_mem_cons.mp hes
    have haccepts : Glob.accepts 42 e.1 uri = (e.1 == uri) := by
      rw [Bool.eq_iff_iff, Glob.accepts_of_notMem he.1, beq_iff_eq]
    rw [List.map_cons, List.find?_cons, List.find?_cons, he.named_eq, haccepts]
    cases e.1 == uri with
    | true => rfl
    | false => exact ih hrest

theorem map_eraseP_named (hes : ∀ e ∈ es, Plain e.1 e.2) (uri : Bytes) :
    (es.eraseP (ServletDispatcher.named uri)).map Prod.fst = (es.map Prod.fst).erase uri := by
  induction es with
  | nil => rfl
  | cons e es ih =>
    obtain ⟨he, hrest⟩ := List.forall_mem_cons.mp hes
    rw [List.eraseP_cons, List.map_cons, List.erase_cons, he.named_eq]
    cases e.1 == uri with
    | true => rfl
    | false => exact congrArg (e.1 :: ·) (ih hrest)

theorem map_replaceGlob (hes : ∀ e ∈ es, Plain e.1 e.2) (uri : Bytes) (creator : IServletCreator S) :
    (ServletDispatcher.replaceGlob uri creator es).map Prod.fst
      = if uri ∈ es.map Prod.fst then es.map Prod.fst else es.map Prod.fst ++ [uri] := by
  induction es with
  | nil => rfl
  | cons e es ih =>
    obtain ⟨he, hrest⟩ := List.forall_mem_cons.mp hes
    rw [ServletDispatcher.replaceGlob, he.named_eq, List.map_cons]
    by_cases heq : e.1 = uri
    · rw [if_pos (beq_iff_eq.mpr heq), if_pos (heq ▸ List.mem_cons_self)]
      rfl
    · rw [if_neg fun hbeq => heq (beq_iff_eq.mp hbeq), List.map_cons, ih hrest]
      by_cases hmem : uri ∈ es.map Prod.fst
      · rw [if_pos hmem, if_pos (List.mem_cons_of_mem _ hmem)]
      · have hnot : uri ∉ e.1 :: es.map Prod.fst := by
          simp only [List.mem_cons, not_or]
          exact ⟨fun h => heq h.symm, hmem⟩
        rw [if_neg hmem, if_neg hnot]
        rfl

/-- A pair is the new one, or an old one of another pattern. -/
theorem mem_replaceGlob (hes : ∀ e ∈ es, Plain e.1 e.2) (hnodup : (es.map Prod.fst).Nodup) {uri : Bytes}
    {creator : IServletCreator S} {e : Bytes × IServletCreator S}
    (he : e ∈ ServletDispatcher.replaceGlob uri creator es) : e = (uri, creator) ∨ e ∈ es ∧ e.1 ≠ uri := by
  induction es with
  | nil => exact .inl (List.mem_singleton.mp he)
  | cons e' es ih =>
    obtain ⟨hfirst, hrest⟩ := List.forall_mem_cons.mp hes
    obtain ⟨hnotMem, hnodup⟩ := List.nodup_cons.mp hnodup
    rw [ServletDispatcher.replaceGlob, hfirst.named_eq] at he
    by_cases heq : e'.1 = uri
    · rw [if_pos (beq_iff_eq.mpr heq)] at he
      rcases List.mem_cons.mp he with rfl | he
      · exact .inl (by rw [heq])
      · refine .inr ⟨List.mem_cons_of_mem _ he, fun h => hnotMem ?_⟩
        rw [heq, ← h]
        exact List.mem_map_of_mem he
    · rw [if_neg fun hbeq => heq (beq_iff_eq.mp hbeq)] at he
      rcases List.mem_cons.mp he with rfl | he
      · exact .inr ⟨List.mem_cons_self, heq⟩
      · exact (ih hrest hnodup he).imp_right fun ⟨hmem, hne⟩ => ⟨List.mem_cons_of_mem _ hmem, hne⟩

end Globs

/-! ## The edits -/

namespace Stores

variable {s : Routed S} (h : Stores s)
include h

theorem emplace {uri : Bytes} (creator : IServletCreator S) (hnew : s.routes.exact uri = none) :
    Stores ⟨s.dispatcher.emplace uri creator, s.routes.add uri creator⟩ := by
  rw [ServletDispatcher.emplace, h.exact, hnew]
  exact { h with exact := rfl }

theorem addGlob {pattern : Bytes} {creator : IServletCreator S} (hplain : Plain pattern creator) :
    Stores ⟨s.dispatcher.addGlobServletCreator pattern creator, s.routes.addGlob pattern creator⟩ := by
  have hnodup : (s.dispatcher.globServlets.map Prod.fst).Nodup := h.patterns ▸ h.nodup
  have hmem : ∀ e ∈ ServletDispatcher.replaceGlob pattern creator s.dispatcher.globServlets,
      e = (pattern, creator) ∨ e ∈ s.dispatcher.globServlets ∧ e.1 ≠ pattern :=
    fun e he => mem_replaceGlob h.plain hnodup he
  refine { h with patterns := ?_, nodup := ?_, glob := fun e he => ?_, plain := fun e he => ?_ }
  · exact (map_replaceGlob h.plain pattern creator).trans (by rw [h.patterns]; rfl)
  · rw [Routes.addGlob]
    split
    · exact h.nodup
    · next hnew =>
      refine List.nodup_append.mpr ⟨h.nodup, List.nodup_singleton _, ?_⟩
      rintro a ha b hb rfl
      exact hnew (List.mem_singleton.mp hb ▸ ha)
  · rcases hmem e he with rfl | ⟨he, hne⟩
    · exact Function.update_self ..
    · exact (Function.update_of_ne hne ..).trans (h.glob e he)
  · rcases hmem e he with rfl | ⟨he, -⟩
    · exact hplain
    · exact h.plain e he

theorem delServlet (uri : Bytes) : Stores ⟨s.dispatcher.delServlet uri, s.routes.del uri⟩ := by
  refine { h with exact := ?_ }
  rw [ServletDispatcher.delServlet, Routes.del, h.exact]

theorem delGlob (pattern : Bytes) :
    Stores ⟨s.dispatcher.delGlobServlet pattern, s.routes.delGlob pattern⟩ := by
  have hpatterns := map_eraseP_named h.plain pattern
  rw [h.patterns] at hpatterns
  refine { h with patterns := hpatterns, nodup := h.nodup.erase _, glob := fun e he => ?_,
                  plain := fun e he => h.plain e (List.mem_of_mem_eraseP he) }
  have hne : e.1 ≠ pattern := by
    rintro rfl
    have hmem : e.1 ∈ s.routes.patterns.erase e.1 := hpatterns ▸ List.mem_map_of_mem he
    exact h.nodup.not_mem_erase hmem
  exact (Function.update_of_ne hne ..).trans (h.glob e (List.mem_of_mem_eraseP he))

theorem edit {e : Edit S} (he : EditsPlainly s e) : Stores ⟨s.dispatcher.edit e, s.routes.edit e⟩ := by
  cases e with
  | addServlet uri servlet => exact h.emplace _ he
  | addServletFunction uri cb => exact h.emplace _ he
  | addServletCreator uri creator => exact h.emplace _ he
  | addGlobServlet uri servlet => exact h.addGlob he
  | addGlobServletFunction uri cb => exact h.addGlob he
  | addGlobServletCreator uri creator => exact h.addGlob he
  | delServlet uri => exact h.delServlet uri
  | delGlobServlet uri => exact h.delGlob uri
  | setDefault servlet => exact { h with default := rfl }

theorem matched (uri : Bytes) : s.dispatcher.getMatchedServlet uri = s.routes.matched uri := by
  have hglob : (s.routes.firstPattern uri).bind s.routes.glob
      = (s.dispatcher.globServlets.find? (ServletDispatcher.named uri)).map Prod.snd := by
    rw [Routes.firstPattern, ← h.patterns, find?_named h.plain]
    cases hfind : s.dispatcher.globServlets.find? (ServletDispatcher.named uri) with
    | none => rfl
    | some e => exact h.glob e (List.mem_of_find?_eq_some hfind)
  rw [ServletDispatcher.getMatchedServlet, ServletDispatcher.getServlet,
    ServletDispatcher.getGlobServlet, Routes.matched, hglob, h.exact, h.default]
  cases s.routes.exact uri with
  | some creator => rfl
  | none => cases s.dispatcher.globServlets.find? (ServletDispatcher.named uri) <;> rfl

end Stores

variable {notFound : HttpServlet S}

theorem stores_of_reachable {s : Routed S} (h : (edits notFound).ReachableBy EditsPlainly s) :
    Stores s := by
  refine h.invariant (stores_init notFound) ?_
  rintro s e s' hs he ⟨⟩
  exact hs.edit he

/--
After edits that add no path twice and only plain patterns, the dispatcher finds the servlet that the
table has for a path.
-/
theorem getMatchedServlet_eq {s : Routed S} (h : (edits notFound).ReachableBy EditsPlainly s)
    (uri : Bytes) : s.dispatcher.getMatchedServlet uri = s.routes.matched uri :=
  (stores_of_reachable h).matched uri

/-- A servlet with the name of its path. -/
theorem getMatchedServlet_echo :
    ((edits (⟨ascii "NotFoundServlet", 404⟩ : HttpServlet Nat)).init.dispatcher.edit
        (.addGlobServlet (ascii "/echo") ⟨ascii "/echo", 1⟩)).getMatchedServlet (ascii "/echo")
      = some ⟨ascii "/echo", 1⟩ := by
  have hplain : Plain (ascii "/echo") (HoldServletCreator (⟨ascii "/echo", 1⟩ : HttpServlet Nat)) :=
    ⟨by decide, rfl⟩
  have hreach := Lts.ReachableBy.step (M := edits (⟨ascii "NotFoundServlet", 404⟩ : HttpServlet Nat))
    (P := EditsPlainly) (a := .addGlobServlet (ascii "/echo") ⟨ascii "/echo", 1⟩) .init hplain rfl
  have heq := getMatchedServlet_eq hreach (ascii "/echo")
  exact heq.trans (by decide)

/-- The documented kind of pattern is not matched. -/
theorem not_getMatchedServlet_eq :
    ¬∀ s, (edits (⟨ascii "NotFoundServlet", 404⟩ : HttpServlet Nat)).Reachable s →
      ∀ uri, s.dispatcher.getMatchedServlet uri = s.routes.matched uri := by
  intro hall
  have hreach := Lts.ReachableBy.step (M := edits (⟨ascii "NotFoundServlet", 404⟩ : HttpServlet Nat))
    (P := fun _ _ => True) (a := .addGlobServlet (ascii "/nemo_*") ⟨ascii "EchoServlet", 1⟩) .init
    trivial rfl
  have hmatched := hall _ hreach (ascii "/nemo_a")
  revert hmatched
  decide

end Nemo.Http
