import RaisingEffects.Proofs.Analysis.Run
import RaisingEffects.Proofs.Forwarding.CallSite

/-!
# Occasions to report something

The walk over a body comes to each node once, and what it may report there is known beforehand: a
clause may name a type that is no error, an argument of a call may not fit, and so on. Each of these
is an `Occasion`, with the topic of the report and the places where it may stand.

* `Node.occasions` are the occasions at a node.
* `Reports os sites`: each of the reports has an occasion of its own.
-/

namespace RaisingEffects

variable {clause : Option (Clause Span)}

/-! ## Topics and sites -/

/-- What a violation is about, as far as its kind and its particulars tell. -/
inductive Topic where
  | word
  /-- A type that is no error, in a clause or raised. -/
  | errorType
  /-- An element of a collection that is written out. -/
  | element
  /-- A value that is bound, assigned or inserted. -/
  | bound
  | argument (position : Nat)
  /-- A body that raises too much. -/
  | raises
  /-- The rule of a forwarding function. -/
  | rule
deriving DecidableEq

/-- The topic of a cause. -/
def Cause.topic : Cause → Topic
  | ambiguous _ => .word
  | misfit m => if m.index.isSome then .element else .bound
  | letMismatch .. | assignMismatch .. => .bound
  | argumentMismatch _ position .. => .argument position
  | clauseNotError _ | raisedNotError _ => .errorType
  | closureRaises .. | functionRaises .. => .raises
  | forwardsNothing _ | passMismatch .. | unhandledPath .. => .rule

/-- The topic of a report, and where it stands. -/
structure Site where
  topic : Topic
  pos : Option Pos
deriving DecidableEq

def Violation.site (v : Violation) : Site := ⟨v.cause.topic, v.pos⟩

def LogEntry.site? : LogEntry → Option Site
  | .violation v => some v.site
  | _ => none

def sitesIn (entries : List LogEntry) : List Site := entries.filterMap LogEntry.site?

theorem sitesIn_append (entries more : List LogEntry) :
    sitesIn (entries ++ more) = sitesIn entries ++ sitesIn more :=
  List.filterMap_append

theorem sitesIn_violations (vs : List Violation) :
    sitesIn (vs.map .violation) = vs.map Violation.site := by
  rw [sitesIn, List.filterMap_map]
  exact congrFun List.filterMap_eq_map vs

/-! ## Occasions -/

/-- An occasion to report something on a topic, at one of the places. -/
structure Occasion where
  topic : Topic
  places : List Pos

def Occasion.sites (o : Occasion) : List Site := o.places.map fun pos => ⟨o.topic, some pos⟩

/-- The occasions at a node. -/
def Node.occasions : Node Span → List Occasion
  | .clause c => [⟨.errorType, [c.loc.start]⟩]
  | .expr (.call span _ args) =>
    (List.range args.length).map fun i => ⟨.argument i, [span.start]⟩
  | .expr (.closure span ..) => [⟨.raises, [span.start]⟩]
  | .expr (.collection _ _ elements) => [⟨.element, Node.starts (elements.map .expr)⟩]
  | .stmt (.let_ span ..) | .stmt (.assign span ..) | .stmt (.insert span ..) =>
    [⟨.bound, [span.start]⟩]
  | .stmt (.raise _ value) => [⟨.errorType, Node.starts [.expr value]⟩]
  | .function g => [⟨.raises, [g.loc.start]⟩]
  | _ => []

def occasionsIn (ns : List (Node Span)) : List Occasion := ns.flatMap Node.occasions

theorem occasionsIn_cons (n : Node Span) (ns : List (Node Span)) :
    occasionsIn (n :: ns) = n.occasions ++ occasionsIn ns :=
  List.flatMap_cons

theorem occasionsIn_append (ns ms : List (Node Span)) :
    occasionsIn (ns ++ ms) = occasionsIn ns ++ occasionsIn ms :=
  List.flatMap_append

/-! ## Reports -/

/-- Each of the reports has an occasion of its own: of the reports with certain sites there are no
more than occasions for such a report. -/
def Reports (os : List Occasion) (sites : List Site) : Prop :=
  ∀ S : Site → Bool, sites.countP S ≤ os.countP fun o => o.sites.any S

namespace Reports

variable {os os' : List Occasion} {sites sites' : List Site}

theorem nil (os : List Occasion) : Reports os [] := fun _ => Nat.zero_le _

theorem append (h : Reports os sites) (h' : Reports os' sites') :
    Reports (os ++ os') (sites ++ sites') := by
  intro S
  rw [List.countP_append, List.countP_append]
  exact Nat.add_le_add (h S) (h' S)

/-- More occasions, in any order. -/
theorem mono (h : Reports os sites) (hos : ∀ P, os.countP P ≤ os'.countP P) : Reports os' sites :=
  fun S => Nat.le_trans (h S) (hos _)

theorem sublist (h : Reports os sites) (hs : sites'.Sublist sites) : Reports os sites' :=
  fun S => Nat.le_trans (hs.countP_le ..) (h S)

theorem one {o : Occasion} {site : Site} (h : site ∈ o.sites) : Reports [o] [site] := by
  intro S
  rw [List.countP_singleton, List.countP_singleton]
  split
  · rename_i hS
    exact Nat.le_of_eq (if_pos (List.any_eq_true.2 ⟨site, h, hS⟩)).symm
  · exact Nat.zero_le _

/-- Reports that match occasions one by one. -/
theorem map {ι : Type} {is : List ι} {o : ι → Occasion} {site : ι → Site}
    (h : ∀ i ∈ is, site i ∈ (o i).sites) : Reports (is.map o) (is.map site) := by
  intro S
  rw [List.countP_map, List.countP_map]
  refine List.countP_mono_left fun i hi hS => ?_
  exact List.any_eq_true.2 ⟨_, h i hi, hS⟩

theorem flatMap {ι : Type} {is : List ι} {os : ι → List Occasion} {sites : ι → List Site}
    (h : ∀ i ∈ is, Reports (os i) (sites i)) : Reports (is.flatMap os) (is.flatMap sites) := by
  induction is with
  | nil => exact .nil _
  | cons i is ih =>
    obtain ⟨hi, his⟩ := List.forall_mem_cons.1 h
    rw [List.flatMap_cons, List.flatMap_cons]
    exact hi.append (ih his)

/-- A report on the occasion of a node. -/
theorem of_mem {n : Node Span} {ns : List (Node Span)} {o : Occasion} {site : Site} (hn : n ∈ ns)
    (ho : o ∈ n.occasions) (hsite : site ∈ o.sites) : Reports (occasionsIn ns) [site] := by
  refine (one hsite).mono fun P => List.Sublist.countP_le ?_ ..
  exact List.singleton_sublist.2 (List.mem_flatMap.2 ⟨n, hn, ho⟩)

end Reports

/-- A clause among the nodes may be reported. -/
theorem Clause.fault?_reports (isError : String → Bool) {ns : List (Node Span)}
    (h : ∀ c ∈ clause, .clause c ∈ ns) :
    Reports (occasionsIn ns) (sitesIn ((Clause.fault? isError clause).toList.map .violation)) := by
  rw [sitesIn_violations]
  cases clause with
  | none => exact .nil _
  | some c =>
    unfold Clause.fault?
    split
    · exact .nil _
    · exact .of_mem (h c rfl) (List.mem_singleton.2 rfl) (List.mem_singleton.2 rfl)

/-- The clause of the elements is one of the nodes of a collection type. -/
theorem Analysis.mem_walk_of_elementClause? {type : TypeExpr Span}
    (h : elementClause? type = some clause) : ∀ c ∈ clause, .clause c ∈ type.walk := by
  intro c hc
  unfold elementClause? at h
  split at h
  · split at h
    · cases h
      cases hc
      simp [TypeExpr.walk, TypeExpr.walkAll, TypeExpr.walk_fn]
    · cases h
  · cases h

/-- What is noted about a parameter has its occasions in the type of the parameter. -/
theorem Param.entries_reports (isError : String → Bool) (p : Param Span) :
    Reports (occasionsIn p.nodes) (sitesIn (p.entries isError)) := by
  obtain ⟨name, _ | type⟩ := p
  · exact .nil _
  · have hnodes : Param.nodes ⟨name, some type⟩ = type.walk := List.append_nil _
    rw [hnodes]
    cases type with
    | fn loc params clause result =>
      refine Clause.fault?_reports isError fun c hc => ?_
      cases hc
      simp [TypeExpr.walk_fn]
    | named loc type args =>
      dsimp only [Param.entries, Option.bind_some]
      cases helement : Analysis.elementClause? (.named loc type args) with
      | none => exact .nil _
      | some clause =>
        exact Clause.fault?_reports isError (Analysis.mem_walk_of_elementClause? helement)

theorem Param.flatMap_entries_reports (isError : String → Bool) (ps : List (Param Span)) :
    Reports (occasionsIn (ps.flatMap Param.nodes))
      (sitesIn (ps.flatMap (Param.entries isError))) := by
  rw [occasionsIn, sitesIn, List.flatMap_assoc, List.filterMap_flatMap]
  exact .flatMap fun p _ => p.entries_reports isError

/-! ## Arguments, elements and raised values -/

/-- What is reported about arguments is about different ones. -/
theorem argumentFaults_sites (callee : String) (pos : Pos) (arguments : List Effect)
    (position : Nat) (params : List (Option Effect)) :
    ((argumentFaults callee pos arguments position params).map Violation.site).Sublist
      ((List.range' position (arguments.length - position)).map
        fun i => ⟨.argument i, some pos⟩) := by
  induction params generalizing position with
  | nil => exact List.nil_sublist _
  | cons expected rest ih =>
    rw [argumentFaults, List.map_append]
    by_cases hposition : position < arguments.length
    · have hlength : arguments.length - position = arguments.length - (position + 1) + 1 := by omega
      rw [hlength, List.range'_succ, List.map_cons, ← List.singleton_append]
      refine List.Sublist.append ?_ (ih (position + 1))
      unfold argumentFault?
      split
      · split
        · exact List.nil_sublist _
        · exact List.Sublist.refl _
      · exact List.nil_sublist _
    · have hnone : arguments[position]? = none :=
        List.getElem?_eq_none (Nat.le_of_not_lt hposition)
      have hlength : arguments.length - position = arguments.length - (position + 1) := by omega
      have hfault : argumentFault? callee pos position expected none = none := by
        cases expected <;> rfl
      rw [hnone, hfault, hlength]
      refine (ih (position + 1)).trans ?_
      rw [Nat.sub_eq_zero_of_le (by omega)]
      exact List.nil_sublist _

theorem Aggregate.insertFrom_error {a : Aggregate} {index : Nat} {es : List Effect} {m : Misfit}
    (h : a.insertFrom index es = .error m) :
    ∃ i e bound, m.index = some (index + i) ∧ es[i]? = some e ∧ e.fits bound = false := by
  induction es generalizing a index with
  | nil => cases h
  | cons e es ih =>
    rw [insertFrom] at h
    cases hinsert : a.insert e (some index) with
    | error m' =>
      rw [hinsert] at h
      cases h
      unfold insert at hinsert
      split at hinsert
      · cases hinsert
      · rename_i bound hbound
        split at hinsert
        · cases hinsert
        · rename_i hfits
          cases hinsert
          exact ⟨0, e, bound, rfl, rfl, Bool.eq_false_iff.2 hfits⟩
    | ok a' =>
      rw [hinsert] at h
      obtain ⟨i, e', bound, hindex, he', hfits⟩ := ih h
      exact ⟨i + 1, e', bound, by rw [hindex, Nat.add_assoc, Nat.add_comm 1], he', hfits⟩

/-- The element that is reported is one that does not fit. -/
theorem Aggregate.ofElements_error {policy : Policy} {declared : Option Effect} {kind : String}
    {es : List Effect} {m : Misfit} (h : ofElements policy declared kind es = .error m) :
    ∃ i e bound, m.index = some i ∧ es[i]? = some e ∧ e.fits bound = false := by
  unfold ofElements at h
  split at h
  · obtain ⟨i, e, bound, hindex, he, hfits⟩ := insertFrom_error h
    exact ⟨i, e, bound, by rw [hindex, Nat.zero_add], he, hfits⟩
  · cases h
  · cases h
  · obtain ⟨i, e, bound, hindex, he, hfits⟩ := insertFrom_error h
    exact ⟨i + 1, e, bound, by rw [hindex, Nat.add_comm], he, hfits⟩

theorem Forwarding.topic_of_callSite {f : Forwarding} {effects : Table Effect} {v : Violation}
    (h : f.callSite effects = .error v) : v.cause.topic = .rule := by
  unfold callSite at h
  split at h
  · obtain ⟨-, -, -, -, -, ⟨-, -, rfl⟩ | rfl⟩ := resolve_eq_error h <;> rfl
  · cases h

/-- A value whose effect does not fit somewhere is a closure or a name, so it has a place. -/
theorem Env.loc?_of_fits {env : Env} {e : Expr Note} {bound : Effect}
    (h : (env.effectOf e).fits bound = false) : ∃ loc, e.loc? = some loc := by
  cases e with
  | closure loc | name loc => exact ⟨loc, rfl⟩
  | _ => cases h

theorem Node.start?_map_span {e : Expr Note} {loc : Note} (h : e.loc? = some loc) :
    (Node.expr (e.map Note.span)).start? = some loc.span.start := by
  cases e <;> cases h <;> rfl

theorem Violation.cause_locate (v : Violation) (pos : Pos) : (v.locate pos).cause = v.cause := by
  unfold locate
  split <;> rfl

end RaisingEffects
