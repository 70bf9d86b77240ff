import RaisingEffects.Proofs.Parse.Spans
import RaisingEffects.Proofs.Verdict.Occasions

/-!
# Where diagnostics stand

Each occasion has places of its own: no two occasions on the same topic share one, and all of them
are starts of nodes, hence of tokens. The one thing to be shown for this is that a node hands places
on to the values below it, a raise to what is raised and a collection to its elements, and that such
a value gets a place from one node only: this is `Program.marked`.
-/

namespace RaisingEffects

/-! ## Places of a topic -/

/-- The places of the occasions on a topic. -/
def placesOf (t : Topic) (os : List Occasion) : List Pos :=
  (os.filter fun o => o.topic = t).flatMap Occasion.places

section PlacesOf

variable (t : Topic) {os : List Occasion}

theorem placesOf_append (os os' : List Occasion) :
    placesOf t (os ++ os') = placesOf t os ++ placesOf t os' := by
  rw [placesOf, List.filter_append, List.flatMap_append]
  rfl

variable {t}

theorem mem_placesOf {o : Occasion} {pos : Pos} (ho : o ∈ os) (ht : o.topic = t)
    (hpos : pos ∈ o.places) : pos ∈ placesOf t os :=
  List.mem_flatMap.2 ⟨o, List.mem_filter.2 ⟨ho, decide_eq_true ht⟩, hpos⟩

theorem placesOf_eq_nil (h : ∀ o ∈ os, o.topic ≠ t) : placesOf t os = [] := by
  rw [placesOf, List.filter_eq_nil_iff.2 fun o ho => by simpa using h o ho, List.flatMap_nil]

theorem placesOf_eq_flatMap (h : ∀ o ∈ os, o.topic = t) :
    placesOf t os = os.flatMap Occasion.places := by
  rw [placesOf, List.filter_eq_self.2 fun o ho => decide_eq_true (h o ho)]

/-- If the occasions at each node have their places among those that `f` lists, then so do all. -/
theorem count_placesOf_le {f : Node Span → List Pos}
    (h : ∀ n : Node Span, (placesOf t n.occasions).Sublist (f n)) (ns : List (Node Span))
    (pos : Pos) : (placesOf t (occasionsIn ns)).count pos ≤ (ns.flatMap f).count pos := by
  induction ns with
  | nil => exact Nat.le_refl _
  | cons n ns ih =>
    rw [occasionsIn_cons, placesOf_append, List.flatMap_cons, List.count_append, List.count_append]
    exact Nat.add_le_add ((h n).count_le pos) ih

end PlacesOf

/-! ## Places that are handed on -/

/-- The places of a clause, of the value that is raised, and of the elements of a collection. -/
def Node.marks : Node Span → List Pos
  | .clause c => [c.loc.start]
  | .expr (.collection _ _ elements) => Node.starts (elements.map .expr)
  | .stmt (.raise _ value) => Node.starts [.expr value]
  | _ => []

def marksIn (ns : List (Node Span)) : List Pos := ns.flatMap Node.marks

theorem marksIn_cons (n : Node Span) (ns : List (Node Span)) :
    marksIn (n :: ns) = n.marks ++ marksIn ns :=
  List.flatMap_cons

theorem marksIn_append (ns ms : List (Node Span)) :
    marksIn (ns ++ ms) = marksIn ns ++ marksIn ms :=
  List.flatMap_append

theorem Node.starts_cons (n : Node Span) (ns : List (Node Span)) :
    Node.starts (n :: ns) = n.start?.toList ++ Node.starts ns := by
  rw [Node.starts, List.filterMap_cons]
  cases n.start? <;> rfl

/-- The places, together with the marks of the nodes, are starts of different nodes. -/
def Marked (places : List Pos) (ns : List (Node Span)) : Prop :=
  ∀ pos, places.count pos + (marksIn ns).count pos ≤ (Node.starts ns).count pos

namespace Marked

variable {places more : List Pos} {n : Node Span} {ns ms : List (Node Span)}

theorem nil : Marked [] [] := fun _ => Nat.le_refl _

theorem forget (h : Marked places ns) : Marked [] ns := by
  intro pos
  have hpos := h pos
  rw [List.count_nil]
  omega

theorem append (h : Marked places ns) (h' : Marked more ms) :
    Marked (places ++ more) (ns ++ ms) := by
  intro pos
  have hns := h pos
  have hms := h' pos
  rw [marksIn_append, Node.starts_append, List.count_append, List.count_append, List.count_append]
  omega

/-- A node marks places below it, and its own start is free to be marked from above. -/
theorem node (h : Marked n.marks ns) : Marked n.start?.toList (n :: ns) := by
  intro pos
  have hns := h pos
  rw [marksIn_cons, Node.starts_cons, List.count_append, List.count_append]
  omega

theorem cons (h : Marked n.marks ns) : Marked [] (n :: ns) := h.node.forget

theorem flatMap {ι : Type} {is : List ι} {nodes : ι → List (Node Span)}
    (h : ∀ i ∈ is, Marked [] (nodes i)) : Marked [] (is.flatMap nodes) := by
  induction is with
  | nil => exact .nil
  | cons i is ih =>
    obtain ⟨hi, his⟩ := List.forall_mem_cons.1 h
    exact hi.append (ih his)

/-- Nodes that mark at most their own starts. -/
theorem of_own (h : ∀ n ∈ ns, n.marks.Sublist n.start?.toList) : Marked [] ns := by
  intro pos
  induction ns with
  | nil => exact Nat.le_refl _
  | cons n ns ih =>
    obtain ⟨hn, hns⟩ := List.forall_mem_cons.1 h
    have hfirst := hn.count_le pos
    have hrest := ih hns
    rw [marksIn_cons, Node.starts_cons, List.count_append, List.count_append]
    omega

/-- In a signature only the clauses have marks. -/
theorem of_ofSignature (h : ∀ n ∈ ns, n.ofSignature = true) : Marked [] ns := by
  refine .of_own fun n hn => ?_
  cases n with
  | clause c => exact List.Sublist.refl _
  | type t => exact List.nil_sublist _
  | _ => cases h _ hn

theorem types (type : Option (TypeExpr Span)) : Marked [] (type.toList.flatMap TypeExpr.walk) :=
  .of_ofSignature fun _ h => Node.ofSignature_of_mem_types h

theorem clauses (clause : Option (Clause Span)) : Marked [] (clause.toList.map .clause) :=
  .of_ofSignature fun _ h => Node.ofSignature_of_mem_clauses h

theorem params (ps : List (Param Span)) : Marked [] (ps.flatMap Param.nodes) :=
  .flatMap fun p _ => .types p.type

end Marked

/-- The starts of expressions are not marked inside them, so the node above may mark them. -/
def Part.freeStarts : Part Span → List Pos
  | expr e => (Node.start? (.expr e)).toList
  | exprs es => Node.starts (es.map .expr)
  | _ => []

theorem Marked.expr {e : Expr Span} {ns : List (Node Span)} (h : Marked (Node.expr e).marks ns) :
    Marked (Part.expr e).freeStarts (.expr e :: ns) := h.node

theorem Part.marked (t : Part Span) : Marked t.freeStarts t.nodes := by
  induction t using Part.induction with
  | exprsNil | stmtsNil | restNone => exact .nil
  | name | literal => exact .expr .nil
  | call _ _ _ ih | unary _ _ ih => exact .expr ih.forget
  | closure _ ps clause _ ih =>
    exact .expr ((Marked.params ps).append ((Marked.clauses clause).append ih))
  | collection _ _ _ ih => exact .expr ih
  | binary _ _ _ ih ih' => exact .expr (ih.append ih').forget
  | exprsCons _ _ ih ih' =>
    rw [freeStarts, List.map_cons, Node.starts_cons]
    exact ih.append ih'
  | bodyBlock _ ih | restBlock _ ih => exact ih
  | bodyExpr _ ih | stmtExpr _ ih => exact ih.forget
  | block_ _ _ ih => exact .cons ih
  | let_ _ _ _ type _ ih => exact .cons ((Marked.types type).append ih.forget)
  | raise _ value ih =>
    refine .cons (?_ : Marked (Node.starts [.expr value]) value.nodes)
    exact Node.starts_cons .. ▸ (List.append_nil _).symm ▸ ih
  | assign _ _ _ ih | insert _ _ _ _ ih | returnSome _ _ ih => exact .cons ih.forget
  | returnNone => exact .cons .nil
  | try_ _ _ _ _ ih ih' => exact .cons (ih.append ih')
  | for_ _ _ _ ih ih' | while_ _ _ ih ih' => exact .cons (ih.forget.append ih')
  | stmtsCons _ _ ih ih' => exact ih.append ih'
  | if_ _ _ _ ih ih' ih'' => exact .cons (ih.forget.append (ih'.append ih''))
  | elif _ _ _ ih ih' ih'' => exact ih.forget.append (ih'.append ih'')

theorem Member.marked (m : Member Span) : Marked [] m.nodes :=
  .cons ((Marked.params m.params).append ((Marked.clauses m.clause).append (Marked.types m.result)))

theorem Interface.marked (i : Interface Span) : Marked [] i.nodes :=
  .cons (.flatMap fun m _ => m.marked)

theorem FunDecl.marked (g : FunDecl Span) : Marked [] g.nodes := by
  have hsignature : Marked [] g.signatureNodes := (Marked.params g.params).append
    ((Marked.clauses g.clause).append (Marked.types g.result))
  exact .cons (hsignature.append (Part.block g.body).marked)

/-- **The marks of a program are starts of different nodes.** -/
theorem Program.marked (p : Program Span) : Marked [] p.nodes := by
  have hfunctions : Marked [] (p.functions.flatMap FunDecl.nodes) := .flatMap fun g _ => g.marked
  have hinterfaces : Marked [] (p.interfaces.flatMap Interface.nodes) :=
    .flatMap fun i _ => i.marked
  have herrors : Marked [] (p.errors.map .errorDecl) := by
    refine .of_own fun n hn => ?_
    obtain ⟨d, -, rfl⟩ := List.mem_map.1 hn
    exact List.nil_sublist _
  have htypes : Marked [] (p.types.map .typeDecl) := by
    refine .of_own fun n hn => ?_
    obtain ⟨d, -, rfl⟩ := List.mem_map.1 hn
    exact List.nil_sublist _
  exact .cons (((hfunctions.append herrors).append htypes).append hinterfaces)

/-! ## Every topic has places of its own -/

/-- Where the occasions of a node on a topic may be. -/
def Node.placesFor (n : Node Span) : Topic → List Pos
  | .errorType | .element => n.marks
  | .bound | .argument _ | .raises => n.start?.toList
  | .word | .rule => []

theorem placesOf_singleton (t : Topic) (o : Occasion) :
    placesOf t [o] = if o.topic = t then o.places else [] := by
  by_cases ht : o.topic = t
  · simp [placesOf, ht]
  · simp [placesOf, ht]

/-- An argument has one occasion. -/
theorem placesOf_arguments (i k : Nat) (pos : Pos) :
    placesOf (.argument i) ((List.range k).map fun j => ⟨.argument j, [pos]⟩) =
      if i < k then [pos] else [] := by
  induction k with
  | zero => rfl
  | succ k ih =>
    rw [List.range_succ, List.map_append, placesOf_append, ih, List.map_singleton,
      placesOf_singleton]
    by_cases hk : k = i
    · subst hk
      simp
    · have hne : Topic.argument k ≠ .argument i := fun h => hk (Topic.argument.inj h)
      have hiff : i < k + 1 ↔ i < k := by omega
      simp [hne, hiff]

theorem Node.placesOf_one {n : Node Span} {o : Occasion}
    (h : o.places.Sublist (n.placesFor o.topic)) (t : Topic) :
    (placesOf t [o]).Sublist (n.placesFor t) := by
  rw [placesOf_singleton]
  split
  · rename_i ht
    exact ht ▸ h
  · exact List.nil_sublist _

theorem Node.placesOf_occasions (t : Topic) (n : Node Span) :
    (placesOf t n.occasions).Sublist (n.placesFor t) := by
  cases n with
  | clause | function => exact placesOf_one (List.Sublist.refl _) t
  | expr e =>
    cases e with
    | call span callee args =>
      by_cases ht : ∃ i, t = .argument i
      · obtain ⟨i, rfl⟩ := ht
        rw [Node.occasions, placesOf_arguments]
        split
        · exact List.Sublist.refl _
        · exact List.nil_sublist _
      · rw [Node.occasions, placesOf_eq_nil]
        · exact List.nil_sublist _
        · intro o ho htopic
          obtain ⟨i, -, rfl⟩ := List.mem_map.1 ho
          exact ht ⟨i, htopic.symm⟩
    | closure | collection => exact placesOf_one (List.Sublist.refl _) t
    | _ => exact List.nil_sublist _
  | stmt s =>
    cases s with
    | let_ | assign | insert | raise => exact placesOf_one (List.Sublist.refl _) t
    | _ => exact List.nil_sublist _
  | _ => exact List.nil_sublist _

/-- No node is an occasion to report a word or a rule. -/
theorem placesOf_occasionsIn_eq_nil {t : Topic} (h : ∀ n : Node Span, n.placesFor t = [])
    (ns : List (Node Span)) : placesOf t (occasionsIn ns) = [] := by
  induction ns with
  | nil => rfl
  | cons n ns ih =>
    have hn := Node.placesOf_occasions t n
    rw [h n] at hn
    rw [occasionsIn_cons, placesOf_append, ih, List.append_nil]
    exact List.eq_nil_of_sublist_nil hn

theorem Program.count_placesOf_nodes (p : Program Span) (t : Topic) (pos : Pos) :
    (placesOf t (occasionsIn p.nodes)).count pos ≤ (Node.starts p.nodes).count pos := by
  have hplaces := count_placesOf_le (Node.placesOf_occasions t) p.nodes pos
  have hstarts : (p.nodes.flatMap fun n => n.start?.toList) = Node.starts p.nodes :=
    (List.filterMap_eq_flatMap_toList Node.start? p.nodes).symm
  cases t with
  | errorType | element =>
    have hmarked := p.marked pos
    rw [List.count_nil, Nat.zero_add] at hmarked
    exact Nat.le_trans hplaces hmarked
  | bound | argument | raises => exact Nat.le_trans hplaces (Nat.le_of_eq (congrArg _ hstarts))
  | word | rule =>
    rw [placesOf_occasionsIn_eq_nil fun _ => rfl]
    exact Nat.zero_le _

theorem FunDecl.count_placesOf_rules (gs : List (FunDecl Span)) (t : Topic) (pos : Pos) :
    (placesOf t (gs.map FunDecl.ruleOccasion)).count pos ≤
      (Node.starts (gs.flatMap FunDecl.nodes)).count pos := by
  induction gs with
  | nil => exact Nat.le_refl _
  | cons g gs ih =>
    have hg : (placesOf t [g.ruleOccasion]).count pos ≤ (Node.starts g.nodes).count pos := by
      rw [placesOf_singleton]
      split
      · simp only [FunDecl.ruleOccasion, FunDecl.nodes, Node.starts_append,
          Node.starts_cons_of_loc (show (Node.function g).loc? = some g.loc from rfl),
          List.count_cons, List.count_append]
        omega
      · exact Nat.zero_le _
    rw [List.map_cons, ← List.singleton_append, placesOf_append, List.flatMap_cons,
      Node.starts_append, List.count_append, List.count_append]
    omega

/-- The places of a topic are starts of different tokens. -/
theorem Reading.Laid.count_placesOf {r : Reading} {tokens : List Token} (h : r.Laid tokens)
    (t : Topic) (pos : Pos) :
    (placesOf t (r.program.occasions r.skipped)).count pos ≤ (tokens.map Token.pos).count pos := by
  have hstarts : (Node.starts r.program.nodes).count pos ≤ (tokens.map Token.pos).count pos :=
    h.starts.count_le pos
  have hskipped : (r.skipped.map Ambiguity.pos).count pos ≤ (tokens.map Token.pos).count pos :=
    h.skipped.count_le pos
  have hwords (ht : t ≠ .word) : placesOf t (r.skipped.map fun a => ⟨.word, [a.pos]⟩) = [] := by
    refine placesOf_eq_nil fun o ho htopic => ?_
    obtain ⟨a, -, rfl⟩ := List.mem_map.1 ho
    exact ht htopic.symm
  have hrules (ht : t ≠ .rule) :
      placesOf t (r.program.functions.map FunDecl.ruleOccasion) = [] := by
    refine placesOf_eq_nil fun o ho htopic => ?_
    obtain ⟨g, -, rfl⟩ := List.mem_map.1 ho
    exact ht htopic.symm
  have hnodes := r.program.count_placesOf_nodes t pos
  rw [Program.occasions, placesOf_append, placesOf_append]
  by_cases hword : t = .word
  · subst hword
    have hall : placesOf .word (r.skipped.map fun a => ⟨.word, [a.pos]⟩) =
        r.skipped.map Ambiguity.pos := by
      rw [placesOf_eq_flatMap (by simp), List.flatMap_map]
      exact List.flatMap_pure_eq_map _ _
    rw [hall, hrules (by decide), placesOf_occasionsIn_eq_nil fun _ => rfl, List.append_nil,
      List.append_nil]
    exact hskipped
  · rw [hwords hword, List.nil_append]
    by_cases hrule : t = .rule
    · subst hrule
      rw [placesOf_occasionsIn_eq_nil fun _ => rfl, List.append_nil]
      refine Nat.le_trans ?_ hstarts
      refine Nat.le_trans (FunDecl.count_placesOf_rules r.program.functions _ pos) ?_
      simp only [Program.nodes, Node.starts_cons, Node.starts_append, List.count_append]
      omega
    · rw [hrules hrule, List.nil_append]
      exact Nat.le_trans hnodes hstarts

/-! ## Places of diagnostics -/

theorem Reports.exists_mem {os : List Occasion} {sites : List Site} (h : Reports os sites)
    {site : Site} (hsite : site ∈ sites) : ∃ o ∈ os, site ∈ o.sites := by
  have hcount : 0 < sites.countP (· = site) :=
    List.countP_pos_iff.2 ⟨site, hsite, decide_eq_true rfl⟩
  obtain ⟨o, ho, hany⟩ := List.countP_pos_iff.1 (Nat.lt_of_lt_of_le hcount (h _))
  obtain ⟨site', hsite', heq⟩ := List.any_eq_true.1 hany
  exact ⟨o, ho, of_decide_eq_true heq ▸ hsite'⟩

/-- What stands in an occasion of a program that was read starts at a token. -/
theorem Reading.Laid.exists_token {r : Reading} {tokens : List Token} (h : r.Laid tokens)
    {o : Occasion} (ho : o ∈ r.program.occasions r.skipped) {site : Site} (hsite : site ∈ o.sites) :
    ∃ t ∈ tokens, site.pos = some t.pos := by
  obtain ⟨pos, hpos, rfl⟩ := List.mem_map.1 hsite
  have hplace : 0 < (placesOf o.topic (r.program.occasions r.skipped)).count pos :=
    List.count_pos_iff.2 (mem_placesOf ho rfl hpos)
  have hmem : pos ∈ tokens.map Token.pos :=
    List.count_pos_iff.1 (Nat.lt_of_lt_of_le hplace (h.count_placesOf o.topic pos))
  obtain ⟨t, ht, rfl⟩ := List.mem_map.1 hmem
  exact ⟨t, ht, rfl⟩

/-- A text that cannot be cut into tokens is refused at one of its characters. -/
theorem Token.Stuck.exists_char {before text : List Char} {e : LexError}
    (h : Token.Stuck before text e) : ∃ passed c rest, text = passed ++ c :: rest ∧
      e = ⟨LexFault.at_ c, Pos.behind (before ++ passed)⟩ := by
  induction h with
  | @here before gap rest c => exact ⟨gap, c, rest, rfl, rfl⟩
  | @token before gap chars rest value kind e hgap hchars h ih =>
    obtain ⟨passed, c, rest', rfl, rfl⟩ := ih
    exact ⟨gap ++ chars ++ passed, c, rest', by simp, by simp⟩

/-- **Every diagnostic points into the source.** If a text is read, then every diagnostic of a check
stands where a token of it starts. If a text is refused at a position, then either a token starts
there, which may be the end mark, or the text cannot be cut into tokens, and the position is that of
the character that starts none: of a quote, if a quoted text is not closed. -/
theorem Program.parse_points (source : String) :
    (∀ r, Program.parse source = .ok r →
      ∃ tokens stop, Token.readAll source = .ok (tokens ++ [Token.eofAt stop]) ∧
        ∀ settings isError, ∃ v, r.program.check settings isError r.skipped = .ok v ∧
          ∀ d ∈ v.diagnostics, ∃ t ∈ tokens, d.pos = some t.pos) ∧
    ∀ why pos, Program.parse source = .error (.fault why pos) →
      (∃ tokens, Token.readAll source = .ok tokens ∧ ∃ t ∈ tokens, pos = t.pos) ∨
      ∃ before c rest, source.toList = before ++ c :: rest ∧ pos = Pos.behind before ∧
        why = .lexical (LexFault.at_ c) ∧
        Token.Stuck [] source.toList ⟨LexFault.at_ c, pos⟩ := by
  refine ⟨fun r hr => ?_, fun why pos herror => ?_⟩
  · obtain ⟨tokens, stop, htokens, hlaid⟩ := Program.exists_laid hr
    refine ⟨tokens, stop, htokens, fun settings isError => ?_⟩
    obtain ⟨v, hv, hreports⟩ :=
      Program.check_reports (Program.parse_wellNamed hr) settings isError r.skipped
    refine ⟨v, hv, fun d hd => ?_⟩
    obtain ⟨o, ho, hsite⟩ := hreports.exists_mem (List.mem_map_of_mem hd)
    exact hlaid.exists_token ho hsite
  · rw [Program.parse] at herror
    split at herror
    · rename_i tokens htokens
      have hmem := Program.pos_of_ofTokens_error (Token.readAll_ended htokens).ne_nil herror
      obtain ⟨t, ht, rfl⟩ := List.mem_map.1 hmem
      exact .inl ⟨tokens, htokens, t, ht, rfl⟩
    · rename_i e he
      cases herror
      have hstuck := Token.readAll_stuck he
      obtain ⟨before, c, rest, htext, rfl⟩ := hstuck.exists_char
      exact .inr ⟨before, c, rest, htext, rfl, rfl, hstuck⟩

/-- A source with something to report on every topic: a word that is skipped, types that are no
errors, an element, an inserted value and arguments that do not fit, a rule that lets too much
escape, and a body that raises too much. -/
def faultySource : String :=
  "error E; type T;
fn f(g: fn() raises(T), k: list<fn() raises(E)>) raises fast \x7b raise T(); \x7d
fn h(g: fn() raises(E), k: list<fn() raises(E)>) forwards(g) raises(F) \x7b
  let m: fn() = g;
  let z = [|| 1, |x| raises(T) \x7b g(); \x7d, g];
  k.append(f); m = f; each(g, m);
  try \x7b g(); \x7d catch \x7b \x7d
  g(); \x7d
fn each(p: fn(), q: fn()) \x7b p(); raise E(); \x7d
error F;"

def faultyReports : List (String × Option Pos) :=
  [("AmbiguousModifier", some ⟨2, 57⟩), ("NotAnError", some ⟨2, 14⟩),
    ("UnhandledRaisePath", some ⟨8, 3⟩), ("NotAnError", some ⟨2, 70⟩),
    ("EffectMismatch", some ⟨4, 3⟩), ("NotAnError", some ⟨5, 22⟩),
    ("EffectMismatch", some ⟨5, 18⟩), ("EffectMismatch", some ⟨6, 3⟩),
    ("EffectMismatch", some ⟨6, 23⟩), ("EffectMismatch", some ⟨6, 23⟩),
    ("UndeclaredRaise", some ⟨9, 1⟩)]

set_option maxRecDepth 8192 in
theorem exists_verdict_faultySource :
    ∃ r v, Program.parse faultySource = .ok r ∧
      r.program.check { policy := .precise } r.program.declaresError r.skipped = .ok v ∧
      (v.diagnostics.map fun d => (d.cause.kind, d.pos)) = faultyReports :=
  Program.exists_verdict faultySource _ _ rfl (by decide +kernel)

theorem Program.parse_points_faulty :
    (∃ r tokens stop v, Program.parse faultySource = .ok r ∧
      Token.readAll faultySource = .ok (tokens ++ [Token.eofAt stop]) ∧
      r.program.check { policy := .precise } r.program.declaresError r.skipped = .ok v ∧
      (v.diagnostics.map fun d => (d.cause.kind, d.pos)) = faultyReports ∧
      ∀ d ∈ v.diagnostics, ∃ t ∈ tokens, d.pos = some t.pos) ∧
    Program.parse "fn f()\n  \"x" = .error (.fault (.lexical .unterminated) ⟨2, 3⟩) ∧
    ∃ before c rest, "fn f()\n  \"x".toList = before ++ c :: rest ∧
      ⟨2, 3⟩ = Pos.behind before ∧ ParseFault.lexical .unterminated = .lexical (LexFault.at_ c) ∧
      Token.Stuck [] "fn f()\n  \"x".toList ⟨LexFault.at_ c, ⟨2, 3⟩⟩ := by
  refine ⟨?_, ?_⟩
  · obtain ⟨r, v, hr, hv, hview⟩ := exists_verdict_faultySource
    obtain ⟨tokens, stop, htokens, hpoints⟩ := (Program.parse_points faultySource).1 r hr
    obtain ⟨v', hv', hall⟩ := hpoints { policy := .precise } r.program.declaresError
    cases hv.symm.trans hv'
    exact ⟨r, tokens, stop, v, hr, htokens, hv, hview, hall⟩
  · have hread : Token.readAll "fn f()\n  \"x" = .error ⟨.unterminated, ⟨2, 3⟩⟩ := by
      decide +kernel
    have hparse : Program.parse "fn f()\n  \"x" =
        .error (.fault (.lexical .unterminated) ⟨2, 3⟩) := by
      rw [Program.parse, hread]
      rfl
    refine ⟨hparse, ?_⟩
    rcases (Program.parse_points "fn f()\n  \"x").2 _ _ hparse with ⟨tokens, htokens, -⟩ | hchar
    · cases hread.symm.trans htokens
    · exact hchar

end RaisingEffects
