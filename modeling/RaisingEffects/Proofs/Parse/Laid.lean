import Mathlib.Data.List.Basic
import Mathlib.Data.List.Infix
import RaisingEffects.Proofs.Parse.Clauses
import RaisingEffects.Proofs.Tree.Nodes

/-!
# Where the nodes of a tree stand

A reader takes tokens from the front and gives nodes their places. This module says how the nodes
lie in the tokens they are read from.

* `Node.Nests ts n`: a node with a place of its own spans a stretch of `ts`, and the nodes below it
  nest behind the first token of that stretch. The body of a function lies behind its stretch.
* `Laid ts tops ns`: the nodes `tops` nest in `ts`, the nodes `ns` start at different tokens of
  `ts`, in the same order, and their names are among those in `ts`.
* `Parse.Reached s used s'`: between two states of a reader the tokens `used` were taken.
-/

namespace RaisingEffects

variable {ts : List Token}

/-! ## Nesting -/

/-- The span from the start of a token to the end of the last one of those behind it. -/
def Token.extent (t : Token) (behind : List Token) : Span :=
  ⟨t.pos, (behind.getLastD t).span.stop⟩

/-- The nodes directly below a function that belong to its signature. -/
def FunDecl.signatureParts (g : FunDecl Span) : List (Node Span) :=
  g.params.flatMap Param.parts ++ (g.clause.toList.map .clause ++ g.result.toList.map .type)

/-- The node lies in the tokens. Its place, if it has one, is a stretch of them, and the nodes
below it lie in the rest of that stretch. -/
inductive Node.Nests : List Token → Node Span → Prop
  | spanned {ts behind : List Token} {t : Token} {n : Node Span} (hts : (t :: behind) <:+: ts)
      (hn : n.isFunction = false) (hloc : n.loc? = some (t.extent behind))
      (h : ∀ m ∈ n.parts, Nests behind m) : Nests ts n
  | plain {ts : List Token} {n : Node Span} (hloc : n.loc? = none)
      (h : ∀ m ∈ n.parts, Nests ts m) : Nests ts n
  /-- The place of a function is that of its signature. -/
  | function {ts signature body : List Token} {t : Token} {g : FunDecl Span}
      (hts : (t :: (signature ++ body)) <:+: ts) (hloc : g.loc = t.extent signature)
      (h : ∀ m ∈ g.signatureParts, Nests signature m) (hbody : Nests body (.block g.body)) :
    Nests ts (.function g)

theorem Node.Nests.mono {ts us : List Token} {n : Node Span} (h : n.Nests ts) (hts : ts <:+: us) :
    n.Nests us := by
  induction h generalizing us with
  | spanned hseg hn hloc h _ => exact .spanned (hseg.trans hts) hn hloc h
  | plain hloc _ ih => exact .plain hloc fun m hm => ih m hm hts
  | function hseg hloc h hbody _ _ => exact .function (hseg.trans hts) hloc h hbody

theorem Node.Nests.ne_nil {n : Node Span} {loc : Span} (h : n.Nests ts) (hloc : n.loc? = some loc) :
    ts ≠ [] := by
  rintro rfl
  cases h with
  | spanned hts => simp at hts
  | plain hnone => simp [hnone] at hloc
  | function hts => simp at hts

theorem Clause.namesIn_subset {ts us : List Token} (h : ts ⊆ us) : namesIn ts ⊆ namesIn us :=
  List.map_subset _ (List.filter_subset _ h)

theorem Clause.append_subset_namesIn {ts us : List Token} {names names' : List String}
    (h : names ⊆ namesIn ts) (h' : names' ⊆ namesIn us) : names ++ names' ⊆ namesIn (ts ++ us) :=
  List.append_subset.2 ⟨List.Subset.trans h (namesIn_subset (List.subset_append_left ..)),
    List.Subset.trans h' (namesIn_subset (List.subset_append_right ..))⟩

theorem Clause.singleton_subset_namesIn {t : Token} (ht : t ∈ ts) (hkind : t.kind = .ident) :
    [t.value] ⊆ namesIn ts := by
  simp only [List.cons_subset, List.nil_subset, and_true]
  exact List.mem_map_of_mem (List.mem_filter.2 ⟨ht, by simpa using hkind⟩)

/-- The nodes `tops` lie in the tokens. The nodes `ns` start at different ones, in order, and have
their names from them. -/
structure Laid (ts : List Token) (tops ns : List (Node Span)) : Prop where
  nests : ∀ n ∈ tops, n.Nests ts
  starts : (Node.starts ns).Sublist (ts.map Token.pos)
  names : ns.flatMap Node.names ⊆ Clause.namesIn ts

namespace Laid

variable {ts us : List Token} {tops tops' ns ns' : List (Node Span)} {n : Node Span} {t : Token}

theorem nil (ts : List Token) : Laid ts [] [] := ⟨by simp, by simp [Node.starts], by simp⟩

variable (h : Laid ts tops ns)

include h

theorem mono (hts : ts <:+: us) : Laid us tops ns :=
  ⟨fun n hn => (h.nests n hn).mono hts, h.starts.trans (hts.sublist.map _),
    List.Subset.trans h.names (Clause.namesIn_subset hts.subset)⟩

theorem append (h' : Laid us tops' ns') : Laid (ts ++ us) (tops ++ tops') (ns ++ ns') where
  nests := by
    intro n hn
    rcases List.mem_append.1 hn with hn | hn
    · exact (h.nests n hn).mono (List.prefix_append ts us).isInfix
    · exact (h'.nests n hn).mono (List.suffix_append ts us).isInfix
  starts := by
    rw [Node.starts_append, List.map_append]
    exact h.starts.append h'.starts
  names := by
    rw [List.flatMap_append]
    exact Clause.append_subset_namesIn h.names h'.names

/-- Tokens before and behind. -/
theorem widen (us vs : List Token) : Laid (us ++ (ts ++ vs)) tops ns :=
  h.mono ⟨us, vs, by rw [List.append_assoc]⟩

theorem behind (us : List Token) : Laid (us ++ ts) tops ns :=
  h.mono (List.suffix_append us ts).isInfix

theorem before (us : List Token) : Laid (ts ++ us) tops ns :=
  h.mono (List.prefix_append ts us).isInfix

/-- A node whose place starts at the token in front of its parts. -/
theorem node (hn : n.isFunction = false) (hloc : n.loc? = some (t.extent ts))
    (hparts : n.parts ⊆ tops) (hnames : n.names ⊆ Clause.namesIn (t :: ts)) :
    Laid (t :: ts) [n] (n :: ns) where
  nests := by
    simp only [List.mem_singleton, forall_eq]
    exact .spanned List.infix_rfl hn hloc fun m hm => h.nests m (hparts hm)
  starts := by
    rw [Node.starts_cons_of_loc hloc, List.map_cons]
    exact h.starts.cons_cons _
  names := List.append_subset.2
    ⟨hnames, List.Subset.trans h.names (Clause.namesIn_subset (List.subset_cons_self ..))⟩

/-- The same for all the tokens that a reader took, which ends the place at the last of them. -/
theorem construct {used : List Token} {d : Token} (hused : used = t :: ts)
    (hn : n.isFunction = false) (hloc : n.loc? = some ⟨t.pos, (used.getLastD d).span.stop⟩)
    (hparts : n.parts ⊆ tops) (hnames : n.names ⊆ Clause.namesIn used) :
    Laid used [n] (n :: ns) := by
  subst hused
  rw [List.getLastD_cons] at hloc
  exact h.node hn hloc hparts hnames

/-- A node without a place of its own. -/
theorem plain (hloc : n.loc? = none) (hparts : n.parts ⊆ tops) (hnames : n.names = []) :
    Laid ts [n] (n :: ns) where
  nests := by
    simp only [List.mem_singleton, forall_eq]
    exact .plain hloc fun m hm => h.nests m (hparts hm)
  starts := by
    rw [Node.starts_cons_of_none hloc]
    exact h.starts
  names := by
    rw [List.flatMap_cons, hnames]
    exact h.names

omit h

/-- A function: its signature, and its body behind. -/
theorem function {used : List Token} {d : Token} {g : FunDecl Span}
    (h : Laid ts g.signatureParts g.signatureNodes) (hbody : Laid us [.block g.body] g.body.nodes)
    (hused : used = t :: (ts ++ us))
    (hloc : g.loc = ⟨t.pos, ((t :: ts).getLastD d).span.stop⟩)
    (hnames : g.name :: g.forwards ⊆ Clause.namesIn used) :
    Laid used [.function g] g.nodes := by
  subst hused
  rw [List.getLastD_cons] at hloc
  have hboth := h.append hbody
  refine ⟨?_, ?_, List.append_subset.2
    ⟨hnames, List.Subset.trans hboth.names (Clause.namesIn_subset (List.subset_cons_self ..))⟩⟩
  · simp only [List.mem_singleton, forall_eq]
    exact .function List.infix_rfl hloc h.nests (hbody.nests _ (List.mem_singleton_self _))
  · have hstart : (Node.function g).loc? = some (t.extent ts) := congrArg some hloc
    rw [FunDecl.nodes, Node.starts_cons_of_loc hstart, List.map_cons]
    exact hboth.starts.cons_cons _

/-- A name lies at its own token. -/
theorem named {e : Expr Span} {id : String} (h : Laid ts [.expr e] e.nodes)
    (hid : e.name? = some id) : ∃ t behind, ts = t :: behind ∧ [id] ⊆ Clause.namesIn ts := by
  cases e with
  | name loc name =>
    obtain rfl := Option.some.inj hid
    -- it has a place, so there is a token
    obtain ⟨t, behind, rfl⟩ := List.exists_cons_of_ne_nil
      ((h.nests _ (List.mem_singleton_self _)).ne_nil rfl)
    exact ⟨t, behind, rfl, h.names⟩
  | _ => cases hid

end Laid

/-- A clause lies in the tokens that were read, and so does the word that is skipped behind it. -/
theorem ClauseReading.read_laid {mayDeclare : Bool} {r : ClauseReading}
    (h : read mayDeclare ts = .ok r) :
    Laid r.used (r.clause.toList.map .clause) (r.clause.toList.map .clause) ∧
      (r.skipped.toList.map Ambiguity.pos).Sublist (r.used.map Token.pos) ∧
      r.skipped.toList.map Ambiguity.word ⊆ Clause.namesIn r.used := by
  have hclause (t : Token) (us : List Token) {types : List String}
      (htypes : types ⊆ Clause.namesIn (t :: us)) :
      Laid (t :: us) [.clause ⟨t.extent us, types⟩] [.clause ⟨t.extent us, types⟩] :=
    (Laid.nil us).node rfl rfl (List.nil_subset _) htypes
  cases ts with
  | nil => cases h
  | cons t ts =>
    rw [read] at h
    split at h
    · cases ts with
      | nil => cases h
      | cons u us =>
        rw [afterRaises] at h
        dsimp only at h
        split at h
        · obtain ⟨⟨ns, used, rest⟩, hnames, heq⟩ := except_bind_eq_ok h
          cases heq
          refine ⟨?_, List.nil_sublist _, List.nil_subset _⟩
          rw [← List.getLastD_cons]
          refine hclause t (u :: used) ?_
          rw [← (names_eq_ok_iff.1 hnames).2.2.2]
          exact Clause.namesIn_subset (List.subset_append_right [t, u] used)
        · split at h
          · rename_i hu
            rw [Bool.and_eq_true, decide_eq_true_eq] at hu
            cases h
            refine ⟨(hclause t [] (List.nil_subset _)).before [u], by simp, ?_⟩
            exact Clause.singleton_subset_namesIn (by simp) hu.1
          · cases h
            exact ⟨hclause t [] (List.nil_subset _), List.nil_sublist _, List.nil_subset _⟩
    · cases h
      exact ⟨.nil _, List.nil_sublist _, List.nil_subset _⟩

/-! ## Tokens taken since a state -/

/-- Where the token read last and the tokens to come start. -/
def ParseState.places (s : ParseState) : List Pos := (s.last :: s.rest).map Token.pos

namespace Parse

/-- The tokens `used` were taken between the two states, and the words that were skipped there are
among them, in order. -/
structure Reached (s : ParseState) (used : List Token) (s' : ParseState) : Prop where
  rest : s.rest = used ++ s'.rest
  last : s'.last = used.getLastD s.last
  skipped : ∃ words : List Ambiguity, s'.skipped = s.skipped ++ words ∧
    (words.map Ambiguity.pos).Sublist (used.map Token.pos) ∧
    words.map Ambiguity.word ⊆ Clause.namesIn used

namespace Reached

variable {s s' s'' : ParseState} {used more : List Token}

theorem refl (s : ParseState) : Reached s [] s :=
  ⟨rfl, rfl, [], (List.append_nil _).symm, .slnil, by simp⟩

theorem trans (h : Reached s used s') (h' : Reached s' more s'') :
    Reached s (used ++ more) s'' where
  rest := by rw [h.rest, h'.rest, List.append_assoc]
  last := by
    rw [h'.last, h.last]
    cases more with
    | nil => simp
    | cons t ts => simp [List.getLastD_eq_getLast?]
  skipped := by
    obtain ⟨words, hwords, hsub, hnames⟩ := h.skipped
    obtain ⟨words', hwords', hsub', hnames'⟩ := h'.skipped
    refine ⟨words ++ words', by rw [hwords', hwords, List.append_assoc], ?_⟩
    rw [List.map_append, List.map_append, List.map_append]
    exact ⟨hsub.append hsub', Clause.append_subset_namesIn hnames hnames'⟩

/-- The scopes play no part. -/
theorem rescope (h : Reached s used s') (scopes : List (List String)) :
    Reached s used { s' with scopes } :=
  ⟨h.rest, h.last, h.skipped⟩

/-- A token is taken. -/
theorem token {t : Token} (h : s.rest = t :: ts) : Reached s [t] { s with last := t, rest := ts } :=
  ⟨h, rfl, [], (List.append_nil _).symm, List.nil_sublist _, by simp⟩

/-- A token is taken and noted as a word that is skipped. -/
theorem word {t : Token} (h : s.rest = t :: ts) (ht : t.kind = .ident) :
    Reached s [t] { s with last := t, rest := ts, skipped := s.skipped ++ [⟨t.value, t.pos⟩] } :=
  ⟨h, rfl, [⟨t.value, t.pos⟩], rfl, .refl _, by simp [Clause.namesIn, ht]⟩

theorem isPrefix (h : Reached s used s') : used <+: s.rest := ⟨s'.rest, h.rest.symm⟩

/-- What can be seen now could be seen before. -/
theorem places_subset (h : Reached s used s') : s'.places ⊆ s.places := by
  have hlast : s'.last ∈ s.last :: used := by
    rw [h.last]
    exact List.getLastD_mem_cons
  refine List.map_subset _ fun t ht => ?_
  rw [h.rest]
  rcases List.mem_cons.1 ht with rfl | ht
  · exact List.cons_subset_cons _ (List.subset_append_left _ _) hlast
  · exact List.mem_cons_of_mem _ (List.mem_append_right _ ht)

end Reached

theorem mem_places {s : ParseState} {used : List Token} (h : used <+: s.rest) {t : Token}
    (ht : t ∈ used) : t.pos ∈ s.places :=
  List.mem_map_of_mem (List.mem_cons_of_mem _ (h.subset ht))

theorem headD_mem_places (s : ParseState) : (s.rest.headD s.last).pos ∈ s.places := by
  refine List.mem_map_of_mem ?_
  cases s.rest <;> simp

/-- The first token that is taken is the one that was to come. -/
theorem headD_of_isPrefix {s : ParseState} {t : Token} {used : List Token}
    (h : (t :: used) <+: s.rest) : s.rest.headD s.last = t := by
  obtain ⟨more, hmore⟩ := h
  rw [← hmore]
  rfl

end Parse

end RaisingEffects
