import Mathlib.Data.List.Perm.Subperm
import RaisingEffects.Proofs.Parse.Scoping
import RaisingEffects.Proofs.Token.Spelling

/-!
# Programs that are read are well formed

The names that the tokens of a declaration introduce are those that it declares, so reading a
program to its end finds every name that the first look found (`Parse.declarations_takes`). There
is only one end mark, so nothing is left behind it. Hence a program that is read is well formed
by itself: `Program.parse_wellFormed`.
-/

namespace RaisingEffects

variable {source : String}

/-! ## What declarations add -/

/-- The second program has the declarations of the first, and others that lie in the tokens. They
are kept by kind, so the order in which they start is not that of the tokens. That of the functions
is. -/
structure Program.Adds (ts : List Token) (p p' : Program Span) : Prop where
  nests : ∀ n ∈ (Node.program p').parts, n ∈ (Node.program p).parts ∨ n.Nests ts
  starts : (Node.starts p'.nodes).Subperm (Node.starts p.nodes ++ ts.map Token.pos)
  functions : (Node.starts (p'.functions.flatMap FunDecl.nodes)).Sublist
    (Node.starts (p.functions.flatMap FunDecl.nodes) ++ ts.map Token.pos)
  names : p'.nodes.flatMap Node.names ⊆ p.nodes.flatMap Node.names ++ Clause.namesIn ts

namespace Program.Adds

variable {ts us : List Token} {p p' p'' : Program Span}

theorem refl (p : Program Span) : Adds [] p p :=
  ⟨fun _ hn => .inl hn, by simpa using List.Subperm.refl _, by simp, by simp⟩

theorem trans (h : Adds ts p p') (h' : Adds us p' p'') : Adds (ts ++ us) p p'' where
  nests := by
    intro n hn
    rcases h'.nests n hn with hn | hn
    · rcases h.nests n hn with hn | hn
      · exact .inl hn
      · exact .inr (hn.mono (List.prefix_append ts us).isInfix)
    · exact .inr (hn.mono (List.suffix_append ts us).isInfix)
  starts := by
    rw [List.map_append, ← List.append_assoc]
    exact h'.starts.trans (h.starts.append (.refl _))
  functions := by
    rw [List.map_append, ← List.append_assoc]
    exact h'.functions.trans (h.functions.append (.refl _))
  names := by
    intro x hx
    rcases List.mem_append.1 (h'.names hx) with hx | hx
    · refine List.append_subset.2 ⟨List.subset_append_left .., ?_⟩ (h.names hx)
      exact List.Subset.trans (Clause.namesIn_subset (List.subset_append_left ..))
        (List.subset_append_right ..)
    · exact List.mem_append_right _ (Clause.namesIn_subset (List.subset_append_right ..) hx)

/-- Where the declarations of a program start, kind by kind. -/
theorem starts_nodes (p : Program Span) : Node.starts p.nodes =
    Node.starts (p.functions.flatMap FunDecl.nodes) ++ Node.starts (p.errors.map .errorDecl) ++
      Node.starts (p.types.map .typeDecl) ++
      Node.starts (p.interfaces.flatMap Interface.nodes) := by
  rw [Program.nodes, Node.starts_cons_of_none rfl, Node.starts_append, Node.starts_append,
    Node.starts_append]

/-- Declarations that lie in the tokens are added, each behind those of its kind. -/
theorem declarations (q : Program Span) {tops ns : List (Node Span)} (h : Laid ts tops ns)
    (htops : (Node.program q).parts = tops) (hns : q.nodes.tail = ns)
    (hp' : p' = ⟨p.functions ++ q.functions, p.errors ++ q.errors, p.types ++ q.types,
      p.interfaces ++ q.interfaces⟩) : Adds ts p p' := by
  subst htops hns hp'
  refine ⟨fun m hm => ?_, ?_, ?_, fun x hx => ?_⟩
  · have hparts : m ∈ (Node.program p).parts ∨ m ∈ (Node.program q).parts := by
      simp only [Node.parts, Node.children, List.mem_append, List.map_append] at hm ⊢
      tauto
    exact hparts.imp_right (h.nests m)
  · have hq : Node.starts q.nodes = Node.starts q.nodes.tail := Node.starts_cons_of_none rfl _
    refine .trans (List.Perm.subperm ?_) ((List.Subperm.refl _).append h.starts.subperm)
    refine List.perm_iff_count.2 fun pos => ?_
    simp only [← hq, starts_nodes, List.flatMap_append, List.map_append, Node.starts_append,
      List.count_append]
    omega
  · rw [List.flatMap_append, Node.starts_append]
    have hsub : (q.functions.flatMap FunDecl.nodes).Sublist q.nodes.tail := by
      simp [Program.nodes]
    exact (List.Sublist.refl _).append ((hsub.filterMap _).trans h.starts)
  · have hnames := @h.names x
    simp only [Program.nodes, List.tail_cons, List.flatMap_cons, List.flatMap_append,
      List.map_append, List.mem_append, Node.names, List.not_mem_nil] at hnames hx ⊢
    tauto

theorem function {g : FunDecl Span} (h : Laid ts [.function g] g.nodes) :
    Adds ts p { p with functions := p.functions ++ [g] } :=
  declarations { functions := [g] } h rfl (by simp [Program.nodes]) (by simp)

theorem error {d : NameDecl Span} (h : Laid ts [.errorDecl d] [.errorDecl d]) :
    Adds ts p { p with errors := p.errors ++ [d] } :=
  declarations { errors := [d] } h rfl rfl (by simp)

theorem type {d : NameDecl Span} (h : Laid ts [.typeDecl d] [.typeDecl d]) :
    Adds ts p { p with types := p.types ++ [d] } :=
  declarations { types := [d] } h rfl rfl (by simp)

theorem interface {i : Interface Span} (h : Laid ts [.interface i] i.nodes) :
    Adds ts p { p with interfaces := p.interfaces ++ [i] } :=
  declarations { interfaces := [i] } h rfl (by simp [Program.nodes]) (by simp)

end Program.Adds

namespace Parse

open TokenKind Sign Keyword

variable {n m : Nat} {r : Level} {scopes : List (List String)} {s : ParseState} {used : List Token}

/-! ## Functions -/

theorem forwardName_gives (known : List String) : Gives n 1 scopes (forwardName known)
    fun more name => name ∈ known ∧ [name] ⊆ Clause.namesIn more := by
  refine fun s => .expect rfl fun t hkind hpre => ?_
  split
  · rename_i hknown
    exact .give ⟨hknown, Clause.singleton_subset_namesIn (by simp) hkind⟩
  · exact .fault (mem_places hpre (by simp))

theorem Strung.subset_namesIn {P : List Token → String → Prop} {ts : List Token}
    {names : List String} (h : Strung P ts names)
    (hP : ∀ us name, P us name → [name] ⊆ Clause.namesIn us) : names ⊆ Clause.namesIn ts := by
  induction h with
  | nil => exact List.nil_subset _
  | cons before ha _ ih =>
    exact List.Subset.trans (Clause.append_subset_namesIn (hP _ _ ha) ih)
      (Clause.namesIn_subset (by simp))

/-- The forwarded names are parameters, and the tokens hold them. -/
theorem forwards_gives (known : List String) : Gives n 0 scopes (forwards known)
    fun more names => (∀ name ∈ names, name ∈ known) ∧ names ⊆ Clause.namesIn more := by
  refine fun s => .peek (.peekSecond fun u => ?_)
  split
  · rename_i hword
    simp only [Bool.and_eq_true, decide_eq_true_eq] at hword
    refine .skip (by rw [hword.1.1]; rfl) fun _ _ _ => .expect rfl fun _ _ _ => ?_
    refine (commaList_gives (forwardName_gives known)).behind.behind.bind fun names us h _ => ?_
    refine .expect rfl fun _ _ _ => .give ⟨h.forall_mem fun _ _ h => h.1, ?_⟩
    exact List.Subset.trans (h.subset_namesIn fun _ _ h => h.2)
      (Clause.namesIn_subset fun u hu => by simp [hu])
  · exact .give ⟨by simp, List.nil_subset _⟩

theorem checkTarget_gives {name : Token} {forwarded : List String} {c : Option (Clause Span)}
    (hname : name.pos ∈ s.places) :
    GivesFrom n 0 scopes s used (checkTarget name forwarded c) fun total _ =>
      total = used ∧ (forwarded ≠ [] → ∀ d ∈ c, d.isTarget) := by
  unfold checkTarget
  split
  · split
    · split
      · exact .fault hname
      · rename_i hnever
        refine .give ⟨rfl, fun _ d hd => ?_⟩
        cases hd
        simpa [Clause.isTarget] using hnever
    · exact .fault hname
  · rename_i hother
    refine .give ⟨rfl, fun hforwarded d hd => ?_⟩
    cases hd
    cases forwarded with
    | nil => exact absurd rfl hforwarded
    | cons name names => exact absurd rfl (hother name names d.loc d.types rfl)

/-- A name stands behind a word that declares it. -/
theorem Takes.naming {α : Type} {k : Nat} {kind : TokenKind} {f : Token → Token → Parse α}
    {R : α → List Token → List String → ParseState → Prop} (hkind : kind.declares = true)
    (heof : kind ≠ eof)
    (h : ∀ t name, name.kind = ident → (used ++ [t, name]) <+: s.rest →
      Takes (n - 1) (k - 1) s (used ++ [t, name]) scopes (f t name) fun a total names s' =>
        R a total (name.value :: names) s') :
    Takes n k s used scopes (do let t ← Parse.expect kind; let name ← expectName; f t name) R := by
  intro s₁ hs₁ hscopes
  refine .expect heof hs₁.places_subset fun t ts hrest ht => ?_
  have hreach := hs₁.trans (.token hrest)
  refine .expect (by decide) hreach.places_subset fun name us hrest' hname => ?_
  have hreach' := hreach.trans (.token hrest')
  rw [List.append_assoc] at hreach' ⊢
  refine .release (.named (ht ▸ hkind) hname) ?_
  exact ((h t name hname hreach'.isPrefix).mono (Nat.sub_le ..) (Nat.sub_le ..)) _ hreach' hscopes

theorem function_takes (hr : r.WellScoped n) :
    Takes n 1 s [] scopes (function r) fun g total names s' =>
      names = [g.name] ∧ s'.scopes = scopes ∧ g.WellFormed scopes.flatten ∧
        Laid total [.function g] g.nodes := by
  refine .naming rfl (by decide) fun t name hkind hname => ?_
  refine (params_gives hr).behind.bind fun ps ups hps _ => ?_
  refine (forwards_gives _).bind fun fw ufw hfw _ => (clause_gives false).bind fun c uc hc _ => ?_
  refine (checkTarget_gives (mem_places hname (by simp))).thenGiven ?_
  rintro _ _ ⟨rfl, htarget⟩ -
  refine (typeAfter_gives hr _).behind.bind fun result ures hres _ => .spanFrom ?_
  refine Takes.thenGiven (j := 0) (P := fun total b => ∃ ub,
    total = [t, name] ++ ups ++ ufw ++ uc ++ ures ++ ub ∧ (ps.map Param.name).Nodup ∧
      b.ReadFrom (ps.map Param.name ++ scopes.flatten) ub)
    (.inScopeOf (mem_places hname (by simp)) fun inner hsub hnodup => ?_) ?_
  · refine (Takes.lift hr.block.behind).imp ?_
    rintro b _ _ s' ⟨ub, rfl, hnames, hs', hb⟩
    exact ⟨hnames, hs', ub, rfl, hnodup,
      Part.WellFormed.mono (flatten_cons_subset hsub) (.block b) hb.1, hb.2⟩
  · rintro b _ ⟨ub, rfl, hnodup, hb⟩ -
    refine .pure fun s' _ hs' => ⟨rfl, hs', ⟨⟨hnodup, hfw.1⟩, htarget, hb.1⟩, ?_⟩
    have hsignature := (hps.append ((hc.append hres).behind ufw)).behind [name]
    refine Laid.function (t := t) (d := s.last) hsignature hb.2 (by simp) ?_ ?_
    · simp only [List.nil_append, List.cons_append, List.append_assoc]
    · exact List.append_subset.2 ⟨Clause.singleton_subset_namesIn (by simp) hkind,
        List.Subset.trans hfw.2 (Clause.namesIn_subset fun u hu => by simp [hu])⟩

/-! ## Interfaces -/

/-- The words in front of a member are modifiers. Those that are skipped are among the tokens. -/
theorem modifiers_gives (afterBare : Bool) (m : Nat) {found : List String}
    (hfound : ∀ word ∈ found, word ∈ memberModifiers) :
    GivesFrom m 0 scopes s used (modifiers afterBare m found) fun _ words =>
      ∀ word ∈ words, word ∈ memberModifiers := by
  induction m generalizing used found with
  | zero => exact .spent rfl
  | succ m ih =>
    refine .acceptAt rfl (.give hfound) fun t ts s₁ hs₁ hscopes hrest hkind => ?_
    have htaken := hs₁.trans (.token hrest)
    dsimp only
    split
    · rename_i hknown
      exact ih (List.forall_mem_append.2 ⟨hfound, by simpa using hknown⟩) _ htaken hscopes
    · split
      · exact .noted hs₁ hrest hkind (hscopes ▸ ih hfound)
      · exact Takes.fault (mem_places htaken.isPrefix (by simp)) _ htaken hscopes

/-- A member introduces its name. -/
theorem member_takes (hr : r.WellScoped n) (afterBare : Bool) :
    Takes n 1 s [] scopes (member r afterBare) fun d total names s' =>
      names = [d.name] ∧ s'.scopes = scopes ∧ d.WellFormed ∧ Laid total [.member d] d.nodes := by
  refine .peek (.remaining fun m => ?_)
  have hr' : r.WellScoped (min n m) := hr.mono (Nat.min_le_left ..)
  have hwords : GivesFrom (min n m) 0 scopes s [] (modifiers afterBare m []) _ :=
    (modifiers_gives afterBare m (by simp)).mono (Nat.min_le_right ..) (Nat.le_refl _)
  refine hwords.thenGiven fun words uws hwords _ => ?_
  refine .naming rfl (by decide) fun fn_ name hkind hfn => ?_
  refine (params_gives hr').behind.bind fun ps ups hps _ => ?_
  refine (clause_gives true).bind fun c uc hc _ => ?_
  refine (typeAfter_gives hr' _).behind.bind fun result ures hres _ => ?_
  -- a member starts with its first word, or with `fn` if there is none
  obtain ⟨t, behind, hfirst⟩ : ∃ t behind, uws ++ [fn_, name] = t :: (behind ++ [name]) := by
    obtain ⟨t, behind, h⟩ := List.exists_cons_of_ne_nil (List.concat_ne_nil fn_ uws)
    exact ⟨t, behind, by simpa using congrArg (· ++ [name]) h⟩
  rw [hfirst] at hfn
  rw [headD_of_isPrefix hfn, hfirst]
  have hlast {n : Nat} (usemi : List Token) :
      Takes n 0 s (t :: (behind ++ [name]) ++ ups ++ uc ++ ures ++ usemi) scopes (do
        return (⟨← spanFrom t, name.value, words, ps, c, result⟩ : Member Span))
        fun d total names s' => name.value :: names = [d.name] ∧ s'.scopes = scopes ∧
          d.WellFormed ∧ Laid total [.member d] d.nodes := by
    refine .spanFrom (.pure fun _ _ hs => ⟨rfl, hs, hwords, ?_⟩)
    refine ((hps.append (hc.append hres)).widen (behind ++ [name]) usemi).construct (by simp) rfl
      rfl ?_ (Clause.singleton_subset_namesIn (by simp) hkind)
    intro m hm
    simp only [Node.parts, Node.params, Node.children, List.mem_append] at hm ⊢
    tauto
  exact .accept rfl (by simpa using hlast []) fun semi _ _ => hlast [semi]

/-- In front of `m` tokens there are less than `m` members. -/
theorem members_takes (hr : r.WellScoped n) (m : Nat) (afterBare : Bool) :
    Takes (min n m) 0 s [] scopes (members r m afterBare) fun ds total names s' =>
      names = ds.map Member.name ∧ s'.scopes = scopes ∧ (∀ d ∈ ds, d.WellFormed) ∧
        Laid total (ds.map .member) (ds.flatMap Member.nodes) := by
  induction m generalizing s afterBare with
  | zero => exact .spent (Nat.min_zero n)
  | succ m ih =>
    refine .nextIs fun isLast => ?_
    split
    · exact .pure fun _ _ hs => ⟨rfl, hs, by simp, .nil _⟩
    · refine ((member_takes hr afterBare).mono (Nat.min_le_left ..) (Nat.le_refl _)).bind ?_
      rintro d _ _ s₁ ⟨rfl, hs₁, hd, hlaid⟩ -
      rw [hs₁]
      refine (Takes.mono (.lift fun _ => ih (endsBare d)) (by omega) (Nat.le_refl _)).bind ?_
      rintro ds _ _ s₂ ⟨more, rfl, rfl, hs₂, hds, hmore⟩ -
      exact .pure fun _ _ hs => ⟨by simp, hs.trans hs₂, List.forall_mem_cons.2 ⟨hd, hds⟩,
        hlaid.append hmore⟩

theorem interface_takes (hr : r.WellScoped n) :
    Takes n 1 s [] scopes (interface r) fun i total names s' =>
      names = i.members.map Member.name ∧ s'.scopes = scopes ∧ (∀ d ∈ i.members, d.WellFormed) ∧
        Laid total [.interface i] i.nodes := by
  refine .expect rfl fun t _ _ => .expect rfl fun name hkind _ => .expect rfl fun open_ _ _ => ?_
  refine .remaining fun m => ?_
  refine (Takes.mono (.lift fun _ => members_takes hr m false) (by omega) (Nat.le_refl _)).bind ?_
  rintro ds _ _ s₁ ⟨ums, rfl, rfl, hs₁, hds, hlaid⟩ -
  rw [hs₁]
  refine .expect rfl fun close _ _ => .spanFrom (.pure fun _ _ hs => ⟨by simp, hs, hds, ?_⟩)
  rw [Interface.nodes]
  exact (hlaid.widen [name, open_] [close]).construct (by simp) rfl rfl (fun m hm => hm)
    (Clause.singleton_subset_namesIn (by simp) hkind)

/-! ## Programs -/

/-- A declared name stands at its first token. -/
theorem nameDecl_takes (hkind : (s.rest.headD s.last).kind.declares = true)
    (heof : (s.rest.headD s.last).kind ≠ eof) :
    Takes n 1 s [] scopes (do skip; nameDecl (s.rest.headD s.last)) fun d total names s' =>
      names = [d.name] ∧ s'.scopes = scopes ∧ ∃ t behind, total = t :: behind ∧
        d.loc = t.extent behind := by
  refine .pair (fun name => [name.value]) heof (by decide) (fun u hu => .named hkind hu)
    fun t name ht _ _ => ?_
  rw [ht]
  exact .expect rfl fun semi _ _ => .spanFrom
    (.pure fun _ _ hs => ⟨rfl, hs, t, [name, semi], rfl, rfl⟩)

/-- The program `p'` is what comes of `p` when tokens that introduce `names` are read: it is well
formed, and its declarations make those names known. -/
structure Declared (known : List String) (p : Program Span) (names : List String)
    (p' : Program Span) : Prop where
  wellFormed : p'.WellFormedIn known
  kept : p.globals ⊆ p'.globals
  added : names ⊆ p'.globals

namespace Declared

variable {known names others : List String} {p q p' : Program Span}

theorem refl (h : p.WellFormedIn known) : Declared known p [] p :=
  ⟨h, List.Subset.refl _, List.nil_subset _⟩

theorem trans (h : Declared known p names q) (h' : Declared known q others p') :
    Declared known p (names ++ others) p' where
  wellFormed := h'.wellFormed
  kept := fun _ hn => h'.kept (h.kept hn)
  added := List.append_subset.2 ⟨fun _ hn => h'.kept (h.added hn), h'.added⟩

/-- A declaration is put behind those of a program. -/
theorem of_globals (h : q.WellFormedIn known)
    (hglobals : ∀ name, name ∈ q.globals ↔ name ∈ p.globals ∨ name ∈ names) :
    Declared known p names q where
  wellFormed := h
  kept := fun name hname => (hglobals name).2 (.inl hname)
  added := fun name hname => (hglobals name).2 (.inr hname)

variable (h : p.WellFormedIn known)

include h

theorem error (d : NameDecl Span) :
    Declared known p [d.name] { p with errors := p.errors ++ [d] } := by
  refine .of_globals ⟨h.nodup, h.functions, h.members⟩ fun name => ?_
  simp only [Program.mem_globals, List.map_append, List.mem_append, List.map_singleton]
  grind

theorem type (d : NameDecl Span) :
    Declared known p [d.name] { p with types := p.types ++ [d] } := by
  refine .of_globals ⟨h.nodup, h.functions, h.members⟩ fun name => ?_
  simp only [Program.mem_globals, List.map_append, List.mem_append, List.map_singleton]
  grind

theorem interface {i : Interface Span} (hi : ∀ m ∈ i.members, m.WellFormed) :
    Declared known p (i.members.map Member.name) { p with interfaces := p.interfaces ++ [i] } := by
  refine .of_globals ⟨h.nodup, h.functions, ?_⟩ fun name => ?_
  · refine List.forall_mem_append.2 ⟨h.members, ?_⟩
    simpa using hi
  · simp only [Program.mem_globals, List.mem_append, List.mem_singleton]
    grind

theorem function {g : FunDecl Span} (hg : g.WellFormed known)
    (hnew : g.name ∉ p.functions.map FunDecl.name) :
    Declared known p [g.name] { p with functions := p.functions ++ [g] } := by
  have hnodup : ((p.functions ++ [g]).map FunDecl.name).Nodup := by
    rw [List.map_append, List.map_singleton, List.nodup_append]
    refine ⟨h.nodup, by simp, fun name hname other hother heq => hnew ?_⟩
    rwa [← List.mem_singleton.1 hother, ← heq]
  refine .of_globals ⟨hnodup, ?_, h.members⟩ fun name => ?_
  · refine List.forall_mem_append.2 ⟨h.functions, ?_⟩
    simpa using hg
  · simp only [Program.mem_globals, List.map_append, List.mem_append, List.map_singleton]
    grind

end Declared

/-- Declarations are read up to the end mark, and add to a program what their tokens introduce. In
front of `m` tokens there are less than `m` of them. -/
theorem declarations_takes (hr : r.WellScoped n) (m : Nat) (p : Program Span) :
    Takes (min n m) 0 s [] scopes (declarations r m p) fun p' total names s' =>
      (p.WellFormedIn scopes.flatten → Declared scopes.flatten p names p') ∧ p.Adds total p' ∧
        (s'.rest.headD s'.last).kind = eof := by
  induction m generalizing s p with
  | zero => exact .spent (Nat.min_zero n)
  | succ m ih =>
    have hstep {q : Program Span} {names : List String} {used : List Token}
        (hq : p.WellFormedIn scopes.flatten → Declared scopes.flatten p names q)
        (hadds : p.Adds used q) :
        Takes (min n (m + 1) - 1) 0 s used scopes (declarations r m q) fun p' total others s' =>
          (p.WellFormedIn scopes.flatten → Declared scopes.flatten p (names ++ others) p') ∧
            p.Adds total p' ∧ (s'.rest.headD s'.last).kind = eof := by
      refine (Takes.mono (.lift fun _ => ih q) (by omega) (Nat.le_refl _)).imp ?_
      rintro p' _ others s' ⟨more, rfl, hdeclared, hmore, hend⟩
      exact ⟨fun hp => (hq hp).trans (hdeclared (hq hp).wellFormed), hadds.trans hmore, hend⟩
    have hr' : r.WellScoped (min n (m + 1)) := hr.mono (Nat.min_le_left ..)
    refine .peek ?_
    split
    · rename_i hkind
      exact .pure fun s₁ hs₁ _ => ⟨.refl, .refl p, by rwa [hs₁.headD]⟩
    · rename_i hkind
      rw [← bind_assoc]
      refine (nameDecl_takes (by rw [hkind]; rfl) (by rw [hkind]; decide)).bind ?_
      rintro d _ _ s₁ ⟨rfl, hs₁, t, behind, rfl, hloc⟩ -
      rw [hs₁]
      exact hstep (fun hp => .error hp d) (.error ((Laid.nil behind).node rfl (congrArg some hloc)
        (List.nil_subset _) (List.nil_subset _)))
    · rename_i hkind
      rw [← bind_assoc]
      refine (nameDecl_takes (by rw [hkind]; rfl) (by rw [hkind]; decide)).bind ?_
      rintro d _ _ s₁ ⟨rfl, hs₁, t, behind, rfl, hloc⟩ -
      rw [hs₁]
      exact hstep (fun hp => .type hp d) (.type ((Laid.nil behind).node rfl (congrArg some hloc)
        (List.nil_subset _) (List.nil_subset _)))
    · refine (interface_takes hr').bind ?_
      rintro i _ _ s₁ ⟨rfl, hs₁, hi, hlaid⟩ -
      rw [hs₁]
      exact hstep (fun hp => .interface hp hi) (.interface hlaid)
    · refine (function_takes hr').bind ?_
      rintro g _ _ s₁ ⟨rfl, hs₁, hg, hlaid⟩ -
      rw [hs₁]
      split
      · exact .fault (headD_mem_places s)
      · rename_i hnew
        exact hstep (fun hp => .function hp hg hnew) (.function hlaid)

end Parse

/-! ## The end mark -/

/-- Behind the end mark there is nothing. -/
theorem Token.readAll_end {used rest : List Token} {t : Token}
    (h : Token.readAll source = .ok (used ++ t :: rest)) (ht : t.kind = .eof) : rest = [] := by
  obtain ⟨ws, p, hws, hwritten⟩ := Token.exists_written h
  rcases List.eq_nil_or_concat' rest with rfl | ⟨others, u, rfl⟩
  · rfl
  · -- a token in front of the last one is written, and the end mark is not
    rw [← List.cons_append, ← List.append_assoc] at hws
    have hmem : t ∈ ws := (List.append_inj_left' hws rfl) ▸ by simp
    exact absurd ht (hwritten t hmem).kind_ne_eof

theorem declaredNames_end {used : List Token} {s : ParseState}
    (h : Token.readAll source = .ok (used ++ s.rest)) (hs : (s.rest.headD s.last).kind = .eof) :
    declaredNames s.rest = [] := by
  cases hrest : s.rest with
  | nil => rfl
  | cons t rest =>
    rw [hrest] at h hs
    rw [Token.readAll_end h hs]
    rfl

/-! ## Sources -/

theorem Program.exists_tokens {r : Reading} (h : Program.parse source = .ok r) :
    ∃ tokens, Token.readAll source = .ok tokens ∧ Program.ofTokens tokens = .ok r := by
  rw [Program.parse] at h
  split at h
  · rename_i tokens htokens
    exact ⟨tokens, htokens, h⟩
  · cases h

/-- What is read from the tokens of a text is well formed. -/
theorem Program.ofTokens_wellFormed {tokens : List Token} {r : Reading}
    (hlex : Token.readAll source = .ok tokens) (h : Program.ofTokens tokens = .ok r) :
    r.program.WellFormed := by
  obtain ⟨⟨p, s⟩, hread, hr⟩ := except_bind_eq_ok h
  cases hr
  have hempty (known : List String) : Program.WellFormedIn known ({} : Program Span) :=
    ⟨.nil, by simp, by simp⟩
  obtain ⟨used, names, hreach, -, hnames, hdeclared, -, hend⟩ :=
    (Parse.declarations_takes (Level.ofDepth_wellScoped _) _ {}).ok hread
  have hused : tokens = used ++ s.rest := hreach.rest
  replace hdeclared := hdeclared (hempty _)
  dsimp only at hdeclared
  have hall : declaredNames tokens = names := by
    rw [hused, hnames, declaredNames_end (hused ▸ hlex) hend, List.append_nil]
  refine hdeclared.wellFormed.mono ?_
  rw [List.flatten_singleton, hall]
  refine List.append_subset.2 ⟨?_, List.subset_append_right ..⟩
  exact fun name hname => List.mem_append_left _ (hdeclared.added hname)

/-- The names in a source that is read are as the check needs them. -/
theorem Program.parse_wellNamed {r : Reading} (h : Program.parse source = .ok r) :
    r.program.WellNamed := by
  obtain ⟨tokens, hlex, hread⟩ := Program.exists_tokens h
  have hwellFormed := Program.ofTokens_wellFormed hlex hread
  exact ⟨hwellFormed.nodup, fun g hg => (hwellFormed.functions g hg).toWellNamed⟩

/-- **Whatever is read is well formed.** Functions have different names, and so have the parameters
of each function and closure and the names that one block declares. Every name that is used is known
without a declaration, is declared somewhere in the program, or is bound around the place of its
use, by a `let` only from the next statement on. Forwards lists name parameters, and the clause of
a forwarding function names its target. Closures with a clause have blocks as bodies, and the words
in front of members are modifiers. -/
theorem Program.parse_wellFormed {source : String} {r : Reading}
    (h : Program.parse source = .ok r) : r.program.WellFormed := by
  obtain ⟨tokens, hlex, hread⟩ := Program.exists_tokens h
  exact Program.ofTokens_wellFormed hlex hread

/-- Names of every kind, bound in every way: a forwarding function, a closure with a clause, loops,
handlers, an interface member that is called, and `let`s that shadow. -/
def scopesSource : String := "error E; type T;
interface I \x7b mut fn m(x: T) raises; static override fn k(); \x7d
fn twice(g: fn() raises(E), n) forwards(g, g) raises(E) \x7b g(); g(); \x7d
fn main(xs) raises \x7b
  let f = |a, b: T| raises(E) \x7b let a = b; raise a; \x7d;
  for x in xs \x7b let xs = [x, E, set[m]]; xs.append(x); xs.insert(len(xs)); \x7d
  while not f \x7b f = || f; \x7d
  try \x7b let n = 1; twice(f, n + 2); \x7d
  catch e \x7b if e \x7b k(); \x7d elif m(e) \x7b f = e; \x7d else \x7b raise e; \x7d \x7d
\x7d"

set_option maxRecDepth 8192 in
theorem Program.parse_wellFormed_nested :
    ∃ r, Program.parse scopesSource = .ok r ∧
      r.program.functions.map FunDecl.name = ["twice", "main"] ∧ r.program.WellFormed := by
  obtain ⟨r, hr, hnames⟩ := Program.exists_reading scopesSource
    (fun r => r.program.functions.map FunDecl.name = ["twice", "main"]) rfl (by decide +kernel)
  exact ⟨r, hr, hnames, Program.parse_wellFormed hr⟩

end RaisingEffects
