import RaisingEffects.Proofs.Config.Paths

/-!
# What overrides do to the mapping that they are applied to

Overrides are applied to a copy that shares the nested mappings of the mapping. So an override that
goes into a nested mapping changes the mapping too, unless an override of the name alone has given
the copy a value of its own. Nothing else changes the mapping (`Overlay.source_applyAll`).

* `Override.tried`: the overrides that a run comes to.
* `Override.Entering d vs P`: those of the overrides `vs` that go into a nested mapping of `d`, at a
  name that the copy does not have of its own by then, are such that `P`.
* `Overlay.Keeps d before o`: what the overrides `before` leave of the mapping `d` in the overlay.
-/

namespace RaisingEffects

open Value (entryNumbers)

namespace Mapping

/-- Whether a name stands for a nested mapping. -/
def leads (m : Mapping) (name : String) : Bool :=
  match m.get? name with
  | some (.map ..) => true
  | _ => false

/-- The numbers of the mappings that stand in several places, one of them below the name. -/
def numbersAt (m : Mapping) (name : String) : List Nat := ((m.get? name).getD .null).numbers

/-- The entry is that of the name, or has a mapping in common with what the name stands for. -/
def Touches (m : Mapping) (name : String) (e : Value × Value) : Prop :=
  e.1 = .text name ∨ ∃ n ∈ e.2.numbers, n ∈ m.numbersAt name

end Mapping

namespace Override

/-- The overrides that do anything, in order. One whose value cannot be read is the last, and
prepares its way if that is longer than its name. -/
def tried (read : Value.Reader) : List String → List Override
  | [] => []
  | text :: texts =>
    match parse text with
    | .error _ => []
    | .ok v =>
      match read v.raw with
      | .error _ => if v.path.length = 1 then [] else [v]
      | .ok _ => v :: tried read texts

/-- After the overrides `before`, the override goes into the nested mapping of `d` at the name. -/
structure Enters (v : Override) (d : Mapping) (before : List Override) (name : String) : Prop where
  path : ∃ next path, v.path = name :: next :: path
  leads : d.leads name = true
  whole : ∀ u ∈ before, u.path ≠ [name]

/-- Each of the overrides that goes into a nested mapping of `d` at a name is such that `P`. -/
def Entering (d : Mapping) (vs : List Override) (P : Override → String → Prop) : Prop :=
  ∀ before v after name, vs = before ++ v :: after → v.Enters d before name → P v name

theorem Entering.of_concat {d : Mapping} {vs : List Override} {v : Override}
    {P : Override → String → Prop} (h : Entering d (vs ++ [v]) P) :
    Entering d vs P ∧ ∀ name, v.Enters d vs name → P v name := by
  refine ⟨fun before u after name hvs => h before u (after ++ [v]) name (by simp [hvs]), ?_⟩
  exact fun name => h vs v [] name rfl

end Override

namespace Mapping

variable {m : Mapping} {name : String} {v : Value} {n : Nat}

theorem leads_iff : m.leads name = true ↔ ∃ es number, m.get? name = some (.map es number) := by
  unfold leads
  split <;> simp_all

theorem leads_set (h : m.leads name = true) (hv : ∃ es number, v = .map es number)
    (other : String) : (m.set name v).leads other = m.leads other := by
  rw [Bool.eq_iff_iff, leads_iff, leads_iff, get?_set]
  by_cases hname : name = other
  · subst hname
    simpa using iff_of_true hv (leads_iff.1 h)
  · rw [if_neg hname]

theorem leads_changeEntries (m : Mapping) (n : Nat) (f : Mapping → Mapping) (name : String) :
    leads (Value.changeEntries n f m) name = m.leads name := by
  unfold leads
  rw [get?_changeEntries]
  cases m.get? name with
  | none => rfl
  | some v => cases v <;> rfl

/-- What stays of the entries of a mapping when another one takes its place, but for those that an
override at the name may touch. -/
structure Stays (m m' : Mapping) (name : String) : Prop where
  keys : m'.map Prod.fst = m.map Prod.fst
  entries : ∀ (i : Nat) e, m[i]? = some e → e.1 ≠ .text name →
    (∀ n ∈ e.2.numbers, n ∉ m.numbersAt name) → m'[i]? = some e

theorem stays_set (h : m.leads name = true) (v : Value) : Stays m (m.set name v) name := by
  obtain ⟨es, number, hget⟩ := leads_iff.1 h
  have hset : (m.set name v).map Prod.fst = m.map Prod.fst ∧
      ∀ (i : Nat) e, m[i]? = some e → e.1 ≠ .text name → (m.set name v)[i]? = some e := by
    clear h
    induction m with
    | nil => cases hget
    | cons first m ih =>
      rw [set]
      rw [get?] at hget
      split
      · rename_i hkey
        refine ⟨rfl, fun i e he hne => ?_⟩
        cases i with
        | zero =>
          cases he
          exact absurd (Value.isText_iff.1 hkey) hne
        | succ i => exact he
      · rename_i hkey
        rw [if_neg hkey] at hget
        obtain ⟨hkeys, hentries⟩ := ih hget
        refine ⟨by rw [List.map_cons, hkeys]; rfl, fun i e he hne => ?_⟩
        cases i with
        | zero => exact he
        | succ i => exact hentries i e he hne
  exact ⟨hset.1, fun i e he hne _ => hset.2 i e he hne⟩

theorem stays_changeEntries (hn : n ∈ m.numbersAt name) (f : Mapping → Mapping) :
    Stays m (Value.changeEntries n f m) name := by
  rw [Value.changeEntries_eq]
  refine ⟨by simp, fun i e he _ hnot => ?_⟩
  have hself := Value.change_eq_self f fun hmem => hnot n hmem hn
  simp [he, hself]

end Mapping

theorem Value.alter_eq_map (f : List String → Mapping → Mapping) (path : List String) (v : Value)
    (h : v.sharedOn path = none) : ∃ es number, v.alter f path = .map es number := by
  unfold alter
  rw [h]
  cases v <;> exact ⟨_, _, rfl⟩

namespace Overlay

variable {d : Mapping} {before : List Override} {o : Overlay} {name : String} {v : Override}
  {ns : List Nat} {f : List String → Mapping → Mapping}

theorem shares_eq (o : Overlay) (name : String) :
    o.shares name = (!o.own.contains name && o.source.leads name) := rfl

/-- The overrides `before` leave the keys of the mapping `d` and the values of the entries that none
of them touches. The nested mappings that are left are those of the copy, apart from the values that
the copy has of its own. No mapping comes to stand in several places where it was not before. -/
structure Keeps (d : Mapping) (before : List Override) (o : Overlay) : Prop where
  leads : ∀ name, o.source.leads name = d.leads name
  own : ∀ name, d.leads name = true → (name ∈ o.own ↔ ∃ u ∈ before, u.path = [name])
  shared : ∀ name, name ∉ o.own → d.leads name = true → o.source.get? name = o.result.get? name
  keys : o.source.map Prod.fst = d.map Prod.fst
  entries : ∀ (i : Nat) e, d[i]? = some e →
    Override.Entering d before (fun _ name => ¬ d.Touches name e) → o.source[i]? = some e ∧
      ∀ n ∈ e.2.numbers, ∀ name, n ∈ o.source.numbersAt name → n ∈ d.numbersAt name

theorem Keeps.ofMapping (d : Mapping) : Keeps d [] (ofMapping d) :=
  ⟨fun _ => rfl, by simp [Overlay.ofMapping], fun _ _ _ => rfl, rfl,
    fun _ _ he _ => ⟨he, fun _ _ _ hn => hn⟩⟩

section Step

variable (h : Keeps d before o)

include h

/-- An override that leaves the mapping alone. -/
theorem Keeps.aside {result : Mapping} {own : List String}
    (hown : ∀ name, d.leads name = true → (name ∈ own ↔ name ∈ o.own ∨ v.path = [name]))
    (hshared : ∀ name, name ∉ own → o.result.get? name = result.get? name)
    (hle : ∀ name, name ∉ own → name ∉ o.own) :
    Keeps d (before ++ [v]) { o with result, own } where
  leads := h.leads
  own name hname := by
    rw [hown name hname, h.own name hname]
    simp [or_and_right, exists_or]
  shared name hnot hname := (h.shared name (hle name hnot) hname).trans (hshared name hnot)
  keys := h.keys
  entries i e he hv := h.entries i e he hv.of_concat.1

/-- A part is shared where an override enters it. -/
theorem Keeps.of_shares {next : String} {path : List String} (hshares : o.shares name = true)
    (hv : v.path = name :: next :: path) :
    v.Enters d before name ∧ o.source.get? name = o.result.get? name := by
  rw [shares_eq, Bool.and_eq_true, h.leads] at hshares
  obtain ⟨hown, hleads⟩ := hshares
  have hnot : name ∉ o.own := by simpa using hown
  refine ⟨⟨⟨next, path, hv⟩, hleads, fun u hu hpath => ?_⟩, h.shared name hnot hleads⟩
  exact hnot ((h.own name hleads).2 ⟨u, hu, hpath⟩)

/-- The change of a shared part is the same on both sides. -/
theorem Keeps.spread {g : Mapping → Mapping} (hv : v.Enters d before name)
    (hleads : ∀ name, (g o.source).leads name = o.source.leads name)
    (hg : ∀ name, o.source.get? name = o.result.get? name →
      Mapping.get? name (g o.source) = Mapping.get? name (g o.result))
    (hstays : Mapping.Stays o.source (g o.source) name)
    (hnumbers : ∀ other, (g o.source).numbersAt other ⊆ ns ++ o.source.numbersAt other)
    (hns : ∀ n ∈ ns, n ∉ entryNumbers o.source) :
    Keeps d (before ++ [v]) { o with source := g o.source, result := g o.result } where
  leads name := (hleads name).trans (h.leads name)
  own other hother := by
    obtain ⟨next, path, hpath⟩ := hv.path
    rw [h.own other hother]
    simp [hpath]
  shared other hown hother := hg other (h.shared other hown hother)
  keys := hstays.keys.trans h.keys
  entries i e he hentering := by
    obtain ⟨hbefore, hnow⟩ := hentering.of_concat
    obtain ⟨hsource, hold⟩ := h.entries i e he hbefore
    have hnot := not_or.1 (hnow name hv)
    refine ⟨hstays.entries i e hsource hnot.1 fun n hn hat => ?_, fun n hn other hat => ?_⟩
    · exact hnot.2 ⟨n, hn, hold n hn name hat⟩
    · rcases List.mem_append.1 (hnumbers other hat) with hfresh | hat
      · -- a fresh number is not one of the entry, which is still in the mapping
        rw [Value.entryNumbers_eq] at hns
        exact absurd (List.mem_flatMap_of_mem (List.mem_of_getElem? hsource) hn) (hns n hfresh)
      · exact hold n hn other hat

variable (hf : ∀ path m, entryNumbers (f path m) ⊆ ns ++ entryNumbers m)
  (hns : ∀ n ∈ ns, n ∉ entryNumbers o.source)

include hf hns

/-- An override of more than a name. -/
theorem Keeps.change_long {next : String} {path : List String}
    (hv : v.path = name :: next :: path) : Keeps d (before ++ [v]) (o.change f v.path) := by
  simp only [hv, Overlay.change]
  split
  · rename_i hshares
    obtain ⟨henters, hget⟩ := h.of_shares hshares hv
    have hleads := (h.leads name).trans henters.leads
    cases hshared : ((o.result.get? name).getD .null).sharedOn (next :: path) with
    | none =>
      refine h.spread henters (Mapping.leads_set hleads (Value.alter_eq_map _ _ _ hshared))
        (fun other hother => ?_) (Mapping.stays_set hleads _) (fun other => ?_) hns
      · dsimp only [Option.elim_none]
        rw [Mapping.get?_set, Mapping.get?_set, hother]
      · dsimp only [Option.elim_none]
        rw [Mapping.numbersAt, Mapping.get?_set]
        split
        · rename_i hname
          rw [← hname, Mapping.numbersAt, hget]
          exact Value.numbers_alter hf ..
        · exact List.subset_append_right ..
    | some place =>
      refine h.spread henters (Mapping.leads_changeEntries _ _ _) (fun other hother => ?_)
        (Mapping.stays_changeEntries ?_ _) (fun other => ?_) hns
      · dsimp only [Option.elim_some]
        rw [Mapping.get?_changeEntries, Mapping.get?_changeEntries, hother]
      · rw [Mapping.numbersAt, hget]
        exact Value.mem_of_sharedOn hshared
      · dsimp only [Option.elim_some]
        rw [Mapping.numbersAt, Mapping.get?_changeEntries, Mapping.numbersAt]
        cases o.source.get? other with
        | none => exact List.nil_subset _
        | some w => exact Value.numbers_change (hf _) w
  · rename_i hshares
    refine h.aside (fun other hother => ?_) (fun other hother => ?_) (by simp)
    · rw [hv, List.mem_cons]
      refine ⟨fun hmem => .inl (hmem.elim ?_ id), fun hmem => .inr (by simpa using hmem)⟩
      rintro rfl
      simpa [shares_eq, h.leads, hother] using hshares
    · rw [Mapping.get?_set, if_neg (List.ne_of_not_mem_cons hother).symm]

omit hf hns in
/-- Without mappings in several places, an override that goes into a nested mapping changes the
mapping along its path, and no other override changes it. -/
theorem Keeps.source_change (hresult : entryNumbers o.result = [])
    (hdescends : Mapping.Descends f) :
    (o.change f v.path).source = o.source ∨
      (∃ name, v.Enters d before name) ∧ (o.change f v.path).source = f v.path o.source := by
  obtain ⟨_ | ⟨name, _ | ⟨next, path⟩⟩, raw⟩ := v
  · exact .inl rfl
  · exact .inl rfl
  · simp only [Overlay.change]
    split
    · rename_i hshares
      obtain ⟨henters, hget⟩ := h.of_shares (v := ⟨name :: next :: path, raw⟩) hshares rfl
      refine .inr ⟨⟨name, henters⟩, ?_⟩
      rw [Value.sharedOn_getD hresult, hdescends.cons, Value.alter_nested hresult, Mapping.nested,
        Mapping.nested, hget]
      rfl
    · exact .inl rfl

variable (ns) in
theorem Keeps.change (hdescends : Mapping.Descends f) :
    Keeps d (before ++ [v]) (o.change f v.path) := by
  obtain ⟨_ | ⟨name, _ | ⟨next, path⟩⟩, raw⟩ := v
  · exact h.aside (by simp) (fun _ _ => rfl) fun _ hnot => hnot
  · refine h.aside (fun other _ => by simp [eq_comm, or_comm]) (fun other hother => ?_) (by simp)
    exact (hdescends.single _ _ _ (List.ne_of_not_mem_cons hother).symm).symm
  · exact h.change_long hf hns rfl

end Step

/-- Where no mapping stands in several places, the mapping changes along the paths of the overrides
that go into a nested mapping. -/
structure Plain (d : Mapping) (q : List String) (before : List Override) (o : Overlay) : Prop where
  keeps : Keeps d before o
  source : entryNumbers o.source = []
  result : entryNumbers o.result = []
  found : Override.Entering d before (fun v _ => Independent q v.path) →
    o.source.at? q = d.at? q

theorem Plain.change {q : List String} (h : Plain d q before o) (hdescends : Mapping.Descends f)
    (hf : ∀ path m, entryNumbers (f path m) ⊆ entryNumbers m) :
    Plain d q (before ++ [v]) (o.change f v.path) where
  keeps := h.keeps.change [] hf (by simp) hdescends
  source := by
    rcases h.keeps.source_change (v := v) h.result hdescends with heq | ⟨-, heq⟩
    · rw [heq, h.source]
    · rw [heq]
      exact List.subset_nil.1 (h.source ▸ hf _ _)
  result := by
    rw [change_result h.result hdescends]
    exact List.subset_nil.1 (h.result ▸ hf _ _)
  found hentering := by
    obtain ⟨hbefore, hnow⟩ := hentering.of_concat
    rcases h.keeps.source_change (v := v) h.result hdescends with heq | ⟨⟨name, hv⟩, heq⟩
    · rw [heq, h.found hbefore]
    · rw [heq, hdescends.at?_of_independent (hnow name hv), h.found hbefore]

/-! ## Runs -/

/-- What every override preserves. -/
theorem applyAll_invariant {read : Value.Reader} {P : List Override → Overlay → Prop}
    (hput : ∀ before o v value, read v.raw = .ok value → P before o → P (before ++ [v])
      (o.change (Mapping.put (value.freshIn (o.source ++ o.result))) v.path))
    (hreach : ∀ before o v, P before o → P (before ++ [v]) (o.change Mapping.reach v.path))
    (texts : List String) (h : P [] o) :
    P (Override.tried read texts) (o.applyAll read texts).1 := by
  have hall (before : List Override) (o : Overlay) (h : P before o) :
      P (before ++ Override.tried read texts) (o.applyAll read texts).1 := by
    induction texts generalizing before o with
    | nil => rwa [Override.tried, List.append_nil]
    | cons text texts ih =>
      rw [applyAll, Override.tried]
      cases Override.parse text with
      | error fault => rwa [List.append_nil]
      | ok v =>
        dsimp only
        cases hvalue : read v.raw with
        | ok value =>
          have hrun := ih _ _ (hput before o v value hvalue h)
          rwa [List.append_assoc] at hrun
        | error fault =>
          dsimp only
          split
          · rename_i hlength
            obtain ⟨name, hpath⟩ := List.length_eq_one_iff.1 hlength
            rwa [hpath, List.append_nil]
          · rename_i hlength
            have hprepare : o.prepare v.path = o.change Mapping.reach v.path := by
              unfold prepare
              split
              · rename_i hpath
                exact absurd (by rw [hpath]; rfl) hlength
              · rfl
            exact hprepare ▸ hreach before o v h
  exact hall [] o h

/-- **What overrides do to the mapping that they are applied to,** whether or not all of them can be
applied. Its keys stay, and so does the value of each entry that is not that of a name where an
override goes into a nested mapping, and has no mapping in common with what stands there. A nested
mapping that no override replaces as a whole is the same in it as in the result. Where no mapping
stands in several places, what is found at a path stays too unless an override goes into a nested
mapping on a path that leads there or goes on from there. -/
theorem source_applyAll (read : Value.Reader) (d : Mapping) (texts : List String) :
    let o := ((ofMapping d).applyAll read texts).1
    let vs := Override.tried read texts
    o.source.map Prod.fst = d.map Prod.fst ∧
      (∀ (i : Nat) e, d[i]? = some e → Override.Entering d vs (fun _ name => ¬ d.Touches name e) →
        o.source[i]? = some e) ∧
      (∀ name, d.leads name = true → (∀ v ∈ vs, v.path ≠ [name]) →
        o.source.get? name = o.result.get? name) ∧
      (entryNumbers d = [] → (∀ text value, read text = .ok value → value.numbers = []) →
        ∀ q, Override.Entering d vs (fun v _ => Independent q v.path) →
          o.source.at? q = d.at? q) := by
  intro o vs
  have hkeeps : Keeps d vs o := by
    refine applyAll_invariant (fun before o v value _ h => ?_)
      (fun before o v h => ?_) texts (Keeps.ofMapping d)
    · refine h.change _ (Value.entryNumbers_put _) (fun n hn hmem => ?_) (Mapping.put_descends _)
      refine Value.not_mem_of_freshIn hn ?_
      rw [Value.entryNumbers_eq] at hmem ⊢
      exact List.flatMap_append ▸ List.mem_append_left _ hmem
    · exact h.change [] Value.entryNumbers_reach (by simp) Mapping.reach_descends
  refine ⟨hkeeps.keys, fun i e he hv => (hkeeps.entries i e he hv).1, fun name hname htried => ?_,
    fun hd hread q hq => ?_⟩
  · refine hkeeps.shared name (fun hown => ?_) hname
    obtain ⟨v, hv, hpath⟩ := (hkeeps.own name hname).1 hown
    exact htried v hv hpath
  · have hplain : Plain d q vs o := by
      refine applyAll_invariant (fun before o v value hvalue h => ?_)
        (fun before o v h => ?_) texts ⟨.ofMapping d, hd, hd, fun _ => rfl⟩
      · refine h.change (Mapping.put_descends _) fun path m => ?_
        have hput := Value.entryNumbers_put (value.freshIn (o.source ++ o.result)) path m
        rwa [Value.freshIn, Value.numbers_renumber, hread _ _ hvalue] at hput
      · exact h.change Mapping.reach_descends Value.entryNumbers_reach
    exact hplain.found hq

/-- An override of a nested value changes the mapping that it is applied to. -/
theorem source_applyAll_nested :
    Value.shown (.map ((ofMapping [(.text "a", .map [(.text "b", .int 1)])]).applyAll Value.ofYaml
      ["a.b=2"]).1.source) = "\x7b'a': \x7b'b': 2\x7d\x7d" := by
  decide +kernel

end Overlay

end RaisingEffects
