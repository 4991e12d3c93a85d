import RegisterMigration.Toml.Document

/-!
# The integers of a document

A TOML integer fits 64 bits with a sign: a number that does not is no TOML.  So no integer in a
document is above `2 ^ 63 - 1`, wherever it stands: in an array, in a table between braces, or in a
table that several sections have added to.

The readers are followed from numbers up to values, where the depth to which values nest is what the
induction is on, and then to lines.  What builds the tree only moves values about: each operation on
tables keeps the property that all values in them have.

## Main results

* `value?_bounded` — values.
* `assign_bounded`, `alterAt_bounded` — the operations on tables.
* `parse?_bounded` — documents.
-/

namespace RegisterMigration.Toml

/-- No integer in a value is above the largest that fits 64 bits with a sign. -/
inductive Node.Bounded : Node → Prop where
  | string (s : String) : Bounded (.string s)
  | integer {i : Int} (h : i < (UInt64.size / 2 : Nat)) : Bounded (.integer i)
  | float (x : Decimal.Binary64) : Bounded (.float x)
  | boolean (b : Bool) : Bounded (.boolean b)
  | dateTime : Bounded .dateTime
  | array {items : List Node} (h : ∀ v ∈ items, Bounded v) : Bounded (.array items)
  | table {kind : TableKind} {entries : List (String × Node)}
      (h : ∀ a ∈ entries, Bounded a.2) : Bounded (.table kind entries)
  | tables {elements : List (List (String × Node))}
      (h : ∀ e ∈ elements, ∀ a ∈ e, Bounded a.2) : Bounded (.tables elements)

/-- No integer in the values of a table is above that bound. -/
def Entries.Bounded (e : Entries) : Prop :=
  ∀ a ∈ e, a.2.Bounded

/-! ## Numbers and other scalars -/

theorem integer?_bounded {negative : Bool} {n : Nat} {v : Node}
    (h : integer? negative n = some v) : v.Bounded := by
  have hpos : 0 < UInt64.size / 2 := by decide
  rw [integer?] at h
  split at h
  · split at h
    · obtain rfl := Option.some.inj h
      exact .integer (by omega)
    · cases h
  · split at h
    · obtain rfl := Option.some.inj h
      exact .integer (by omega)
    · cases h

theorem baseInteger?_bounded {base : Nat} {s t : List Char} {v : Node}
    (h : baseInteger? base s = some (v, t)) : v.Bounded := by
  rw [baseInteger?] at h
  split at h
  · cases h
  · obtain ⟨w, hw, heq⟩ := Option.map_eq_some_iff.1 h
    cases heq
    exact integer?_bounded hw

theorem float?_bounded {negative : Bool} {whole fraction : List Char} {exponent : Int} {v : Node}
    (h : float? negative whole fraction exponent = some v) : v.Bounded := by
  rw [float?] at h
  split at h
  · cases h
  · rw [← Option.some.inj h]
    exact .float _

theorem decimal?_bounded {negative : Bool} {s t : List Char} {v : Node}
    (h : decimal? negative s = some (v, t)) : v.Bounded := by
  rw [decimal?] at h
  split at h
  · cases h
  split at h
  · cases h
  split at h
  · cases h
  obtain ⟨w, hw, heq⟩ := Option.map_eq_some_iff.1 h
  cases heq
  split at hw
  · exact integer?_bounded hw
  · exact float?_bounded hw

theorem number?_bounded {s t : List Char} {v : Node} (h : number? s = some (v, t)) :
    v.Bounded := by
  unfold number? at h
  split at h
  · exact baseInteger?_bounded h
  · exact baseInteger?_bounded h
  · exact baseInteger?_bounded h
  split at h
  · cases h
    exact .float _
  · cases h
    exact .float _
  · exact decimal?_bounded h

theorem scalar?_bounded {s t : List Char} {v : Node} (h : scalar? s = some (v, t)) :
    v.Bounded := by
  unfold scalar? at h
  split at h
  · obtain ⟨⟨cs, rest⟩, _, heq⟩ := Option.map_eq_some_iff.1 h
    cases heq
    exact .string _
  · obtain ⟨⟨cs, rest⟩, _, heq⟩ := Option.map_eq_some_iff.1 h
    cases heq
    exact .string _
  · cases h
    exact .boolean true
  · cases h
    exact .boolean false
  · split at h
    · cases h
      exact .dateTime
    · exact number?_bounded h

/-! ## Operations on tables -/

namespace Entries

variable {e e' : Entries} {key : String} {v : Node}

theorem bounded_nil : Entries.Bounded [] :=
  fun _ ha => absurd ha List.not_mem_nil

theorem Bounded.append {f : Entries} (he : e.Bounded) (hf : f.Bounded) :
    Entries.Bounded (e ++ f) := by
  intro a ha
  rcases List.mem_append.1 ha with ha | ha
  · exact he a ha
  · exact hf a ha

theorem bounded_singleton (hv : v.Bounded) : Entries.Bounded [(key, v)] := by
  intro a ha
  rw [List.mem_singleton.1 ha]
  exact hv

theorem Bounded.withValue (he : e.Bounded) (key : String) (hv : v.Bounded) :
    (e.withValue key v).Bounded := by
  intro a ha
  obtain ⟨b, hb, rfl⟩ := List.mem_map.1 ha
  by_cases hkey : b.1 == key
  · simpa [hkey] using hv
  · simpa [hkey] using he b hb

theorem Bounded.without (he : e.Bounded) (key : String) : (e.without key).Bounded := by
  intro a ha
  exact he a (List.mem_filter.1 ha).1

theorem Bounded.valueAt? (he : e.Bounded) (h : e.valueAt? key = some v) : v.Bounded := by
  induction e with
  | nil => cases h
  | cons a e ih =>
      rw [Entries.valueAt?, List.lookup_cons] at h
      split at h
      · rw [← Option.some.inj h]
        exact he a List.mem_cons_self
      · exact ih (fun b hb => he b (List.mem_cons_of_mem a hb)) h

/-- A change of tables keeps the bound. -/
def KeepsBounded (f : Entries → Option Entries) : Prop :=
  ∀ e e' : Entries, e.Bounded → f e = some e' → e'.Bounded

theorem alterLast_bounded {f : Entries → Option Entries} (hf : KeepsBounded f)
    {elements elements' : List Entries} (helements : ∀ e ∈ elements, e.Bounded)
    (h : alterLast f elements = some elements') : ∀ e ∈ elements', e.Bounded := by
  rw [alterLast] at h
  obtain ⟨last, hlast, hmap⟩ := Option.bind_eq_some_iff.1 h
  obtain ⟨changed, hchanged, rfl⟩ := Option.map_eq_some_iff.1 hmap
  intro e he
  rcases List.mem_append.1 he with he | he
  · exact helements e (List.dropLast_subset elements he)
  · rw [List.mem_singleton.1 he]
    exact hf last changed (helements last (List.mem_of_getLast? hlast)) hchanged

theorem assign_bounded (hv : v.Bounded) (path : List String) : KeepsBounded (assign v path) := by
  induction path with
  | nil =>
      intro e e' _ h
      cases h
  | cons key path ih =>
      intro e e' he h
      cases path with
      | nil =>
          rw [assign] at h
          split at h
          · cases h
          · rw [← Option.some.inj h]
            exact he.append (bounded_singleton hv)
      | cons next path =>
          rw [assign] at h
          split at h
          · obtain ⟨sub, hsub, rfl⟩ := Option.map_eq_some_iff.1 h
            exact he.append (bounded_singleton (.table (ih _ sub bounded_nil hsub)))
          · rename_i old hold
            obtain ⟨sub, hsub, rfl⟩ := Option.map_eq_some_iff.1 h
            cases he.valueAt? hold with
            | table hentries => exact he.withValue key (.table (ih old sub hentries hsub))
          · rename_i old hold
            split at h
            · cases h
            obtain ⟨sub, hsub, rfl⟩ := Option.map_eq_some_iff.1 h
            cases he.valueAt? hold with
            | table hentries => exact he.withValue key (.table (ih old sub hentries hsub))
          · rename_i old hold
            split at h
            · cases h
            obtain ⟨elements, helements, rfl⟩ := Option.map_eq_some_iff.1 h
            cases he.valueAt? hold with
            | tables hall => exact he.withValue key (.tables (alterLast_bounded ih hall helements))
          · cases h

/-- Changes that keep the bound, one after another. -/
theorem foldlM_bounded {α : Type} {change : Entries → α → Option Entries} {xs : List α}
    (h : ∀ x ∈ xs, KeepsBounded (change · x)) : KeepsBounded (xs.foldlM change ·) := by
  induction xs with
  | nil =>
      intro e e' he hfold
      rw [← Option.some.inj hfold]
      exact he
  | cons x xs ih =>
      intro e e' he hfold
      rw [List.forall_mem_cons] at h
      obtain ⟨f, hf, hrest⟩ := Option.bind_eq_some_iff.1 hfold
      exact ih h.2 f e' (h.1 e f he hf) hrest

theorem assignAll_bounded {as : List (List String × Node)} (has : ∀ a ∈ as, a.2.Bounded) :
    KeepsBounded (assignAll · as) :=
  foldlM_bounded fun a ha => assign_bounded (has a ha) a.1

theorem alterAt_bounded {f : Entries → Option Entries} (hf : KeepsBounded f)
    (path : List String) : KeepsBounded (alterAt f path) := by
  induction path with
  | nil => exact hf
  | cons key path ih =>
      intro e e' he h
      rw [alterAt] at h
      split at h
      · obtain ⟨sub, hsub, rfl⟩ := Option.map_eq_some_iff.1 h
        exact he.append (bounded_singleton (.table (ih _ sub bounded_nil hsub)))
      · cases h
      · rename_i old _ hold
        obtain ⟨sub, hsub, rfl⟩ := Option.map_eq_some_iff.1 h
        cases he.valueAt? hold with
        | table hentries => exact he.withValue key (.table (ih _ sub hentries hsub))
      · rename_i old hold
        obtain ⟨elements, helements, rfl⟩ := Option.map_eq_some_iff.1 h
        cases he.valueAt? hold with
        | tables hall => exact he.withValue key (.tables (alterLast_bounded ih hall helements))
      · cases h

theorem openTable_bounded {as : List (List String × Node)} (has : ∀ a ∈ as, a.2.Bounded)
    (key : String) : KeepsBounded (openTable key as) := by
  intro e e' he h
  rw [openTable] at h
  split at h
  · obtain ⟨sub, hsub, rfl⟩ := Option.map_eq_some_iff.1 h
    exact he.append (bounded_singleton (.table (assignAll_bounded has _ sub bounded_nil hsub)))
  · rename_i old hold
    obtain ⟨sub, hsub, rfl⟩ := Option.map_eq_some_iff.1 h
    cases he.valueAt? hold with
    | table hentries =>
        have hfilled := assignAll_bounded has old sub hentries hsub
        exact (he.without key).append (bounded_singleton (.table hfilled))
  · cases h

theorem addElement_bounded {as : List (List String × Node)} (has : ∀ a ∈ as, a.2.Bounded)
    (key : String) : KeepsBounded (addElement key as) := by
  intro e e' he h
  rw [addElement] at h
  split at h
  · obtain ⟨sub, hsub, rfl⟩ := Option.map_eq_some_iff.1 h
    have hfilled := assignAll_bounded has _ sub bounded_nil hsub
    refine he.append (bounded_singleton (.tables fun t ht => ?_))
    rw [List.mem_singleton.1 ht]
    exact hfilled
  · rename_i old hold
    obtain ⟨sub, hsub, rfl⟩ := Option.map_eq_some_iff.1 h
    have hfilled := assignAll_bounded has _ sub bounded_nil hsub
    cases he.valueAt? hold with
    | tables hall =>
        refine he.withValue key (.tables fun t ht => ?_)
        rcases List.mem_append.1 ht with ht | ht
        · exact hall t ht
        · rw [List.mem_singleton.1 ht]
          exact hfilled
  · cases h

end Entries

/-! ## Values -/

/-- A reader of values that gives none with an integer above the bound. -/
def YieldsBounded (value : Reader Node) : Prop :=
  ∀ (s t : List Char) (v : Node), value s = some (v, t) → v.Bounded

theorem items?_bounded {value : Reader Node} (hvalue : YieldsBounded value) {s t : List Char}
    {vs : List Node} (h : items? value s = some (vs, t)) : ∀ v ∈ vs, v.Bounded := by
  induction hlength : s.length using Nat.strongRecOn generalizing s vs t with
  | ind n ih =>
      rw [items?] at h
      split at h
      · cases h
        simp
      split at h
      · cases h
      rename_i v rest hv
      have hfirst := hvalue _ _ _ hv
      split at h
      · cases h
        intro w hw
        rw [List.mem_singleton.1 hw]
        exact hfirst
      · split at h
        · rename_i more _ hshorter
          obtain ⟨⟨ws, u⟩, hws, heq⟩ := Option.map_eq_some_iff.1 h
          cases heq
          have hmore := ih _ (hlength ▸ hshorter) hws rfl
          exact List.forall_mem_cons.2 ⟨hfirst, hmore⟩
        · cases h
      · cases h

theorem assignment?_bounded {value : Reader Node} (hvalue : YieldsBounded value)
    {s t : List Char} {a : List String × Node} (h : assignment? value s = some (a, t)) :
    a.2.Bounded := by
  rw [assignment?] at h
  split at h
  · obtain ⟨⟨v, rest⟩, hv, heq⟩ := Option.map_eq_some_iff.1 h
    cases heq
    exact hvalue _ _ _ hv
  · cases h

theorem inlineEntries?_bounded {value : Reader Node} (hvalue : YieldsBounded value)
    {s t : List Char} {as : List (List String × Node)}
    (h : inlineEntries? value s = some (as, t)) : ∀ a ∈ as, a.2.Bounded := by
  induction hlength : s.length using Nat.strongRecOn generalizing s as t with
  | ind n ih =>
      rw [inlineEntries?] at h
      split at h
      · rename_i a rest ha
        cases h
        intro b hb
        rw [List.mem_singleton.1 hb]
        exact assignment?_bounded hvalue ha
      · rename_i a rest ha
        split at h
        · rename_i hshorter
          obtain ⟨⟨bs, u⟩, hbs, heq⟩ := Option.map_eq_some_iff.1 h
          cases heq
          have hfirst := assignment?_bounded hvalue ha
          have hmore := ih _ (hlength ▸ hshorter) hbs rfl
          exact List.forall_mem_cons.2 ⟨hfirst, hmore⟩
        · cases h
      · cases h

theorem inlineTable?_bounded {value : Reader Node} (hvalue : YieldsBounded value) :
    YieldsBounded (inlineTable? value) := by
  intro s t v h
  rw [inlineTable?] at h
  split at h
  · cases h
    exact .table Entries.bounded_nil
  split at h
  · cases h
  rename_i as rest has
  obtain ⟨e, he, heq⟩ := Option.map_eq_some_iff.1 h
  cases heq
  have hassigned := inlineEntries?_bounded hvalue has
  exact .table (Entries.assignAll_bounded hassigned [] e Entries.bounded_nil he)

/-- Values of any depth. -/
theorem value?_bounded (depth : Nat) : YieldsBounded (value? depth) := by
  induction depth with
  | zero =>
      intro s t v h
      unfold value? at h
      split at h
      · cases h
      · cases h
      · rename_i hdepth
        cases hdepth
      · rename_i hdepth
        cases hdepth
      · exact scalar?_bounded h
  | succ depth ih =>
      intro s t v h
      unfold value? at h
      split at h
      · cases h
      · cases h
      · rename_i hdepth
        cases hdepth
        obtain ⟨⟨vs, rest⟩, hvs, heq⟩ := Option.map_eq_some_iff.1 h
        cases heq
        exact .array (items?_bounded ih hvs)
      · rename_i hdepth
        cases hdepth
        exact inlineTable?_bounded ih _ _ _ h
      · exact scalar?_bounded h

/-! ## Documents -/

/-- No integer in what a line says is above the bound. -/
def Statement.Bounded : Statement → Prop
  | .assign _ v => v.Bounded
  | .header _ => True

theorem header?_bounded {make : List String → String → Header} {closing s t : List Char}
    {st : Statement} (h : header? make closing s = some (st, t)) : st.Bounded := by
  simp only [header?, Option.bind_eq_bind, Option.bind_eq_some_iff] at h
  obtain ⟨_, _, _, _, h⟩ := h
  split at h
  · obtain ⟨_, _, heq⟩ := Option.bind_eq_some_iff.1 h
    cases heq
    exact trivial
  · cases h

theorem line?_bounded {s t : List Char} {sts : List Statement} (h : line? s = some (sts, t)) :
    ∀ st ∈ sts, st.Bounded := by
  rw [line?] at h
  split at h
  · cases h
    simp
  split at h
  · obtain ⟨⟨st, rest⟩, hst, heq⟩ := Option.map_eq_some_iff.1 h
    cases heq
    simpa using header?_bounded hst
  · obtain ⟨⟨st, rest⟩, hst, heq⟩ := Option.map_eq_some_iff.1 h
    cases heq
    simpa using header?_bounded hst
  · obtain ⟨⟨a, rest⟩, ha, h⟩ := Option.bind_eq_some_iff.1 h
    obtain ⟨_, _, heq⟩ := Option.bind_eq_some_iff.1 h
    cases heq
    have hassigned := assignment?_bounded (value?_bounded (depthLimit - 1)) ha
    intro st hst
    rw [List.mem_singleton.1 hst]
    exact hassigned

theorem statements?_bounded {s : List Char} {sts : List Statement}
    (h : statements? s = some sts) : ∀ st ∈ sts, st.Bounded := by
  induction hlength : s.length using Nat.strongRecOn generalizing s sts with
  | ind n ih =>
      rw [statements?] at h
      split at h
      · cases h
        simp
      split at h
      · cases h
      rename_i line rest hline
      split at h
      · rename_i hshorter
        obtain ⟨more, hmore, rfl⟩ := Option.map_eq_some_iff.1 h
        have hrest := ih _ (hlength ▸ hshorter) hmore rfl
        exact List.forall_mem_append.2 ⟨line?_bounded hline, hrest⟩
      · cases h

/-- Grouping the statements moves no value. -/
theorem group_bounded {sts : List Statement} (h : ∀ st ∈ sts, st.Bounded) :
    (∀ a ∈ (group sts).1, a.2.Bounded) ∧
      ∀ sec ∈ (group sts).2, ∀ a ∈ sec.assignments, a.2.Bounded := by
  induction sts with
  | nil => simp [group]
  | cons st sts ih =>
      rw [List.forall_mem_cons] at h
      have hrest := ih h.2
      cases st with
      | assign path v =>
          rw [group]
          exact ⟨List.forall_mem_cons.2 ⟨h.1, hrest.1⟩, hrest.2⟩
      | header hd =>
          rw [group]
          exact ⟨by simp, List.forall_mem_cons.2 ⟨hrest.1, hrest.2⟩⟩

theorem addSection_bounded {sec : Section} (h : ∀ a ∈ sec.assignments, a.2.Bounded) :
    Entries.KeepsBounded (addSection · sec) := by
  intro e e' he hadd
  simp only [addSection] at hadd
  split at hadd
  · exact Entries.alterAt_bounded (Entries.openTable_bounded h _) _ e e' he hadd
  · exact Entries.alterAt_bounded (Entries.addElement_bounded h _) _ e e' he hadd

/-- No integer in a document is above the largest that fits 64 bits with a sign. -/
theorem parse?_bounded {text : String} {e : Entries} (h : parse? text = some e) : e.Bounded := by
  obtain ⟨sts, hsts, hbuild⟩ := Option.bind_eq_some_iff.1 h
  have hgroup := group_bounded (statements?_bounded hsts)
  obtain ⟨root, hroot, hfold⟩ := Option.bind_eq_some_iff.1 hbuild
  have htop := Entries.assignAll_bounded hgroup.1 [] root Entries.bounded_nil hroot
  exact Entries.foldlM_bounded (fun sec hsec => addSection_bounded (hgroup.2 sec hsec)) root e
    htop hfold

end RegisterMigration.Toml
