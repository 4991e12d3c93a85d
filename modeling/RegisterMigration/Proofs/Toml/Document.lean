import Mathlib.Data.List.Nodup
import RegisterMigration.Proofs.Toml.Spelling
import RegisterMigration.Toml.Document

/-!
# Documents read back

A document is written line by line, and a line can be read without looking at those after it.  So a
text that was put together from lines reads as the statements of these lines, whatever follows, and
texts with this property can be put one after another.

What is written is of a simple shape: assignments to bare keys, and then, list after list, sections
that each add one table to the tables under one key.  The tree of such a document has the assigned
values first and then the lists that are not empty, if no key is used twice.

## Main results

* `readsAs_assignment`, `readsAs_elementHeader` — one line.
* `ReadsAs.append`, `ReadsAs.flatMap` — several lines.
* `build?_document` — the tree of such a document.
-/

namespace RegisterMigration.Toml

/-! ## Keys -/

/-- A key that may stand without quotes. -/
def BareKey (key : String) : Prop :=
  key.toList ≠ [] ∧ key.toList.all isBareChar

instance (key : String) : Decidable (BareKey key) :=
  inferInstanceAs (Decidable (_ ∧ _))

theorem BareKey.isBareChar_of_mem {key : String} (h : BareKey key) :
    ∀ c ∈ key.toList, isBareChar c :=
  List.all_eq_true.1 h.2

theorem BareKey.startsNot {key : String} (h : BareKey key) {q : Char} (hq : isBareChar q = false)
    (t : List Char) : StartsNot q (key.toList ++ t) := by
  cases hkey : key.toList with
  | nil => exact absurd hkey h.1
  | cons c cs =>
      intro hc
      have hbare := h.isBareChar_of_mem c (by rw [hkey]; exact List.mem_cons_self)
      rw [Option.some.inj hc, hq] at hbare
      cases hbare

theorem keyPart?_append {key : String} (h : BareKey key) {c : Char} (hc : isBareChar c = false)
    (t : List Char) : keyPart? (key.toList ++ c :: t) = some (key, c :: t) := by
  unfold keyPart?
  split
  · rename_i hquote
    exact absurd hquote ((h.startsNot rfl _).ne_cons _)
  · rename_i hquote
    exact absurd hquote ((h.startsNot rfl _).ne_cons _)
  · rw [List.takeWhile_append_of_pos h.isBareChar_of_mem,
      List.dropWhile_append_of_pos h.isBareChar_of_mem, List.takeWhile_cons_of_neg (by simp [hc]),
      List.dropWhile_cons_of_neg (by simp [hc]), List.append_nil]
    cases hkey : key.toList with
    | nil => exact absurd hkey h.1
    | cons d ds =>
        simp only
        rw [← hkey, String.ofList_toList]

/-- A bare key is read up to the first character that is neither part of it nor a blank. -/
theorem key?_append {key : String} (h : BareKey key) {c : Char} (hc : isBareChar c = false)
    {t : List Char} (hpoint : StartsNot '.' (skipBlanks (c :: t))) :
    key? (key.toList ++ c :: t) = some ([key], skipBlanks (c :: t)) := by
  have hstart := skipBlanks_of_startsNot (h.startsNot (q := ' ') rfl (c :: t))
    (h.startsNot (q := '\t') rfl (c :: t))
  have hparts : keyParts? (key.toList ++ c :: t) = some ([key], skipBlanks (c :: t)) := by
    rw [keyParts?, hstart, keyPart?_append h hc]
    simp only
    split
    · rename_i hdot
      exact absurd hdot (hpoint.ne_cons _)
    · rfl
  rw [key?, hparts]
  rfl

/-! ## Lines -/

theorem lineEnd?_lineFeed (t : List Char) : lineEnd? ('\n' :: t) = some t := by
  rfl

/-- A line that starts with something to read does not end there. -/
theorem lineEnd?_eq_none {s : List Char} (hs : s ≠ [])
    (h : ∀ q ∈ [' ', '\t', '#', '\n', '\r'], StartsNot q s) : lineEnd? s = none := by
  have hblanks := skipBlanks_of_startsNot (h ' ' (by simp)) (h '\t' (by simp))
  have hbreak : lineBreak? s = none := by
    unfold lineBreak?
    split
    · exact absurd rfl ((h '\n' (by simp)).ne_cons _)
    · exact absurd rfl ((h '\r' (by simp)).ne_cons _)
    · rfl
  have hempty : s.isEmpty = false := by
    rw [List.isEmpty_eq_false_iff]
    exact hs
  rw [lineEnd?, hblanks]
  split
  · exact absurd rfl ((h '#' (by simp)).ne_cons _)
  · simp [hempty, hbreak]

theorem BareKey.lineEnd?_eq_none {key : String} (h : BareKey key) (t : List Char) :
    lineEnd? (key.toList ++ t) = none := by
  have hne : key.toList ++ t ≠ [] := by
    intro hnil
    exact h.1 (List.append_eq_nil_iff.1 hnil).1
  have hblank : [' ', '\t', '#', '\n', '\r'].all fun q => isBareChar q = false := by decide
  exact Toml.lineEnd?_eq_none hne fun q hq =>
    h.startsNot (of_decide_eq_true (List.all_eq_true.1 hblank q hq)) t

theorem line?_writeAssignment {key : String} (hkey : BareKey key) {v : List Char} {node : Node}
    (hv : Spells v node) (t : List Char) :
    line? (writeAssignment key v ++ t) = some ([.assign [key] node], t) := by
  have hwrite : writeAssignment key v ++ t =
      key.toList ++ ' ' :: ('=' :: ' ' :: (v ++ '\n' :: t)) := by
    have hequals : " = ".toList = [' ', '=', ' '] := by decide
    unfold writeAssignment
    simp only [hequals, List.append_assoc, List.cons_append, List.nil_append]
  have hskip : skipBlanks (' ' :: ('=' :: ' ' :: (v ++ '\n' :: t))) =
      '=' :: ' ' :: (v ++ '\n' :: t) := rfl
  have hread := key?_append hkey (c := ' ') rfl (t := '=' :: ' ' :: (v ++ '\n' :: t))
    (by rw [hskip]; simp [StartsNot])
  rw [hskip] at hread
  have hvalue : skipBlanks (' ' :: (v ++ '\n' :: t)) = v ++ '\n' :: t := (hv t).2
  have hassign : assignment? (value? (depthLimit - 1))
      (key.toList ++ ' ' :: ('=' :: ' ' :: (v ++ '\n' :: t))) =
        some (([key], node), '\n' :: t) := by
    rw [assignment?, hread]
    simp only [hvalue, (hv t).1]
    rfl
  have hstart := skipBlanks_of_startsNot
    (hkey.startsNot (q := ' ') rfl (' ' :: ('=' :: ' ' :: (v ++ '\n' :: t))))
    (hkey.startsNot (q := '\t') rfl _)
  rw [hwrite, line?, hkey.lineEnd?_eq_none]
  simp only [hstart]
  split
  · rename_i hbracket
    exact absurd hbracket ((hkey.startsNot rfl _).ne_cons _)
  · rename_i hbracket
    exact absurd hbracket ((hkey.startsNot rfl _).ne_cons _)
  · rw [hassign]
    simp [lineEnd?_lineFeed]

theorem line?_elementHeader {key : String} (hkey : BareKey key) (t : List Char) :
    line? ('[' :: '[' :: (key.toList ++ ']' :: ']' :: '\n' :: t)) =
      some ([.header (.element [] key)], t) := by
  have hread : key? (key.toList ++ ']' :: ']' :: '\n' :: t) =
      some ([key], ']' :: ']' :: '\n' :: t) :=
    key?_append hkey rfl (by simp [skipBlanks, StartsNot])
  have hheader : header? .element [']', ']'] (key.toList ++ ']' :: ']' :: '\n' :: t) =
      some (.header (.element [] key), t) := by
    rw [header?, hread]
    simp [splitPath, lineEnd?_lineFeed]
  have hend : lineEnd? ('[' :: '[' :: (key.toList ++ ']' :: ']' :: '\n' :: t)) = none :=
    lineEnd?_eq_none (by simp) (by simp [StartsNot])
  have hskip : skipBlanks ('[' :: '[' :: (key.toList ++ ']' :: ']' :: '\n' :: t)) =
      '[' :: '[' :: (key.toList ++ ']' :: ']' :: '\n' :: t) :=
    skipBlanks_of_startsNot (by simp [StartsNot]) (by simp [StartsNot])
  rw [line?, hend]
  simp only [hskip, hheader]
  rfl

/-! ## Texts made of lines -/

/-- A text reads as certain statements, whatever text comes after it. -/
def ReadsAs (text : List Char) (sts : List Statement) : Prop :=
  ∀ t, statements? (text ++ t) = (statements? t).map (sts ++ ·)

theorem ReadsAs.statements?_eq {text : List Char} {sts : List Statement} (h : ReadsAs text sts) :
    statements? text = some sts := by
  have hall := h []
  have hnil : statements? [] = some [] := by
    rw [statements?]
    rfl
  rw [List.append_nil, hnil] at hall
  simpa using hall

theorem readsAs_nil : ReadsAs [] [] := by
  intro t
  simp

theorem ReadsAs.append {a b : List Char} {as bs : List Statement} (ha : ReadsAs a as)
    (hb : ReadsAs b bs) : ReadsAs (a ++ b) (as ++ bs) := by
  intro t
  rw [List.append_assoc, ha, hb, Option.map_map]
  simp [Function.comp_def]

theorem ReadsAs.flatMap {α : Type} {text : α → List Char} {sts : α → List Statement}
    {xs : List α} (h : ∀ x ∈ xs, ReadsAs (text x) (sts x)) :
    ReadsAs (xs.flatMap text) (xs.flatMap sts) := by
  induction xs with
  | nil => exact readsAs_nil
  | cons x xs ih =>
      rw [List.forall_mem_cons] at h
      rw [List.flatMap_cons, List.flatMap_cons]
      exact h.1.append (ih h.2)

theorem readsAs_of_line? {text : List Char} {sts : List Statement} (hne : text ≠ [])
    (h : ∀ t, line? (text ++ t) = some (sts, t)) : ReadsAs text sts := by
  intro t
  have hpos : 0 < text.length := List.length_pos_iff.2 hne
  have hlength : t.length < (text ++ t).length := by
    rw [List.length_append]
    omega
  rw [statements?, if_neg (by simp [hne]), h t]
  simp only [hlength, if_true]

theorem readsAs_assignment {key : String} (hkey : BareKey key) {v : List Char} {node : Node}
    (hv : Spells v node) : ReadsAs (writeAssignment key v) [.assign [key] node] := by
  refine readsAs_of_line? ?_ (line?_writeAssignment hkey hv)
  unfold writeAssignment
  simp

theorem ReadsAs.assignment {text : List Char} {sts : List Statement} (h : ReadsAs text sts)
    {key : String} (hkey : BareKey key) {v : List Char} {node : Node} (hv : Spells v node) :
    ReadsAs (text ++ writeAssignment key v) (sts ++ [.assign [key] node]) :=
  h.append (readsAs_assignment hkey hv)

/-- The header of one more table, with the empty line before it. -/
theorem readsAs_elementHeader {key : String} (hkey : BareKey key) :
    ReadsAs (writeElementHeader key) [.header (.element [] key)] := by
  have hblank : ReadsAs ['\n'] [] := readsAs_of_line? (by simp) fun t => by
    rw [line?, List.singleton_append, lineEnd?_lineFeed]
  have hheader : ReadsAs ('[' :: '[' :: (key.toList ++ [']', ']', '\n']))
      [.header (.element [] key)] := readsAs_of_line? (by simp) fun t => by
    have hline := line?_elementHeader hkey t
    simpa using hline
  have hwrite : writeElementHeader key =
      ['\n'] ++ '[' :: '[' :: (key.toList ++ [']', ']', '\n']) := by
    have hopen : "\n[[".toList = ['\n', '[', '['] := by decide
    have hclose : "]]\n".toList = [']', ']', '\n'] := by decide
    unfold writeElementHeader
    simp only [hopen, hclose, List.cons_append, List.nil_append]
  rw [hwrite]
  exact hblank.append hheader

/-! ## The tree -/

/-- The assignments that make up a table, each under a key of its own. -/
def assignments (e : Entries) : List (List String × Node) :=
  e.map fun (key, v) => ([key], v)

/-- The statements that make up a table. -/
def assigns (e : Entries) : List Statement :=
  e.map fun (key, v) => .assign [key] v

/-- The statements of tables under one key, each with a header of its own. -/
def elements (key : String) (tables : List Entries) : List Statement :=
  tables.flatMap fun e => .header (.element [] key) :: assigns e

/-- What tables under one key are in the tree; nothing if there are none. -/
def listed (key : String) : List Entries → Entries
  | [] => []
  | e :: es => [(key, .tables (e :: es))]

/-- What tables under one key are in the top table; nothing if there are some. -/
def unlisted (key : String) : List Entries → Entries
  | [] => [(key, .array [])]
  | _ :: _ => []

theorem assigns_append (e f : Entries) : assigns (e ++ f) = assigns e ++ assigns f :=
  List.map_append

theorem group_assigns_append (e : Entries) (sts : List Statement) :
    group (assigns e ++ sts) = (assignments e ++ (group sts).1, (group sts).2) := by
  induction e with
  | nil => rfl
  | cons a e ih =>
      show group (.assign [a.1] a.2 :: (assigns e ++ sts)) = _
      rw [group, ih]
      rfl

theorem group_elements_append (key : String) (tables : List Entries) {sts : List Statement}
    (hsts : (group sts).1 = []) :
    group (elements key tables ++ sts) =
      ([], tables.map (fun e => ⟨.element [] key, assignments e⟩) ++ (group sts).2) := by
  induction tables with
  | nil => exact Prod.ext hsts rfl
  | cons e tables ih =>
      have hsplit : elements key (e :: tables) ++ sts =
          .header (.element [] key) :: (assigns e ++ (elements key tables ++ sts)) := by
        simp [elements]
      rw [hsplit, group, group_assigns_append, ih]
      simp

theorem valueAt?_eq_none_iff {e : Entries} {key : String} :
    e.valueAt? key = none ↔ key ∉ e.map Prod.fst := by
  rw [Entries.valueAt?, List.lookup_eq_none_iff]
  simp only [bne_iff_ne, List.mem_map, not_exists, not_and]
  exact forall₂_congr fun _ _ => ne_comm

theorem assign_of_not_mem {e : Entries} {key : String} (h : key ∉ e.map Prod.fst) (v : Node) :
    Entries.assign v [key] e = some (e ++ [(key, v)]) := by
  rw [Entries.assign, valueAt?_eq_none_iff.2 h]
  rfl

/-- Values under different keys are added one after another. -/
theorem assignAll_assignments {acc e : Entries} (h : ((acc ++ e).map Prod.fst).Nodup) :
    acc.assignAll (assignments e) = some (acc ++ e) := by
  induction e generalizing acc with
  | nil => simp [Entries.assignAll, assignments]
  | cons a e ih =>
      have hsplit : acc ++ a :: e = acc ++ [(a.1, a.2)] ++ e := by simp
      have hnew : a.1 ∉ acc.map Prod.fst := by
        intro hmem
        rw [List.map_append, List.map_cons] at h
        exact (List.nodup_append.1 h).2.2 a.1 hmem a.1 List.mem_cons_self rfl
      have hstep : acc.assignAll (assignments (a :: e)) =
          (Entries.assign a.2 [a.1] acc).bind fun acc => acc.assignAll (assignments e) := rfl
      rw [hsplit] at h ⊢
      rw [hstep, assign_of_not_mem hnew, Option.bind_some, ih h]

/-- The section of one more table under a key. -/
def elementSection (key : String) (e : Entries) : Section :=
  ⟨.element [] key, assignments e⟩

theorem addSection_elementSection_of_not_mem {root e : Entries} {key : String}
    (hkey : key ∉ root.map Prod.fst) (he : (e.map Prod.fst).Nodup) :
    addSection root (elementSection key e) = some (root ++ [(key, .tables [e])]) := by
  have hassign : Entries.assignAll [] (assignments e) = some e :=
    assignAll_assignments (by simpa using he)
  rw [addSection, elementSection]
  simp only [Entries.alterAt, Entries.addElement, valueAt?_eq_none_iff.2 hkey, hassign]
  rfl

theorem addSection_elementSection_of_mem {root e : Entries} {key : String}
    {tables : List Entries} (hkey : key ∉ root.map Prod.fst) (he : (e.map Prod.fst).Nodup) :
    addSection (root ++ [(key, .tables tables)]) (elementSection key e) =
      some (root ++ [(key, .tables (tables ++ [e]))]) := by
  have hassign : Entries.assignAll [] (assignments e) = some e :=
    assignAll_assignments (by simpa using he)
  have hvalue : Entries.valueAt? (root ++ [(key, .tables tables)]) key = some (.tables tables) := by
    rw [Entries.valueAt?, List.lookup_append]
    have hroot : root.lookup key = none := valueAt?_eq_none_iff.2 hkey
    rw [hroot]
    simp
  have hother : ∀ v, root.withValue key v = root := by
    intro v
    refine (List.map_congr_left fun a ha => ?_).trans (List.map_id root)
    have hne : a.1 ≠ key := by
      intro h
      exact hkey (h ▸ List.mem_map_of_mem ha)
    simp [hne]
  have hwith : ∀ v, Entries.withValue (root ++ [(key, .tables tables)]) key v =
      root ++ [(key, v)] := by
    intro v
    have hsplit : Entries.withValue (root ++ [(key, .tables tables)]) key v =
        root.withValue key v ++ Entries.withValue [(key, .tables tables)] key v :=
      List.map_append
    rw [hsplit, hother]
    simp [Entries.withValue]
  rw [addSection, elementSection]
  simp only [Entries.alterAt, Entries.addElement, hvalue, hassign, Option.map_some, hwith]

/-- Sections under one key that the tree does not have yet. -/
theorem foldlM_elementSection {root : Entries} {key : String} {tables : List Entries}
    (hkey : key ∉ root.map Prod.fst) (htables : ∀ e ∈ tables, (e.map Prod.fst).Nodup) :
    (tables.map (elementSection key)).foldlM addSection root =
      some (root ++ listed key tables) := by
  have hmore : ∀ more : List Entries, (∀ e ∈ more, (e.map Prod.fst).Nodup) →
      ∀ found : List Entries,
        (more.map (elementSection key)).foldlM addSection (root ++ [(key, .tables found)]) =
          some (root ++ [(key, .tables (found ++ more))]) := by
    intro more hmore
    induction more with
    | nil => simp
    | cons e more ih =>
        intro found
        rw [List.forall_mem_cons] at hmore
        rw [List.map_cons, List.foldlM_cons, addSection_elementSection_of_mem hkey hmore.1]
        show List.foldlM addSection _ _ = _
        rw [ih hmore.2, List.append_assoc, List.singleton_append]
  cases tables with
  | nil => simp [listed]
  | cons e tables =>
      rw [List.forall_mem_cons] at htables
      rw [List.map_cons, List.foldlM_cons, addSection_elementSection_of_not_mem hkey htables.1]
      show List.foldlM addSection _ _ = _
      rw [hmore tables htables.2]
      rfl

/-- Statements of lists of tables make one section for each table. -/
theorem group_flatMap_elements (lists : List (String × List Entries)) :
    group (lists.flatMap fun l => elements l.1 l.2) =
      ([], lists.flatMap fun l => l.2.map (elementSection l.1)) := by
  induction lists with
  | nil => rfl
  | cons l lists ih =>
      rw [List.flatMap_cons, group_elements_append l.1 l.2 (by rw [ih]), ih]
      rfl

theorem keys_listed (key : String) (tables : List Entries) :
    ∀ k ∈ (listed key tables).map Prod.fst, k = key := by
  cases tables with
  | nil => simp [listed]
  | cons e tables => simp [listed]

/-- Lists of tables under different keys that the tree does not have yet. -/
theorem foldlM_lists {root : Entries} {lists : List (String × List Entries)}
    (hkeys : (lists.map Prod.fst).Nodup)
    (hroot : ∀ l ∈ lists, l.2 = [] ∨ l.1 ∉ root.map Prod.fst)
    (htables : ∀ l ∈ lists, ∀ e ∈ l.2, (e.map Prod.fst).Nodup) :
    (lists.flatMap fun l => l.2.map (elementSection l.1)).foldlM addSection root =
      some (root ++ lists.flatMap fun l => listed l.1 l.2) := by
  induction lists generalizing root with
  | nil => simp
  | cons l lists ih =>
      rw [List.forall_mem_cons] at hroot htables
      rw [List.map_cons, List.nodup_cons] at hkeys
      have hfirst : (l.2.map (elementSection l.1)).foldlM addSection root =
          some (root ++ listed l.1 l.2) := by
        rcases hroot.1 with hempty | hkey
        · simp [hempty, listed]
        · exact foldlM_elementSection hkey htables.1
      have hnext : ∀ m ∈ lists, m.2 = [] ∨ m.1 ∉ (root ++ listed l.1 l.2).map Prod.fst := by
        intro m hm
        refine (hroot.2 m hm).imp_right fun hnew hmem => ?_
        rw [List.map_append, List.mem_append] at hmem
        rcases hmem with hmem | hmem
        · exact hnew hmem
        · have hsame := keys_listed l.1 l.2 m.1 hmem
          exact hkeys.1 (hsame ▸ List.mem_map_of_mem hm)
      rw [List.flatMap_cons, List.foldlM_append, hfirst]
      show List.foldlM addSection _ _ = _
      rw [ih hkeys.2 hnext htables.2, List.flatMap_cons, List.append_assoc]

theorem mem_keys_unlisted {key k : String} {tables : List Entries}
    (h : k ∈ (unlisted key tables).map Prod.fst) : k = key ∧ tables = [] := by
  cases tables with
  | nil => exact ⟨List.mem_singleton.1 h, rfl⟩
  | cons e tables => simp [unlisted] at h

/-- Empty lists are under the keys of some of the lists, in the same order. -/
theorem keys_unlisted_sublist (lists : List (String × List Entries)) :
    ((lists.flatMap fun l => unlisted l.1 l.2).map Prod.fst).Sublist (lists.map Prod.fst) := by
  induction lists with
  | nil => exact List.Sublist.refl []
  | cons l lists ih =>
      rw [List.flatMap_cons, List.map_append, List.map_cons]
      cases hl : l.2 with
      | nil => exact ih.cons_cons l.1
      | cons e tables => exact ih.cons l.1

/-- The tree of a document that assigns the entries of its top table, among them the lists that are
empty, and goes on with the other lists. -/
theorem build?_document {top : Entries} {lists : List (String × List Entries)}
    (hkeys : (top.map Prod.fst ++ lists.map Prod.fst).Nodup)
    (htables : ∀ l ∈ lists, ∀ e ∈ l.2, (e.map Prod.fst).Nodup) :
    build? (assigns (top ++ lists.flatMap fun l => unlisted l.1 l.2) ++
        lists.flatMap fun l => elements l.1 l.2) =
      some (top ++ (lists.flatMap fun l => unlisted l.1 l.2) ++
        lists.flatMap fun l => listed l.1 l.2) := by
  have hlists : (lists.map Prod.fst).Nodup := hkeys.of_append_right
  have hall : ((top ++ lists.flatMap fun l => unlisted l.1 l.2).map Prod.fst).Nodup := by
    rw [List.map_append]
    exact hkeys.sublist ((List.Sublist.refl _).append (keys_unlisted_sublist lists))
  have hassign : Entries.assignAll []
      (assignments (top ++ lists.flatMap fun l => unlisted l.1 l.2)) =
        some (top ++ lists.flatMap fun l => unlisted l.1 l.2) :=
    assignAll_assignments (by simpa using hall)
  have hnew : ∀ l ∈ lists, l.2 = [] ∨
      l.1 ∉ (top ++ lists.flatMap fun l => unlisted l.1 l.2).map Prod.fst := by
    intro l hl
    by_cases hempty : l.2 = []
    · exact Or.inl hempty
    · right
      rw [List.map_append, List.mem_append]
      rintro (htop | hunlisted)
      · exact (List.nodup_append.1 hkeys).2.2 l.1 htop l.1 (List.mem_map_of_mem hl) rfl
      · -- Only an empty list has its key there, and no two lists have one key.
        rw [List.map_flatMap, List.mem_flatMap] at hunlisted
        obtain ⟨m, hm, hmem⟩ := hunlisted
        have hkey := mem_keys_unlisted hmem
        have hsame : l = m := List.inj_on_of_nodup_map hlists hl hm hkey.1
        exact hempty (hsame ▸ hkey.2)
  rw [build?, group_assigns_append, group_flatMap_elements]
  simp only [List.append_nil, hassign, Option.bind_some]
  exact foldlM_lists hlists hnew htables

end RegisterMigration.Toml
