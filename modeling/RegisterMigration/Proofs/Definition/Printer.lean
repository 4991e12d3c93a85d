import RegisterMigration.Definition.Document
import RegisterMigration.Definition.Printer
import RegisterMigration.Proofs.Toml.Document
import RegisterMigration.Proofs.Version

/-!
# A written definition reads back

A document says first what the language is, then which lists have no records, and then has a
section for each record of the other lists.  Read as lines, these are the assignments of the top
table and the headers and assignments of the sections; read as a tree, they are the tables that are
described here beside the records.

Decoding takes the entries of the tree one after another.  An empty list leaves a definition as it
is before it is filled in, and a list of records fills in the records, so each part of the
definition is filled in once.

## Main results

* `readsAs_documentChars` — the lines of a document.
* `parse?_documentChars` — its tree.
* `ofEntries_documentEntries` — the definition that the tree holds.
* `ofToml_of_toToml?` — a document is read as the definition that it was written for.
-/

namespace RegisterMigration

open Toml

/-! ## Sections -/

/-- The table of a compiler specification. -/
def CompilerSpec.entries (c : CompilerSpec) : Entries :=
  [("id", .string c.id), ("name", .string c.name)]

/-- The table of an address space. -/
def AddressSpace.entries (s : AddressSpace) : Entries :=
  [("name", .string s.name), ("kind", .string s.kind.name), ("size", .integer s.size.toNat),
    ("default", .boolean s.isDefault)]

/-- The table of a register. -/
def RegisterDecl.entries (r : RegisterDecl) : Entries :=
  [("name", .string r.name), ("space", .string r.space), ("offset", .integer r.offset.toNat),
    ("bit-size", .integer r.bitSize.toNat)] ++
    if r.context then [("context", .boolean true)] else []

/-- The table of a context field. -/
def ContextField.entries (f : ContextField) : Entries :=
  [("name", .string f.name),
    ("range", .array [.integer f.range.lo.toNat, .integer f.range.hi.toNat])]

theorem CompilerSpec.readsAs_toSection (c : CompilerSpec) :
    ReadsAs c.toSection (.header (.element [] "compiler-spec") :: assigns c.entries) :=
  (readsAs_elementHeader (by decide))
    |>.assignment (by decide) (spells_string c.id)
    |>.assignment (by decide) (spells_string c.name)

theorem AddressSpace.readsAs_toSection (s : AddressSpace) :
    ReadsAs s.toSection (.header (.element [] "space") :: assigns s.entries) :=
  (readsAs_elementHeader (by decide))
    |>.assignment (by decide) (spells_string s.name)
    |>.assignment (by decide) (spells_string s.kind.name)
    |>.assignment (by decide) (spells_integer (toNat_lt_integers s.size))
    |>.assignment (by decide) (spells_boolean s.isDefault)

/-- A register of which the offset is a TOML integer. -/
theorem RegisterDecl.readsAs_toSection {r : RegisterDecl}
    (hoffset : r.offset.toNat < UInt64.size / 2) :
    ReadsAs r.toSection (.header (.element [] "register") :: assigns r.entries) := by
  have hfields : ReadsAs
      (writeElementHeader "register"
        ++ writeAssignment "name" (writeString r.name)
        ++ writeAssignment "space" (writeString r.space)
        ++ writeAssignment "offset" (writeNat r.offset.toNat)
        ++ writeAssignment "bit-size" (writeNat r.bitSize.toNat))
      (.header (.element [] "register") :: assigns
        [("name", .string r.name), ("space", .string r.space), ("offset", .integer r.offset.toNat),
          ("bit-size", .integer r.bitSize.toNat)]) :=
    (readsAs_elementHeader (by decide))
      |>.assignment (by decide) (spells_string r.name)
      |>.assignment (by decide) (spells_string r.space)
      |>.assignment (by decide) (spells_integer hoffset)
      |>.assignment (by decide) (spells_integer (toNat_lt_integers r.bitSize))
  have hcontext : ReadsAs
      (if r.context then writeAssignment "context" (writeBool true) else [])
      (assigns (if r.context then [("context", .boolean true)] else [])) := by
    cases r.context with
    | false => exact readsAs_nil
    | true => exact readsAs_assignment (by decide) (spells_boolean true)
  have hall := hfields.append hcontext
  rw [List.cons_append, ← assigns_append] at hall
  exact hall

theorem ContextField.readsAs_toSection (f : ContextField) :
    ReadsAs f.toSection (.header (.element [] "context-field") :: assigns f.entries) :=
  (readsAs_elementHeader (by decide))
    |>.assignment (by decide) (spells_string f.name)
    |>.assignment (by decide)
      (spells_pair (toNat_lt_integers f.range.lo) (toNat_lt_integers f.range.hi))

/-! ## The whole document -/

namespace Definition

/-- What a document says about the language itself. -/
def identityEntries (d : Definition) : Entries :=
  [("id", .string d.id), ("processor", .string d.processor),
    ("endianness", .string d.endianness.name), ("version", .string (toString d.version)),
    ("default-compiler-spec", .string d.defaultCompilerSpec)]

/-- The lists of records of a definition. -/
def lists (d : Definition) : List (String × List Entries) :=
  [("compiler-spec", d.compilerSpecs.map CompilerSpec.entries),
    ("space", d.spaces.map AddressSpace.entries),
    ("register", d.registers.map RegisterDecl.entries),
    ("context-field", d.contextFields.map ContextField.entries)]

/-- The tree of a definition's document. -/
def documentEntries (d : Definition) : Entries :=
  d.identityEntries ++ (d.lists.flatMap fun l => unlisted l.1 l.2) ++
    d.lists.flatMap fun l => listed l.1 l.2

theorem readsAs_emptyList {α : Type} (key : String) (hkey : BareKey key) (entries : α → Entries)
    (xs : List α) : ReadsAs (emptyList key xs) (assigns (unlisted key (xs.map entries))) := by
  cases xs with
  | nil => exact readsAs_assignment hkey spells_emptyArray
  | cons x xs => exact readsAs_nil

/-- The sections of records are the elements of their list. -/
theorem readsAs_sections {α : Type} {key : String} {text : α → List Char} {entries : α → Entries}
    {xs : List α}
    (h : ∀ x ∈ xs, ReadsAs (text x) (.header (.element [] key) :: assigns (entries x))) :
    ReadsAs (xs.flatMap text) (elements key (xs.map entries)) := by
  rw [elements, List.flatMap_map]
  exact .flatMap h

theorem writable_iff {d : Definition} :
    d.writable ↔ ∀ r ∈ d.registers, r.offset.toNat < UInt64.size / 2 := by
  rw [writable, List.all_eq_true]
  exact forall₂_congr fun _ _ => decide_eq_true_iff

/-- The lines of a document. -/
theorem readsAs_documentChars {d : Definition} (h : d.writable) :
    ReadsAs d.documentChars
      (assigns (d.identityEntries ++ d.lists.flatMap fun l => unlisted l.1 l.2) ++
        d.lists.flatMap fun l => elements l.1 l.2) := by
  have hidentity : ReadsAs
      (writeAssignment "id" (writeString d.id)
        ++ writeAssignment "processor" (writeString d.processor)
        ++ writeAssignment "endianness" (writeString d.endianness.name)
        ++ writeAssignment "version" (writeString (toString d.version))
        ++ writeAssignment "default-compiler-spec" (writeString d.defaultCompilerSpec))
      (assigns d.identityEntries) :=
    (readsAs_assignment (by decide) (spells_string d.id))
      |>.assignment (by decide) (spells_string d.processor)
      |>.assignment (by decide) (spells_string d.endianness.name)
      |>.assignment (by decide) (spells_string (toString d.version))
      |>.assignment (by decide) (spells_string d.defaultCompilerSpec)
  have hall := hidentity
    |>.append (readsAs_emptyList "compiler-spec" (by decide) CompilerSpec.entries d.compilerSpecs)
    |>.append (readsAs_emptyList "space" (by decide) AddressSpace.entries d.spaces)
    |>.append (readsAs_emptyList "register" (by decide) RegisterDecl.entries d.registers)
    |>.append (readsAs_emptyList "context-field" (by decide) ContextField.entries d.contextFields)
    |>.append (readsAs_sections fun c (_ : c ∈ d.compilerSpecs) => c.readsAs_toSection)
    |>.append (readsAs_sections fun s (_ : s ∈ d.spaces) => s.readsAs_toSection)
    |>.append (readsAs_sections fun _ hr =>
      RegisterDecl.readsAs_toSection (writable_iff.1 h _ hr))
    |>.append (readsAs_sections fun f (_ : f ∈ d.contextFields) => f.readsAs_toSection)
  rw [lists]
  simp only [assigns_append, List.flatMap_cons, List.flatMap_nil, List.append_nil,
    ← List.append_assoc]
  exact hall

theorem keys_nodup_of_mem_lists {d : Definition} :
    ∀ l ∈ d.lists, ∀ e ∈ l.2, (e.map Prod.fst).Nodup := by
  intro l hl e he
  simp only [lists, List.mem_cons, List.not_mem_nil, or_false] at hl
  rcases hl with rfl | rfl | rfl | rfl
  · obtain ⟨c, _, rfl⟩ := List.mem_map.1 he
    show ["id", "name"].Nodup
    decide
  · obtain ⟨s, _, rfl⟩ := List.mem_map.1 he
    show ["name", "kind", "size", "default"].Nodup
    decide
  · obtain ⟨r, _, rfl⟩ := List.mem_map.1 he
    rw [RegisterDecl.entries]
    cases r.context with
    | false =>
        show ["name", "space", "offset", "bit-size"].Nodup
        decide
    | true =>
        show ["name", "space", "offset", "bit-size", "context"].Nodup
        decide
  · obtain ⟨f, _, rfl⟩ := List.mem_map.1 he
    show ["name", "range"].Nodup
    decide

theorem dropByteOrderMark_documentChars (d : Definition) :
    dropByteOrderMark d.documentChars = d.documentChars := by
  have hkey : BareKey "id" := by decide
  have hstart : StartsNot '\ufeff' d.documentChars := by
    unfold documentChars writeAssignment
    simp only [List.append_assoc]
    exact hkey.startsNot rfl _
  unfold dropByteOrderMark
  split
  · rename_i hmark
    exact absurd hmark (hstart.ne_cons _)
  · rfl

/-- The tree of the document that is written for a definition. -/
theorem parse?_documentChars {d : Definition} (h : d.writable) :
    parse? (String.ofList d.documentChars) = some d.documentEntries := by
  have hkeys : (d.identityEntries.map Prod.fst ++ d.lists.map Prod.fst).Nodup := by
    show ["id", "processor", "endianness", "version", "default-compiler-spec", "compiler-spec",
      "space", "register", "context-field"].Nodup
    decide
  rw [parse?, String.toList_ofList, dropByteOrderMark_documentChars,
    (readsAs_documentChars h).statements?_eq, Option.bind_some,
    build?_document hkeys keys_nodup_of_mem_lists]
  rfl

end Definition

/-! ## Records -/

namespace Toml

theorem decodeNat_natCast {bound n : Nat} (h : n < bound) (expected : String) :
    decodeNat bound expected (.integer n) = .ok n := by
  have hrange : (0 : Int) ≤ n ∧ (n : Int) < bound := by omega
  rw [decodeNat, if_pos hrange, Int.toNat_natCast]

theorem decodeUInt32_toNat (n : UInt32) : decodeUInt32 (.integer n.toNat) = .ok n := by
  rw [decodeUInt32, decodeNat_natCast n.toNat_lt]
  simp [Except.map]

theorem decodeUInt64_toNat (n : UInt64) : decodeUInt64 (.integer n.toNat) = .ok n := by
  rw [decodeUInt64, decodeNat_natCast n.toNat_lt]
  simp [Except.map]

theorem decodePair_toNat (a b : UInt32) :
    decodePair decodeUInt32 (.array [.integer a.toNat, .integer b.toNat]) = .ok (a, b) := by
  show (do
    let a ← decodeUInt32 (.integer a.toNat)
    let b ← decodeUInt32 (.integer b.toNat)
    return (a, b)) = _
  rw [decodeUInt32_toNat, decodeUInt32_toNat]
  rfl

/-- Records that are read back one by one are read back from a list of tables. -/
theorem decodeList_tables {α : Type} {item : Decoder α} {entries : α → Entries}
    (h : ∀ x, item (.table .explicit (entries x)) = .ok x) (xs : List α) :
    decodeList item (.tables (xs.map entries)) = .ok xs := by
  show ((xs.map entries).map (Node.table .explicit)).mapM item = _
  induction xs with
  | nil => rfl
  | cons x xs ih =>
      rw [List.map_cons, List.map_cons, List.mapM_cons, h, ih]
      rfl

end Toml

theorem CompilerSpec.decode_entries (c : CompilerSpec) :
    CompilerSpec.shape.decode (.table .explicit c.entries) = .ok c := by
  rfl

theorem AddressSpace.decode_entries (s : AddressSpace) :
    AddressSpace.shape.decode (.table .explicit s.entries) = .ok s := by
  have hkind : decodeWord SpaceKind.all SpaceKind.name (.string s.kind.name) = .ok s.kind := by
    cases s.kind <;> rfl
  simp only [RecordShape.decode, RecordShape.ofEntries, Node.entries?, entries, shape,
    List.foldlM_cons, List.foldlM_nil, hkind, decodeUInt32_toNat]
  rfl

theorem RegisterDecl.decode_entries (r : RegisterDecl) :
    RegisterDecl.shape.decode (.table .explicit r.entries) = .ok r := by
  obtain ⟨name, space, offset, bitSize, context⟩ := r
  cases context <;>
    simp only [RecordShape.decode, RecordShape.ofEntries, Node.entries?, entries, shape,
      List.cons_append, List.nil_append, List.foldlM_cons, List.foldlM_nil, decodeUInt64_toNat,
      decodeUInt32_toNat, Bool.false_eq_true, if_true, if_false] <;>
    rfl

theorem ContextField.decode_entries (f : ContextField) :
    ContextField.shape.decode (.table .explicit f.entries) = .ok f := by
  simp only [RecordShape.decode, RecordShape.ofEntries, Node.entries?, entries, shape,
    List.foldlM_cons, List.foldlM_nil, BitRange.decode, decodePair_toNat]
  rfl

/-! ## The definition -/

namespace Definition

theorem decode_version (v : Version) : Version.decode (.string (toString v)) = .ok v := by
  have hread : ∀ text, Version.parse text = .ok v → Version.decode (.string text) = .ok v := by
    intro text h
    unfold Version.decode
    simp only [decodeString, bind, Except.bind, h]
  exact hread _ (Version.parse_toString v)

/-- The parts of a definition that the lists do not fill in. -/
def identityDraft (d : Definition) : Draft where
  id := some d.id
  processor := some d.processor
  endianness := some d.endianness
  version := some d.version
  defaultCompilerSpec := some d.defaultCompilerSpec

/-- Filling in the entries of a document one after another. -/
def fill (draft : Draft) (entries : Entries) : Except DecodeError Draft :=
  entries.foldlM (fun d (key, v) => Draft.set d key v) draft

theorem fill_append (draft : Draft) (a b : Entries) :
    fill draft (a ++ b) = (fill draft a).bind fun draft => fill draft b :=
  List.foldlM_append

theorem fill_identityEntries (d : Definition) :
    fill {} d.identityEntries = .ok d.identityDraft := by
  have hendianness : decodeWord Endianness.all Endianness.name (.string d.endianness.name) =
      .ok d.endianness := by
    cases d.endianness <;> rfl
  simp only [fill, identityEntries, List.foldlM_cons, List.foldlM_nil, Draft.set, hendianness,
    decode_version]
  rfl

/-- An empty list is what a list is before it is filled in. -/
theorem fill_unlisted {draft : Draft} {key : String}
    (h : Draft.set draft key (.array []) = .ok draft) (tables : List Entries) :
    fill draft (unlisted key tables) = .ok draft := by
  cases tables with
  | nil =>
      show (Draft.set draft key (.array [])).bind pure = _
      rw [h]
      rfl
  | cons e tables => rfl

theorem fill_listed {α : Type} {draft filled : Draft} {key : String} {entries : α → Entries}
    {xs : List α} (hnil : xs = [] → filled = draft)
    (h : Draft.set draft key (.tables (xs.map entries)) = .ok filled) :
    fill draft (listed key (xs.map entries)) = .ok filled := by
  cases xs with
  | nil =>
      rw [hnil rfl]
      rfl
  | cons x xs =>
      show (Draft.set draft key (.tables ((x :: xs).map entries))).bind pure = _
      rw [h]
      rfl

theorem fill_flatMap_unlisted {draft : Draft} {lists : List (String × List Entries)}
    (h : ∀ l ∈ lists, Draft.set draft l.1 (.array []) = .ok draft) :
    fill draft (lists.flatMap fun l => unlisted l.1 l.2) = .ok draft := by
  induction lists with
  | nil => rfl
  | cons l lists ih =>
      rw [List.forall_mem_cons] at h
      rw [List.flatMap_cons, fill_append, fill_unlisted h.1]
      exact ih h.2

theorem fill_emptyLists (d : Definition) :
    fill d.identityDraft (d.lists.flatMap fun l => unlisted l.1 l.2) = .ok d.identityDraft := by
  refine fill_flatMap_unlisted fun l hl => ?_
  simp only [lists, List.mem_cons, List.not_mem_nil, or_false] at hl
  rcases hl with rfl | rfl | rfl | rfl
  all_goals rfl

/-- All parts of a definition. -/
def fullDraft (d : Definition) : Draft :=
  { d.identityDraft with
    compilerSpecs := d.compilerSpecs
    spaces := d.spaces
    registers := d.registers
    contextFields := d.contextFields }

/-- The lists are filled in one after another. -/
theorem fill_lists (d : Definition) :
    fill d.identityDraft (d.lists.flatMap fun l => listed l.1 l.2) = .ok d.fullDraft := by
  have hlists : (d.lists.flatMap fun l => listed l.1 l.2) =
      listed "compiler-spec" (d.compilerSpecs.map CompilerSpec.entries) ++
        (listed "space" (d.spaces.map AddressSpace.entries) ++
          (listed "register" (d.registers.map RegisterDecl.entries) ++
            (listed "context-field" (d.contextFields.map ContextField.entries) ++ []))) := rfl
  have hspecs : fill d.identityDraft
      (listed "compiler-spec" (d.compilerSpecs.map CompilerSpec.entries)) =
        .ok { d.identityDraft with compilerSpecs := d.compilerSpecs } := by
    refine fill_listed (fun h => by rw [h]; rfl) ?_
    rw [Draft.set, decodeList_tables CompilerSpec.decode_entries]
    rfl
  have hspaces : fill { d.identityDraft with compilerSpecs := d.compilerSpecs }
      (listed "space" (d.spaces.map AddressSpace.entries)) =
        .ok { d.identityDraft with compilerSpecs := d.compilerSpecs, spaces := d.spaces } := by
    refine fill_listed (fun h => by rw [h]; rfl) ?_
    rw [Draft.set, decodeList_tables AddressSpace.decode_entries]
    rfl
  have hregisters : fill
      { d.identityDraft with compilerSpecs := d.compilerSpecs, spaces := d.spaces }
      (listed "register" (d.registers.map RegisterDecl.entries)) =
        .ok { d.fullDraft with contextFields := [] } := by
    refine fill_listed (fun h => by rw [fullDraft, h]; rfl) ?_
    rw [Draft.set, decodeList_tables RegisterDecl.decode_entries]
    rfl
  have hfields : fill { d.fullDraft with contextFields := [] }
      (listed "context-field" (d.contextFields.map ContextField.entries)) = .ok d.fullDraft := by
    refine fill_listed (fun h => by rw [fullDraft, h]) ?_
    rw [Draft.set, decodeList_tables ContextField.decode_entries]
    rfl
  simp only [hlists, fill_append, hspecs, hspaces, hregisters, hfields, Except.bind]
  rfl

theorem ofEntries_documentEntries (d : Definition) : ofEntries d.documentEntries = .ok d := by
  have hfill : fill {} d.documentEntries = .ok d.fullDraft := by
    rw [documentEntries, fill_append, fill_append, fill_identityEntries]
    show (fill d.identityDraft _).bind _ = _
    rw [fill_emptyLists]
    exact fill_lists d
  show (fill {} d.documentEntries).bind Draft.finish = .ok d
  rw [hfill]
  rfl

/-- A document that is written for a definition is read as that definition. -/
theorem ofToml_of_toToml? {d : Definition} {text : String} (h : d.toToml? = some text) :
    ofToml text = .ok d := by
  rw [toToml?] at h
  split at h
  · rename_i hwritable
    rw [← Option.some.inj h, ofToml, parse?_documentChars hwritable]
    simp only [ofEntries_documentEntries]
  · cases h

end Definition

end RegisterMigration
