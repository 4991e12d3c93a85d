import RegisterMigration.Language.Hierarchy
import RegisterMigration.Proofs.Definition.WellFormed

/-!
# The tables of a loaded language

All lookups of a language take the first entry that fits.  A loaded language has no two
entries that fit: names are distinct, at most one register is the context register, and a
register stands under its own id.  So each lookup is characterised by membership alone, and
the order of a table matters to nobody.

## Main results

* `mem_registers_iff` — the table holds exactly the registers found under their own ids.
* `register?_eq_some_iff`, `contextRegister?_eq_some_iff`, `space?_eq_some_iff`,
  `contextField?_eq_some_iff` — what each lookup finds.
* `field_inside` — a context field lies in the context register.
-/

namespace RegisterMigration

/-- Where at most one item fits, the first that fits is the one that fits. -/
theorem find?_eq_some_iff_of_unique {α : Type} {p : α → Bool} {xs : List α}
    (hunique : ∀ x ∈ xs, ∀ y ∈ xs, p x → p y → x = y) (a : α) :
    xs.find? p = some a ↔ a ∈ xs ∧ p a := by
  constructor
  · intro h
    exact ⟨List.mem_of_find?_eq_some h, List.find?_some h⟩
  · intro h
    rcases h with ⟨ha, hpa⟩
    cases hfind : xs.find? p with
    | none => exact absurd hpa (List.find?_eq_none.1 hfind a ha)
    | some b =>
        have hb := List.mem_of_find?_eq_some hfind
        rw [hunique b hb a ha (List.find?_some hfind) hpa]

namespace Language

variable {l : Language}

/-- A loaded language comes from a well-formed definition. -/
theorem wellFormed (l : Language) : l.definition.WellFormed :=
  (Definition.errors_eq_nil_iff l.definition).1 l.errors_eq_nil

/-- Loading the definition of a language gives the language back, so every language is a
loaded one. -/
theorem load_definition (l : Language) : load l.definition = .ok l := by
  obtain ⟨d, registers, spec, fingerprint, herr, hreg, hspec, hfp⟩ := l
  subst hreg hfp
  simp only [load, herr, dif_pos]
  split
  · rename_i s hs
    rw [hspec] at hs
    rcases Option.some.inj hs with rfl
    rfl
  · rename_i hs
    rw [hspec] at hs
    cases hs

/-! ## Registers -/

/-- The table holds exactly the registers that are found under their own ids. -/
theorem mem_registers_iff {r : Register} :
    r ∈ l.registers ↔ l.registerById? r.id = some r := by
  constructor
  · intro h
    obtain ⟨i, hi, rfl⟩ := Array.mem_iff_getElem.1 h
    have hat : l.registerById? ⟨i⟩ = some l.registers[i] := by
      simp [registerById?, hi]
    rw [id_eq_of_registerById hat]
    exact hat
  · intro h
    exact Array.mem_of_getElem? h

theorem mem_of_registerById {id : RegisterId} {r : Register} (h : l.registerById? id = some r) :
    r ∈ l.registers :=
  Array.mem_of_getElem? h

theorem registerById?_of_mem {id : RegisterId} {r : Register} (hr : r ∈ l.registers)
    (hid : id = r.id) : l.registerById? id = some r := by
  rw [hid]
  exact mem_registers_iff.1 hr

theorem decl_mem {r : Register} (h : r ∈ l.registers) :
    r.toRegisterDecl ∈ l.definition.registers := by
  obtain ⟨d, hd, heq⟩ := registerById_eq_some_iff.1 (mem_registers_iff.1 h)
  rw [heq]
  exact List.mem_of_getElem? hd

/-- A declaration stands in the table under its place. -/
theorem exists_mem_of_decl_mem {d : RegisterDecl} (h : d ∈ l.definition.registers) :
    ∃ r ∈ l.registers, r.toRegisterDecl = d := by
  obtain ⟨i, hi⟩ := List.mem_iff_getElem?.1 h
  have hat : ∃ r, l.registerById? ⟨i⟩ = some r ∧ r.toRegisterDecl = d :=
    ⟨_, registerById_eq_some_iff.2 ⟨d, hi, rfl⟩, rfl⟩
  obtain ⟨r, hr, hdecl⟩ := hat
  exact ⟨r, mem_of_registerById hr, hdecl⟩

/-- Registers with one id are one register. -/
theorem eq_of_id_eq {r s : Register} (hr : r ∈ l.registers) (hs : s ∈ l.registers)
    (hid : r.id = s.id) : r = s := by
  have hat := mem_registers_iff.1 hr
  rw [hid, mem_registers_iff.1 hs] at hat
  exact (Option.some.inj hat).symm

/-- Registers with one name are one register. -/
theorem eq_of_name_eq {r s : Register} (hr : r ∈ l.registers) (hs : s ∈ l.registers)
    (hname : r.name = s.name) : r = s := by
  obtain ⟨d, hd, hrd⟩ := registerById_eq_some_iff.1 (mem_registers_iff.1 hr)
  obtain ⟨e, he, hse⟩ := registerById_eq_some_iff.1 (mem_registers_iff.1 hs)
  have hnames : (l.definition.registers.map (·.name))[r.id.index]?
      = (l.definition.registers.map (·.name))[s.id.index]? := by
    rw [List.getElem?_map, List.getElem?_map, hd, he]
    rw [hrd, hse] at hname
    exact congrArg some hname
  have hlt : r.id.index < (l.definition.registers.map (·.name)).length := by
    rw [List.length_map]
    exact (List.getElem?_eq_some_iff.1 hd).1
  have hindex := (List.getElem?_inj hlt l.wellFormed.registers_nodup).1 hnames
  exact eq_of_id_eq hr hs (congrArg RegisterId.mk hindex)

/-- There is at most one context register. -/
theorem eq_of_context {r s : Register} (hr : r ∈ l.registers) (hs : s ∈ l.registers)
    (hrc : r.context) (hsc : s.context) : r = s := by
  have hlen := l.wellFormed.one_context
  have hmemr : r.toRegisterDecl ∈ l.definition.contexts :=
    List.mem_filter.2 ⟨decl_mem hr, hrc⟩
  have hmems : s.toRegisterDecl ∈ l.definition.contexts :=
    List.mem_filter.2 ⟨decl_mem hs, hsc⟩
  have hdecl : r.toRegisterDecl = s.toRegisterDecl := by
    match hcontexts : l.definition.contexts, hlen with
    | [], _ => simp [hcontexts] at hmemr
    | [c], _ =>
        rw [hcontexts, List.mem_singleton] at hmemr hmems
        rw [hmemr, hmems]
    | _ :: _ :: _, hlen => simp at hlen
  exact eq_of_name_eq hr hs (congrArg RegisterDecl.name hdecl)

theorem register?_eq_some_iff {name : String} {r : Register} :
    l.register? name = some r ↔ r ∈ l.registers ∧ r.name = name := by
  rw [register?, ← Array.find?_toList, find?_eq_some_iff_of_unique, Array.mem_toList_iff,
    beq_iff_eq]
  intro x hx y hy hxn hyn
  rw [beq_iff_eq] at hxn hyn
  exact eq_of_name_eq (Array.mem_toList_iff.1 hx) (Array.mem_toList_iff.1 hy)
    (hxn.trans hyn.symm)

/-- A register is found under its own name. -/
theorem register?_of_mem {r : Register} (hr : r ∈ l.registers) : l.register? r.name = some r :=
  register?_eq_some_iff.2 ⟨hr, rfl⟩

theorem contextRegister?_eq_some_iff {r : Register} :
    l.contextRegister? = some r ↔ r ∈ l.registers ∧ r.context := by
  rw [contextRegister?, ← Array.find?_toList, find?_eq_some_iff_of_unique, Array.mem_toList_iff]
  intro x hx y hy hxc hyc
  exact eq_of_context (Array.mem_toList_iff.1 hx) (Array.mem_toList_iff.1 hy) hxc hyc

theorem bitSize_pos {r : Register} (h : r ∈ l.registers) : 1 ≤ r.bitSize.toNat :=
  l.wellFormed.registers_sized _ (decl_mem h)

theorem byteLen_pos {r : Register} (h : r ∈ l.registers) : 1 ≤ r.byteLen :=
  RegisterDecl.byteLen_pos (bitSize_pos h)

/-- A register ends inside 64 bits. -/
theorem stop_le {r : Register} (h : r ∈ l.registers) : r.stop ≤ 2 ^ 64 :=
  Definition.stop_le_of_placed l.wellFormed.space_sizes
    (l.wellFormed.registers_placed _ (decl_mem h))

/-- The last byte of a register is exact. -/
theorem lastByte_eq {r : Register} (h : r ∈ l.registers) : r.lastByte + 1 = r.stop :=
  RegisterDecl.lastByte_eq (byteLen_pos h) (stop_le h)

/-! ## Spaces -/

theorem space?_eq_some_iff {name : String} {s : AddressSpace} :
    l.space? name = some s ↔ s ∈ l.definition.spaces ∧ s.name = name := by
  rw [space?, Definition.space?, find?_eq_some_iff_of_unique, beq_iff_eq]
  intro x hx y hy hxn hyn
  rw [beq_iff_eq] at hxn hyn
  exact List.inj_on_of_nodup_map l.wellFormed.spaces_nodup hx hy (hxn.trans hyn.symm)

theorem exists_space_of_mem {r : Register} (h : r ∈ l.registers) :
    ∃ s, l.space? r.space = some s := by
  obtain ⟨s, hs, hname, _⟩ := l.wellFormed.registers_placed _ (decl_mem h)
  exact ⟨s, space?_eq_some_iff.2 ⟨hs, hname⟩⟩

/-! ## Context fields -/

theorem exists_contextRegister_of_mem {f : ContextField} (h : f ∈ l.contextFields) :
    ∃ c, l.contextRegister? = some c := by
  rw [contextFields] at h
  split at h
  · rename_i hsome
    exact Option.isSome_iff_exists.1 hsome
  · simp at h

/-- The fields of a language are those that it declares. -/
theorem contextFields_eq (l : Language) : l.contextFields = l.definition.contextFields := by
  rw [contextFields]
  split
  · rfl
  · rename_i hnone
    refine (l.wellFormed.fields_owned ?_).symm
    rw [Definition.contexts, List.filter_eq_nil_iff]
    intro d hd hcontext
    obtain ⟨r, hr, rfl⟩ := exists_mem_of_decl_mem hd
    exact hnone (by rw [contextRegister?_eq_some_iff.2 ⟨hr, hcontext⟩]; rfl)

theorem contextFields_nodup (l : Language) : (l.contextFields.map (·.name)).Nodup := by
  rw [contextFields_eq]
  exact l.wellFormed.fields_nodup

/-- Fields with one name are one field. -/
theorem eq_of_field_name_eq {f g : ContextField} (hf : f ∈ l.contextFields)
    (hg : g ∈ l.contextFields) (hname : f.name = g.name) : f = g :=
  List.inj_on_of_nodup_map l.contextFields_nodup hf hg hname

theorem contextField?_eq_some_iff {name : String} {f : ContextField} :
    l.contextField? name = some f ↔ f ∈ l.contextFields ∧ f.name = name := by
  rw [contextField?, find?_eq_some_iff_of_unique, beq_iff_eq]
  intro x hx y hy hxn hyn
  rw [beq_iff_eq] at hxn hyn
  exact eq_of_field_name_eq hx hy (hxn.trans hyn.symm)

/-- A context field lies in the context register. -/
theorem field_inside {c : Register} (hc : l.contextRegister? = some c) {f : ContextField}
    (hf : f ∈ l.contextFields) :
    f.range.lo.toNat ≤ f.range.hi.toNat ∧ f.range.hi.toNat < c.bitSize.toNat := by
  obtain ⟨hmem, hcontext⟩ := contextRegister?_eq_some_iff.1 hc
  rw [contextFields_eq] at hf
  exact l.wellFormed.fields_inside _ (List.mem_filter.2 ⟨decl_mem hmem, hcontext⟩) f hf

end Language

/-! ## Languages of one space

Examples are written with languages whose registers all lie in one space. -/

/-- A definition with given registers in the space `register`. -/
def Definition.ofRegisters (endianness : Endianness) (registers : List RegisterDecl)
    (fields : List ContextField) : Definition where
  id := "example"
  processor := "example"
  endianness := endianness
  version := ⟨1, 0⟩
  defaultCompilerSpec := "default"
  compilerSpecs := [.named "default"]
  spaces := [{ name := "register", kind := .register, size := 4 }]
  registers := registers
  contextFields := fields

/-- The language of such a definition, if it has no errors. -/
def Language.ofRegisters (endianness : Endianness) (registers : List RegisterDecl)
    (fields : List ContextField)
    (h : (Definition.ofRegisters endianness registers fields).errors = []) : Language where
  definition := .ofRegisters endianness registers fields
  registers := Register.table registers
  defaultCompilerSpec := .named "default"
  fingerprint := (Definition.ofRegisters endianness registers fields).fingerprint
  errors_eq_nil := h
  registers_eq := rfl
  find_default := rfl
  fingerprint_eq := rfl

end RegisterMigration
